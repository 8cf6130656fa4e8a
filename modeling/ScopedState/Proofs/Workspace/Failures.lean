/-
`Proofs/Workspace/Failures.lean` -- how many scopes fail, and how many a failure
tells of.

When a tree is finished, every scope has turns of its own, and it fails when one of
them is refused. What is reported is the first failure and a number of others. The
number is made at every group anew: from the members that have failed and from the
scope of the group itself. A member that is a group gives one failure, however many
scopes have failed in it, and what it has counted itself is not looked at unless it
is the first one.

So the number is right about participants. As a number of scopes it can only fall
short, by all but one of the failed scopes of every member: it is exact when no
member has more than one of them, as in a tree of two levels, and the failed scopes
that are missing are told of nowhere else.
-/
import Mathlib.Algebra.GroupWithZero.Nat
import ScopedState.Proofs.Session.Reports
import ScopedState.Proofs.Workspace.Commit
set_option autoImplicit false

namespace ScopedState

variable {β δ : Type} [Backing β] [DecidableEq δ] [Digest δ]

namespace SessionTree

open Turn (perform)

/-! ## 1. The turns of each scope -/

/-- The staged writes of some scopes, with the scopes they belong to. -/
def staged (ss : List (ScopeSession δ)) : List (String × StagedWrite δ) :=
  ss.flatMap fun s => s.staged.map fun w => (s.name, w)

/-- **The turns of some scopes, scope by scope.** What a scope finds is what the scopes
before it have left behind. -/
def turnsByScope : List (ScopeSession δ) → Vault β δ → List (List (Turn β δ))
  | [], _ => []
  | s :: ss, v => Turn.all (staged [s]) v :: turnsByScope ss (perform (staged [s]) v)

/-- How many of some scopes fail: those with a write of their own that is refused. -/
def failing (ss : List (ScopeSession δ)) (v : Vault β δ) : Nat :=
  (turnsByScope ss v).countP fun turns => turns.any fun t => t.failure.isSome

omit [Backing β] [DecidableEq δ] [Digest δ] in
theorem staged_cons (s : ScopeSession δ) (ss : List (ScopeSession δ)) :
    staged (s :: ss) = staged [s] ++ staged ss := by
  simp [staged]

theorem turnsByScope_append (ss us : List (ScopeSession δ)) (v : Vault β δ) :
    turnsByScope (ss ++ us) v = turnsByScope ss v ++ turnsByScope us (perform (staged ss) v) := by
  induction ss generalizing v with
  | nil => rfl
  | cons s ss ih =>
    rw [List.cons_append, turnsByScope, ih, turnsByScope, staged_cons s ss, Turn.perform_append]
    rfl

/-- **The turns of all scopes** are those of finishing: each turn is one scope's. -/
theorem flatten_turnsByScope (ss : List (ScopeSession δ)) (v : Vault β δ) :
    (turnsByScope ss v).flatten = Turn.all (staged ss) v := by
  induction ss generalizing v with
  | nil => rfl
  | cons s ss ih =>
    rw [turnsByScope, List.flatten_cons, ih, staged_cons s ss, Turn.all_append]

theorem length_turnsByScope (ss : List (ScopeSession δ)) (v : Vault β δ) :
    (turnsByScope ss v).length = ss.length := by
  induction ss generalizing v with
  | nil => rfl
  | cons s ss ih => rw [turnsByScope, List.length_cons, ih, List.length_cons]

theorem failing_append (ss us : List (ScopeSession δ)) (v : Vault β δ) :
    failing (ss ++ us) v = failing ss v + failing us (perform (staged ss) v) := by
  rw [failing, turnsByScope_append, List.countP_append]
  rfl

theorem failing_le (ss : List (ScopeSession δ)) (v : Vault β δ) : failing ss v ≤ ss.length := by
  rw [← length_turnsByScope ss v]
  exact List.countP_le_length

/-- No scope fails when no write is refused. -/
theorem failing_eq_zero_iff (ss : List (ScopeSession δ)) (v : Vault β δ) :
    failing ss v = 0 ↔ ∀ t ∈ Turn.all (staged ss) v, t.answer = .ok () := by
  rw [failing, List.countP_eq_zero, ← flatten_turnsByScope]
  simp only [List.any_eq_true, not_exists, not_and, Bool.not_eq_true, Option.isSome_eq_false_iff,
    Option.isNone_iff_eq_none, Turn.failure_eq_none_iff, List.mem_flatten, forall_exists_index,
    and_imp]
  exact ⟨fun h t turns hturns ht => h turns hturns t ht,
    fun h turns hturns t ht => h t turns hturns ht⟩

/-- **Finishing fails when a scope fails.** -/
theorem finish_eq_ok_iff_failing {t : SessionTree (ScopeSession δ)} (ht : t.Ready)
    (v : Vault β δ) : (t.finish v).outcome = .ok () ↔ failing t.parts v = 0 := by
  rw [Workspace.finish_eq_ok_iff ht, failing_eq_zero_iff, writes_eq]
  rfl

/-! ## 2. The failures of participants -/

/-- The participants of a session that its outcome is put together from: the members,
then the scope itself. -/
def participants : SessionTree (ScopeSession δ) → List (SessionTree (ScopeSession δ))
  | .single s => [.single s]
  | .group _ own members => members ++ [own]

omit [Backing β] [DecidableEq δ] [Digest δ] in
theorem partsAll_append (ts us : List (SessionTree (ScopeSession δ))) :
    partsAll (ts ++ us) = partsAll ts ++ partsAll us := by
  induction ts with
  | nil => rfl
  | cons t ts ih => rw [List.cons_append, partsAll, ih, partsAll, List.append_assoc]

omit [Backing β] [DecidableEq δ] [Digest δ] in
/-- The scopes of a session are those of its participants. -/
theorem partsAll_participants (t : SessionTree (ScopeSession δ)) :
    partsAll t.participants = t.parts := by
  cases t with
  | single s => simp [participants, partsAll]
  | group phase own members => simp [participants, partsAll_append, partsAll, parts]

/-- **How many scopes fail in each of some sessions**, which are finished one after the
other. -/
def tally : List (SessionTree (ScopeSession δ)) → Vault β δ → List Nat
  | [], _ => []
  | t :: ts, v => failing t.parts v :: tally ts (perform t.writes v)

theorem sum_tally (ts : List (SessionTree (ScopeSession δ))) (v : Vault β δ) :
    (tally ts v).sum = failing (partsAll ts) v := by
  induction ts generalizing v with
  | nil => rfl
  | cons t ts ih =>
    rw [tally, List.sum_cons, ih, partsAll, failing_append, writes_eq]
    rfl

theorem tally_append (ts us : List (SessionTree (ScopeSession δ))) (v : Vault β δ) :
    tally (ts ++ us) v = tally ts v ++ tally us (perform (writesAll ts) v) := by
  induction ts generalizing v with
  | nil => rfl
  | cons t ts ih =>
    rw [List.cons_append, tally, ih, tally, writesAll, Turn.perform_append, List.cons_append]

/-- In a session no more scopes fail than there are. -/
theorem le_length_of_mem_tally {ts : List (SessionTree (ScopeSession δ))} {v : Vault β δ} {c : Nat}
    (h : c ∈ tally ts v) : ∃ t ∈ ts, c ≤ t.parts.length := by
  induction ts generalizing v with
  | nil => cases h
  | cons t ts ih =>
    rcases List.mem_cons.mp h with rfl | h
    · exact ⟨t, List.mem_cons_self, failing_le t.parts v⟩
    · obtain ⟨u, hu, hle⟩ := ih h
      exact ⟨u, List.mem_cons_of_mem t hu, hle⟩

/-- **One failure for every session with a scope that fails.** -/
theorem length_failures {ts : List (SessionTree (ScopeSession δ))} (h : ReadyAll ts)
    (v : Vault β δ) : (finishAll ts v).failures.length = (tally ts v).countP (0 < ·) := by
  induction ts generalizing v with
  | nil => rfl
  | cons t ts ih =>
    obtain ⟨ht, hts⟩ := h
    have hworld := (finish_spec t ht v).1
    have hok := finish_eq_ok_iff_failing ht v
    rw [finishAll, tally, List.countP_cons, ← ih hts, ← hworld]
    cases houtcome : (t.finish v).outcome with
    | ok u =>
      have hnone : failing t.parts v = 0 := hok.mp houtcome
      simp [hnone]
    | error e =>
      have hsome : failing t.parts v ≠ 0 := by
        intro hnone
        rw [hok.mpr hnone] at houtcome
        cases houtcome
      simp [Nat.pos_of_ne_zero hsome]

/-- A scope on its own fails with the failure of a write. -/
theorem finish_single_failure {s : ScopeSession δ} (h : (SessionTree.single s).Ready)
    {v : Vault β δ} {e : Failure} (he : ((SessionTree.single s).finish v).outcome = .error e) :
    ∃ unit reason, e = .commit s.name unit reason := by
  have hfinish : Participant.finish s v = s.finish v := rfl
  rw [finish, hfinish, ScopeSession.finish, checkPhase_of_not_terminal h] at he
  exact ScopeSession.carryOutAll_failure he

/-- **What an aggregate counts**, at the group where it is made: the failure it carries
and the others are one for every participant with a scope that fails. -/
theorem count_of_childSave {phase : Phase} {own : ScopeSession δ}
    {members : List (SessionTree (ScopeSession δ))} {v : Vault β δ} {first : Failure} {n : Nat}
    (h : (SessionTree.group phase (.single own) members).Ready)
    (he : ((SessionTree.group phase (.single own) members).finish v).outcome
      = .error (.childSave first n)) :
    n + 1 = (tally (members ++ [.single own]) v).countP (0 < ·) := by
  obtain ⟨hphase, hown, hmembers⟩ := h
  have hworld := (finishAll_spec members hmembers v).1
  have hok := finish_eq_ok_iff_failing hown (perform (writesAll members) v)
  rw [finish, checkPhase_of_not_terminal hphase] at he
  simp only [hworld] at he
  rw [tally_append, List.countP_append, ← length_failures hmembers v, tally, tally,
    List.countP_singleton]
  cases hfailures : (finishAll members v).failures with
  | nil =>
    -- Without a failed member there is no aggregate, only the scope's own failure.
    rw [hfailures, groupOutcome] at he
    obtain ⟨unit, reason, hcommit⟩ := finish_single_failure hown he
    cases hcommit
  | cons e rest =>
    rw [hfailures] at he
    cases houtcome : (SessionTree.finish (.single own) (perform (writesAll members) v)).outcome with
    | ok u =>
      rw [houtcome, groupOutcome] at he
      obtain ⟨_, rfl⟩ := Failure.childSave.inj (Except.error.inj he)
      simp [hok.mp houtcome]
    | error e' =>
      rw [houtcome, groupOutcome] at he
      obtain ⟨_, rfl⟩ := Failure.childSave.inj (Except.error.inj he)
      have hsome : failing (parts (.single own)) (perform (writesAll members) v) ≠ 0 := by
        intro hnone
        rw [hok.mpr hnone] at houtcome
        cases houtcome
      simp [Nat.pos_of_ne_zero hsome]

/-- Sessions with a scope that fails are no more than scopes that fail, and as many when
none of the sessions has two of them. -/
theorem countP_le_sum (counts : List Nat) :
    counts.countP (0 < ·) ≤ counts.sum ∧
      (counts.countP (0 < ·) = counts.sum ↔ ∀ c ∈ counts, c ≤ 1) := by
  induction counts with
  | nil => simp
  | cons c counts ih =>
    obtain ⟨hle, heq⟩ := ih
    rw [List.countP_cons, List.sum_cons, List.forall_mem_cons, ← heq]
    by_cases hc : 0 < c
    · rw [if_pos (decide_eq_true hc)]
      omega
    · rw [if_neg (by simpa using hc)]
      omega

end SessionTree

namespace Workspace

open SessionTree (failing tally participants parts partsAll)

/-! ## 3. Finishing a session on a tree of scopes -/

/-- A session on a scope is a group, of the scope's own session and others. -/
theorem exists_group_stagedOn (w : Workspace β δ) (id : ScopeId) (v : Vault β δ) :
    ∃ own members, w.stagedOn id v = .group .collecting (.single own) members := by
  unfold stagedOn startSave
  cases w.tree id with
  | node k children => exact ⟨_, _, rfl⟩

/-- **An aggregate counts participants.** A session is opened on some workspace and
staged on some vault, and whatever is finished on any other one, with any writes
refused: when it fails with an aggregate, the failure it carries and those it counts are
one for every direct participant, member or own scope, in which some scope fails. That
is never more than the number of scopes that fail, and as many exactly when no member
has two of them; so it is as many whenever no member has members. -/
theorem finish_counts_participants (w : Workspace β δ) (id : ScopeId) (v v' : Vault β δ)
    {first : Failure} {suppressed : Nat}
    (h : ((w.stagedOn id v).finish v').outcome = .error (.childSave first suppressed)) :
    let session := w.stagedOn id v
    let counts := tally session.participants v'
    suppressed + 1 = counts.countP (0 < ·) ∧
      counts.sum = failing session.parts v' ∧
      suppressed + 1 ≤ failing session.parts v' ∧
      (suppressed + 1 = failing session.parts v' ↔ ∀ c ∈ counts, c ≤ 1) ∧
      ((∀ m ∈ session.members, m.parts.length = 1) →
        suppressed + 1 = failing session.parts v') := by
  intro session counts
  have hready : session.Ready := (w.stagedOn_spec id v).1.ready rfl
  obtain ⟨own, members, hsession⟩ := w.exists_group_stagedOn id v
  have hcount : suppressed + 1 = counts.countP (0 < ·) := by
    rw [hsession] at h
    have hgroup : (SessionTree.group .collecting (.single own) members).Ready := hsession ▸ hready
    simp only [counts, session, hsession]
    exact SessionTree.count_of_childSave hgroup h
  have hsum : counts.sum = failing session.parts v' := by
    rw [SessionTree.sum_tally, SessionTree.partsAll_participants]
  obtain ⟨hle, heq⟩ := SessionTree.countP_le_sum counts
  rw [← hcount, hsum] at hle heq
  refine ⟨hcount, hsum, hle, heq, fun hmembers => heq.mpr fun c hc => ?_⟩
  -- No participant has more than one scope.
  obtain ⟨t, ht, hct⟩ := SessionTree.le_length_of_mem_tally hc
  have hone : t.parts.length = 1 := by
    simp only [session, hsession] at ht hmembers
    rcases List.mem_append.mp ht with ht | ht
    · exact hmembers t ht
    · rw [List.mem_singleton.mp ht]
      rfl
  omega

/-! ## 4. A member that is a group -/

/-- A scope with two below it, and one more below the second of these. The three have a
new value each, and their units are refused. -/
def refusedBelow : Workspace Faulty Bytes :=
  (start {}).run
    [.addScope "root" none 0, .addScope "a" none 0, .addScope "m" none 0, .addScope "g" none 0,
      .attach 0, .list 0 1, .list 0 2, .attach 2, .list 1 3,
      .addComponent { name := "a" }, .addComponent { name := "m" }, .addComponent { name := "g" },
      .register 1 0 "a" "/a.json", .register 2 1 "m" "/m.json", .register 3 2 "g" "/g.json",
      .edit 0 fun c => c.set (.integer 1), .edit 1 fun c => c.set (.integer 2),
      .edit 2 fun c => c.set (.integer 3),
      .disturb fun f => ((f.refuseWrites ⟨"/a.json"⟩ true).refuseWrites ⟨"/m.json"⟩
        true).refuseWrites ⟨"/g.json"⟩ true]

/-- The failure of the first scope below. -/
def refusedFirst : Failure :=
  .commit "a" ⟨"/a.json"⟩ (.backing ⟨"/a.json"⟩ "write refused")

/-- Three scopes fail, in two participants, and one failure is counted besides the first. -/
theorem finish_refusedBelow :
    ((refusedBelow.stagedOn 0 refusedBelow.vault).finish refusedBelow.vault).outcome
        = .error (.childSave refusedFirst 1) ∧
      1 + 1 = (tally (refusedBelow.stagedOn 0 refusedBelow.vault).participants
        refusedBelow.vault).countP (0 < ·) ∧
      ¬ ∀ c ∈ tally (refusedBelow.stagedOn 0 refusedBelow.vault).participants refusedBelow.vault,
        c ≤ 1 := by
  have houtcome : ((refusedBelow.stagedOn 0 refusedBelow.vault).finish
      refusedBelow.vault).outcome = .error (.childSave refusedFirst 1) := by decide +kernel
  obtain ⟨hcount, _, _, heq, _⟩ := finish_counts_participants refusedBelow 0 refusedBelow.vault
    refusedBelow.vault houtcome
  refine ⟨houtcome, hcount, fun hone => ?_⟩
  have hfailing : failing (refusedBelow.stagedOn 0 refusedBelow.vault).parts
      refusedBelow.vault ≠ 1 + 1 := by decide +kernel
  exact hfailing (heq.mpr hone).symm

/-- **Not every scope that fails is counted.** -/
theorem aggregate_misses_scope :
    refusedBelow.Reachable Action.Any ∧
    ((refusedBelow.stagedOn 0 refusedBelow.vault).finish refusedBelow.vault).outcome
        = .error (.childSave refusedFirst 1) ∧
      failing (refusedBelow.stagedOn 0 refusedBelow.vault).parts refusedBelow.vault = 3 := by
  refine ⟨⟨{}, steps_run (fun _ _ => trivial) ?_⟩, ?_, ?_⟩
  · decide +kernel
  · decide +kernel
  · decide +kernel

end Workspace

end ScopedState
