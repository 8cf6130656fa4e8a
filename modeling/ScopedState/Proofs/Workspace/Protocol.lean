/-
`Proofs/Workspace/Protocol.lean` -- the life of a session, call by call.

A session that has been opened is staged any number of times and then finished
or reset. Between the calls, and before the first one, anything may happen to
the vault: components change and begin or cease to fail, units are edited,
become read-only or are refused, other sessions save. A course of calls is a
list of such changes, each with the call that follows it.

Two things carry over from one call to the next (`Stands`). All parts of the
tree are in one phase, so a call on the root is refused or reaches every part
in a phase in which it is legal. And what the parts have staged is what was due
for their scopes on the vault of the last staging, or nothing, so there is
nothing left from an earlier one.

To tell which calls the parts receive, a tree is run with parts that note each
call before they answer it (`Watched`). This changes nothing else.
-/
import Mathlib.Data.List.Pairwise
import ScopedState.Proofs.Session.Reports
import ScopedState.Proofs.Workspace.Opening
set_option autoImplicit false

namespace ScopedState

variable {β δ : Type}

/-- A call that ends a session or stages it. -/
inductive Call where
  | save
  | finish
  | reset
  deriving DecidableEq, Repr

namespace Call

/-- The word for a call. -/
def word : Call → String
  | save => "save"
  | finish => "finish"
  | reset => "reset"

/-- The phase that a session is in after a call it has taken. -/
def phase : Call → Phase
  | save => .collecting
  | finish => .finished
  | reset => .reset

theorem phase_isTerminal_iff (c : Call) : c.phase.isTerminal = true ↔ c ≠ .save := by
  cases c <;> decide

end Call

namespace SessionTree

/-! ## 1. One call -/

section Calling

variable {α σ : Type} [Participant α σ]

/-- A call on a session. -/
def call (t : SessionTree α) (w : σ) : Call → Ended (SessionTree α) σ
  | .save =>
    let out := t.save w
    ⟨out.outcome, out.session, out.world⟩
  | .finish => t.finish w
  | .reset => t.reset w

/-- A session over a scope and those below it. -/
def IsGroup (t : SessionTree α) : Prop :=
  ∃ phase own members, t = .group phase own members

/-- A call leaves a group a group. -/
theorem IsGroup.call {t : SessionTree α} (h : t.IsGroup) (w : σ) (c : Call) :
    (t.call w c).session.IsGroup := by
  obtain ⟨phase, own, members, rfl⟩ := h
  cases c with
  | save =>
    rw [SessionTree.call, save]
    cases checkPhase phase "save" <;> exact ⟨_, _, _, rfl⟩
  | finish =>
    rw [SessionTree.call, finish]
    cases checkPhase phase "finish" <;> exact ⟨_, _, _, rfl⟩
  | reset =>
    rw [SessionTree.call, reset]
    cases checkPhase phase "reset" <;> exact ⟨_, _, _, rfl⟩

end Calling

/-! ## 2. Watched parts -/

/-- The call that a part has received, and where the part stood. -/
structure Reception where
  name : String
  phase : Phase
  call : Call

/-- A participant that notes every call it receives. -/
structure Watched (α : Type) where
  inner : α

section Watching

variable {α σ : Type} [Participant α σ]

/-- What a participant notes when it receives a call. -/
def noted (σ : Type) [Participant α σ] (part : α) (c : Call) : Reception :=
  ⟨Participant.scopeName σ part, Participant.phase σ part, c⟩

instance : Participant (Watched α) (σ × List Reception) where
  scopeName part := Participant.scopeName σ part.inner
  phase part := Participant.phase σ part.inner
  save part w :=
    let out := Participant.save part.inner w.1
    ⟨out.outcome, out.readOnly, ⟨out.session⟩, (out.world, w.2 ++ [noted σ part.inner .save])⟩
  finish part w :=
    let out := Participant.finish part.inner w.1
    ⟨out.outcome, ⟨out.session⟩, (out.world, w.2 ++ [noted σ part.inner .finish])⟩
  reset part w :=
    let out := Participant.reset part.inner w.1
    ⟨out.outcome, ⟨out.session⟩, (out.world, w.2 ++ [noted σ part.inner .reset])⟩
  analyze changes part w :=
    let out := Participant.analyze changes part.inner w.1
    (out.1, out.2, w.2)
  files below part w :=
    let out := Participant.files below part.inner w.1
    (out.1, out.2, w.2)
  filesToSave below part w :=
    let out := Participant.filesToSave below part.inner w.1
    (out.1, out.2, w.2)

mutual

/-- A tree with all its parts watched. -/
def watch : SessionTree α → SessionTree (Watched α)
  | .single part => .single ⟨part⟩
  | .group phase own members => .group phase own.watch (watchAll members)

/-- Some trees with all their parts watched. -/
def watchAll : List (SessionTree α) → List (SessionTree (Watched α))
  | [] => []
  | t :: ts => t.watch :: watchAll ts

end

end Watching

/-- The parts of a tree in the order in which a call reaches them. -/
def reached {α : Type} (t : SessionTree α) : Call → List α
  | .save => t.stagingOrder
  | .finish => t.parts
  | .reset => t.parts

/-- A call reaches every part once, staging in another order than the others. -/
theorem reached_perm {α : Type} (t : SessionTree α) (c : Call) : (t.reached c).Perm t.parts := by
  cases c with
  | save => exact t.stagingOrder_perm
  | finish => exact List.Perm.refl _
  | reset => exact List.Perm.refl _

theorem mem_parts_of_reached {α : Type} {t : SessionTree α} {c : Call} {part : α}
    (h : part ∈ t.reached c) : part ∈ t.parts := (t.reached_perm c).mem_iff.mp h

variable [Backing β] [DecidableEq δ] [Digest δ] {p : Phase}

mutual

/-- **Staging a watched tree** stages the tree, and every part notes one call. -/
theorem save_watch (hp : p.isTerminal = false) : ∀ {t : SessionTree (ScopeSession δ)},
    t.Uniform p → ∀ (v : Vault β δ) (log : List Reception),
      t.watch.save (v, log) = ⟨(t.save v).outcome, (t.save v).readOnly, (t.save v).session.watch,
        ((t.save v).world, log ++ t.stagingOrder.map fun s => noted (Vault β δ) s .save)⟩
  | .single s, _, v, log => rfl
  | .group phase own members, ⟨hphase, hown, hmembers⟩, v, log => by
    rw [watch, save, save, hphase, checkPhase_of_not_terminal hp, stagingOrder, List.map_append,
      ← List.append_assoc]
    simp only [save_watch hp hown, saveAll_watch hp hmembers, watch]

theorem saveAll_watch (hp : p.isTerminal = false) : ∀ {ts : List (SessionTree (ScopeSession δ))},
    UniformAll p ts → ∀ (v : Vault β δ) (log : List Reception),
      saveAll (watchAll ts) (v, log) = ⟨(saveAll ts v).outcome, (saveAll ts v).readOnly,
        watchAll (saveAll ts v).session, ((saveAll ts v).world,
          log ++ (stagingOrderAll ts).map fun s => noted (Vault β δ) s .save)⟩
  | [], _, v, log => by
    rw [watchAll, saveAll, saveAll, stagingOrderAll, List.map_nil, List.append_nil, watchAll]
  | t :: ts, ⟨ht, hts⟩, v, log => by
    rw [watchAll, saveAll, saveAll, stagingOrderAll, List.map_append, ← List.append_assoc]
    simp only [save_watch hp ht, saveAll_watch hp hts, watchAll]

end

mutual

/-- **Finishing a watched tree** finishes the tree, and every part notes one
call. -/
theorem finish_watch (hp : p.isTerminal = false) : ∀ {t : SessionTree (ScopeSession δ)},
    t.Uniform p → ∀ (v : Vault β δ) (log : List Reception),
      t.watch.finish (v, log) = ⟨(t.finish v).outcome, (t.finish v).session.watch,
        ((t.finish v).world, log ++ t.parts.map fun s => noted (Vault β δ) s .finish)⟩
  | .single s, _, v, log => rfl
  | .group phase own members, ⟨hphase, hown, hmembers⟩, v, log => by
    rw [watch, finish, finish, hphase, checkPhase_of_not_terminal hp, parts, List.map_append,
      ← List.append_assoc]
    simp only [finish_watch hp hown, finishAll_watch hp hmembers, watch]

theorem finishAll_watch (hp : p.isTerminal = false) :
    ∀ {ts : List (SessionTree (ScopeSession δ))}, UniformAll p ts →
      ∀ (v : Vault β δ) (log : List Reception),
        finishAll (watchAll ts) (v, log) = ⟨(finishAll ts v).failures,
          watchAll (finishAll ts v).sessions, ((finishAll ts v).world,
            log ++ (partsAll ts).map fun s => noted (Vault β δ) s .finish)⟩
  | [], _, v, log => by
    rw [watchAll, finishAll, finishAll, partsAll, List.map_nil, List.append_nil, watchAll]
  | t :: ts, ⟨ht, hts⟩, v, log => by
    rw [watchAll, finishAll, finishAll, partsAll, List.map_append, ← List.append_assoc]
    simp only [finish_watch hp ht, finishAll_watch hp hts, watchAll]

end

mutual

/-- **Resetting a watched tree** resets the tree, and every part notes one
call. -/
theorem reset_watch (hp : p.isTerminal = false) : ∀ {t : SessionTree (ScopeSession δ)},
    t.Uniform p → ∀ (v : Vault β δ) (log : List Reception),
      t.watch.reset (v, log) = ⟨(t.reset v).outcome, (t.reset v).session.watch,
        ((t.reset v).world, log ++ t.parts.map fun s => noted (Vault β δ) s .reset)⟩
  | .single s, _, v, log => rfl
  | .group phase own members, ⟨hphase, hown, hmembers⟩, v, log => by
    rw [watch, reset, reset, hphase, checkPhase_of_not_terminal hp, parts, List.map_append,
      ← List.append_assoc]
    simp only [reset_watch hp hown, resetAll_watch hp hmembers, watch]

theorem resetAll_watch (hp : p.isTerminal = false) :
    ∀ {ts : List (SessionTree (ScopeSession δ))}, UniformAll p ts →
      ∀ (v : Vault β δ) (log : List Reception),
        resetAll (watchAll ts) (v, log) = (watchAll (resetAll ts v).1, ((resetAll ts v).2,
          log ++ (partsAll ts).map fun s => noted (Vault β δ) s .reset))
  | [], _, v, log => by
    rw [watchAll, resetAll, resetAll, partsAll, List.map_nil, List.append_nil, watchAll]
  | t :: ts, ⟨ht, hts⟩, v, log => by
    rw [watchAll, resetAll, resetAll, partsAll, List.map_append, ← List.append_assoc]
    simp only [reset_watch hp ht, resetAll_watch hp hts, watchAll]

end

/-- **A call that a tree takes**, watched: every part notes it once. -/
theorem call_watch (hp : p.isTerminal = false) {t : SessionTree (ScopeSession δ)}
    (h : t.Uniform p) (v : Vault β δ) (log : List Reception) (c : Call) :
    t.watch.call (v, log) c = ⟨(t.call v c).outcome, (t.call v c).session.watch,
      ((t.call v c).world, log ++ (t.reached c).map fun s => noted (Vault β δ) s c)⟩ := by
  cases c with
  | save =>
    simp only [call, save_watch hp h]
    rfl
  | finish => exact finish_watch hp h v log
  | reset => exact reset_watch hp h v log

/-- **A call on a tree that has ended**, watched: no part notes it. -/
theorem call_watch_of_ended (hp : p.isTerminal = true) {t : SessionTree (ScopeSession δ)}
    (hgroup : t.IsGroup) (h : t.Uniform p) (v : Vault β δ) (log : List Reception) (c : Call) :
    t.watch.call (v, log) c = ⟨.error (.invalidPhase p c.word), t.watch, (v, log)⟩ := by
  obtain ⟨phase, own, members, rfl⟩ := hgroup
  obtain ⟨rfl, _⟩ := h
  cases c with
  | save =>
    rw [call, watch, save, checkPhase_of_terminal hp]
    rfl
  | finish =>
    rw [call, watch, finish, checkPhase_of_terminal hp]
    rfl
  | reset =>
    rw [call, watch, reset, checkPhase_of_terminal hp]
    rfl

/-! ## 3. What carries over -/

/-- What a call leaves of the session of one scope. -/
def left (v : Vault β δ) (s : ScopeSession δ) : Call → ScopeSession δ
  | .save => { s with phase := .collecting, staged := s.due v }
  | .finish => endedIn .finished s
  | .reset => endedIn .reset s

/-- **A call that a tree takes** is taken by every part, and nothing but finishing
changes the vault. -/
theorem call_spec (hp : p.isTerminal = false) {t : SessionTree (ScopeSession δ)}
    (h : t.Uniform p) (v : Vault β δ) (c : Call) :
    (t.call v c).session.Uniform c.phase ∧
      (t.call v c).session.parts = t.parts.map (fun s => left v s c) ∧
      (t.call v c).world = (if c = .finish then Turn.perform t.writes v else v) ∧
      ∀ phase operation, (t.call v c).outcome ≠ .error (.invalidPhase phase operation) := by
  cases c with
  | save =>
    obtain ⟨hworld, huniform, hparts, _⟩ := save_spec hp h v
    refine ⟨huniform, ?_, hworld, fun phase operation he => ?_⟩
    · rw [call, hparts]
      refine List.map_congr_left fun s hs => ?_
      have hopen : s.phase.isTerminal = false := by
        rw [h.phase_part s hs]
        exact hp
      exact (ScopeSession.save_of_open hopen v).1
    · obtain ⟨scope, reason, hstaging⟩ := save_failure hp h he
      cases hstaging
  | finish =>
    obtain ⟨huniform, hparts⟩ := finish_session hp h v
    refine ⟨huniform, hparts, (finish_spec t (h.ready hp) v).1, fun phase operation he => ?_⟩
    rcases finish_failure hp h v he with ⟨scope, unit, reason, he'⟩ | ⟨first, suppressed, he'⟩
    · cases he'
    · cases he'
  | reset =>
    obtain ⟨hworld, huniform, hparts⟩ := reset_spec hp h v
    refine ⟨huniform, hparts, hworld, fun phase operation he => ?_⟩
    rw [call, reset_ok hp h v] at he
    cases he

/-- **Where a session stands**: all of it is in one phase, and its parts, which
are those of some scopes, have staged what was due for these on the vault of
the last staging, if there was one. -/
structure Stands (scopes : List (ScopeSession δ)) (p : Phase) (staging : Option (Vault β δ))
    (t : SessionTree (ScopeSession δ)) : Prop where
  group : t.IsGroup
  uniform : t.Uniform p
  parts : t.parts = scopes.map fun s => { s with phase := p, staged := staging.elim [] s.due }

variable {scopes : List (ScopeSession δ)} {staging : Option (Vault β δ)}
  {t : SessionTree (ScopeSession δ)}

/-- **What is staged** are the writes that were due at the last staging. -/
theorem Stands.writes (h : Stands scopes p staging t) :
    t.writes = staging.elim [] fun v =>
      scopes.flatMap fun s => (s.due v).map fun w => (s.name, w) := by
  rw [writes_eq, h.parts, List.flatMap_map]
  cases staging with
  | none =>
    refine List.flatMap_eq_nil_iff.mpr fun s _ => ?_
    rfl
  | some v => rfl

/-- **Every call that is taken** leaves a session standing: staging replaces what
was staged before, and ending drops it. -/
theorem Stands.call (h : Stands scopes p staging t) (hp : p.isTerminal = false) (v : Vault β δ)
    (c : Call) :
    Stands scopes c.phase (if c = .save then some v else none) (t.call v c).session := by
  obtain ⟨huniform, hparts, _⟩ := call_spec hp h.uniform v c
  refine ⟨h.group.call v c, huniform, ?_⟩
  rw [hparts, h.parts, List.map_map]
  cases c <;> rfl

theorem Stands.phase_eq (h : Stands scopes p staging t) : t.phase (Vault β δ) = p := by
  obtain ⟨phase, own, members, rfl⟩ := h.group
  exact h.uniform.1

/-- **A session that has ended** refuses every call, and stays as it is. -/
theorem Stands.refused (h : Stands scopes p staging t) (hp : p.isTerminal = true) (v : Vault β δ)
    (c : Call) : t.call v c = ⟨.error (.invalidPhase p c.word), t, v⟩ := by
  obtain ⟨hsave, hfinish, hreset⟩ := calls_of_ended hp h.uniform v
  cases c with
  | save => rw [SessionTree.call, hsave]; rfl
  | finish => exact hfinish
  | reset => exact hreset

end SessionTree

/-! ## 4. Courses of calls -/

/-- A call on a session, with what it finds. -/
structure Moment (β δ : Type) where
  session : SessionTree (ScopeSession δ)
  vault : Vault β δ
  call : Call

variable [Backing β] [DecidableEq δ] [Digest δ]

namespace Moment

/-- What the call leaves. -/
def done (m : Moment β δ) : Ended (SessionTree (ScopeSession δ)) (Vault β δ) :=
  m.session.call m.vault m.call

/-- The same call on the session with its parts watched. -/
def watched (m : Moment β δ) :
    Ended (SessionTree (SessionTree.Watched (ScopeSession δ)))
      (Vault β δ × List SessionTree.Reception) :=
  m.session.watch.call (m.vault, []) m.call

/-- What the parts note when they are watched. -/
def received (m : Moment β δ) : List SessionTree.Reception := m.watched.world.2

/-- Whether the call is taken, be it that something fails on the way. -/
def accepted (m : Moment β δ) : Bool :=
  match m.done.outcome with
  | .ok () => true
  | .error e => !e.isInvalidPhase

/-- Whether the call is taken and ends the session. -/
def ends (m : Moment β δ) : Prop := m.accepted = true ∧ m.call ≠ .save

/-- **A call that keeps to the protocol.** The session is in one phase before and
after it. If it has not ended, the call is taken, and every part receives it
once, in a phase in which it is legal; if it has, the call is refused, no part
receives it, and nothing changes. Only finishing changes the vault. -/
structure Proper (m : Moment β δ) : Prop where
  before : m.session.Uniform (m.session.phase (Vault β δ))
  after : m.done.session.Uniform (m.done.session.phase (Vault β δ))
  watched : m.watched = ⟨m.done.outcome, m.done.session.watch, (m.done.world, m.received)⟩
  legal : ∀ r ∈ m.received, checkPhase r.phase r.call.word = .ok ()
  taken : (m.session.phase (Vault β δ)).isTerminal = false →
    m.accepted = true ∧ m.done.session.phase (Vault β δ) = m.call.phase ∧
      m.received = (m.session.reached m.call).map fun s => ⟨s.name, s.phase, m.call⟩
  refused : (m.session.phase (Vault β δ)).isTerminal = true →
    m.accepted = false ∧ m.received = [] ∧
      m.done = ⟨.error (.invalidPhase (m.session.phase (Vault β δ)) m.call.word), m.session,
        m.vault⟩
  unchanged : m.done.world = m.vault ∨ m.accepted = true ∧ m.call = .finish

end Moment

/-- A course of calls: before each call something happens to the vault. -/
abbrev Course (β δ : Type) := List ((Vault β δ → Vault β δ) × Call)

namespace SessionTree

/-- The calls of a course, one after the other. -/
def history (t : SessionTree (ScopeSession δ)) (v : Vault β δ) : Course β δ → List (Moment β δ)
  | [] => []
  | (change, c) :: rest =>
    let m : Moment β δ := ⟨t, change v, c⟩
    m :: history m.done.session m.done.world rest

/-- The vault after a course of calls. -/
def vaultAfter (t : SessionTree (ScopeSession δ)) (v : Vault β δ) : Course β δ → Vault β δ
  | [] => v
  | (change, c) :: rest =>
    let m : Moment β δ := ⟨t, change v, c⟩
    vaultAfter m.done.session m.done.world rest

/-- The vault that the last staging among some calls has seen. -/
def lastStaging (moments : List (Moment β δ)) : Option (Vault β δ) :=
  ((moments.filter fun m => m.call = .save).getLast?).map Moment.vault

omit [Backing β] [DecidableEq δ] [Digest δ] in
theorem lastStaging_cons_save (m : Moment β δ) (rest : List (Moment β δ)) (h : m.call = .save) :
    lastStaging (m :: rest) = (lastStaging rest).or (some m.vault) := by
  have hkept : (m :: rest).filter (fun m => m.call = .save)
      = m :: rest.filter fun m => m.call = .save := List.filter_cons_of_pos (decide_eq_true h)
  rw [lastStaging, lastStaging, hkept, List.getLast?_cons]
  cases (rest.filter fun m => m.call = .save).getLast? <;> rfl

variable {scopes : List (ScopeSession δ)} {p : Phase} {staging : Option (Vault β δ)}
  {t : SessionTree (ScopeSession δ)} {v : Vault β δ} {course : Course β δ} {m : Moment β δ}

/-- A call on a session that stands is taken unless the session has ended. -/
theorem Stands.accepted (h : Stands scopes p staging m.session) :
    m.accepted = !p.isTerminal := by
  unfold Moment.accepted
  cases hp : p.isTerminal with
  | true =>
    rw [Moment.done, h.refused hp]
    rfl
  | false =>
    obtain ⟨_, _, _, houtcome⟩ := call_spec hp h.uniform m.vault m.call
    unfold Moment.done
    split
    · rfl
    · rename_i e he
      cases e with
      | invalidPhase phase operation => exact absurd he (houtcome phase operation)
      | _ => rfl

/-- **A call on a session that stands** keeps to the protocol. -/
theorem Stands.proper (h : Stands scopes p staging m.session) : m.Proper := by
  have hphase := h.phase_eq (β := β)
  have haccepted := h.accepted
  cases hp : p.isTerminal with
  | true =>
    rw [hp] at haccepted
    have hdone : m.done = ⟨.error (.invalidPhase p m.call.word), m.session, m.vault⟩ :=
      h.refused hp m.vault m.call
    have hwatched : m.watched = ⟨.error (.invalidPhase p m.call.word), m.session.watch,
        (m.vault, [])⟩ := call_watch_of_ended hp h.group h.uniform m.vault [] m.call
    have hreceived : m.received = [] := by rw [Moment.received, hwatched]
    refine ⟨?_, ?_, ?_, ?_, ?_, ?_, ?_⟩
    · rw [hphase]
      exact h.uniform
    · rw [hdone, hphase]
      exact h.uniform
    · rw [hwatched, hdone, hreceived]
    · rw [hreceived]
      exact fun r hr => absurd hr List.not_mem_nil
    · rw [hphase, hp]
      exact fun hnot => Bool.noConfusion hnot
    · rw [hphase]
      exact fun _ => ⟨haccepted, hreceived, hdone⟩
    · rw [hdone]
      exact Or.inl rfl
  | false =>
    rw [hp] at haccepted
    obtain ⟨huniform, _, hworld, _⟩ := call_spec hp h.uniform m.vault m.call
    have hafter : m.done.session.phase (Vault β δ) = m.call.phase :=
      (h.call hp m.vault m.call).phase_eq
    have hwatched : m.watched = ⟨m.done.outcome, m.done.session.watch, (m.done.world,
        [] ++ (m.session.reached m.call).map fun s => noted (Vault β δ) s m.call)⟩ :=
      call_watch hp h.uniform m.vault [] m.call
    have hreceived : m.received
        = (m.session.reached m.call).map fun s => ⟨s.name, s.phase, m.call⟩ := by
      rw [Moment.received, hwatched]
      rfl
    refine ⟨?_, ?_, ?_, fun r hr => ?_, fun _ => ⟨haccepted, hafter, hreceived⟩, ?_, ?_⟩
    · rw [hphase]
      exact h.uniform
    · rw [hafter]
      exact huniform
    · rw [hwatched, hreceived]
      rfl
    · -- Every part is in the phase of the session, which has not ended.
      rw [hreceived] at hr
      obtain ⟨s, hs, rfl⟩ := List.mem_map.mp hr
      have hopen : s.phase.isTerminal = false := by
        rw [h.uniform.phase_part s (mem_parts_of_reached hs)]
        exact hp
      exact checkPhase_of_not_terminal hopen _
    · rw [hphase, hp]
      exact fun hnot => Bool.noConfusion hnot
    · by_cases hfinish : m.call = .finish
      · exact Or.inr ⟨haccepted, hfinish⟩
      · rw [if_neg hfinish] at hworld
        exact Or.inl hworld

/-- **In every course the session stands** at each call. -/
theorem Stands.history (h : Stands scopes p staging t) (hm : m ∈ t.history v course) :
    ∃ (p : Phase) (staging : Option (Vault β δ)), Stands scopes p staging m.session := by
  induction course generalizing t v p staging with
  | nil => cases hm
  | cons e rest ih =>
    rcases List.mem_cons.mp hm with rfl | hm
    · exact ⟨p, staging, h⟩
    · cases hp : p.isTerminal with
      | true =>
        have hdone := h.refused hp (e.1 v) e.2
        rw [Moment.done, hdone] at hm
        exact ih h hm
      | false => exact ih (h.call hp (e.1 v) e.2) hm

/-- **A session that has ended** takes no further call, whatever the course. -/
theorem Stands.over (h : Stands scopes p staging t) (hp : p.isTerminal = true)
    (hm : m ∈ t.history v course) : m.accepted = false := by
  induction course generalizing v with
  | nil => cases hm
  | cons e rest ih =>
    rcases List.mem_cons.mp hm with rfl | hm
    · rw [Stands.accepted (m := ⟨t, e.1 v, e.2⟩) h, hp]
      rfl
    · have hdone := h.refused hp (e.1 v) e.2
      rw [Moment.done, hdone] at hm
      exact ih hm

/-- **At most one call ends a session.** After it no call is taken. -/
theorem Stands.ends_once (h : Stands scopes p staging t) (v : Vault β δ) (course : Course β δ) :
    (t.history v course).Pairwise fun m m' => m.ends → m'.accepted = false := by
  induction course generalizing t v p staging with
  | nil => exact List.Pairwise.nil
  | cons e rest ih =>
    cases hp : p.isTerminal with
    | true =>
      have hdone := h.refused hp (e.1 v) e.2
      refine List.Pairwise.cons (fun m' hm' _ => ?_) ?_
      · rw [Moment.done, hdone] at hm'
        exact h.over hp hm'
      · rw [Moment.done, hdone]
        exact ih h (e.1 v)
    | false =>
      have hafter := h.call hp (e.1 v) e.2
      refine List.Pairwise.cons (fun m' hm' hends => ?_) (ih hafter _)
      exact hafter.over ((Call.phase_isTerminal_iff e.2).mpr hends.2) hm'

/-- So a session cannot end in two ways. -/
theorem Stands.ends_same (h : Stands scopes p staging t) {m' : Moment β δ}
    (hm : m ∈ t.history v course) (hm' : m' ∈ t.history v course) (hends : m.ends)
    (hends' : m'.ends) : m.call = m'.call := by
  have hsymm : Std.Symm fun m m' : Moment β δ => m.ends → m'.ends → m.call = m'.call :=
    ⟨fun _ _ hcall hends hends' => (hcall hends' hends).symm⟩
  have honce : (t.history v course).Pairwise fun m m' : Moment β δ =>
      m.ends → m'.ends → m.call = m'.call := by
    refine (h.ends_once v course).imp fun hafter hends hends' => ?_
    exact Bool.noConfusion ((hafter hends).symm.trans hends'.1)
  exact List.Pairwise.forall_of_forall (fun _ _ _ _ => rfl) honce hm hm' hends hends'

/-- **What a call that is taken finds staged** are the writes that were due at the
last staging, of the course or before it. -/
theorem Stands.staged (h : Stands scopes p staging t) {earlier later : List (Moment β δ)}
    (hmoments : t.history v course = earlier ++ m :: later) (haccepted : m.accepted = true) :
    m.session.writes = ((lastStaging earlier).or staging).elim [] fun v =>
      scopes.flatMap fun s => (s.due v).map fun w => (s.name, w) := by
  induction earlier generalizing t v p staging course with
  | nil =>
    cases course with
    | nil => cases hmoments
    | cons e rest =>
      obtain ⟨rfl, _⟩ := List.cons.inj hmoments
      exact h.writes
  | cons first earlier ih =>
    cases course with
    | nil => cases hmoments
    | cons e rest =>
      obtain ⟨rfl, hrest⟩ := List.cons.inj hmoments
      have hlater : m ∈ SessionTree.history
          (Moment.done ⟨t, e.1 v, e.2⟩).session (Moment.done ⟨t, e.1 v, e.2⟩).world rest := by
        rw [hrest]
        exact List.mem_append_right _ List.mem_cons_self
      -- An earlier call has not ended the session, so it was a staging that was taken.
      cases hp : p.isTerminal with
      | true =>
        have hdone := h.refused hp (e.1 v) e.2
        rw [Moment.done, hdone] at hlater
        rw [h.over hp hlater] at haccepted
        cases haccepted
      | false =>
        have hafter := h.call hp (e.1 v) e.2
        by_cases hsave : e.2 = .save
        · rw [if_pos hsave] at hafter
          rw [lastStaging_cons_save _ _ hsave, Option.or_assoc, Option.some_or]
          exact ih hafter hrest
        · rw [hafter.over ((Call.phase_isTerminal_iff e.2).mpr hsave) hlater] at haccepted
          cases haccepted

/-- Where no call changes the vault, only what happens between them does. -/
theorem vaultAfter_of_unchanged (h : ∀ m ∈ t.history v course, m.done.world = m.vault) :
    t.vaultAfter v course = course.foldl (fun v e => e.1 v) v := by
  induction course generalizing t v with
  | nil => rfl
  | cons e rest ih =>
    have hfirst : (Moment.done ⟨t, e.1 v, e.2⟩).world = e.1 v := h _ List.mem_cons_self
    have hrest := ih fun m hm => h m (List.mem_cons_of_mem _ hm)
    rw [hfirst] at hrest
    rw [vaultAfter, List.foldl_cons, hfirst]
    exact hrest

end SessionTree

namespace Workspace

/-! ## 5. A session over a scope -/

open SessionTree (Stands lastStaging call_spec call_watch call_watch_of_ended)

/-- **A session that is opened stands**, with nothing staged. -/
theorem stands_startSave (w : Workspace β δ) (root : ScopeId) :
    Stands ((w.tree root).postorder.map w.openScope) .open (none : Option (Vault β δ))
      (w.startSave root) := by
  obtain ⟨huniform, hparts⟩ := openTree_spec w (w.tree root)
  refine ⟨?_, huniform, ?_⟩
  · rw [startSave]
    cases w.tree root with
    | node id children =>
      rw [openTree]
      exact ⟨_, _, _, rfl⟩
  · rw [startSave, hparts, List.map_map]
    refine List.map_congr_left fun id _ => ?_
    have hphase := w.openScope_phase id
    have hstaged := w.openScope_staged id
    rw [Function.comp_apply, Option.elim_none, ← hphase, ← hstaged]

/-- The writes that the last staging among some calls has left for the scopes of a
tree: those that were due then, and none without a staging. -/
def stagedLast (w : Workspace β δ) (root : ScopeId) (earlier : List (Moment β δ)) :
    List (String × StagedWrite δ) :=
  (lastStaging earlier).elim [] fun v => (w.tree root).postorder.flatMap fun id =>
    ((w.openScope id).due v).map fun write => ((w.openScope id).name, write)

/-- A scope that cannot be staged has nothing due. -/
theorem due_of_staging_failed {w : Workspace β δ} {v : Vault β δ} {id : ScopeId} {e : Failure}
    (h : ((w.openScope id).save v).outcome = .error e) : (w.openScope id).due v = [] := by
  have hopen := w.openScope_isOpen id
  obtain ⟨_, _, houtcome, _⟩ := ScopeSession.save_of_open hopen v
  refine if_neg fun htells => ?_
  rw [houtcome.mpr htells] at h
  cases h

/-- **The session protocol.** A session is opened over any tree of scopes, and any
course of calls is made on it.

Every call keeps to the protocol. After a call that has ended the session no
call is taken. A session that is finished carries out the writes that were due
for each scope when it was last staged, and nothing else; none of a scope that
could not be staged then, and none at all if it has not been staged. If it is
reset, nothing has come of it: the vault is what the events between the calls
have made of it. -/
theorem session_protocol [LawfulBacking β] (w : Workspace β δ) (root : ScopeId)
    (course : Course β δ) :
    let moments := (w.startSave root).history w.vault course
    (∀ m ∈ moments, m.Proper) ∧
      (moments.Pairwise fun m m' => m.ends → m'.accepted = false) ∧
      (∀ earlier m later, moments = earlier ++ m :: later → m.accepted = true →
        m.call = .finish →
          let staged := w.stagedLast root earlier
          m.done.world = Turn.perform staged m.vault ∧
            (∀ l, (∀ x ∈ staged, x.2.unit.location ≠ l) →
              m.done.world.contents l = m.vault.contents l) ∧
            (∀ k, (∀ x ∈ staged, x.2.storage ≠ k) →
              m.done.world.storage? k = m.vault.storage? k) ∧
            m.done.world.components = m.vault.components) ∧
      (∀ (v : Vault β δ) id e, ((w.openScope id).save v).outcome = .error e →
        (w.openScope id).due v = []) ∧
      ((∃ m ∈ moments, m.accepted = true ∧ m.call = .reset) →
        (w.startSave root).vaultAfter w.vault course
          = course.foldl (fun v e => e.1 v) w.vault) := by
  intro moments
  have hstart := w.stands_startSave root
  have hproper : ∀ m ∈ moments, m.Proper := by
    intro m hm
    obtain ⟨p, staging, hstands⟩ := hstart.history hm
    exact hstands.proper
  have honce := hstart.ends_once w.vault course
  refine ⟨hproper, honce, fun earlier m later hmoments haccepted hfinish => ?_,
    fun v id e => due_of_staging_failed, ?_⟩
  · intro staged
    have hm : m ∈ moments := by
      rw [hmoments]
      exact List.mem_append_right _ List.mem_cons_self
    obtain ⟨p, staging, hstands⟩ := hstart.history hm
    have hp : p.isTerminal = false := by
      have hopen := hstands.accepted
      rw [haccepted] at hopen
      cases hterminal : p.isTerminal with
      | true =>
        rw [hterminal] at hopen
        cases hopen
      | false => rfl
    have hwrites : m.session.writes = staged := by
      rw [hstart.staged hmoments haccepted, Option.or_none]
      show _ = w.stagedLast root earlier
      unfold stagedLast
      cases lastStaging earlier with
      | none => rfl
      | some v => rw [Option.elim_some, Option.elim_some, List.flatMap_map]
    have hworld : m.done.world = Turn.perform staged m.vault := by
      obtain ⟨_, _, hworld, _⟩ := call_spec hp hstands.uniform m.vault m.call
      rw [if_pos hfinish, hwrites] at hworld
      exact hworld
    rw [hworld]
    exact ⟨rfl, fun l hl => Turn.contents_perform_other hl,
      fun k hk => Turn.storage?_perform_other hk, Turn.components_perform _ _⟩
  · rintro ⟨r, hr, haccepted, hreset⟩
    refine SessionTree.vaultAfter_of_unchanged fun m hm => ?_
    rcases (hproper m hm).unchanged with hunchanged | ⟨haccepted', hfinish⟩
    · exact hunchanged
    · -- The session would have been finished as well as reset.
      have hcall := hstart.ends_same hm hr ⟨haccepted', by rw [hfinish]; decide⟩
        ⟨haccepted, by rw [hreset]; decide⟩
      rw [hfinish, hreset] at hcall
      cases hcall

end Workspace

end ScopedState
