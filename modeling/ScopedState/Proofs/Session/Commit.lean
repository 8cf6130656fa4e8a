/-
`Proofs/Session/Commit.lean` -- what finishing a session tree comes to.

Finishing goes through a tree of sessions, and in every session through the
staged writes. What it amounts to has nothing to do with the tree any more:
the staged writes of all sessions are carried out one after the other, those of
the children before those of the scope. `writes` is that list.

Each write has its turn. In its turn a write is brought up to date with what
the turns before it have left behind; then nothing is left to write, or the
store takes the write, or it refuses it. So what is at a location at the end is
what the last accepted turn has put there, and the failure that is reported, no
matter how often it was wrapped on the way up, is that of the first refused
turn.
-/
import ScopedState.Proofs.Vault
import ScopedState.Session.Scope
import ScopedState.Session.Tree
set_option autoImplicit false

namespace ScopedState

/-- The first failure that an outcome tells of, whatever is wrapped around
it. -/
def reported : Outcome → Option Failure
  | .ok () => none
  | .error e => some e.first

theorem reported_eq_none_iff (o : Outcome) : reported o = none ↔ o = .ok () := by
  cases o with
  | ok u => exact ⟨fun _ => rfl, fun _ => rfl⟩
  | error e =>
    constructor
    · intro h
      cases h
    · intro h
      cases h

/-! ## 1. Turns -/

/-- The turn of one staged write: the scope it belongs to, and what the turns
before it have left behind. -/
structure Turn (β δ : Type) where
  scope : String
  staged : StagedWrite δ
  before : Vault β δ

namespace Turn

variable {β δ : Type} [Backing β] [DecidableEq δ] [Digest δ]

/-- The write that is due; none when nothing is left to write. -/
def due (t : Turn β δ) : Option (StagedWrite δ) := t.before.rebase t.staged

/-- What is left behind. -/
def after (t : Turn β δ) : Vault β δ := (t.before.carryOut t.staged).2

/-- What the store says to the write that is due. -/
def answer (t : Turn β δ) : Outcome :=
  match t.due with
  | none => .ok ()
  | some w => (Backing.write t.before.backing w.unit w.draft.bytes).1

/-- The write that the store has taken, if there was one. -/
def accepted (t : Turn β δ) : Option (StagedWrite δ) :=
  match t.answer with
  | .ok () => t.due
  | .error _ => none

/-- The failure of a turn, as its scope tells it. -/
def failure (t : Turn β δ) : Option Failure :=
  match t.answer with
  | .ok () => none
  | .error e => some (.commit t.scope t.staged.unit e)

/-- The turns of staged writes, one after the other. -/
def all : List (String × StagedWrite δ) → Vault β δ → List (Turn β δ)
  | [], _ => []
  | (scope, staged) :: rest, v => ⟨scope, staged, v⟩ :: all rest (v.carryOut staged).2

/-- What is left behind when all writes have had their turn. -/
def perform (ws : List (String × StagedWrite δ)) (v : Vault β δ) : Vault β δ :=
  ws.foldl (fun v w => (v.carryOut w.2).2) v

theorem all_append (ws us : List (String × StagedWrite δ)) (v : Vault β δ) :
    all (ws ++ us) v = all ws v ++ all us (perform ws v) := by
  induction ws generalizing v with
  | nil => rfl
  | cons w ws ih =>
    obtain ⟨scope, staged⟩ := w
    rw [List.cons_append, all, ih, all]
    rfl

theorem perform_append (ws us : List (String × StagedWrite δ)) (v : Vault β δ) :
    perform (ws ++ us) v = perform us (perform ws v) := List.foldl_append

theorem carryOut_outcome (t : Turn β δ) : (t.before.carryOut t.staged).1 = t.answer := by
  unfold answer due
  rcases t.before.carryOut_cases t.staged with
    ⟨hnone, h⟩ | ⟨w, backing, hsome, hwrite, h⟩ | ⟨w, backing, e, hsome, hwrite, h⟩
  · rw [h, hnone]
  · rw [h, hsome]
    exact (congrArg Prod.fst hwrite).symm
  · rw [h, hsome]
    exact (congrArg Prod.fst hwrite).symm

/-- The first failure of some turns. -/
def firstFailure (turns : List (Turn β δ)) : Option Failure := turns.findSome? failure

theorem firstFailure_append (ts us : List (Turn β δ)) :
    firstFailure (ts ++ us) = (firstFailure ts).or (firstFailure us) := List.findSome?_append

theorem failure_eq_none_iff (t : Turn β δ) : t.failure = none ↔ t.answer = .ok () := by
  unfold failure
  cases t.answer with
  | ok u => exact ⟨fun _ => rfl, fun _ => rfl⟩
  | error e =>
    constructor
    · intro h
      cases h
    · intro h
      cases h

/-- No failure is reported when no turn was refused. -/
theorem firstFailure_eq_none_iff (turns : List (Turn β δ)) :
    firstFailure turns = none ↔ ∀ t ∈ turns, t.answer = .ok () := by
  rw [firstFailure, List.findSome?_eq_none_iff]
  exact forall₂_congr fun t _ => t.failure_eq_none_iff

theorem components_perform (ws : List (String × StagedWrite δ)) (v : Vault β δ) :
    (perform ws v).components = v.components := by
  induction ws generalizing v with
  | nil => rfl
  | cons w ws ih => exact (ih _).trans (v.carryOut_components w.2)

end Turn

/-! ## 3. Finishing a tree -/

namespace SessionTree

variable {β δ : Type}

mutual

/-- Whether no session of a tree has ended. -/
def Ready : SessionTree (ScopeSession δ) → Prop
  | .single s => s.phase.isTerminal = false
  | .group phase own members => phase.isTerminal = false ∧ own.Ready ∧ ReadyAll members

/-- Whether no session of some trees has ended. -/
def ReadyAll : List (SessionTree (ScopeSession δ)) → Prop
  | [] => True
  | t :: ts => t.Ready ∧ ReadyAll ts

end

mutual

/-- **The staged writes of a tree**, with the scopes they belong to: those of
the children before those of the scope itself. -/
def writes : SessionTree (ScopeSession δ) → List (String × StagedWrite δ)
  | .single s => s.staged.map fun w => (s.name, w)
  | .group _ own members => writesAll members ++ own.writes

/-- The staged writes of some trees. -/
def writesAll : List (SessionTree (ScopeSession δ)) → List (String × StagedWrite δ)
  | [] => []
  | t :: ts => t.writes ++ writesAll ts

end

variable [Backing β] [DecidableEq δ] [Digest δ]

open Turn (perform)

theorem reported_firstFailure (o p : Outcome) :
    reported (firstFailure o p) = (reported o).or (reported p) := by
  cases o <;> rfl

/-- **The failure of a group** is that of its first failed child, or else its
own. -/
theorem reported_groupOutcome (failures : List Failure) (own : Outcome) :
    reported (groupOutcome failures own)
      = (failures.head?.map Failure.first).or (reported own) := by
  cases failures with
  | nil => rfl
  | cons e rest => cases own <;> rfl

theorem checkPhase_of_not_terminal {phase : Phase} (h : phase.isTerminal = false)
    (operation : String) : checkPhase phase operation = .ok () := by
  rw [checkPhase, h]
  rfl

/-- Finishing one scope. -/
theorem carryOutAll_spec (name : String) (ws : List (StagedWrite δ)) (v : Vault β δ) :
    (ScopeSession.carryOutAll name ws v).2 = perform (ws.map fun w => (name, w)) v ∧
      reported (ScopeSession.carryOutAll name ws v).1
        = Turn.firstFailure (Turn.all (ws.map fun w => (name, w)) v) := by
  induction ws generalizing v with
  | nil => exact ⟨rfl, rfl⟩
  | cons w ws ih =>
    obtain ⟨hworld, houtcome⟩ := ih (v.carryOut w).2
    refine ⟨hworld, ?_⟩
    have hturn : (v.carryOut w).1 = Turn.answer ⟨name, w, v⟩ := Turn.carryOut_outcome ⟨name, w, v⟩
    rw [ScopeSession.carryOutAll, List.map_cons, Turn.all, Turn.firstFailure, List.findSome?_cons,
      reported_firstFailure, houtcome, hturn, Turn.failure]
    cases Turn.answer ⟨name, w, v⟩ <;> rfl

mutual

/-- **Finishing a tree** carries out its staged writes one after the other, and
reports the first failure among their turns. -/
theorem finish_spec : ∀ (t : SessionTree (ScopeSession δ)), t.Ready → ∀ v : Vault β δ,
    (t.finish v).world = perform t.writes v ∧
      reported (t.finish v).outcome = Turn.firstFailure (Turn.all t.writes v)
  | .single s, h, v => by
    have hfinish : Participant.finish s v = s.finish v := rfl
    rw [finish, writes, hfinish, ScopeSession.finish, checkPhase_of_not_terminal h]
    exact carryOutAll_spec s.name s.staged v
  | .group phase own members, h, v => by
    obtain ⟨hphase, hown, hmembers⟩ := h
    -- The children come first, and the scope's own writes find what they left.
    obtain ⟨hworld, hfailures⟩ := finishAll_spec members hmembers v
    obtain ⟨hworld', houtcome⟩ := finish_spec own hown (perform (writesAll members) v)
    rw [finish, checkPhase_of_not_terminal hphase, writes, Turn.perform_append, Turn.all_append,
      Turn.firstFailure_append]
    simp only [hworld]
    refine ⟨hworld', ?_⟩
    rw [reported_groupOutcome, hfailures, houtcome]

/-- Finishing some trees gathers the first failure of each. -/
theorem finishAll_spec : ∀ (ts : List (SessionTree (ScopeSession δ))), ReadyAll ts →
    ∀ v : Vault β δ, (finishAll ts v).world = perform (writesAll ts) v ∧
      (finishAll ts v).failures.head?.map Failure.first
        = Turn.firstFailure (Turn.all (writesAll ts) v)
  | [], _, _ => ⟨rfl, rfl⟩
  | t :: ts, h, v => by
    obtain ⟨ht, hts⟩ := h
    obtain ⟨hworld, houtcome⟩ := finish_spec t ht v
    obtain ⟨hworld', hfailures⟩ := finishAll_spec ts hts (perform t.writes v)
    rw [finishAll, writesAll, Turn.perform_append, Turn.all_append, Turn.firstFailure_append]
    simp only [hworld]
    refine ⟨hworld', ?_⟩
    rw [← houtcome, ← hfailures]
    cases (t.finish v).outcome <;> rfl

end

end SessionTree

end ScopedState
