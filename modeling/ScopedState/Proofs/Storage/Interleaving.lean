/-
`Proofs/Storage/Interleaving.lean` -- several parties at one storage.

Each party writes names of its own. It stages a write when it likes and
finishes it when it likes, and so do the others in between; the store may refuse
any write. `run` is any such course of events.

What one hopes for is that no party undoes what another has done: at any time
the unit says for each name what its party has last finished, and for all other
names what it said at first (`NothingLost`). A finishing write only looks at
the digest on disk to see whether somebody was there before it, so this hinges
on the initial content: if it is read as a document and is the text of another
one, the bytes may come back and stand for something else. It holds of every
course of events exactly when the initial content can be told from its text
(`nothing_lost_iff`).
-/
import ScopedState.Proofs.Storage.Tracking
set_option autoImplicit false

namespace ScopedState

open Bindings (Sorted get?)

/-! ## 1. Parties and what they do -/

/-- A write that a party has staged and not finished. -/
structure Outstanding (ι δ : Type) where
  party : ι
  value : String → Option Json
  write : StagedWrite δ

/-- Parties at one storage: the storage with its store, the writes under way,
and what each party has last finished. -/
structure Parties (ι β δ : Type) where
  vault : Vault β δ
  outstanding : List (Outstanding ι δ) := []
  finished : ι → Option (String → Option Json) := fun _ => none

namespace Parties

variable {ι β δ : Type}

/-- What can happen. -/
inductive Move (ι β : Type) where
  /-- A party stages states for its names. -/
  | stage (party : ι) (value : String → Option Json)
  /-- The write at some place among those under way is finished. -/
  | finish (place : Nat)
  /-- The store begins or ceases to refuse writes, or changes otherwise without
  its contents changing. -/
  | disturb (change : β → β)

/-- Disturbances leave the contents of the store alone. -/
def Move.Harmless [Backing β] [LawfulBacking β] : Move ι β → Prop
  | .stage _ _ => True
  | .finish _ => True
  | .disturb change => ∀ b l, LawfulBacking.contents (change b) l = LawfulBacking.contents b l

/-- The states that a party stages. -/
def statesOf (names : List String) (value : String → Option Json) : States :=
  Bindings.ofList (names.map fun n => (n, value n))

section Steps

variable [DecidableEq ι] [Backing β] [DecidableEq δ] [Digest δ]

/-- A party stages. -/
def stage (names : ι → List String) (id : StorageId) (party : ι) (value : String → Option Json)
    (ps : Parties ι β δ) : Parties ι β δ :=
  match ps.vault.stage id (statesOf (names party) value) with
  | none => ps
  | some write => { ps with outstanding := ps.outstanding ++ [⟨party, value, write⟩] }

/-- The write at some place is finished: brought up to date, written if
something is left to write, and remembered if that succeeds. -/
def finish (place : Nat) (ps : Parties ι β δ) : Parties ι β δ :=
  match ps.outstanding[place]? with
  | none => ps
  | some x =>
    let out := ps.vault.carryOut x.write
    { vault := out.2
      outstanding := ps.outstanding.eraseIdx place
      finished := fun p =>
        if out.1.isOk && p = x.party then some x.value else ps.finished p }

/-- One thing happens. -/
def step (names : ι → List String) (id : StorageId) (ps : Parties ι β δ) :
    Move ι β → Parties ι β δ
  | .stage party value => ps.stage names id party value
  | .finish place => ps.finish place
  | .disturb change => { ps with vault := { ps.vault with backing := change ps.vault.backing } }

/-- One thing happens after the other. -/
def run (names : ι → List String) (id : StorageId) (ps : Parties ι β δ) (moves : List (Move ι β)) :
    Parties ι β δ := moves.foldl (step names id) ps

theorem run_append (names : ι → List String) (id : StorageId) (ps : Parties ι β δ)
    (moves moves' : List (Move ι β)) :
    ps.run names id (moves ++ moves') = (ps.run names id moves).run names id moves' :=
  List.foldl_append

/-- What a name with a party should be bound to: what the party has last
finished for it, or else what it was bound to at first. -/
def due (ps : Parties ι β δ) (document : Document) (party : ι) (n : String) : Option Json :=
  (ps.finished party).elim (get? document n) fun value => value n

/-- **Nothing is lost.** What is remembered describes the unit, and the unit,
as the text of some document or as it was read at first, says for every name
what its party has last finished, and for a name without a party what it said
at first. -/
def NothingLost [LawfulBacking β] (names : ι → List String) (id : StorageId) (l : Location)
    (content : Option Bytes) (document : Document) (ps : Parties ι β δ) : Prop :=
  let now := ps.vault.contents l
  let s := ps.vault.snapshot id
  let Holds (d : Document) := now = some d.serialize ∨ (now = content ∧ d = document)
  s.hash = now.map Digest.ofBytes ∧ Holds s.document ∧
    ∃ e : Document, Sorted e ∧ Holds e ∧
      (∀ p, ∀ n ∈ names p, Json.sameOption (get? e n) (ps.due document p n) = true) ∧
      ∀ n, (∀ p, n ∉ names p) → get? e n = get? document n

/-! ## 2. What every course of events keeps -/

theorem get?_statesOf (names : List String) (value : String → Option Json) (n : String) :
    get? (statesOf names value) n = if n ∈ names then some (value n) else none :=
  Bindings.get?_tabulate names value n

theorem sorted_statesOf (names : List String) (value : String → Option Json) :
    Sorted (statesOf names value) := Bindings.sorted_ofList _

/-- Where the unit of some parties starts. -/
def origin (names : ι → List String) (content : Option Bytes) (document : Document) : Origin :=
  { content, document, owned := fun n => ∃ p, n ∈ names p }

variable [LawfulBacking β]

/-- The unit is kept track of, and so is every write under way. -/
structure Tracked (names : ι → List String) (id : StorageId) (unit : Path) (o : Origin)
    (started : Bool) (expected : String → Option Json) (ps : Parties ι β δ) : Prop where
  storage : ∃ s, ps.vault.storage? id = some s ∧ s.unit = unit ∧
    Tracks o started expected (ps.vault.contents unit.location) s.snapshot
  due : ∀ p, ∀ n ∈ names p, expected n = ps.due o.document p n
  outstanding : ∀ x ∈ ps.outstanding, names x.party ≠ [] ∧ x.write.storage = id ∧
    x.write.unit = unit ∧ x.write.draft.From o started ∧
    x.write.draft.states = statesOf (names x.party) x.value

variable {names : ι → List String} {id : StorageId} {unit : Path} {o : Origin} {started : Bool}
  {expected : String → Option Json} {ps : Parties ι β δ}

omit [DecidableEq ι] in
/-- **Staging keeps track.** A party without names has nothing to stage. -/
theorem Tracked.stage (ho : o = origin names o.content o.document)
    (habsent : o.content = none → o.document = [])
    (h : Tracked names id unit o started expected ps) (party : ι) (value : String → Option Json) :
    Tracked names id unit o started expected (ps.stage names id party value) := by
  unfold Parties.stage
  split
  · exact h
  · rename_i write hwrite
    obtain ⟨s, hs, hunit, htracks⟩ := h.storage
    rw [Vault.stage, hs] at hwrite
    obtain ⟨draft, hdraft, hwrite⟩ := Option.map_eq_some_iff.mp hwrite
    have howned : ∀ n, (get? (statesOf (names party) value) n).isSome = true → o.owned n := by
      intro n hn
      rw [get?_statesOf] at hn
      split at hn
      · rename_i hmem
        rw [ho]
        exact ⟨party, hmem⟩
      · cases hn
    -- Without names there is nothing to merge, and the unit is as it is remembered.
    have hnames : names party ≠ [] := by
      intro hnil
      refine (Snapshot.stage_eq_some hdraft).2.1 ?_
      rw [hnil]
      exact Snapshot.redundant_of_same htracks.images.hash (htracks.images.absent habsent)
        (Document.same_refl _)
    refine ⟨⟨s, hs, hunit, htracks⟩, h.due, fun x hx => ?_⟩
    rcases List.mem_append.mp hx with hx | hx
    · exact h.outstanding x hx
    · rw [List.mem_singleton.mp hx, ← hwrite]
      refine ⟨hnames, rfl, hunit, ?_, ?_⟩
      · exact htracks.images.stage (sorted_statesOf _ _) howned hdraft
      · rw [(Snapshot.stage_eq_some hdraft).1]
        rfl

omit [LawfulBacking β] [Backing β] [DecidableEq ι] [DecidableEq δ] [Digest δ] in
/-- What is expected once a party has finished a write of its names. -/
theorem overwrite_eq_due {party : ι} {value : String → Option Json} {document : Document}
    {ps' : Parties ι β δ} (ps : Parties ι β δ)
    (hdisjoint : ∀ p q n, n ∈ names p → n ∈ names q → p = q)
    (hparty : ps'.finished party = some value)
    (hothers : ∀ p, p ≠ party → ps'.finished p = ps.finished p)
    (hdue : ∀ p, ∀ n ∈ names p, expected n = ps.due document p n) :
    ∀ p, ∀ n ∈ names p,
      overwrite (statesOf (names party) value) expected n = ps'.due document p n := by
  intro p n hn
  rw [overwrite, get?_statesOf, Parties.due]
  by_cases hp : p = party
  · subst hp
    rw [if_pos hn, hparty]
    rfl
  · have hnot : n ∉ names party := fun hn' => hp (hdisjoint p party n hn hn')
    rw [if_neg hnot, Option.getD_none, hothers p hp]
    exact hdue p n hn

/-- **Finishing keeps track**, whatever becomes of the write. -/
theorem Tracked.finish (hfaithful : Digest.Faithful δ)
    (hdisjoint : ∀ p q n, n ∈ names p → n ∈ names q → p = q)
    (hlegible : ∀ p, names p ≠ [] → o.Legible (· ∈ names p))
    (h : Tracked names id unit o started expected ps) (place : Nat) :
    ∃ started expected, Tracked names id unit o started expected (ps.finish place) := by
  unfold Parties.finish
  split
  · exact ⟨started, expected, h⟩
  · rename_i x hx
    obtain ⟨s, hs, hunit, htracks⟩ := h.storage
    obtain ⟨hnames, hid, hxunit, hfrom, hstates⟩ := h.outstanding x (List.mem_of_getElem? hx)
    subst hid
    have hkept : ∀ y ∈ ps.outstanding.eraseIdx place, y ∈ ps.outstanding :=
      fun y hy => List.mem_of_mem_eraseIdx hy
    -- What is expected changes if the write is dropped or taken; if it is refused,
    -- the party has not finished it.
    rcases Vault.carryOut_unit hs (hxunit.trans hunit.symm) with
      ⟨hnone, hout⟩ | ⟨draft, hdraft, hok, hstorage, hcontents⟩ | ⟨⟨e, he⟩, hstorage, hcontents⟩
    · -- Nothing is left to write.
      refine ⟨started, overwrite x.write.draft.states expected, ⟨⟨s, ?_, hunit, ?_⟩, ?_, ?_⟩⟩
      · simp only [hout]
        exact hs
      · simp only [hout]
        exact htracks.drop hfaithful hfrom hnone
      · rw [hstates]
        refine overwrite_eq_due ps hdisjoint ?_ (fun p hp => ?_) h.due
        · simp [hout, Except.isOk, Except.toBool]
        · simp [hp]
      · exact fun y hy => h.outstanding y (hkept y hy)
    · -- The store takes the write.
      have hmine : ∀ n, n ∈ names x.party → (get? x.write.draft.states n).isSome = true := by
        intro n hn
        rw [hstates, get?_statesOf, if_pos hn]
        rfl
      have hwritten := htracks.write hfaithful hfrom (hlegible x.party hnames) hmine hdraft
      refine ⟨true, overwrite x.write.draft.states expected, ⟨⟨_, hstorage, hunit, ?_⟩, ?_, ?_⟩⟩
      · rw [← hunit, hcontents]
        exact hwritten
      · rw [hstates]
        refine overwrite_eq_due ps hdisjoint ?_ (fun p hp => ?_) h.due
        · simp [hok, Except.isOk, Except.toBool]
        · simp [hp]
      · intro y hy
        obtain ⟨hynames, hyid, hyunit, hyfrom, hystates⟩ := h.outstanding y (hkept y hy)
        exact ⟨hynames, hyid, hyunit, hyfrom.mono, hystates⟩
    · -- The store refuses it.
      refine ⟨started, expected, ⟨⟨s, ?_, hunit, ?_⟩, fun p n hn => ?_, ?_⟩⟩
      · rw [← hs]
        exact congrFun hstorage _
      · rw [hcontents]
        exact htracks
      · rw [h.due p n hn, Parties.due, Parties.due]
        simp [he, Except.isOk, Except.toBool]
      · exact fun y hy => h.outstanding y (hkept y hy)

omit [DecidableEq ι] [DecidableEq δ] in
/-- **Disturbances keep track.** -/
theorem Tracked.disturb {change : β → β}
    (hchange : ∀ b l, LawfulBacking.contents (change b) l = LawfulBacking.contents b l)
    (h : Tracked names id unit o started expected ps) :
    Tracked names id unit o started expected
      { ps with vault := { ps.vault with backing := change ps.vault.backing } } := by
  obtain ⟨s, hs, hunit, htracks⟩ := h.storage
  refine ⟨⟨s, hs, hunit, ?_⟩, h.due, h.outstanding⟩
  rw [Vault.contents, hchange]
  exact htracks

/-- **Every course of events keeps track.** -/
theorem Tracked.run (ho : o = origin names o.content o.document)
    (habsent : o.content = none → o.document = []) (hfaithful : Digest.Faithful δ)
    (hdisjoint : ∀ p q n, n ∈ names p → n ∈ names q → p = q)
    (hlegible : ∀ p, names p ≠ [] → o.Legible (· ∈ names p)) {moves : List (Move ι β)}
    (hmoves : ∀ m ∈ moves, m.Harmless)
    (h : Tracked names id unit o started expected ps) :
    ∃ started expected, Tracked names id unit o started expected (ps.run names id moves) := by
  induction moves generalizing started expected ps with
  | nil => exact ⟨started, expected, h⟩
  | cons m moves ih =>
    have hrest : ∀ m ∈ moves, m.Harmless := fun m hm => hmoves m (List.mem_cons_of_mem _ hm)
    cases hm : m with
    | stage party value => exact ih hrest (h.stage ho habsent party value)
    | finish place =>
      obtain ⟨started', expected', h'⟩ := h.finish hfaithful hdisjoint hlegible place
      exact ih hrest h'
    | disturb change =>
      have hharmless := hmoves m List.mem_cons_self
      rw [hm] at hharmless
      exact ih hrest (h.disturb hharmless)

/-! ## 3. From loading on -/

/-- The parties at a storage that has just been loaded. -/
def start (v : Vault β δ) (id : StorageId) : Parties ι β δ := { vault := (v.load id).2 }

omit [DecidableEq ι] [DecidableEq δ] in
/-- A storage that has just been loaded remembers the content of its unit. -/
theorem storage?_start {v : Vault β δ} {s : Storage δ} {content : Option Bytes}
    {loaded : Snapshot δ} (hs : v.storage? id = some s)
    (hcontent : v.contents s.unit.location = content) (hok : (v.load id).1 = .ok ())
    (hread : Snapshot.ofContent s.unit content = .ok loaded) :
    (v.load id).2.storage? id = some { s with snapshot := loaded } := by
  rw [Vault.load_outcome, hs, Option.elim_some] at hok
  -- Loading went well, so the store was read, and gave the content there is.
  have hsnapshot : v.readSnapshot s.unit = .ok loaded := by
    cases hfound : v.readSnapshot s.unit with
    | error e =>
      rw [hfound] at hok
      cases hok
    | ok found =>
      obtain ⟨read, hbacking, hparsed⟩ := Vault.readSnapshot_eq_ok_iff.mp hfound
      rw [LawfulBacking.read_ok hbacking, ← Vault.contents, hcontent, hread] at hparsed
      exact hparsed.symm
  rw [Vault.storage?_load, if_pos rfl, hs, Option.map_some, Vault.reread, hsnapshot]

omit [DecidableEq ι] [DecidableEq δ] in
theorem Tracked.start {v : Vault β δ} {s : Storage δ} {content : Option Bytes}
    {loaded : Snapshot δ} (hs : v.storage? id = some s)
    (hcontent : v.contents s.unit.location = content) (hok : (v.load id).1 = .ok ())
    (hread : Snapshot.ofContent s.unit content = .ok loaded) :
    Tracked names id s.unit (origin names content loaded.document) false
      (get? loaded.document) (Parties.start v id) := by
  have hcontents : (v.load id).2.contents s.unit.location = content := by
    rw [Vault.contents, Vault.load_backing]
    exact hcontent
  refine ⟨⟨_, storage?_start hs hcontent hok hread, rfl, ?_⟩, fun p n _ => rfl, ?_⟩
  · rw [Parties.start, hcontents]
    exact Tracks.of_describes (Snapshot.describes_ofContent hread) _
  · intro x hx
    cases hx

omit [DecidableEq ι] [DecidableEq δ] in
/-- **Where the unit is kept track of nothing is lost.** -/
theorem Tracked.nothingLost {content : Option Bytes} {document : Document}
    (h : Tracked names id unit (origin names content document) started expected ps) :
    NothingLost names id unit.location content document ps := by
  obtain ⟨s, hs, _, himages, e, he, halike, hholds, hagrees, hmeets⟩ := h.storage
  have hsnapshot : ps.vault.snapshot id = s.snapshot := Vault.snapshot_eq hs
  have hdocument : ps.vault.contents unit.location = some s.snapshot.document.serialize ∨
      (ps.vault.contents unit.location = content ∧ s.snapshot.document = document) := by
    cases hstarted : started with
    | true => exact Or.inl (himages.written hstarted)
    | false => exact Or.inr (himages.fresh hstarted)
  refine ⟨?_, ?_, e, he, ?_, ?_, ?_⟩
  · rw [hsnapshot]
    exact himages.hash
  · rw [hsnapshot]
    exact hdocument
  · rcases hholds with rfl | htext
    · exact hdocument
    · exact Or.inl htext
  · intro p n hn
    have hsame := hmeets n ⟨p, hn⟩
    rwa [h.due p n hn] at hsame
  · intro n hn
    exact hagrees n fun ⟨p, hp⟩ => hn p hp

end Steps

end Parties

end ScopedState
