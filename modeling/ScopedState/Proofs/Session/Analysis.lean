/-
`Proofs/Session/Analysis.lean` -- what an analysis finds out.

An analysis goes through a tree of sessions and through the units of each
scope, and compares every unit that some change affects with what is on disk.
It gives up at the first unit that it cannot compare. Where none stops it, it
has gathered the names that differ anywhere.

The order in which it does so does not matter for what it says, so the verdict
is described without one: a list of names stands for the units that were
compared, all of them, and for the names found in them, with those that were
there before (`Judges`). Two verdicts, one after the other, judge the units of
both. For a whole tree the units are the affected ones of its parts, wherever
the parts stand.
-/
import ScopedState.Proofs.Session.Calls
set_option autoImplicit false

namespace ScopedState

variable {β δ : Type}

/-! ## 1. One storage -/

section Comparing

variable [Backing β] [DecidableEq δ] [Digest δ]

/-- What has the digest that is remembered shows no difference. -/
theorem Snapshot.changed_of_hash {s : Snapshot δ} {content : Option Bytes}
    (h : s.hash = content.map Digest.ofBytes) (unit : Path) (known : List String) :
    s.changed unit content known = .ok [] := by
  cases content with
  | none =>
    have hnone : s.hash = none := h
    rw [changed, hnone]
    rfl
  | some bytes =>
    rw [changed]
    exact if_pos h

/-- **A comparison looks at every name by itself**, or fails whatever the names. -/
theorem Snapshot.changed_filters (s : Snapshot δ) (unit : Path) (content : Option Bytes) :
    (∃ differs : String → Bool, ∀ known,
        s.changed unit content known = .ok (known.filter differs)) ∨
      ∃ e, ∀ known, s.changed unit content known = .error e := by
  have hsame : ∀ known : List String, [] = known.filter fun _ => false := fun known =>
    (List.filter_eq_nil_iff.mpr fun _ _ => Bool.false_ne_true).symm
  cases content with
  | none =>
    by_cases hhash : s.hash.isNone = true
    · exact Or.inl ⟨_, fun known => (if_pos hhash).trans (congrArg _ (hsame known))⟩
    · exact Or.inl ⟨_, fun known => if_neg hhash⟩
  | some bytes =>
    simp only [changed]
    by_cases hhash : s.hash = some (Digest.ofBytes bytes)
    · simp only [if_pos hhash]
      exact Or.inl ⟨_, fun known => congrArg _ (hsame known)⟩
    · simp only [if_neg hhash]
      cases Document.parse unit bytes with
      | ok d => exact Or.inl ⟨_, fun known => rfl⟩
      | error e => exact Or.inr ⟨e, fun known => rfl⟩

namespace Vault

/-- The names of a unit's components that differ from what is on disk. -/
def compared (v : Vault β δ) (slot : Slot) : Except Failure (List String) :=
  v.changed slot.storage (slot.components.map Prod.fst)

variable [LawfulBacking β] {v : Vault β δ} {k : StorageId} {s : Storage δ}

omit [LawfulBacking β] in
/-- Comparing the unit of a storage looks at every name by itself. -/
theorem changed_filters (v : Vault β δ) (k : StorageId) :
    (∃ differs : String → Bool, ∀ known, v.changed k known = .ok (known.filter differs)) ∨
      ∃ e, ∀ known, v.changed k known = .error e := by
  unfold changed
  cases v.storage? k with
  | none =>
    refine Or.inl ⟨fun _ => false, fun known => congrArg Except.ok ?_⟩
    exact (List.filter_eq_nil_iff.mpr fun _ _ => Bool.false_ne_true).symm
  | some s =>
    simp only []
    cases Backing.read v.backing s.unit with
    | error e => exact Or.inr ⟨e, fun known => rfl⟩
    | ok content => exact s.snapshot.changed_filters s.unit content

omit [LawfulBacking β] in
/-- **What a comparison finds** is what it finds asked about one name at a time. -/
theorem mem_changed_iff {known more : List String} {n : String}
    (h : v.changed k known = .ok more) :
    n ∈ more ↔ n ∈ known ∧ v.changed k [n] = .ok [n] := by
  rcases changed_filters v k with ⟨differs, hfilter⟩ | ⟨e, herror⟩
  · rw [hfilter] at h ⊢
    rw [← Except.ok.inj h, List.mem_filter]
    refine and_congr_right fun _ => ?_
    cases hn : differs n <;> simp [hn]
  · rw [herror] at h
    cases h

/-- Whether the unit of a storage can be read. -/
def Readable (v : Vault β δ) (k : StorageId) : Prop :=
  ∀ s, v.storage? k = some s → (Backing.read v.backing s.unit).isOk = true

omit [LawfulBacking β] in
/-- A unit that cannot be read cannot be compared. -/
theorem readable_of_changed {known names : List String} (h : v.changed k known = .ok names) :
    v.Readable k := by
  intro s hs
  rw [changed, hs] at h
  simp only [] at h
  cases hread : Backing.read v.backing s.unit with
  | ok content => rfl
  | error e =>
    rw [hread] at h
    cases h

/-- **Comparing a unit that can be read** is comparing its contents. -/
theorem changed_of_readable (hs : v.storage? k = some s) (hread : v.Readable k)
    (known : List String) :
    v.changed k known = s.snapshot.changed s.unit (v.contents s.unit.location) known := by
  have hok := hread s hs
  rw [changed, hs]
  simp only []
  cases hcontent : Backing.read v.backing s.unit with
  | error e =>
    rw [hcontent] at hok
    cases hok
  | ok content =>
    rw [contents, ← LawfulBacking.read_ok hcontent]

/-- A storage with the digest of its unit shows no difference. -/
theorem changed_of_hash
    (h : ∀ s, v.storage? k = some s →
      s.snapshot.hash = (v.contents s.unit.location).map Digest.ofBytes)
    (hread : v.Readable k) (known : List String) : v.changed k known = .ok [] := by
  cases hs : v.storage? k with
  | none => rw [changed, hs]
  | some s =>
    rw [changed_of_readable hs hread]
    exact Snapshot.changed_of_hash (h s hs) s.unit known

end Vault

/-! ## 2. Verdicts -/

/-- A verdict on some units, when some names were found before: a unit cannot be
compared; or all can, and the names are those found before and in the units. -/
def Judges (v : Vault β δ) (before : List String) (units : Slot → Prop) : ExternalChanges → Prop
  | .unreloadable => ∃ slot e, units slot ∧ v.compared slot = .error e
  | .reloadable names =>
    (∀ slot, units slot → ∃ more, v.compared slot = .ok more) ∧
      ∀ n, n ∈ names ↔ n ∈ before ∨ ∃ slot more, units slot ∧ v.compared slot = .ok more ∧ n ∈ more

namespace Judges

variable {v : Vault β δ} {before names more : List String} {units units' : Slot → Prop}
  {verdict : ExternalChanges}

/-- Without units there is nothing to find. -/
theorem none (v : Vault β δ) (before : List String) {units : Slot → Prop}
    (h : ∀ slot, ¬ units slot) : Judges v before units (.reloadable before) := by
  refine ⟨fun slot hslot => absurd hslot (h slot), fun n => ⟨Or.inl, ?_⟩⟩
  rintro (hn | ⟨slot, _, hslot, _⟩)
  · exact hn
  · exact absurd hslot (h slot)

/-- Only which units there are matters. -/
theorem congr (h : Judges v before units verdict) (hunits : ∀ slot, units slot ↔ units' slot) :
    Judges v before units' verdict := by
  have heq : units = units' := funext fun slot => propext (hunits slot)
  rw [← heq]
  exact h

/-- **One verdict after the other** judges the units of both. -/
theorem trans (h : Judges v before units (.reloadable names))
    (h' : Judges v names units' verdict) :
    Judges v before (fun slot => units slot ∨ units' slot) verdict := by
  obtain ⟨hok, hnames⟩ := h
  cases verdict with
  | unreloadable =>
    obtain ⟨slot, e, hslot, he⟩ := h'
    exact ⟨slot, e, Or.inr hslot, he⟩
  | reloadable all =>
    obtain ⟨hok', hnames'⟩ := h'
    refine ⟨fun slot hslot => hslot.elim (hok slot) (hok' slot), fun n => ?_⟩
    rw [hnames', hnames]
    constructor
    · rintro ((hn | ⟨slot, found, hslot, hfound, hn⟩) | ⟨slot, found, hslot, hfound, hn⟩)
      · exact Or.inl hn
      · exact Or.inr ⟨slot, found, Or.inl hslot, hfound, hn⟩
      · exact Or.inr ⟨slot, found, Or.inr hslot, hfound, hn⟩
    · rintro (hn | ⟨slot, found, hslot | hslot, hfound, hn⟩)
      · exact Or.inl (Or.inl hn)
      · exact Or.inl (Or.inr ⟨slot, found, hslot, hfound, hn⟩)
      · exact Or.inr ⟨slot, found, hslot, hfound, hn⟩

/-- A unit that cannot be compared spoils what comes after it. -/
theorem spoil (h : Judges v before units .unreloadable) (names : List String)
    (units' : Slot → Prop) :
    Judges v names (fun slot => units slot ∨ units' slot) .unreloadable := by
  obtain ⟨slot, e, hslot, he⟩ := h
  exact ⟨slot, e, Or.inl hslot, he⟩

/-- Names found apart can be added to others. -/
theorem union (h : Judges v [] units (.reloadable more)) (names : List String) :
    Judges v names units (.reloadable (Ascending.union names more)) := by
  obtain ⟨hok, hmore⟩ := h
  refine ⟨hok, fun n => ?_⟩
  rw [Ascending.mem_union, hmore]
  simp only [List.not_mem_nil, false_or]

/-- **Where nothing differs**, the verdict is that nothing does, or some unit
cannot be compared. -/
theorem unchanged (h : Judges v [] units verdict)
    (hsame : ∀ slot more, units slot → v.compared slot = .ok more → more = []) :
    (verdict = .reloadable [] ∧ ∀ slot, units slot → v.compared slot = .ok []) ∨
      (verdict = .unreloadable ∧ ∃ slot e, units slot ∧ v.compared slot = .error e) := by
  cases verdict with
  | unreloadable => exact Or.inr ⟨rfl, h⟩
  | reloadable names =>
    obtain ⟨hok, hnames⟩ := h
    have hnil : names = [] := by
      refine List.eq_nil_iff_forall_not_mem.mpr fun n hn => ?_
      rcases (hnames n).mp hn with hbefore | ⟨slot, more, hslot, hmore, hn⟩
      · cases hbefore
      · rw [hsame slot more hslot hmore] at hn
        cases hn
    refine Or.inl ⟨congrArg _ hnil, fun slot hslot => ?_⟩
    obtain ⟨more, hmore⟩ := hok slot hslot
    rw [hmore, hsame slot more hslot hmore]

end Judges

/-! ## 3. One scope -/

namespace ScopeSession

/-- A unit of a scope that some change affects. -/
def Affected (changes : ChangeSet) (s : ScopeSession δ) (slot : Slot) : Prop :=
  slot ∈ s.layout ∧ changes.affects slot.unit s.scope = true

/-- Analysing some units judges those that are affected. -/
theorem analyzeAll_judges (scope : ScopeId) (changes : ChangeSet) (v : Vault β δ)
    (slots : List Slot) (names : List String) :
    Judges v names (fun slot => slot ∈ slots ∧ changes.affects slot.unit scope = true)
      (analyzeAll scope changes v names slots) := by
  induction slots generalizing names with
  | nil => exact Judges.none v names fun slot h => List.not_mem_nil h.1
  | cons first rest ih =>
    have hcons : ∀ slot, (slot = first ∧ changes.affects slot.unit scope = true ∨
          slot ∈ rest ∧ changes.affects slot.unit scope = true) ↔
        slot ∈ first :: rest ∧ changes.affects slot.unit scope = true := by
      intro slot
      rw [List.mem_cons, or_and_right]
    rw [analyzeAll]
    split
    · rename_i haffected
      have hfirst : v.changed first.storage (first.components.map Prod.fst) = v.compared first :=
        rfl
      rw [hfirst]
      cases hcompared : v.compared first with
      | error e => exact ⟨first, e, ⟨List.mem_cons_self, haffected⟩, hcompared⟩
      | ok more =>
        -- The unit is judged alone, and the rest after it.
        have hjudged : Judges v names
            (fun slot => slot = first ∧ changes.affects slot.unit scope = true)
            (.reloadable (Ascending.union names more)) := by
          refine Judges.union ⟨?_, fun n => ⟨fun hn => ?_, ?_⟩⟩ names
          · rintro slot ⟨rfl, _⟩
            exact ⟨more, hcompared⟩
          · exact Or.inr ⟨first, more, ⟨rfl, haffected⟩, hcompared, hn⟩
          · rintro (hnil | ⟨slot, found, ⟨rfl, _⟩, hfound, hn⟩)
            · cases hnil
            · rw [hcompared] at hfound
              rw [Except.ok.inj hfound]
              exact hn
        exact (hjudged.trans (ih _)).congr hcons
    · rename_i hnot
      -- A unit that is not affected is passed over.
      refine (ih names).congr fun slot => ⟨fun h => ⟨List.mem_cons_of_mem _ h.1, h.2⟩, ?_⟩
      rintro ⟨hslot, haffected⟩
      rcases List.mem_cons.mp hslot with rfl | hslot
      · exact absurd haffected hnot
      · exact ⟨hslot, haffected⟩

/-- **The verdict on a scope** judges its affected units. -/
theorem analyze_judges (changes : ChangeSet) (s : ScopeSession δ) (v : Vault β δ) :
    Judges v [] (s.Affected changes) (s.analyze changes v) :=
  analyzeAll_judges s.scope changes v s.layout []

end ScopeSession

/-! ## 4. A tree of scopes -/

namespace SessionTree

/-- A unit of some part that some change affects. -/
def Affected (changes : ChangeSet) (parts : List (ScopeSession δ)) (slot : Slot) : Prop :=
  ∃ s ∈ parts, s.Affected changes slot

omit [Backing β] [DecidableEq δ] [Digest δ] in
theorem affected_append (changes : ChangeSet) (ss ts : List (ScopeSession δ)) (slot : Slot) :
    Affected changes (ss ++ ts) slot ↔ Affected changes ss slot ∨ Affected changes ts slot := by
  simp only [Affected, List.mem_append, or_and_right, exists_or]

mutual

/-- **The verdict on a tree** judges the affected units of its parts. Nothing
changes by it. -/
theorem analyze_judges (changes : ChangeSet) : ∀ (t : SessionTree (ScopeSession δ))
    (v : Vault β δ), (t.analyze changes v).2 = v ∧
      Judges v [] (Affected changes t.parts) (t.analyze changes v).1
  | .single s, v => by
    have hanalyze : Participant.analyze changes s v = (s.analyze changes v, v) := rfl
    rw [analyze, hanalyze, parts]
    refine ⟨rfl, (s.analyze_judges changes v).congr fun slot => ?_⟩
    simp only [Affected, List.mem_singleton, exists_eq_left]
  | .group phase own members, v => by
    obtain ⟨hworld, hjudges⟩ := analyze_judges changes own v
    -- The scope is judged before its children, and its part stands behind theirs.
    have hparts : ∀ slot, (Affected changes own.parts slot ∨
        Affected changes (partsAll members) slot) ↔
          Affected changes (group phase own members).parts slot := by
      intro slot
      rw [parts, affected_append, or_comm]
    rw [analyze]
    split
    · rename_i v' hown
      rw [hown] at hworld hjudges
      exact ⟨hworld, (hjudges.spoil [] _).congr hparts⟩
    · rename_i names v' hown
      rw [hown] at hworld hjudges
      obtain rfl : v' = v := hworld
      obtain ⟨hworld', hjudges'⟩ := analyzeAll_judges changes members names v'
      exact ⟨hworld', (hjudges.trans hjudges').congr hparts⟩

theorem analyzeAll_judges (changes : ChangeSet) : ∀ (ts : List (SessionTree (ScopeSession δ)))
    (names : List String) (v : Vault β δ), (analyzeAll changes names ts v).2 = v ∧
      Judges v names (Affected changes (partsAll ts)) (analyzeAll changes names ts v).1
  | [], names, v => by
    refine ⟨rfl, Judges.none v names ?_⟩
    rintro slot ⟨s, hs, _⟩
    exact List.not_mem_nil hs
  | t :: ts, names, v => by
    obtain ⟨hworld, hjudges⟩ := analyze_judges changes t v
    have hparts : ∀ slot, (Affected changes t.parts slot ∨
        Affected changes (partsAll ts) slot) ↔ Affected changes (partsAll (t :: ts)) slot := by
      intro slot
      rw [partsAll, affected_append]
    rw [analyzeAll]
    split
    · rename_i v' ht
      rw [ht] at hworld hjudges
      exact ⟨hworld, (hjudges.spoil names _).congr hparts⟩
    · rename_i more v' ht
      rw [ht] at hworld hjudges
      obtain rfl : v' = v := hworld
      obtain ⟨hworld', hjudges'⟩ := analyzeAll_judges changes ts (Ascending.union names more) v'
      exact ⟨hworld', ((hjudges.union names).trans hjudges').congr hparts⟩

end

/-- **An analysis of storages that have the digests of their units** finds
nothing, unless some affected unit cannot be read; then it cannot tell. -/
theorem analyze_of_hashes [LawfulBacking β] (changes : ChangeSet)
    {t : SessionTree (ScopeSession δ)} {v : Vault β δ}
    (h : ∀ slot, Affected changes t.parts slot → ∀ s, v.storage? slot.storage = some s →
      s.snapshot.hash = (v.contents s.unit.location).map Digest.ofBytes) :
    (t.analyze changes v = (.reloadable [], v) ∧
        ∀ slot, Affected changes t.parts slot → v.Readable slot.storage) ∨
      (t.analyze changes v = (.unreloadable, v) ∧
        ∃ slot, Affected changes t.parts slot ∧ ¬ v.Readable slot.storage) := by
  obtain ⟨hworld, hjudges⟩ := analyze_judges changes t v
  have hsame : ∀ slot more, Affected changes t.parts slot → v.compared slot = .ok more →
      more = [] := by
    intro slot more hslot hmore
    have hnothing := Vault.changed_of_hash (h slot hslot) (Vault.readable_of_changed hmore)
      (slot.components.map Prod.fst)
    exact (Except.ok.inj (hnothing.symm.trans hmore)).symm
  rcases hjudges.unchanged hsame with ⟨hverdict, hok⟩ | ⟨hverdict, slot, e, hslot, he⟩
  · exact Or.inl ⟨Prod.ext hverdict hworld,
      fun slot hslot => Vault.readable_of_changed (hok slot hslot)⟩
  · refine Or.inr ⟨Prod.ext hverdict hworld, slot, hslot, fun hread => ?_⟩
    -- Had it been read, it would have shown no difference.
    have hnothing := Vault.changed_of_hash (h slot hslot) hread (slot.components.map Prod.fst)
    rw [Vault.compared, hnothing] at he
    cases he

end SessionTree

end Comparing

end ScopedState
