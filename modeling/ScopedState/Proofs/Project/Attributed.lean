/-
`Proofs/Project/Attributed.lean` -- attributing changes does not alter the verdict.

Before changes are analyzed they are prepared. A change of a unit that one scope maps is
attributed to that scope, and a change of a unit that the project does not know is left
out. Both are meant to spare work, and neither may decide what is found: an owner that
is wrong would have the scope that has the unit pass over its own change.

An analysis makes use of changes in one way only, by asking of a unit of a scope whether
some change affects it. So it is enough that the answer stays the same for each of those
units, under whatever text (`SessionTree.analyze_congr`). Such a unit is known, so its
changes are not left out. If one of them has been attributed, then just one record of the
project is of a scope that maps the unit. The scope in question maps it and has a record,
since every scope of an opened project has one (`Recorded`); so it is the owner. This is
where modules that share a directory come in: their scopes map the same units, and a
change there stays without an owner and concerns them all.
-/
import ScopedState.Command
import ScopedState.Proofs.Project.Recorded
import ScopedState.Proofs.Workspace.Exact
import ScopedState.Proofs.Workspace.ReadOnly
set_option autoImplicit false

namespace ScopedState

open Bindings (get?)

variable {β δ : Type}

/-! ## 1. What an analysis depends on -/

section Analyzing

variable [Backing β] [DecidableEq δ] [Digest δ] {a b : ChangeSet}

/-- Changes that affect the same units of a scope are judged alike. -/
theorem ScopeSession.analyzeAll_congr {scope : ScopeId} {slots : List Slot}
    (h : ∀ slot ∈ slots, a.affects slot.unit scope = b.affects slot.unit scope) (v : Vault β δ)
    (names : List String) :
    analyzeAll scope a v names slots = analyzeAll scope b v names slots := by
  induction slots generalizing names with
  | nil => rfl
  | cons slot slots ih =>
    obtain ⟨hslot, hslots⟩ := List.forall_mem_cons.mp h
    simp only [analyzeAll, hslot, ih hslots]

namespace SessionTree

mutual

/-- **Changes that affect the same units** of every part of a tree are judged alike. -/
theorem analyze_congr : ∀ {t : SessionTree (ScopeSession δ)},
    (∀ s ∈ t.parts, ∀ slot ∈ s.layout, a.affects slot.unit s.scope = b.affects slot.unit s.scope) →
      ∀ v : Vault β δ, t.analyze a v = t.analyze b v
  | .single s, h, v => by
    rw [parts] at h
    have hscope := ScopeSession.analyzeAll_congr (h s (List.mem_singleton.mpr rfl)) v []
    rw [analyze, analyze]
    exact congrArg (·, v) hscope
  | .group phase own members, h, v => by
    rw [parts] at h
    rw [analyze, analyze, analyze_congr (fun s hs => h s (List.mem_append_right _ hs)) v]
    split
    · rfl
    · exact analyzeAll_congr (fun s hs => h s (List.mem_append_left _ hs)) _ _

theorem analyzeAll_congr : ∀ {ts : List (SessionTree (ScopeSession δ))},
    (∀ s ∈ partsAll ts, ∀ slot ∈ s.layout,
      a.affects slot.unit s.scope = b.affects slot.unit s.scope) →
      ∀ (names : List String) (v : Vault β δ), analyzeAll a names ts v = analyzeAll b names ts v
  | [], _, _, _ => rfl
  | t :: ts, h, names, v => by
    rw [partsAll] at h
    rw [analyzeAll, analyzeAll, analyze_congr (fun s hs => h s (List.mem_append_left _ hs)) v]
    split
    · rfl
    · exact analyzeAll_congr (fun s hs => h s (List.mem_append_right _ hs)) _ _

end

/-- **A tree knows the units** of all its parts. -/
theorem contains_files {t : SessionTree (ScopeSession δ)} (ht : t.Layered) (v : Vault β δ) :
    ∀ s ∈ t.parts, ∀ slot ∈ s.layout, (t.files true v).1.contains slot.unit = true :=
  fun s hs slot hslot =>
    Bindings.mem_keys_iff.mp ((mem_keys_files ht v _).mpr ⟨s, hs, slot, hslot, rfl⟩)

end SessionTree

end Analyzing

/-! ## 2. Changes that are put together anew -/

/-- A listed change is in the set of them, in some text. -/
theorem ChangeSet.exists_mem_ofList {changes : List ChangedUnit} {change : ChangedUnit}
    (h : change ∈ changes) :
    ∃ entry ∈ ofList changes, entry.2.unit.location = change.unit.location ∧
      entry.2.owner = change.owner := by
  obtain ⟨hfrom, hkeys⟩ := Bindings.mem_ofList (changes.map fun change => (change.key, change))
  obtain ⟨entry, hentry, hkey⟩ := List.mem_map.mp (hkeys _ (List.mem_map_of_mem h))
  obtain ⟨other, _, rfl⟩ := List.mem_map.mp (hfrom entry hentry)
  have hsame : other.key = change.key := hkey
  exact ⟨_, hentry, congrArg ChangeKey.location hsame, congrArg ChangeKey.owner hsame⟩

/-- What is in the set has been listed. -/
theorem ChangeSet.mem_of_mem_ofList {changes : List ChangedUnit} {entry : ChangeKey × ChangedUnit}
    (h : entry ∈ ofList changes) : entry.2 ∈ changes := by
  obtain ⟨hfrom, _⟩ := Bindings.mem_ofList (changes.map fun change => (change.key, change))
  obtain ⟨change, hchange, rfl⟩ := List.mem_map.mp (hfrom entry h)
  exact hchange

namespace Project

variable {p : Project δ} {unit : Path} {id : ScopeId} {s : Scope}

/-- Units of one location have one owner. -/
theorem ownerOf_congr (p : Project δ) {q : Path} (h : unit.location = q.location) :
    p.ownerOf unit = p.ownerOf q := by
  rw [ownerOf, ownerOf]
  simp only [Scope.maps, h]

/-- **An owner is the scope that maps the unit**, whichever has a record. -/
theorem eq_of_ownerOf {r : ProjectScope} (hr : r ∈ p.scopes) (hs : p.space.scope? r.scope = some s)
    (hmaps : s.maps unit = true) {owner : ScopeId} (howner : p.ownerOf unit = some owner) :
    owner = r.scope := by
  unfold ownerOf at howner
  split at howner
  · rename_i only honly
    have hmem : r ∈ p.scopes.filter fun r =>
        (p.space.scope? r.scope).any fun s => s.maps unit := by
      refine List.mem_filter.mpr ⟨hr, ?_⟩
      rw [hs]
      exact hmaps
    rw [honly] at hmem
    rw [List.mem_singleton.mp hmem]
    exact (Option.some.inj howner).symm
  · cases howner

/-- A change with the owner that the project finds for its unit, if it finds one. -/
def withOwner (p : Project δ) (change : ChangedUnit) : ChangedUnit :=
  match p.ownerOf change.unit with
  | some owner => ⟨change.unit, some owner⟩
  | none => change

theorem withOwner_unit (p : Project δ) (change : ChangedUnit) :
    (p.withOwner change).unit = change.unit := by
  unfold withOwner
  split <;> rfl

/-- A change without an owner gets one only from the project. -/
theorem withOwner_owner (p : Project δ) {change : ChangedUnit} (h : change.owner = none) :
    (p.withOwner change).owner = p.ownerOf change.unit := by
  unfold withOwner
  split
  · rename_i howner
    exact howner.symm
  · rename_i howner
    rw [h, howner]

end Project

/-! ## 3. The verdict -/

section Verdict

variable [DecidableEq δ] [Digest δ] {p : Project δ} {changes : ChangeSet} {unit : Path}
  {id : ScopeId} {s : Scope}

/-- **Preparing changes keeps what they affect**: a unit that a scope with a record maps
and the project knows is affected as before. -/
theorem Command.affects_relevant (hnone : ∀ change ∈ changes.toList, change.owner = none)
    (hknown : ((p.space.startSave p.root).files true p.space.vault).1.contains unit = true)
    {r : ProjectScope} (hr : r ∈ p.scopes) (hs : p.space.scope? r.scope = some s)
    (hmaps : s.maps unit = true) :
    (relevant p changes).affects unit r.scope = changes.affects unit r.scope := by
  rw [Bool.eq_iff_iff, Workspace.affects_iff, Workspace.affects_iff]
  constructor
  · rintro ⟨change, hchange, hlocation, _⟩
    obtain ⟨entry, hentry, rfl⟩ := List.mem_map.mp hchange
    obtain ⟨old, hold, hsame⟩ := List.mem_map.mp
      (ChangeSet.mem_of_mem_ofList (List.mem_filter.mp hentry).1)
    have hunit : entry.2.unit = old.unit := hsame ▸ p.withOwner_unit old
    refine ⟨old, hold, hunit ▸ hlocation, fun owner howner => ?_⟩
    rw [hnone old hold] at howner
    cases howner
  · rintro ⟨change, hchange, hlocation, _⟩
    obtain ⟨entry, hentry, hplace, howner⟩ := ChangeSet.exists_mem_ofList
      (List.mem_map_of_mem (f := p.withOwner) hchange)
    rw [p.withOwner_unit] at hplace
    rw [p.withOwner_owner (hnone change hchange)] at howner
    refine ⟨entry.2, ?_, hplace.trans hlocation, fun owner hfound => ?_⟩
    · refine List.mem_map_of_mem (List.mem_filter.mpr ⟨hentry, ?_⟩)
      rw [Paths.contains, hplace, hlocation]
      exact hknown
    · -- If the change has got an owner, that is the scope with the record.
      rw [howner, p.ownerOf_congr hlocation] at hfound
      exact Project.eq_of_ownerOf hr hs hmaps hfound

/-- **Attributing and filtering changes does not alter the verdict.** Whatever the disk
has become since a project was opened, changes without an owner are judged alike before
and after they have been prepared. -/
theorem Command.analyze_relevant {d d' : Disk} {dir : Path} {settings : Settings}
    (hopen : Project.open d dir settings = .ok p)
    (hnone : ∀ change ∈ changes.toList, change.owner = none) :
    let later := p.withDisk d'
    (later.space.startSave later.root).analyze (relevant later changes) later.space.vault
      = (later.space.startSave later.root).analyze changes later.space.vault := by
  intro later
  have hrecorded := Project.recorded_of_open hopen
  have hkept : later.space.Kept :=
    (Project.justRead_of_open hopen).kept.withVault (Vault.Keeps.of_eq rfl)
  refine SessionTree.analyze_congr (fun part hpart slot hslot => ?_) later.space.vault
  have hknown := SessionTree.contains_files (later.space.layered_openTree _) later.space.vault
    part hpart slot hslot
  rw [Workspace.startSave, (Workspace.openTree_spec later.space _).2] at hpart
  obtain ⟨id, _, rfl⟩ := List.mem_map.mp hpart
  obtain ⟨s, hs, ⟨l, u, k⟩, hmem, rfl⟩ := Workspace.mem_layout_iff.mp hslot
  have hk : get? s.storages l = some (u, k) := (hkept.scope hs).storages.get?_of_mem hmem
  -- The scope has a record, and maps the unit of the slot.
  obtain ⟨r, hr, rfl⟩ := hrecorded.exists_record (List.getElem?_eq_some_iff.mp hs).1
  have hmaps : s.maps (later.space.slotAt s (u, k)).unit = true := by
    rw [Scope.maps, Workspace.slotAt_location hkept hs hk, Bindings.binds, hk]
    rfl
  rw [Workspace.scope_openScope]
  exact Command.affects_relevant hnone hknown hr hs hmaps

end Verdict

/-- A project with a module of its own directory and one that shares that of the project,
each with a value in its storage file. -/
def sharingDisk (shared own : String) : Disk :=
  { nodes := [(["p"], .directory), (["p", ".scopestore"], .directory),
      (["p", ".scopestore", "a.json"],
        .file (Utf8.encode ("\x7b\"a\": " ++ shared ++ "\x7d").toList) false),
      (["p", "m"], .directory), (["p", "m", ".scopestore"], .directory),
      (["p", "m", ".scopestore", "b.json"],
        .file (Utf8.encode ("\x7b\"b\": " ++ own ++ "\x7d").toList) false),
      (["p", "scopestore.toml"], .file (Utf8.encode
        ("name = \"p\"\nmodules = [\x7bname = \"m\", dir = \"m\"\x7d, "
          ++ "\x7bname = \"n\", dir = \".\"\x7d]\n").toList) false)] }

/-- Three files of which two belong to the project, each written with a detour. -/
def detouredChanges : ChangeSet :=
  ChangeSet.ofList [⟨⟨"/p/./.scopestore/a.json"⟩, none⟩, ⟨⟨"/p/m//.scopestore/b.json"⟩, none⟩,
    ⟨⟨"/p/other.json"⟩, none⟩]

/-- One change is attributed, one is of a unit that two scopes share, and one is left out. -/
theorem Command.analyze_relevant_shared :
    ∃ p : Project Bytes, Project.open (sharingDisk "1" "1") ⟨"/p"⟩ {} = .ok p ∧
      (∀ change ∈ detouredChanges.toList, change.owner = none) ∧
      let later := p.withDisk (sharingDisk "2" "2")
      (relevant later detouredChanges).toList.map ChangedUnit.owner = [none, some 1] ∧
        (later.space.startSave later.root).analyze (relevant later detouredChanges)
            later.space.vault
          = (later.space.startSave later.root).analyze detouredChanges later.space.vault ∧
        ((later.space.startSave later.root).analyze detouredChanges later.space.vault).1
          = .reloadable ["a", "b"] := by
  have hopens : (Project.open (δ := Bytes) (sharingDisk "1" "1") ⟨"/p"⟩ {}).toOption.map (fun p =>
      let later := p.withDisk (sharingDisk "2" "2")
      ((relevant later detouredChanges).toList.map ChangedUnit.owner,
        ((later.space.startSave later.root).analyze detouredChanges later.space.vault).1))
      = some ([none, some 1], .reloadable ["a", "b"]) := by decide +kernel
  have hnone : ∀ change ∈ detouredChanges.toList, change.owner = none := by decide +kernel
  obtain ⟨p, hp, hcomputed⟩ := Option.map_eq_some_iff.mp hopens
  have hopen : Project.open (sharingDisk "1" "1") ⟨"/p"⟩ {} = .ok p := toOption_eq_some_iff.mp hp
  obtain ⟨howners, hverdict⟩ := Prod.mk.inj hcomputed
  exact ⟨p, hopen, hnone, howners, analyze_relevant hopen hnone, hverdict⟩

end ScopedState
