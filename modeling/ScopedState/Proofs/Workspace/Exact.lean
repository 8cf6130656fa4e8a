/-
`Proofs/Workspace/Exact.lean` -- an analysis is a comparison of documents.

An analysis takes short cuts: it gives up at the first unit that it cannot
compare, it passes over a unit with the digest that is remembered, and it has a
way of its own with a unit that is gone. What it says can be told without them.
A storage remembers a document and the content that it was loaded from or
written as (`Sourced`), and digests are taken to tell contents apart. So a
storage shows no difference while its unit has that content; and any other
content is parsed, where an absent unit counts as an empty document, and shows
a difference in the names whose entries are not equal (`Describes.changed_eq`).

Which units are looked at was settled when the session was opened. The store
may have been edited since then, and by anybody, but storages stay about their
units. So the units compared are those that a scope of the tree had mapped at
that time and that a change names, without an owner or for this very scope.
-/
import ScopedState.Proofs.Storage.Return
import ScopedState.Proofs.Workspace.Save
import ScopedState.Proofs.Workspace.Sourced
import ScopedState.Proofs.Workspace.Touched
set_option autoImplicit false

namespace ScopedState

open Bindings (Sorted get?)

variable {β δ : Type}

/-! ## 1. One storage -/

/-- The document of a content. A unit that is not there has an empty one. -/
def Document.ofContent (unit : Path) : Option Bytes → Except Failure Document
  | none => .ok []
  | some bytes => parse unit bytes

/-- **A comparison is one of documents**, unless the content is the one that is
remembered. -/
theorem Snapshot.Describes.changed_eq [DecidableEq δ] [Digest δ] {s : Snapshot δ}
    {last : Option Bytes} (hfaithful : Digest.Faithful δ) (h : s.Describes last) (unit : Path)
    (content : Option Bytes) (known : List String) :
    s.changed unit content known =
      if content = last then .ok []
      else (Document.ofContent unit content).map (differing known s.document) := by
  by_cases hlast : content = last
  · rw [if_pos hlast, changed_of_hash]
    rw [hlast]
    exact h.hash
  · have hhash : s.hash ≠ content.map Digest.ofBytes := by
      intro hsame
      exact hlast (content_eq_of_hash_eq hfaithful (hsame.symm.trans h.hash))
    rw [if_neg hlast]
    cases content with
    | none =>
      rw [changed, if_neg fun hnone => hhash (Option.isNone_iff_eq_none.mp hnone)]
      rfl
    | some bytes =>
      have hbytes : ¬ s.hash = some (Digest.ofBytes bytes) := hhash
      rw [changed, if_neg hbytes, Document.ofContent]
      cases Document.parse unit bytes <;> rfl

namespace Vault

section Comparing

variable [Backing β]

/-- A storage cannot be compared: its unit cannot be read, or has other bytes
than those last loaded or written and no document can be read from them. -/
def Unclear (v : Vault β δ) (last : StorageId → Option Bytes) (k : StorageId) : Prop :=
  ∃ s, v.storage? k = some s ∧ ((∃ e, Backing.read v.backing s.unit = .error e) ∨
    ∃ content e, Backing.read v.backing s.unit = .ok content ∧ content ≠ last k ∧
      Document.ofContent s.unit content = .error e)

/-- The unit of a storage has other bytes than those last loaded or written, and
the entry of a name in its document is not equal to the remembered one. -/
def Changed (v : Vault β δ) (last : StorageId → Option Bytes) (k : StorageId) (n : String) :
    Prop :=
  ∃ s content d, v.storage? k = some s ∧ Backing.read v.backing s.unit = .ok content ∧
    content ≠ last k ∧ Document.ofContent s.unit content = .ok d ∧
    Json.sameOption (get? s.snapshot.document n) (get? d n) = false

variable [DecidableEq δ] [Digest δ] {v : Vault β δ} {last : StorageId → Option Bytes}
  {slot : Slot} {s : Storage δ}

/-- A unit that cannot be read cannot be compared. -/
theorem compared_of_unread (hs : v.storage? slot.storage = some s) {e : Failure}
    (hread : Backing.read v.backing s.unit = .error e) : v.compared slot = .error e := by
  rw [compared, changed, hs]
  simp only [hread]

/-- What has been read is compared as a document, unless it is what is
remembered. -/
theorem compared_of_read (hfaithful : Digest.Faithful δ)
    (hs : v.storage? slot.storage = some s) {last : Option Bytes}
    (hlast : s.snapshot.Describes last) {content : Option Bytes}
    (hread : Backing.read v.backing s.unit = .ok content) :
    v.compared slot = if content = last then .ok []
      else (Document.ofContent s.unit content).map
        (Snapshot.differing (slot.components.map Prod.fst) s.snapshot.document) := by
  rw [compared, changed, hs]
  simp only [hread]
  exact hlast.changed_eq hfaithful _ _ _

/-- **What a comparison of a unit comes to.** -/
theorem compared_spec (hfaithful : Digest.Faithful δ) (hs : v.storage? slot.storage = some s)
    (hlast : s.snapshot.Describes (last slot.storage)) :
    ((∃ e, v.compared slot = .error e) ↔ v.Unclear last slot.storage) ∧
      ∀ more, v.compared slot = .ok more → ∀ n,
        n ∈ more ↔ n ∈ slot.components.map Prod.fst ∧ v.Changed last slot.storage n := by
  have hunclear : v.Unclear last slot.storage ↔
      (∃ e, Backing.read v.backing s.unit = .error e) ∨
        ∃ content e, Backing.read v.backing s.unit = .ok content ∧ content ≠ last slot.storage ∧
          Document.ofContent s.unit content = .error e := by
    simp only [Unclear, hs, Option.some.injEq, exists_eq_left']
  have hchanged : ∀ n, v.Changed last slot.storage n ↔
      ∃ content d, Backing.read v.backing s.unit = .ok content ∧ content ≠ last slot.storage ∧
        Document.ofContent s.unit content = .ok d ∧
        Json.sameOption (get? s.snapshot.document n) (get? d n) = false := by
    intro n
    simp only [Changed, hs, Option.some.injEq, exists_and_left, exists_eq_left']
  simp only [hunclear, hchanged]
  cases hread : Backing.read v.backing s.unit with
  | error e =>
    rw [compared_of_unread hs hread]
    refine ⟨iff_of_true ⟨e, rfl⟩ (Or.inl ⟨e, rfl⟩), fun more hmore => ?_⟩
    cases hmore
  | ok content =>
    rw [compared_of_read hfaithful hs hlast hread]
    by_cases hsame : content = last slot.storage
    · simp [hsame]
    · cases hdocument : Document.ofContent s.unit content with
      | error e => simp [hsame, hdocument, Except.map]
      | ok d =>
        refine ⟨by simp [hsame, hdocument, Except.map], fun more hmore n => ?_⟩
        rw [if_neg hsame] at hmore
        rw [← Except.ok.inj hmore, Snapshot.differing, List.mem_filter, Bool.not_eq_true']
        simp [hsame, hdocument]

end Comparing

end Vault

namespace Workspace

/-! ## 2. The affected storages of a tree -/

section Tree

variable {w : Workspace β δ} {root id : ScopeId} {changes : ChangeSet} {k : StorageId}

/-- A storage of a scope of the tree that a change affects: the change names the
unit, and has no owner or this scope. -/
def AffectedStorage (w : Workspace β δ) (root : ScopeId) (changes : ChangeSet) (id : ScopeId)
    (k : StorageId) : Prop :=
  ∃ l, w.Maps root id l k ∧
    ∃ change ∈ changes.toList, change.unit.location = l ∧ ∀ owner ∈ change.owner, owner = id

/-- A change affects a unit for a scope. -/
theorem affects_iff (unit : Path) :
    changes.affects unit id = true ↔ ∃ change ∈ changes.toList,
      change.unit.location = unit.location ∧ ∀ owner ∈ change.owner, owner = id := by
  have hconcerns : ∀ change : ChangedUnit,
      change.concerns id = true ↔ ∀ owner ∈ change.owner, owner = id := by
    intro change
    rw [ChangedUnit.concerns]
    cases change.owner <;> simp
  rw [ChangeSet.affects, List.any_eq_true]
  refine exists_congr fun change => and_congr_right fun _ => ?_
  rw [Bool.and_eq_true, hconcerns, Path.same, decide_eq_true_eq]

/-- The unit of a slot is at the location that its scope has mapped. -/
theorem slotAt_location (h : w.Kept) {s : Scope} {l : Location} {u : Path}
    (hs : w.scope? id = some s) (hk : get? s.storages l = some (u, k)) :
    (w.slotAt s (u, k)).unit.location = l := by
  obtain ⟨st, hst, hl⟩ := (h.scope hs).exists_storage hk
  rw [slotAt, hst]
  exact hl

/-- **The affected units of a session that is opened** are those of the affected
storages, each with the components that its scope has there. -/
theorem affected_iff (h : w.Kept) {slot : Slot} :
    SessionTree.Affected changes (w.startSave root).parts slot ↔
      ∃ id s l u k, w.AffectedStorage root changes id k ∧ w.scope? id = some s ∧
        get? s.storages l = some (u, k) ∧ slot = w.slotAt s (u, k) := by
  constructor
  · intro haffected
    obtain ⟨id, hid, hlayout, haffects⟩ := affected_startSave_iff.mp haffected
    obtain ⟨s, hs, ⟨l, u, k⟩, hmem, rfl⟩ := mem_layout_iff.mp hlayout
    have hk : get? s.storages l = some (u, k) := (h.scope hs).storages.get?_of_mem hmem
    obtain ⟨change, hchange, hunit, howner⟩ := (affects_iff _).mp haffects
    refine ⟨id, s, l, u, k, ⟨l, ⟨hid, s, u, hs, hk⟩, change, hchange, ?_, howner⟩, hs, hk, rfl⟩
    exact hunit.trans (slotAt_location h hs hk)
  · rintro ⟨id, s, l, u, k, ⟨l', hmaps, change, hchange, hunit, howner⟩, hs, hk, rfl⟩
    -- A storage is about one location, so the scope has mapped it there.
    have hl : l = l' := by
      have hlocated := (h.scope hs).located l u k hk
      exact Option.some.inj (hlocated.symm.trans (hmaps.location h))
    refine affected_startSave_iff.mpr ⟨id, hmaps.1, ?_, (affects_iff _).mpr
      ⟨change, hchange, ?_, howner⟩⟩
    · exact mem_layout_iff.mpr ⟨s, hs, _, Bindings.mem_of_get? hk, rfl⟩
    · rw [hunit, slotAt_location h hs hk, hl]

end Tree

/-! ## 3. The verdict -/

section Verdict

variable [Backing β] [DecidableEq δ] [Digest δ] {w₀ w : Workspace β δ}

/-- **An analysis is exact.** A session over a tree of scopes was opened, and
anything has happened since then. Every storage remembers the content that it
was last loaded from or written as. The analysis cannot tell exactly when some
affected storage cannot be read, or holds other bytes and these are no document.
Otherwise it names exactly what some scope had registered in an affected storage
that holds other bytes, and whose entry in the document on disk is not equal to
the remembered one. -/
theorem analysis_exact (hfaithful : Digest.Faithful δ) (hw : w₀.Reachable Action.Any)
    (hsteps : Steps Action.Any w₀ w) (root : ScopeId) (changes : ChangeSet) :
    ∃ last : StorageId → Option Bytes,
      (∀ k s, w.vault.storage? k = some s → s.snapshot.Describes (last k)) ∧
      (((w₀.startSave root).analyze changes w.vault).1 = .unreloadable ↔
        ∃ id k, w₀.AffectedStorage root changes id k ∧ w.vault.Unclear last k) ∧
      ((¬ ∃ id k, w₀.AffectedStorage root changes id k ∧ w.vault.Unclear last k) →
        ∃ names, ((w₀.startSave root).analyze changes w.vault).1 = .reloadable names ∧
          ∀ n, n ∈ names ↔ ∃ id k s e, w₀.AffectedStorage root changes id k ∧
            w₀.scope? id = some s ∧ get? s.components n = some e ∧ e.storage = k ∧
            w.vault.Changed last k n) := by
  have hkept : w₀.Kept := hw.kept
  have hkeeps : w₀.vault.Keeps w.vault := hsteps.keeps hkept
  have hsourced : w.vault.Sourced := (hw.steps hsteps).sourced.vault
  obtain ⟨last, hlast⟩ := hsourced.exists_last
  refine ⟨last, hlast, ?_⟩
  -- An affected unit of the session has its storage still.
  have hspec : ∀ id s l u k, w₀.scope? id = some s → get? s.storages l = some (u, k) →
      ((∃ e, w.vault.compared (w₀.slotAt s (u, k)) = .error e) ↔ w.vault.Unclear last k) ∧
        ∀ more, w.vault.compared (w₀.slotAt s (u, k)) = .ok more → ∀ n, n ∈ more ↔
          (∃ e, get? s.components n = some e ∧ e.storage = k) ∧ w.vault.Changed last k n := by
    intro id s l u k hs hk
    obtain ⟨unit, hunit, _⟩ := Option.map_eq_some_iff.mp ((hkept.scope hs).located l u k hk)
    obtain ⟨st, hst, _⟩ := Vault.unit?_eq_some (hkeeps k unit hunit)
    have hslot : w.vault.storage? (w₀.slotAt s (u, k)).storage = some st := hst
    have hcompared := Vault.compared_spec hfaithful hslot (hlast k st hst)
    refine ⟨hcompared.1, fun more hmore n => ?_⟩
    rw [hcompared.2 more hmore n, mem_slotAt_iff hkept hs]
    rfl
  have hjudges := (SessionTree.analyze_judges changes (w₀.startSave root) w.vault).2
  have hstuck : (∃ slot e, SessionTree.Affected changes (w₀.startSave root).parts slot ∧
        w.vault.compared slot = .error e) ↔
      ∃ id k, w₀.AffectedStorage root changes id k ∧ w.vault.Unclear last k := by
    constructor
    · rintro ⟨slot, e, haffected, he⟩
      obtain ⟨id, s, l, u, k, hstorage, hs, hk, rfl⟩ := (affected_iff hkept).mp haffected
      exact ⟨id, k, hstorage, (hspec id s l u k hs hk).1.mp ⟨e, he⟩⟩
    · rintro ⟨id, k, hstorage, hunclear⟩
      have ⟨l, ⟨_, s, u, hs, hk⟩, _⟩ := hstorage
      obtain ⟨e, he⟩ := (hspec id s l u k hs hk).1.mpr hunclear
      exact ⟨_, e, (affected_iff hkept).mpr ⟨id, s, l, u, k, hstorage, hs, hk, rfl⟩, he⟩
  cases hverdict : ((w₀.startSave root).analyze changes w.vault).1 with
  | unreloadable =>
    rw [hverdict] at hjudges
    have hunclear := hstuck.mp hjudges
    exact ⟨iff_of_true rfl hunclear, fun hclear => absurd hunclear hclear⟩
  | reloadable names =>
    rw [hverdict] at hjudges
    obtain ⟨hok, hnames⟩ := hjudges
    refine ⟨iff_of_false (fun h => by cases h) ?_, fun _ => ⟨names, rfl, fun n => ?_⟩⟩
    · intro hunclear
      obtain ⟨slot, e, haffected, he⟩ := hstuck.mpr hunclear
      obtain ⟨more, hmore⟩ := hok slot haffected
      rw [hmore] at he
      cases he
    · rw [hnames]
      constructor
      · rintro (hnil | ⟨slot, more, haffected, hmore, hn⟩)
        · cases hnil
        · obtain ⟨id, s, l, u, k, hstorage, hs, hk, rfl⟩ := (affected_iff hkept).mp haffected
          obtain ⟨⟨e, he, hek⟩, hchanged⟩ := ((hspec id s l u k hs hk).2 more hmore n).mp hn
          exact ⟨id, k, s, e, hstorage, hs, he, hek, hchanged⟩
      · rintro ⟨id, k, s, e, hstorage, hs, he, hek, hchanged⟩
        have ⟨l, ⟨_, s', u, hs', hk⟩, _⟩ := hstorage
        obtain rfl : s' = s := Option.some.inj (hs'.symm.trans hs)
        have haffected := (affected_iff hkept).mpr ⟨id, s', l, u, k, hstorage, hs, hk, rfl⟩
        obtain ⟨more, hmore⟩ := hok _ haffected
        exact Or.inr ⟨_, more, haffected, hmore,
          ((hspec id s' l u k hs hk).2 more hmore n).mpr ⟨⟨e, he, hek⟩, hchanged⟩⟩

end Verdict

/-! ## 4. Edits for one scope and for another -/

/-- Two scopes share `/u.json`, and the one below has `/m.json` as well. -/
def ownedEvents : List (Action Memory) :=
  [.disturb fun m =>
      let first := m.putExternal ⟨"/u.json"⟩
        (Document.serialize [("a", .integer 1), ("b", .integer 1)])
      first.putExternal ⟨"/m.json"⟩ (Document.serialize [("c", .integer 1)]),
    .addScope "root" none 0, .addScope "m" none 0, .attach 0, .list 0 1,
    .addComponent { name := "a" }, .addComponent { name := "b" }, .addComponent { name := "c" },
    .register 0 0 "a" "/u.json", .register 1 1 "b" "/u.json", .register 1 2 "c" "/m.json"]

/-- What they lead to. -/
def owned : Workspace Memory Bytes := (start {}).run ownedEvents

/-- Both units are edited, and the second one is no document any more. -/
def ownedEdits : List (Action Memory) :=
  [.disturb fun m =>
      let first := m.putExternal ⟨"/u.json"⟩
        (Document.serialize [("a", .integer 2), ("b", .integer 2)])
      first.putExternal ⟨"/m.json"⟩ (Utf8.encode ['x'])]

/-- The first edit is noticed for the scope below, and the second one for the scope
above, which has nothing in that unit. -/
def ownedChanges : ChangeSet := ChangeSet.ofList [⟨⟨"/u.json"⟩, some 1⟩, ⟨⟨"/m.json"⟩, some 0⟩]

/-- The component of the scope below is named, and nothing else. -/
theorem analysis_by_owner :
    ∃ last : StorageId → Option Bytes,
      (¬ ∃ id k, owned.AffectedStorage 0 ownedChanges id k ∧
        (owned.run ownedEdits).vault.Unclear last k) ∧
      ∀ n, n = "b" ↔ ∃ id k s e, owned.AffectedStorage 0 ownedChanges id k ∧
        owned.scope? id = some s ∧ get? s.components n = some e ∧ e.storage = k ∧
        (owned.run ownedEdits).vault.Changed last k n := by
  have hreachable : owned.Reachable Action.Any :=
    ⟨{}, steps_run (fun _ _ => trivial) (by decide +kernel)⟩
  have hsteps : Steps Action.Any owned (owned.run ownedEdits) :=
    steps_run (fun _ _ => trivial) (by decide +kernel)
  have hverdict : ((owned.startSave 0).analyze ownedChanges (owned.run ownedEdits).vault).1
      = .reloadable ["b"] := by decide +kernel
  obtain ⟨last, _, hunclear, hnames⟩ :=
    analysis_exact Digest.faithful_bytes hreachable hsteps 0 ownedChanges
  have hclear : ¬ ∃ id k, owned.AffectedStorage 0 ownedChanges id k ∧
      (owned.run ownedEdits).vault.Unclear last k := by
    rw [← hunclear, hverdict]
    intro h
    cases h
  obtain ⟨names, hfound, hexact⟩ := hnames hclear
  obtain rfl : names = ["b"] := ExternalChanges.reloadable.inj (hfound.symm.trans hverdict)
  exact ⟨last, hclear, fun n => List.mem_singleton.symm.trans (hexact n)⟩

/-! ## 5. A write that is read back otherwise -/

/-- A scope saves a double that is not read back exactly. -/
def inexactEvents : List (Action Memory) :=
  [.addScope "root" none 0, .addComponent { name := "a" }, .register 0 0 "a" "/u.json",
    .edit 0 fun c => c.set (.float Parties.written), .save 0]

/-- What that leads to. -/
def inexact : Workspace Memory Bytes := (start {}).run inexactEvents

/-- **What was written is not looked at**, although the document on disk has
another entry than the one in memory. -/
theorem own_write_read_otherwise :
    inexact.Reachable Action.Any ∧
      inexact.AffectedStorage 0 (ChangeSet.ofList [⟨⟨"/u.json"⟩, none⟩]) 0 0 ∧
      ((inexact.startSave 0).analyze (ChangeSet.ofList [⟨⟨"/u.json"⟩, none⟩]) inexact.vault).1
        = .reloadable [] ∧
      inexact.unitOf? 0 "a" = some ⟨"/u.json"⟩ ∧
      ∃ s d, inexact.vault.storage? 0 = some s ∧
        Document.ofContent s.unit (inexact.vault.contents s.unit.location) = .ok d ∧
        Json.sameOption (get? s.snapshot.document "a") (get? d "a") = false := by
  have hmaps : inexact.Maps 0 0 (Path.location ⟨"/u.json"⟩) 0 :=
    maps_of_tree (by decide +kernel) (by decide +kernel)
  have hdiffers : ((inexact.vault.storage? 0).any fun s =>
      (Document.ofContent s.unit (inexact.vault.contents s.unit.location)).toOption.any fun d =>
        !Json.sameOption (get? s.snapshot.document "a") (get? d "a")) = true := by decide +kernel
  refine ⟨⟨{}, steps_run (fun _ _ => trivial) (by decide +kernel)⟩,
    ⟨_, hmaps, ⟨⟨"/u.json"⟩, none⟩, List.mem_singleton.mpr rfl, rfl, fun owner h => by cases h⟩,
    by decide +kernel, by decide +kernel, ?_⟩
  cases hs : inexact.vault.storage? 0 with
  | none =>
    rw [hs] at hdiffers
    cases hdiffers
  | some s =>
    rw [hs, Option.any_some] at hdiffers
    cases hd : Document.ofContent s.unit (inexact.vault.contents s.unit.location) with
    | error e =>
      rw [hd] at hdiffers
      cases hdiffers
    | ok d =>
      rw [hd] at hdiffers
      exact ⟨s, d, rfl, hd, (Bool.not_eq_true' _).mp hdiffers⟩

end Workspace

end ScopedState
