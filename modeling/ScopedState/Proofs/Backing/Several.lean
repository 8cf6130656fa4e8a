/-
`Proofs/Backing/Several.lean` -- files under several writes.

What one write leaves alone is told by the place that it puts the file in, and by that
of the temporary file. When writes follow one another, directories that one of them has
made may lead a later one somewhere else than before. But no directory ever goes, so
where a path has led a write, it leads in the end. That is where writes are compared: two
paths are told apart on the disk that all of them have left (`Disk.Touches`).

Two things are kept along the way. A file that no write touches stays (`Disk.SparedBy`).
And what has been stored for a component stays stored, as long as nobody else writes to
the file (`Turn.Stored`); the write may have its turn more than once, and is based on what
is there by then.
-/
import ScopedState.Proofs.Backing.Atomic
import ScopedState.Proofs.Storage.Files
set_option autoImplicit false

namespace ScopedState

open Bindings (Sorted get?)

/-! ## 1. Files that are touched -/

namespace Disk

variable {d d' d'' : Disk} {p q : Path} {place : Place} {bytes : Bytes} {P : Path → Prop}

/-- A path leads to a name in a directory that is there. -/
def Reaches (d : Disk) (p : Path) (place : Place) : Prop :=
  ∃ parent name, d.Seats p parent name ∧ place = parent ++ [name]

/-- **A write to one path touches another** if they are the same or lead to one file, or if
the other one leads to the temporary file of the write. -/
def Touches (d : Disk) (p q : Path) : Prop :=
  p = q ∨
    ∃ place, d.Reaches q place ∧ (d.Reaches p place ∨ d.Reaches (LocalFiles.temporary p) place)

theorem Reaches.of_extends (h : d.Reaches p place) (hext : d.Extends d') (hcwd : d'.cwd = d.cwd) :
    d'.Reaches p place := by
  obtain ⟨parent, name, hseats, hplace⟩ := h
  exact ⟨parent, name, hseats.of_extends hext hcwd, hplace⟩

theorem Touches.of_extends (h : d.Touches p q) (hext : d.Extends d') (hcwd : d'.cwd = d.cwd) :
    d'.Touches p q := by
  refine h.imp_right fun ⟨place, hq, hp⟩ => ⟨place, hq.of_extends hext hcwd, ?_⟩
  exact hp.imp (·.of_extends hext hcwd) (·.of_extends hext hcwd)

/-- **What writes to some paths leave alone**: directories stay, and so do files, unless
they are reached by one of the paths or by its temporary file. -/
structure SparedBy (d d' : Disk) (P : Path → Prop) : Prop where
  tree : d'.Tree
  cwd : d'.cwd = d.cwd
  directory : d.Extends d'
  file : ∀ place bytes readOnly, d.node? place = some (.file bytes readOnly) →
    d'.node? place = some (.file bytes readOnly) ∨
      ∃ p, P p ∧ (d'.Reaches p place ∨ d'.Reaches (LocalFiles.temporary p) place)

namespace SparedBy

theorem refl (hd : d.Tree) (P : Path → Prop) : SparedBy d d P :=
  ⟨hd, rfl, Extends.refl d, fun _ _ _ hfile => Or.inl hfile⟩

theorem trans (h : SparedBy d d' P) (h' : SparedBy d' d'' P) : SparedBy d d'' P where
  tree := h'.tree
  cwd := h'.cwd.trans h.cwd
  directory := h.directory.trans h'.directory
  file place bytes readOnly hfile := by
    rcases h.file place bytes readOnly hfile with hstays | ⟨p, hp, hreaches⟩
    · exact h'.file place bytes readOnly hstays
    · exact Or.inr ⟨p, hp, hreaches.imp (·.of_extends h'.directory h'.cwd)
        (·.of_extends h'.directory h'.cwd)⟩

/-- One write that succeeds is one of them. -/
theorem of_write (hd : d.Tree) (h : LocalFiles.writeAtomic d p bytes = (.ok (), d')) (hp : P p) :
    SparedBy d d' P := by
  obtain ⟨hread, _, written, hlocate, hspared⟩ := spared_of_ok hd h
  refine ⟨hspared.tree, hspared.cwd, hspared.directory, fun place bytes readOnly hfile => ?_⟩
  rcases hspared.file place bytes readOnly hfile with
    hstays | hwritten | ⟨_, home, name, hseats, hplace⟩
  · exact Or.inl hstays
  · obtain ⟨parent, name, _, hseats, hclosed, hnode⟩ := hspared.tree.seats_of_read hread
    have hfound := hseats.locate hclosed (by rw [hnode]; rfl)
    rw [hlocate, Option.some.inj hwritten] at hfound
    exact Or.inr ⟨p, hp, Or.inl ⟨parent, name, hseats, Except.ok.inj hfound⟩⟩
  · exact Or.inr ⟨p, hp, Or.inr ⟨home, name, hseats, hplace⟩⟩

/-- **A file reads as before** unless a write touches it. -/
theorem read (h : SparedBy d d' P) (hd : d.Tree) (hread : d.read q = .ok bytes) :
    d'.read q = .ok bytes ∨ ∃ p, P p ∧ d'.Touches p q := by
  obtain ⟨parent, name, readOnly, hseats, hclosed, hnode⟩ := hd.seats_of_read hread
  have hseats' := hseats.of_extends h.directory h.cwd
  rcases h.file _ bytes readOnly hnode with hstays | ⟨p, hp, hreaches⟩
  · exact Or.inl (hseats'.read hclosed hstays)
  · exact Or.inr ⟨p, hp, Or.inr ⟨_, ⟨parent, name, hseats', rfl⟩, hreaches⟩⟩

end SparedBy

end Disk

/-! ## 2. One write after the other -/

namespace Turn

open Disk (SparedBy)

variable {δ : Type} [DecidableEq δ] [Digest δ] {v : Vault LocalFiles δ} {x : StagedWrite δ}
  {ws : List (String × StagedWrite δ)}

/-- A turn that goes well leaves alone what its write does. -/
theorem spared_carryOut (hd : v.backing.disk.Tree) (hok : (v.carryOut x).1 = .ok ())
    {P : Path → Prop} (hx : P x.unit) :
    SparedBy v.backing.disk (v.carryOut x).2.backing.disk P := by
  rcases v.carryOut_cases x with
    ⟨_, hout⟩ | ⟨x', backing, hdue, hwrite, hout⟩ | ⟨_, _, e, _, _, hout⟩
  · rw [hout]
    exact SparedBy.refl hd P
  · rw [hout]
    rw [← Vault.rebase_unit hdue] at hx
    exact SparedBy.of_write hd (LocalFiles.write_eq_ok hwrite) hx
  · rw [hout] at hok
    cases hok

/-- The first turn goes well if all do. -/
theorem carryOut_ok {scope : String}
    (hok : ∀ t ∈ all ((scope, x) :: ws) v, t.answer = .ok ()) :
    (v.carryOut x).1 = .ok () ∧ ∀ t ∈ all ws (v.carryOut x).2, t.answer = .ok () :=
  ⟨(carryOut_outcome ⟨scope, x, v⟩).trans (hok _ List.mem_cons_self),
    fun t ht => hok t (List.mem_cons_of_mem _ ht)⟩

/-- **Turns that go well** leave alone what their writes do. -/
theorem spared_perform (hd : v.backing.disk.Tree) (hok : ∀ t ∈ all ws v, t.answer = .ok ())
    {P : Path → Prop} (hws : ∀ y ∈ ws, P y.2.unit) :
    SparedBy v.backing.disk (perform ws v).backing.disk P := by
  -- The paths lead somewhere on the last disk, so `trans` carries over what each turn did.
  induction ws generalizing v with
  | nil => exact SparedBy.refl hd P
  | cons y ws ih =>
    obtain ⟨scope, x⟩ := y
    obtain ⟨hfirst, hrest⟩ := carryOut_ok hok
    have hspared := spared_carryOut hd hfirst (P := P) (hws _ List.mem_cons_self)
    exact hspared.trans
      (ih hspared.tree hrest fun y hy => hws y (List.mem_cons_of_mem _ hy))

/-! ## 3. What is stored for a component -/

/-- **A component is stored** in a unit: it has the text of the document that is remembered
of it, and in that one the component has the value. -/
structure Stored (v : Vault LocalFiles δ) (k : StorageId) (unit : Path) (n : String)
    (value : Json) (e : Document) : Prop where
  sorted : Sorted e
  entry : get? e n = some value
  remembered : ∃ st, v.storage? k = some st ∧ st.snapshot.document = e
  text : v.backing.disk.read unit = .ok e.serialize

variable {k : StorageId} {st : Storage δ} {unit : Path} {states : States} {n : String}
  {value : Json} {e : Document}

/-- A draft that is not out of date is written as it is. -/
theorem rebase_draft (s : Snapshot δ) (states : States) :
    s.rebase (s.draft states) = some (s.draft states) := by
  rw [Snapshot.rebase_eq]
  exact if_pos rfl

omit [DecidableEq δ] in
/-- **What is written is stored**, if the value is among the states. -/
theorem stored_of_write (hd : v.backing.disk.Tree) {s : Snapshot δ} (hs : Sorted s.document)
    (hstates : Sorted states) (hvalue : get? states n = some (some value))
    (hk : (v.storage? k).isSome = true) {backing : LocalFiles}
    (hwrite : Backing.write v.backing unit (s.draft states).bytes = (.ok (), backing)) :
    Stored ({ v with backing }.commit ⟨k, unit, s.draft states⟩) k unit n value
      (s.draft states).document := by
  obtain ⟨t, ht⟩ := Option.isSome_iff_exists.mp hk
  refine
    { sorted := Document.sorted_merge hs states
      entry := ?_
      remembered := ⟨{ t with snapshot := Snapshot.ofDraft (s.draft states) }, ?_, rfl⟩
      text := (Disk.spared_of_ok hd (LocalFiles.write_eq_ok hwrite)).1 }
  · show get? (s.document.merge states) n = _
    rw [Document.get?_merge hstates, hvalue, Option.getD_some]
  · show (({ v with backing } : Vault LocalFiles δ).remember k _).storage? k = _
    rw [Vault.storage?_remember, if_pos rfl]
    exact congrArg (Option.map _) ht

/-- **The write of the component has its turn**, for the first time or again. -/
theorem stored_carryOut (hd : v.backing.disk.Tree) (hsorted : Sorted st.snapshot.document)
    (hstates : Sorted states) (hvalue : get? states n = some (some value))
    (hbefore : v.storage? k = some st ∨ ∃ e, Stored v k unit n value e)
    (hok : (v.carryOut ⟨k, unit, st.snapshot.draft states⟩).1 = .ok ()) :
    ∃ e, Stored (v.carryOut ⟨k, unit, st.snapshot.draft states⟩).2 k unit n value e := by
  have hk : (v.storage? k).isSome = true := by
    rcases hbefore with hst | ⟨_, h⟩
    · exact Option.isSome_iff_exists.mpr ⟨st, hst⟩
    · obtain ⟨t, ht, _⟩ := h.remembered
      exact Option.isSome_iff_exists.mpr ⟨t, ht⟩
  rcases v.carryOut_cases ⟨k, unit, st.snapshot.draft states⟩ with
    ⟨hnone, hout⟩ | ⟨x', backing, hdue, hwrite, hout⟩ | ⟨_, _, f, _, _, hout⟩
  · -- The first time there is something to write.
    rw [hout]
    refine hbefore.resolve_left fun hst => ?_
    rw [Vault.rebase, Vault.snapshot_eq hst, rebase_draft] at hnone
    cases hnone
  · obtain ⟨draft, hdraft, rfl⟩ := Vault.rebase_eq_some hdue
    -- What is written are the states, on top of what was there when they were staged or is now.
    obtain ⟨s, hs, rfl⟩ : ∃ s : Snapshot δ, Sorted s.document ∧ draft = s.draft states := by
      rcases hbefore with hst | ⟨e, h⟩
      · rw [Vault.snapshot_eq hst, rebase_draft] at hdraft
        exact ⟨_, hsorted, (Option.some.inj hdraft).symm⟩
      · obtain ⟨t, ht, hdocument⟩ := h.remembered
        rw [Vault.snapshot_eq ht, Snapshot.rebase_eq] at hdraft
        split at hdraft
        · exact ⟨_, hsorted, (Option.some.inj hdraft).symm⟩
        · exact ⟨_, hdocument ▸ h.sorted, (Snapshot.stage_eq_some hdraft).1⟩
    rw [hout]
    exact ⟨_, stored_of_write hd hs hstates hvalue hk hwrite⟩
  · rw [hout] at hok
    cases hok

/-- A turn of somebody else leaves it stored. -/
theorem Stored.carryOut_other (h : Stored v k unit n value e) (hd : v.backing.disk.Tree)
    (hk : x.storage ≠ k) (hok : (v.carryOut x).1 = .ok ())
    (hapart : ¬ (v.carryOut x).2.backing.disk.Touches x.unit unit) :
    Stored (v.carryOut x).2 k unit n value e := by
  have hspared := spared_carryOut hd hok (P := (· = x.unit)) rfl
  refine ⟨h.sorted, h.entry, by rw [v.storage?_carryOut_other hk]; exact h.remembered, ?_⟩
  refine (hspared.read hd h.text).resolve_right ?_
  rintro ⟨_, rfl, htouches⟩
  exact hapart htouches

/-- **A component is stored in the end** if its write has a turn, no other turn is for its
storage, and no other write touches the unit. -/
theorem stored_perform (hd : v.backing.disk.Tree) (hsorted : Sorted st.snapshot.document)
    (hstates : Sorted states) (hvalue : get? states n = some (some value))
    (hok : ∀ t ∈ all ws v, t.answer = .ok ())
    (hbefore : (∃ e, Stored v k unit n value e) ∨
      v.storage? k = some st ∧ ∃ y ∈ ws, y.2 = ⟨k, unit, st.snapshot.draft states⟩)
    (hothers : ∀ y ∈ ws, y.2 = ⟨k, unit, st.snapshot.draft states⟩ ∨
      y.2.storage ≠ k ∧ ¬ (perform ws v).backing.disk.Touches y.2.unit unit) :
    ∃ e, Stored (perform ws v) k unit n value e := by
  -- Either the write has had its turn and the value is stored, or the storage is as it was
  -- when the write was staged and the turn is still to come.
  induction ws generalizing v with
  | nil =>
    refine hbefore.resolve_right ?_
    rintro ⟨_, y, hy, _⟩
    cases hy
  | cons y ws ih =>
    obtain ⟨scope, x⟩ := y
    obtain ⟨hfirst, hrest⟩ := carryOut_ok hok
    have hspared := spared_carryOut hd hfirst (P := fun _ => True) trivial
    have hlater := spared_perform hspared.tree hrest (P := fun _ => True) fun _ _ => trivial
    refine ih hspared.tree hrest ?_ fun y hy => hothers y (List.mem_cons_of_mem _ hy)
    rcases hothers _ List.mem_cons_self with hmine | ⟨hk, hapart⟩
    · obtain rfl : x = _ := hmine
      exact Or.inl (stored_carryOut hd hsorted hstates hvalue
        (hbefore.symm.imp_left fun h => h.1) hfirst)
    · rcases hbefore with ⟨e, h⟩ | ⟨hst, y, hy, hmine⟩
      · exact Or.inl ⟨e, h.carryOut_other hd hk hfirst fun htouches =>
          hapart (htouches.of_extends hlater.directory hlater.cwd)⟩
      · refine Or.inr ⟨(v.storage?_carryOut_other hk).trans hst, y, ?_, hmine⟩
        rcases List.mem_cons.mp hy with rfl | hy
        · exact absurd (congrArg StagedWrite.storage hmine) hk
        · exact hy

end Turn

end ScopedState
