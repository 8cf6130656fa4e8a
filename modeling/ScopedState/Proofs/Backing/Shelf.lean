/-
`Proofs/Backing/Shelf.lean` -- files that are a lawful store.

Files are not quite a lawful store: a write passes through a temporary file beside the
unit, and some other unit may be kept just there. But that is the only thing in the way.
As long as no unit is in the place of the temporary file of another one, a write touches
its own unit and no other, whether it succeeds or fails, and wherever it stops.

A shelf is a directory tree in order together with units that are apart in this way, and
it takes calls on these units only. Nothing else about the disk is asked for: there may be
a directory in the place of a unit, or a file on the way to it, and then the calls on this
unit are refused. What the files answer is what the shelf answers, so it stands for them
(`Shelf.standsFor`), and it is lawful.
-/
import ScopedState.Proofs.Backing
import ScopedState.Proofs.Backing.Atomic
import ScopedState.Proofs.Backing.Contract
set_option autoImplicit false

namespace ScopedState

/-! ## 1. Units that are apart -/

namespace Disk

variable {d d' : Disk} {units : List Path} {u v : Path} {bytes : Bytes}

/-- **Units that are apart**: each at a path that a file can be kept at, each at a place of
its own, and no temporary file in the place of a unit. -/
structure Shelvable (d : Disk) (units : List Path) : Prop where
  fit : ∀ u ∈ units, Keepable u
  single : ∀ u ∈ units, ∀ v ∈ units, d.spot u = d.spot v → u.location = v.location
  notTemporary : ∀ u ∈ units, ∀ v ∈ units, d.spot (LocalFiles.temporary u) ≠ d.spot v

example : Shelvable { nodes := [(["p"], .directory)] } [⟨"/p/a.json"⟩, ⟨"/p/q/b.json"⟩] :=
  ⟨by decide +kernel, by decide +kernel, by decide +kernel⟩

/-- Units that can be kept side by side are apart. -/
theorem Separate.shelvable (h : Separate d units) : d.Shelvable units :=
  ⟨h.fit, h.single, fun u hu v hv heq => h.notTemporary u hu v hv (heq ▸ List.prefix_refl _)⟩

theorem Shelvable.congr (h : d.Shelvable units) (hcwd : d'.cwd = d.cwd) : d'.Shelvable units := by
  refine ⟨h.fit, fun u hu v hv => ?_, fun u hu v hv => ?_⟩
  · rw [spot_congr hcwd, spot_congr hcwd]
    exact h.single u hu v hv
  · rw [spot_congr hcwd, spot_congr hcwd]
    exact h.notTemporary u hu v hv

/-- A tree stays in order under a write, whatever becomes of it. -/
theorem Spared.ready {written : Option Place} (h : Spared d d' u written) (hd : d.Ready) :
    d'.Ready :=
  ⟨h.tree, by rw [h.cwd]; exact h.directory _ hd.cwd⟩

/-- **A write leaves the content of a unit alone** unless it is the one that is written. -/
theorem Shelvable.contentAt_of_spared (hunits : d.Shelvable units) (hu : u ∈ units) (hv : v ∈ units)
    {written : Option Place} (h : Spared d d' u written)
    (hother : ∀ place, written = some place → place ≠ d.spot v) :
    d'.contentAt (d'.spot v) = d.contentAt (d.spot v) := by
  rw [spot_congr h.cwd]
  cases hnode : d.node? (d.spot v) with
  | none =>
    -- Where nothing was there may be a directory now, which has no content.
    rw [contentAt, contentAt, hnode]
    rcases h.made _ hnode with hmissing | hwritten | ⟨hdirectory, _⟩
    · rw [hmissing]
    · exact absurd rfl (hother _ hwritten)
    · rw [hdirectory]
  | some node =>
    cases node with
    | directory => rw [contentAt, contentAt, hnode, h.directory _ hnode]
    | file bytes readOnly =>
      rcases h.file _ bytes readOnly hnode with hsame | hwritten | ⟨_, home, name, hseats, hplace⟩
      · rw [contentAt, contentAt, hnode, hsame]
      · exact absurd rfl (hother _ hwritten)
      · -- The file that has gone was the temporary one, and no unit is in its place.
        have htemporary := (hunits.fit u hu).beside.spot_eq hseats
        rw [spot_congr h.cwd, ← hplace] at htemporary
        exact absurd htemporary (hunits.notTemporary u hu v hv)

end Disk

namespace LocalFiles

open Disk

variable {l : LocalFiles} {u : Path} {bytes : Bytes} {content : Option Bytes}

/-- **What is read** is the content at the place of the unit, if anything is. -/
theorem eq_contentAt_of_read (hd : l.disk.Ready) (hu : Keepable u) (h : l.read u = .ok content) :
    content = l.disk.contentAt (l.disk.spot u) := by
  cases content with
  | some bytes =>
    obtain ⟨parent, name, readOnly, hseats, _, hnode⟩ :=
      hd.tree.seats_of_read (read_eq_some_iff.mp h)
    rw [hu.literal.spot_eq hseats, contentAt_eq_some.mpr ⟨readOnly, hnode⟩]
  | none =>
    obtain ⟨parent, name, hspot, _, hpoints, _⟩ := hu.points l.disk
    rw [hspot]
    cases hcontent : l.disk.contentAt (parent ++ [name]) with
    | none => rfl
    | some bytes =>
      have hread := hpoints.read_ok hd hcontent
      rw [read_eq_none_iff.mp h] at hread
      cases hread

/-- What a write leaves alone, by its outcome. -/
theorem spared_of_write (hd : l.disk.Tree) (u : Path) (bytes : Bytes) :
    ∃ written, Spared l.disk (l.write u bytes).2.disk u written ∧
      ((l.write u bytes).1 = .ok () → ∃ place, written = some place ∧
        (l.write u bytes).2.disk.locate u = .ok place ∧
        (l.write u bytes).2.disk.read u = .ok bytes) ∧
      ∀ e, (l.write u bytes).1 = .error e → written = none := by
  unfold LocalFiles.write
  split
  · rename_i d' hwrite
    obtain ⟨hread, _, place, hlocate, hspared⟩ := spared_of_ok hd hwrite
    exact ⟨some place, hspared, fun _ => ⟨place, rfl, hlocate, hread⟩, nofun⟩
  · rename_i e d' hwrite
    exact ⟨none, spared_of_error hd hwrite, nofun, fun _ _ => rfl⟩

/-- Calls on files keep the directory tree in order, and its working directory. -/
theorem ready_write (hd : l.disk.Ready) (u : Path) (bytes : Bytes) :
    (l.write u bytes).2.disk.Ready ∧ (l.write u bytes).2.disk.cwd = l.disk.cwd := by
  obtain ⟨written, hspared, _⟩ := spared_of_write hd.tree u bytes
  exact ⟨hspared.ready hd, hspared.cwd⟩

theorem ready_delete (hd : l.disk.Ready) (u : Path) :
    (l.delete u).2.disk.Ready ∧ (l.delete u).2.disk.cwd = l.disk.cwd := by
  unfold LocalFiles.delete
  split
  · rename_i d' hremove
    obtain ⟨parent, name, _, hfree, rfl⟩ := remove_eq_ok hremove
    exact ⟨hd.drop_file hfree, rfl⟩
  · exact ⟨hd, rfl⟩
  · exact ⟨hd, rfl⟩

end LocalFiles

/-! ## 2. Shelves -/

/-- **Files on a shelf**: a directory tree in order, and units that are apart in it. -/
structure Shelf (units : List Path) where
  files : LocalFiles
  ready : files.disk.Ready
  shelvable : files.disk.Shelvable units

namespace Shelf

variable {units : List Path}

/-- How a call on a unit that is not on the shelf is refused. -/
def refusal (u : Path) : Failure := .backing u "not on the shelf"

/-- Other files, if they are in order and the working directory is the same. -/
def withFiles (s : Shelf units) (l : LocalFiles)
    (h : l.disk.Ready ∧ l.disk.cwd = s.files.disk.cwd) : Shelf units :=
  ⟨l, h.1, s.shelvable.congr h.2⟩

def read (s : Shelf units) (u : Path) : Except Failure (Option Bytes) :=
  if u ∈ units then s.files.read u else .error (refusal u)

def write (s : Shelf units) (u : Path) (bytes : Bytes) : Outcome × Shelf units :=
  if u ∈ units then
    ((s.files.write u bytes).1,
      s.withFiles (s.files.write u bytes).2 (LocalFiles.ready_write s.ready u bytes))
  else (.error (refusal u), s)

def delete (s : Shelf units) (u : Path) : Outcome × Shelf units :=
  if u ∈ units then
    ((s.files.delete u).1, s.withFiles (s.files.delete u).2 (LocalFiles.ready_delete s.ready u))
  else (.error (refusal u), s)

def isWritable (s : Shelf units) (u : Path) : Bool := s.files.isWritable u

open Classical in
/-- Somebody else changes the files. What would leave them in disorder is not done to a
shelf. -/
noncomputable def disturb (change : LocalFiles → LocalFiles) (s : Shelf units) : Shelf units :=
  if h : (change s.files).disk.Ready ∧ (change s.files).disk.cwd = s.files.disk.cwd then
    s.withFiles (change s.files) h
  else s

theorem files_disturb {change : LocalFiles → LocalFiles} {s : Shelf units}
    (h : (change s.files).disk.Ready ∧ (change s.files).disk.cwd = s.files.disk.cwd) :
    (s.disturb change).files = change s.files := by
  rw [disturb, dif_pos h]
  rfl

instance : Backing (Shelf units) where
  read := read
  write := write
  delete := delete
  isWritable := isWritable

/-- What is at a location: the content of the unit that is there. -/
def contents (s : Shelf units) (l : Location) : Option Bytes :=
  (units.find? fun u => u.location = l).bind fun u => s.files.disk.contentAt (s.files.disk.spot u)

/-- At a location there is a unit, and nothing otherwise. -/
theorem contents_cases (units : List Path) (l : Location) :
    (∀ u ∈ units, u.location ≠ l) ∧ (∀ s : Shelf units, s.contents l = none) ∨
      ∃ v ∈ units, v.location = l ∧
        ∀ s : Shelf units, s.contents l = s.files.disk.contentAt (s.files.disk.spot v) := by
  cases hfound : units.find? fun v => v.location = l with
  | none =>
    refine Or.inl ⟨fun u hu hl => ?_, fun s => by rw [contents, hfound, Option.bind_none]⟩
    exact List.find?_eq_none.mp hfound u hu (decide_eq_true hl)
  | some v =>
    have hlocation : v.location = l := by simpa using List.find?_some hfound
    refine Or.inr ⟨v, List.mem_of_find?_eq_some hfound, hlocation, fun s => ?_⟩
    rw [contents, hfound, Option.bind_some]

/-- The content of a unit does not depend on how its path is written. -/
theorem contents_of_mem (s : Shelf units) {u : Path} (hu : u ∈ units) :
    s.contents u.location = s.files.disk.contentAt (s.files.disk.spot u) := by
  rcases contents_cases units u.location with ⟨hnone, _⟩ | ⟨v, _, hlocation, hcontents⟩
  · exact absurd rfl (hnone u hu)
  · rw [hcontents, Disk.spot_eq_of_location hlocation]

/-- Files with the same content at each unit have the same contents. -/
theorem contents_congr (s : Shelf units) {s' : Shelf units}
    (h : ∀ u ∈ units, s'.files.disk.contentAt (s'.files.disk.spot u)
      = s.files.disk.contentAt (s.files.disk.spot u)) (l : Location) :
    s'.contents l = s.contents l := by
  rcases contents_cases units l with ⟨_, hnone⟩ | ⟨v, hv, _, hcontents⟩
  · rw [hnone, hnone]
  · rw [hcontents, hcontents]
    exact h v hv

theorem read_ok {s : Shelf units} {u : Path} {content : Option Bytes}
    (h : s.read u = .ok content) : content = s.contents u.location := by
  unfold read at h
  split at h
  · rename_i hu
    rw [s.contents_of_mem hu]
    exact LocalFiles.eq_contentAt_of_read s.ready (s.shelvable.fit u hu) h
  · cases h

/-- **A write that succeeds** replaces the content of its unit and of no other. -/
theorem contents_write {s s' : Shelf units} {u : Path} {bytes : Bytes}
    (h : s.write u bytes = (.ok (), s')) (l : Location) :
    s'.contents l = if l = u.location then some bytes else s.contents l := by
  unfold write at h
  split at h
  · rename_i hu
    obtain ⟨hok, rfl⟩ := Prod.mk.inj h
    obtain ⟨written, hspared, hwritten, _⟩ := LocalFiles.spared_of_write s.ready.tree u bytes
    obtain ⟨place, rfl, hlocate, hread⟩ := hwritten hok
    have hplace : place = s.files.disk.spot u := by
      rw [(s.shelvable.fit u hu).literal.eq_spot hlocate, Disk.spot_congr hspared.cwd]
    split
    · rename_i hl
      rw [hl, contents_of_mem _ hu]
      exact (LocalFiles.eq_contentAt_of_read (LocalFiles.ready_write s.ready u bytes).1
        (s.shelvable.fit u hu) (LocalFiles.read_eq_some_iff.mpr hread)).symm
    · rename_i hl
      rcases contents_cases units l with ⟨_, hnone⟩ | ⟨v, hv, hlocation, hcontents⟩
      · rw [hnone, hnone]
      · -- Two units at different locations are at different places.
        have hne : place ≠ s.files.disk.spot v := by
          intro heq
          exact hl (hlocation.symm.trans (s.shelvable.single v hv u hu (heq.symm.trans hplace)))
        rw [hcontents, hcontents]
        exact s.shelvable.contentAt_of_spared hu hv hspared fun _ heq => Option.some.inj heq ▸ hne
  · cases (Prod.mk.inj h).1

/-- **A write that fails** replaces nothing. -/
theorem contents_write_refused {s s' : Shelf units} {u : Path} {bytes : Bytes} {e : Failure}
    (h : s.write u bytes = (.error e, s')) (l : Location) : s'.contents l = s.contents l := by
  unfold write at h
  split at h
  · rename_i hu
    obtain ⟨hfails, rfl⟩ := Prod.mk.inj h
    obtain ⟨written, hspared, _, hnone⟩ := LocalFiles.spared_of_write s.ready.tree u bytes
    obtain rfl := hnone e hfails
    refine s.contents_congr (fun v hv => ?_) l
    exact s.shelvable.contentAt_of_spared hu hv hspared fun _ heq => nomatch heq
  · rw [(Prod.mk.inj h).2]

instance : LawfulBacking (Shelf units) where
  contents := contents
  read_ok h := read_ok h
  write_ok h := contents_write h
  write_error h := contents_write_refused h

/-- **A shelf stands for its files** at its units. -/
theorem standsFor (units : List Path) :
    Backing.StandsFor (Shelf.files : Shelf units → LocalFiles) (· ∈ units) where
  read s u hu := (if_pos hu).symm
  write s u bytes hu := by
    have hwrite : Backing.write s u bytes = _ := if_pos hu
    rw [hwrite]
    rfl
  isWritable _ _ _ := rfl
  refuses s u hu := ⟨Shelf.refusal u, if_neg hu⟩

end Shelf

end ScopedState
