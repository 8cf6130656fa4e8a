/-
`Proofs/Backing/Contract.lean` -- units as files and units in memory.

The two stores are asked the same things. As long as nothing stands in the way of
a unit on disk, each call on one answers what it answers on the other, except that
the permission of a file protects it from neither a write nor a deletion. A write
puts another file in the place of the old one, and the new file can be written
again. So the files behave like the units in memory would if a unit lost its
read-only mark whenever it is to be changed (`Memory.yield`).

The argument is a simulation. What the two states have in common (`Mirrors`) is
the content of each unit and whether it is protected. A change of one unit touches
the place of the unit, the place beside it, and directories above it (`Changed`).
None of that is another unit's place or stands above one, if no unit is named like
the directory or the temporary file of another.
-/
import ScopedState.Backing.Memory
import ScopedState.Proofs.Disk.Access
set_option autoImplicit false

namespace ScopedState

namespace Backing

/-! ## 1. Calls and answers -/

/-- A call on a unit. -/
inductive Call where
  | read (unit : Path)
  | write (unit : Path) (bytes : Bytes)
  | delete (unit : Path)
  | isWritable (unit : Path)

/-- The unit that is called on. -/
def Call.unit : Call → Path
  | read unit => unit
  | write unit _ => unit
  | delete unit => unit
  | isWritable unit => unit

/-- Whether a call is to change its unit. -/
def Call.changes : Call → Bool
  | read _ => false
  | write _ _ => true
  | delete _ => true
  | isWritable _ => false

/-- What a call answers, whatever the text of a failure. -/
inductive Answer where
  | content (content : Option Bytes)
  | done
  | forecast (writable : Bool)
  | failed
  deriving DecidableEq

/-- The answer of a change. -/
def answerOf : Outcome → Answer
  | .ok () => .done
  | .error _ => .failed

section Run

variable {β : Type} [Backing β]

/-- Carry out one call. -/
def call (b : β) : Call → Answer × β
  | .read unit =>
    (match Backing.read b unit with
      | .ok content => .content content
      | .error _ => .failed, b)
  | .write unit bytes =>
    let out := Backing.write b unit bytes
    (answerOf out.1, out.2)
  | .delete unit =>
    let out := Backing.delete b unit
    (answerOf out.1, out.2)
  | .isWritable unit => (.forecast (Backing.isWritable b unit), b)

/-- Carry out calls in turn. -/
def run (b : β) : List Call → List Answer × β
  | [] => ([], b)
  | c :: calls =>
    let rest := run (call b c).2 calls
    ((call b c).1 :: rest.1, rest.2)

end Run

end Backing

open Backing (Call Answer)

namespace Memory

/-- Take the mark off a unit that is to be changed. -/
def yield (m : Memory) (c : Call) : Memory :=
  if c.changes then m.setReadOnly c.unit false else m

/-- Carry out calls in turn, where no unit is protected from being changed. -/
def runYielding (m : Memory) : List Call → List Answer × Memory
  | [] => ([], m)
  | c :: calls =>
    let rest := runYielding (Backing.call (m.yield c) c).2 calls
    ((Backing.call (m.yield c) c).1 :: rest.1, rest.2)

end Memory

namespace Disk

variable {d d' : Disk} {m : Memory} {units : List Path} {u v : Path}

/-! ## 2. Units that keep out of each other's way -/

/-- **Units that can be kept side by side**: each at a path that a file can be kept
at, each at a place of its own, none above another one, and no temporary file in
the place of a unit or above one. -/
structure Separate (d : Disk) (units : List Path) : Prop where
  fit : ∀ u ∈ units, Keepable u
  single : ∀ u ∈ units, ∀ v ∈ units, d.spot u = d.spot v → u.location = v.location
  notAbove : ∀ u ∈ units, ∀ v ∈ units, d.spot u <+: d.spot v → d.spot u = d.spot v
  notTemporary : ∀ u ∈ units, ∀ v ∈ units, ¬ d.spot (LocalFiles.temporary u) <+: d.spot v

/-- **Nothing is in the way** of the units: there are only directories above them,
each is a file or nothing, and so is its temporary file, which may be written. -/
structure Unobstructed (d : Disk) (units : List Path) : Prop where
  ready : d.Ready
  above : ∀ u ∈ units, d.Open (d.spot u).dropLast
  free : ∀ u ∈ units, d.node? (d.spot u) ≠ some .directory
  beside : ∀ u ∈ units, d.node? (d.spot (LocalFiles.temporary u)) ≠ some .directory
  loose : ∀ u ∈ units, d.lockedAt (d.spot (LocalFiles.temporary u)) = false

theorem spot_congr (hcwd : d'.cwd = d.cwd) (p : Path) : d'.spot p = d.spot p := by
  rw [spot, spot, Disk.start, Disk.start, hcwd]

/-- Units at one location are one file. -/
theorem spot_eq_of_location (h : u.location = v.location) (d : Disk) : d.spot u = d.spot v := by
  obtain ⟨habsolute, hnames⟩ := names_eq_of_location h
  rw [spot, spot, hnames, start_congr habsolute]

theorem Separate.congr (h : Separate d units) (hcwd : d'.cwd = d.cwd) : Separate d' units := by
  refine ⟨h.fit, ?_, ?_, ?_⟩
  · intro u hu v hv
    rw [spot_congr hcwd, spot_congr hcwd]
    exact h.single u hu v hv
  · intro u hu v hv
    rw [spot_congr hcwd, spot_congr hcwd]
    exact h.notAbove u hu v hv
  · intro u hu v hv
    rw [spot_congr hcwd, spot_congr hcwd]
    exact h.notTemporary u hu v hv

/-- **One unit was changed**: there is a file without protection in its place, or
nothing; its temporary file is as it was, or gone; directories were made above. -/
structure Changed (d d' : Disk) (u : Path) (content : Option Bytes) : Prop where
  ready : d'.Ready
  cwd : d'.cwd = d.cwd
  content : d'.contentAt (d.spot u) = content
  free : d'.node? (d.spot u) ≠ some .directory
  loose : d'.lockedAt (d.spot u) = false
  beside : d'.node? (d.spot (LocalFiles.temporary u))
      = d.node? (d.spot (LocalFiles.temporary u)) ∨
    d'.node? (d.spot (LocalFiles.temporary u)) = none
  other : ∀ q, q ≠ d.spot u → q ≠ d.spot (LocalFiles.temporary u) → d'.node? q = d.node? q ∨
    (d'.node? q = some .directory ∧ q <+: (d.spot u).dropLast)

/-- What another unit finds after a change: at its place everything is as before, and
above it directories may have been made. -/
theorem Changed.node?_of_unit {content : Option Bytes} (h : Changed d d' u content)
    (hapart : Separate d units) (hu : u ∈ units) (hv : v ∈ units) (hne : d.spot v ≠ d.spot u) :
    d'.node? (d.spot v) = d.node? (d.spot v) := by
  have hbeside : d.spot v ≠ d.spot (LocalFiles.temporary u) :=
    fun heq => hapart.notTemporary u hu v hv (heq ▸ List.prefix_refl _)
  refine (h.other _ hne hbeside).resolve_right fun ⟨_, hbegins⟩ => hne ?_
  exact hapart.notAbove v hv u hu (hbegins.trans (List.dropLast_prefix _))

/-- No other temporary file comes about by a change. -/
theorem Changed.node?_of_temporary {content : Option Bytes} (h : Changed d d' u content)
    (hapart : Separate d units) (hu : u ∈ units) (hv : v ∈ units) :
    d'.node? (d.spot (LocalFiles.temporary v)) = d.node? (d.spot (LocalFiles.temporary v)) ∨
      d'.node? (d.spot (LocalFiles.temporary v)) = none := by
  by_cases heq : d.spot (LocalFiles.temporary v) = d.spot (LocalFiles.temporary u)
  · rw [heq]
    exact h.beside
  · have hunit : d.spot (LocalFiles.temporary v) ≠ d.spot u :=
      fun heq => hapart.notTemporary v hv u hu (heq ▸ List.prefix_refl _)
    refine Or.inl ((h.other _ hunit heq).resolve_right fun ⟨_, hbegins⟩ => ?_)
    exact hapart.notTemporary v hv u hu (hbegins.trans (List.dropLast_prefix _))

/-- **A change of one unit obstructs no other.** -/
theorem Changed.unobstructed {content : Option Bytes} (h : Changed d d' u content)
    (hapart : Separate d units) (hclear : Unobstructed d units) (hu : u ∈ units) :
    Unobstructed d' units := by
  refine ⟨h.ready, fun v hv q hq => ?_, fun v hv => ?_, fun v hv => ?_, fun v hv => ?_⟩
  · -- Above a unit there is neither a unit nor a temporary file.
    rw [spot_congr h.cwd] at hq
    have habove : q <+: d.spot v := hq.trans (List.dropLast_prefix _)
    have hunit : q ≠ d.spot u := by
      rintro rfl
      have heq := hapart.notAbove u hu v hv habove
      obtain ⟨parent, name, hspot, _, _⟩ := (hapart.fit u hu).points d
      rw [← heq, hspot, List.dropLast_concat] at hq
      exact absurd hq.length_le (by simp)
    have hbeside : q ≠ d.spot (LocalFiles.temporary u) := by
      rintro rfl
      exact hapart.notTemporary u hu v hv habove
    rcases h.other q hunit hbeside with hsame | ⟨hmade, _⟩
    · rw [hsame]
      exact hclear.above v hv q hq
    · exact Or.inr hmade
  · -- Where a unit was changed there is a file or nothing.
    rw [spot_congr h.cwd]
    by_cases heq : d.spot v = d.spot u
    · rw [heq]
      exact h.free
    · rw [h.node?_of_unit hapart hu hv heq]
      exact hclear.free v hv
  · rw [spot_congr h.cwd]
    rcases h.node?_of_temporary hapart hu hv with hsame | hnone
    · rw [hsame]
      exact hclear.beside v hv
    · rw [hnone]
      exact fun hdirectory => by cases hdirectory
  · rw [spot_congr h.cwd, lockedAt]
    rcases h.node?_of_temporary hapart hu hv with hsame | hnone
    · rw [hsame]
      exact hclear.loose v hv
    · rw [hnone]

end Disk

namespace LocalFiles

open Disk

variable {l : LocalFiles} {m : Memory} {units : List Path} {u v : Path} {bytes : Bytes}

/-! ## 3. Each call on files -/

theorem open_above {parent : Place} {name : String} (hclear : Unobstructed l.disk units)
    (hu : u ∈ units) (hspot : l.disk.spot u = parent ++ [name]) : l.disk.Open parent := by
  have habove := hclear.above u hu
  rwa [hspot, List.dropLast_concat] at habove

/-- Where there is no directory and no content there is nothing. -/
theorem node?_of_contentAt {d : Disk} {place : Place} (hfree : d.node? place ≠ some .directory)
    (hcontent : d.contentAt place = none) : d.node? place = none := by
  cases hnode : d.node? place with
  | none => rfl
  | some node =>
    cases node with
    | directory => exact absurd hnode hfree
    | file bytes readOnly =>
      rw [contentAt_eq_some.mpr ⟨readOnly, hnode⟩] at hcontent
      cases hcontent

/-- **A read** answers the content of the file. -/
theorem read_eq (hfit : Keepable u) (hclear : Unobstructed l.disk units) (hu : u ∈ units) :
    l.read u = .ok (l.disk.contentAt (l.disk.spot u)) := by
  obtain ⟨parent, name, hspot, _, hpoints, _⟩ := hfit.points l.disk
  have hfree := hclear.free u hu
  rw [hspot] at hfree ⊢
  unfold LocalFiles.read
  cases hcontent : l.disk.contentAt (parent ++ [name]) with
  | some bytes => rw [hpoints.read_ok hclear.ready hcontent]
  | none =>
    have hnone := node?_of_contentAt hfree hcontent
    rw [hpoints.read_missing hclear.ready (open_above hclear hu hspot) hnone]

/-- **The forecast** is about the permission of the file. -/
theorem isWritable_eq (hfit : Keepable u) (hclear : Unobstructed l.disk units) (hu : u ∈ units) :
    l.isWritable u = !l.disk.lockedAt (l.disk.spot u) := by
  obtain ⟨parent, name, hspot, _, hpoints, _⟩ := hfit.points l.disk
  have hfree := hclear.free u hu
  rw [hspot] at hfree ⊢
  unfold LocalFiles.isWritable lockedAt
  cases hnode : l.disk.node? (parent ++ [name]) with
  | none => rw [hpoints.stat_missing hclear.ready (open_above hclear hu hspot) hnode]; rfl
  | some node =>
    rw [hpoints.stat_ok hclear.ready hnode]
    cases node with
    | directory => exact absurd hnode hfree
    | file bytes readOnly => rfl

/-- **A write comes to pass**, whatever the permission of the file. -/
theorem write_changed (hfit : Keepable u) (hclear : Unobstructed l.disk units) (hu : u ∈ units)
    (bytes : Bytes) :
    ∃ l', l.write u bytes = (.ok (), l') ∧ Changed l.disk l'.disk u (some bytes) := by
  obtain ⟨parent, name, hspot, hspot', hpoints, _⟩ := hfit.points l.disk
  have hfree := hclear.free u hu
  have hbeside := hclear.beside u hu
  have hloose := hclear.loose u hu
  rw [hspot] at hfree
  rw [hspot'] at hbeside hloose
  obtain ⟨d', hwrite, hput⟩ := writeAtomic_ok hclear.ready hfit hspot
    (open_above hclear hu hspot) hfree hbeside hloose bytes
  -- The new file was the temporary one, which anybody may write.
  refine ⟨{ l with disk := d', writes := l.writes + 1 }, by simp only [LocalFiles.write, hwrite],
    hput.ready, hput.cwd, ?_, ?_, ?_, ?_, fun q hq hq' => ?_⟩
  · rw [hspot]
    exact contentAt_eq_some.mpr ⟨false, hput.file⟩
  · rw [hspot, hput.file]
    exact fun hdirectory => by cases hdirectory
  · rw [hspot, lockedAt, hput.file]
  · rw [hspot']
    exact Or.inr hput.temporary
  · rw [hspot] at hq ⊢
    rw [hspot'] at hq'
    rw [List.dropLast_concat]
    exact hput.other q hq hq'

/-- **A deletion comes to pass**, whatever the permission of the file. -/
theorem delete_changed (hfit : Keepable u) (hclear : Unobstructed l.disk units) (hu : u ∈ units) :
    ∃ l', l.delete u = (.ok (), l') ∧ Changed l.disk l'.disk u none := by
  obtain ⟨parent, name, hspot, hspot', hpoints, _⟩ := hfit.points l.disk
  have hfree := hclear.free u hu
  rw [hspot] at hfree
  cases hcontent : l.disk.contentAt (parent ++ [name]) with
  | none =>
    -- That there is nothing to remove counts as a deletion.
    have hnone := node?_of_contentAt hfree hcontent
    have hremove := hpoints.remove_missing hclear.ready (open_above hclear hu hspot) hnone
    refine ⟨l, by simp only [LocalFiles.delete, hremove], hclear.ready, rfl, ?_, ?_, ?_,
      Or.inl rfl, fun q _ _ => Or.inl rfl⟩
    · rw [hspot, hcontent]
    · rw [hspot]
      exact hfree
    · rw [hspot, lockedAt, hnone]
  | some bytes =>
    have hremove := hpoints.remove_ok hclear.ready hcontent
    have hnode : ∀ q, (l.disk.drop (parent ++ [name])).node? q
        = if q = parent ++ [name] then none else l.disk.node? q := node?_drop (by simp)
    refine ⟨{ l with disk := l.disk.drop (parent ++ [name]) },
      by simp only [LocalFiles.delete, hremove], hclear.ready.drop_file hfree, rfl, ?_, ?_, ?_, ?_,
      fun q hq _ => Or.inl ?_⟩
    · rw [hspot, contentAt, hnode, if_pos rfl]
    · rw [hspot, hnode, if_pos rfl]
      exact fun hdirectory => by cases hdirectory
    · rw [hspot, lockedAt, hnode, if_pos rfl]
    · rw [hnode]
      split
      · exact Or.inr rfl
      · exact Or.inl rfl
    · rw [hspot] at hq
      rw [hnode, if_neg hq]

/-! ## 4. Files that mirror a memory -/

/-- **Files and a memory with the same units**: the same content, and the same units
are protected. -/
structure Mirrors (units : List Path) (l : LocalFiles) (m : Memory) : Prop where
  apart : Separate l.disk units
  clear : Unobstructed l.disk units
  content : ∀ u ∈ units, l.disk.contentAt (l.disk.spot u) = m.contents u
  marks : ∀ u ∈ units, l.disk.lockedAt (l.disk.spot u) = !m.isWritable u

/-- The same units are told to have the same content and to be writable. -/
theorem mirrors_iff (hapart : Separate l.disk units) (hclear : Unobstructed l.disk units) :
    Mirrors units l m ↔ ∀ u ∈ units, l.read u = .ok (m.contents u) ∧
      l.isWritable u = m.isWritable u := by
  constructor
  · intro h u hu
    rw [read_eq (hapart.fit u hu) hclear hu, isWritable_eq (hapart.fit u hu) hclear hu,
      h.content u hu, h.marks u hu, Bool.not_not]
    exact ⟨rfl, rfl⟩
  · intro h
    refine ⟨hapart, hclear, fun u hu => ?_, fun u hu => ?_⟩
    · have hread := (h u hu).1
      rw [read_eq (hapart.fit u hu) hclear hu] at hread
      exact Except.ok.inj hread
    · have hwritable := (h u hu).2
      rw [isWritable_eq (hapart.fit u hu) hclear hu] at hwritable
      rw [← hwritable, Bool.not_not]

/-- **One unit is changed on both sides.** -/
theorem Mirrors.change (h : Mirrors units l m) {l' : LocalFiles} {m' : Memory}
    {content : Option Bytes} (hu : u ∈ units) (hchanged : Changed l.disk l'.disk u content)
    (hcontent : ∀ v : Path, m'.contents v
      = if v.location = u.location then content else m.contents v)
    (hmarks : ∀ v : Path, m'.isWritable v
      = (decide (v.location = u.location) || m.isWritable v)) : Mirrors units l' m' := by
  -- Two units are one exactly when they have one place.
  have hsame : ∀ v ∈ units, l.disk.spot v = l.disk.spot u ↔ v.location = u.location :=
    fun v hv => ⟨h.apart.single v hv u hu, fun heq => spot_eq_of_location heq l.disk⟩
  refine ⟨h.apart.congr hchanged.cwd, hchanged.unobstructed h.apart h.clear hu,
    fun v hv => ?_, fun v hv => ?_⟩
  · rw [spot_congr hchanged.cwd, hcontent]
    by_cases heq : v.location = u.location
    · rw [if_pos heq, (hsame v hv).mpr heq, hchanged.content]
    · have hne : l.disk.spot v ≠ l.disk.spot u := fun hspot => heq ((hsame v hv).mp hspot)
      rw [if_neg heq, contentAt, hchanged.node?_of_unit h.apart hu hv hne]
      exact h.content v hv
  · rw [spot_congr hchanged.cwd, hmarks]
    by_cases heq : v.location = u.location
    · rw [(hsame v hv).mpr heq, hchanged.loose]
      simp [heq]
    · have hne : l.disk.spot v ≠ l.disk.spot u := fun hspot => heq ((hsame v hv).mp hspot)
      have hmark := h.marks v hv
      rw [lockedAt] at hmark ⊢
      rw [hchanged.node?_of_unit h.apart hu hv hne, hmark]
      simp [heq]

end LocalFiles

namespace Memory

variable {m : Memory} {u : Path}

/-- A unit whose mark is taken off, and no other, is writable. -/
theorem isWritable_setReadOnly (m : Memory) (u v : Path) :
    (m.setReadOnly u false).isWritable v
      = (decide (v.location = u.location) || m.isWritable v) := by
  by_cases heq : v.location = u.location
  · simp [isWritable, setReadOnly, heq]
  · simp [isWritable, setReadOnly, heq]

/-- A write to a unit whose mark was taken off. -/
theorem write_yielding (m : Memory) (u : Path) (bytes : Bytes) :
    ∃ m', (m.setReadOnly u false).write u bytes = (.ok (), m') ∧
      (∀ v : Path, m'.contents v = if v.location = u.location then some bytes else m.contents v) ∧
      ∀ v : Path, m'.isWritable v = (decide (v.location = u.location) || m.isWritable v) := by
  have hwritable : (m.setReadOnly u false).isWritable u = true := by
    rw [isWritable_setReadOnly]
    simp
  refine ⟨_, by rw [write, if_pos hwritable], fun v => ?_, fun v => ?_⟩
  · exact Bindings.get?_insert m.files u.location bytes v.location
  · exact isWritable_setReadOnly m u v

/-- A deletion of a unit whose mark was taken off. -/
theorem delete_yielding (m : Memory) (u : Path) :
    ∃ m', (m.setReadOnly u false).delete u = (.ok (), m') ∧
      (∀ v : Path, m'.contents v = if v.location = u.location then none else m.contents v) ∧
      ∀ v : Path, m'.isWritable v = (decide (v.location = u.location) || m.isWritable v) := by
  have hwritable : (m.setReadOnly u false).isWritable u = true := by
    rw [isWritable_setReadOnly]
    simp
  refine ⟨_, by rw [delete, if_pos hwritable], fun v => ?_, fun v => ?_⟩
  · exact Bindings.get?_erase m.files u.location v.location
  · exact isWritable_setReadOnly m u v

end Memory

namespace LocalFiles

open Disk

variable {l : LocalFiles} {m : Memory} {units : List Path} {u v : Path} {bytes : Bytes}

/-! ## 5. Calls in turn -/

/-- **One call**: the files answer what the memory answers when it protects nothing,
and mirror it afterwards. -/
theorem Mirrors.call (h : Mirrors units l m) {c : Call} (hc : c.unit ∈ units) :
    (Backing.call l c).1 = (Backing.call (m.yield c) c).1 ∧
      Mirrors units (Backing.call l c).2 (Backing.call (m.yield c) c).2 := by
  cases c with
  | read u =>
    -- Nothing changes on either side by being asked.
    have hread : Backing.read l u = .ok (m.contents u) :=
      ((mirrors_iff h.apart h.clear).mp h u hc).1
    have hyield : m.yield (.read u) = m := rfl
    rw [hyield]
    refine ⟨?_, h⟩
    simp only [Backing.call, hread]
    rfl
  | isWritable u =>
    have hwritable : Backing.isWritable l u = m.isWritable u :=
      ((mirrors_iff h.apart h.clear).mp h u hc).2
    refine ⟨?_, h⟩
    simp only [Backing.call, hwritable]
    rfl
  | write u bytes =>
    -- Without its mark the unit is written in memory as it is on disk.
    obtain ⟨l', hwrite, hchanged⟩ := write_changed (h.apart.fit u hc) h.clear hc bytes
    obtain ⟨m', hwrite', hcontent, hmarks⟩ := m.write_yielding u bytes
    have hfiles : Backing.call l (.write u bytes) = (.done, l') := by
      have hout : Backing.write l u bytes = (.ok (), l') := hwrite
      simp only [Backing.call, hout]
      rfl
    have hmemory : Backing.call (m.yield (.write u bytes)) (.write u bytes) = (.done, m') := by
      have hout : Backing.write (m.yield (.write u bytes)) u bytes = (.ok (), m') := hwrite'
      simp only [Backing.call, hout]
      rfl
    rw [hfiles, hmemory]
    exact ⟨rfl, h.change hc hchanged hcontent hmarks⟩
  | delete u =>
    obtain ⟨l', hdelete, hchanged⟩ := delete_changed (h.apart.fit u hc) h.clear hc
    obtain ⟨m', hdelete', hcontent, hmarks⟩ := m.delete_yielding u
    have hfiles : Backing.call l (.delete u) = (.done, l') := by
      have hout : Backing.delete l u = (.ok (), l') := hdelete
      simp only [Backing.call, hout]
      rfl
    have hmemory : Backing.call (m.yield (.delete u)) (.delete u) = (.done, m') := by
      have hout : Backing.delete (m.yield (.delete u)) u = (.ok (), m') := hdelete'
      simp only [Backing.call, hout]
      rfl
    rw [hfiles, hmemory]
    exact ⟨rfl, h.change hc hchanged hcontent hmarks⟩

/-- **Calls in turn.** -/
theorem Mirrors.run (h : Mirrors units l m) {calls : List Call}
    (hcalls : ∀ c ∈ calls, c.unit ∈ units) :
    (Backing.run l calls).1 = (m.runYielding calls).1 ∧
      Mirrors units (Backing.run l calls).2 (m.runYielding calls).2 := by
  induction calls generalizing l m with
  | nil => exact ⟨rfl, h⟩
  | cons c calls ih =>
    rw [List.forall_mem_cons] at hcalls
    obtain ⟨hanswer, hmirrors⟩ := h.call hcalls.1
    obtain ⟨hanswers, hmirrors'⟩ := ih hmirrors hcalls.2
    exact ⟨by rw [Backing.run, Memory.runYielding, hanswer, hanswers], hmirrors'⟩

end LocalFiles

namespace Memory

variable {m : Memory} {c : Call}

/-! ## 6. Where protection counts -/

/-- No call puts a mark on a unit or takes one off. -/
theorem isWritable_call (m : Memory) (c : Call) (u : Path) :
    (Backing.call m c).2.isWritable u = m.isWritable u := by
  have hreadOnly : (Backing.call m c).2.readOnly = m.readOnly := by
    cases c with
    | read unit => rfl
    | isWritable unit => rfl
    | write unit bytes =>
      change (m.write unit bytes).2.readOnly = m.readOnly
      unfold write
      split <;> rfl
    | delete unit =>
      change (m.delete unit).2.readOnly = m.readOnly
      unfold delete
      split <;> rfl
  rw [isWritable, isWritable, hreadOnly]

/-- A unit without a mark has none to be taken off. -/
theorem yield_eq_self (h : c.changes = true → m.isWritable c.unit = true) : m.yield c = m := by
  unfold yield
  split
  · rename_i hchanges
    have hnot : c.unit.location ∉ m.readOnly := by simpa [isWritable] using h hchanges
    have hfilter : m.readOnly.filter (· ≠ c.unit.location) = m.readOnly := by
      rw [List.filter_eq_self]
      intro place hplace
      rw [decide_eq_true_eq]
      rintro rfl
      exact hnot hplace
    rw [setReadOnly, if_neg Bool.false_ne_true, hfilter]
  · rfl

/-- **A protected unit** refuses what it would take without its mark. -/
theorem answer_ne_of_protected (hchanges : c.changes = true) (h : m.isWritable c.unit = false) :
    (Backing.call m c).1 = .failed ∧ (Backing.call (m.yield c) c).1 = .done := by
  cases c with
  | read unit => cases hchanges
  | isWritable unit => cases hchanges
  | write unit bytes =>
    obtain ⟨m', hwrite, _⟩ := m.write_yielding unit bytes
    refine ⟨?_, ?_⟩
    · have hno : m.isWritable unit = false := h
      change Backing.answerOf (m.write unit bytes).1 = .failed
      rw [write, hno, if_neg Bool.false_ne_true]
      rfl
    · change Backing.answerOf ((m.setReadOnly unit false).write unit bytes).1 = .done
      rw [hwrite]
      rfl
  | delete unit =>
    obtain ⟨m', hdelete, _⟩ := m.delete_yielding unit
    refine ⟨?_, ?_⟩
    · have hno : m.isWritable unit = false := h
      change Backing.answerOf (m.delete unit).1 = .failed
      rw [delete, hno, if_neg Bool.false_ne_true]
      rfl
    · change Backing.answerOf ((m.setReadOnly unit false).delete unit).1 = .done
      rw [hdelete]
      rfl

/-- **Marks make a difference** to a run exactly when a unit with a mark is to be
changed. -/
theorem run_eq_runYielding_iff (m : Memory) (calls : List Call) :
    (Backing.run m calls).1 = (m.runYielding calls).1 ↔
      ∀ c ∈ calls, c.changes = true → m.isWritable c.unit = true := by
  induction calls generalizing m with
  | nil => simp [Backing.run, runYielding]
  | cons c calls ih =>
    rw [Backing.run, runYielding, List.cons.injEq, List.forall_mem_cons]
    by_cases hfree : c.changes = true → m.isWritable c.unit = true
    · rw [yield_eq_self hfree, ih]
      simp only [isWritable_call, eq_self, true_and]
      exact (and_iff_right hfree).symm
    · -- The first change of a protected unit shows in its answer.
      rw [Classical.not_imp, Bool.not_eq_true] at hfree
      obtain ⟨hfailed, hdone⟩ := answer_ne_of_protected hfree.1 hfree.2
      rw [hfailed, hdone]
      refine iff_of_false (fun h => by cases h.1) fun h => ?_
      have hwritable := h.1 hfree.1
      rw [hfree.2] at hwritable
      cases hwritable

/-- A run that changes no protected unit needs no marks taken off. -/
theorem runYielding_eq_run {calls : List Call}
    (h : ∀ c ∈ calls, c.changes = true → m.isWritable c.unit = true) :
    m.runYielding calls = Backing.run m calls := by
  induction calls generalizing m with
  | nil => rfl
  | cons c calls ih =>
    rw [List.forall_mem_cons] at h
    have hrest : ∀ c' ∈ calls, c'.changes = true →
        (Backing.call m c).2.isWritable c'.unit = true := by
      intro c' hc' hchanges
      rw [isWritable_call]
      exact h.2 c' hc' hchanges
    rw [runYielding, Backing.run, yield_eq_self h.1, ih hrest]

end Memory

namespace LocalFiles

open Disk

/-- **Files and memory keep one contract for units that are not protected.** Take
units that can be kept side by side, with nothing in their way on the disk, and a
memory that tells the same of each of them. For calls on these units, the two
answer alike and end with the same content exactly when no call is to change a unit
that is marked read-only. In any case the files answer, and end, like a memory in
which every unit loses its mark when it is to be changed. -/
theorem agrees_with_memory_iff (l : LocalFiles) (m : Memory) (units : List Path)
    (hapart : Separate l.disk units) (hclear : Unobstructed l.disk units)
    (hsame : ∀ u ∈ units, l.read u = .ok (m.contents u) ∧ l.isWritable u = m.isWritable u)
    (calls : List Call) (hcalls : ∀ c ∈ calls, c.unit ∈ units) :
    (((Backing.run l calls).1 = (Backing.run m calls).1 ∧
        ∀ u ∈ units, (Backing.run l calls).2.read u = .ok ((Backing.run m calls).2.contents u)) ↔
      ∀ c ∈ calls, c.changes = true → m.isWritable c.unit = true) ∧
    (Backing.run l calls).1 = (m.runYielding calls).1 ∧
    ∀ u ∈ units, (Backing.run l calls).2.read u = .ok ((m.runYielding calls).2.contents u) := by
  have hmirrors : Mirrors units l m := (mirrors_iff hapart hclear).mpr hsame
  obtain ⟨hanswers, hend⟩ := hmirrors.run hcalls
  have hcontent : ∀ u ∈ units,
      (Backing.run l calls).2.read u = .ok ((m.runYielding calls).2.contents u) :=
    fun u hu => ((mirrors_iff hend.apart hend.clear).mp hend u hu).1
  -- It remains to see when the memory needs its marks taken off.
  refine ⟨⟨fun h => ?_, fun h => ?_⟩, hanswers, hcontent⟩
  · rw [← m.run_eq_runYielding_iff, ← h.1, hanswers]
  · rw [← Memory.runYielding_eq_run h]
    exact ⟨hanswers, hcontent⟩

/-- Whether a place is open shows at its beginnings. -/
theorem open_of_take {d : Disk} {place : Place}
    (h : ∀ n ≤ place.length, d.node? (place.take n) = none ∨
      d.node? (place.take n) = some .directory) : d.Open place := by
  intro q hq
  rw [List.prefix_iff_eq_take.mp hq]
  exact h q.length hq.length_le

/-- Three units, one of them protected: files and memory agree while that one is only
read, also where a directory has to be made. -/
theorem agree_while_protected_unit_is_read :
    let a : Path := ⟨"/p/a.json"⟩
    let b : Path := ⟨"/p/q/./b.json"⟩
    let c : Path := ⟨"c.json"⟩
    let l : LocalFiles := { disk := {
      nodes := [(["p"], .directory), (["p", "a.json"], .file [120] false),
        (["p", "c.json"], .file [122] true)]
      cwd := ["p"] } }
    let m : Memory := {
      files := Bindings.ofList [(a.location, [120]), (c.location, [122])]
      readOnly := [c.location] }
    let calls : List Call := [.read c, .write b [121], .isWritable c, .delete a, .read a, .read b]
    (Separate l.disk [a, b, c] ∧ Unobstructed l.disk [a, b, c] ∧
      (∀ u ∈ [a, b, c], l.read u = .ok (m.contents u) ∧ l.isWritable u = m.isWritable u) ∧
      (∀ x ∈ calls, x.unit ∈ [a, b, c])) ∧
    (Backing.run l calls).1 = (Backing.run m calls).1 ∧
    (Backing.run l calls).1 = [.content (some [122]), .done, .forecast false, .done,
      .content none, .content (some [121])] := by
  intro a b c l m calls
  have htree : l.disk.Tree := tree_of_nodes (by decide +kernel)
  have hapart : Separate l.disk [a, b, c] :=
    ⟨by decide +kernel, by decide +kernel, by decide +kernel, by decide +kernel⟩
  have hopen : ∀ u ∈ [a, b, c], ∀ n ≤ (l.disk.spot u).dropLast.length,
      l.disk.node? ((l.disk.spot u).dropLast.take n) = none ∨
        l.disk.node? ((l.disk.spot u).dropLast.take n) = some .directory := by decide +kernel
  have hclear : Unobstructed l.disk [a, b, c] :=
    ⟨⟨htree, by decide +kernel⟩, fun u hu => open_of_take (hopen u hu), by decide +kernel,
      by decide +kernel, by decide +kernel⟩
  have hsame : ∀ u ∈ [a, b, c], l.read u = .ok (m.contents u) ∧
      l.isWritable u = m.isWritable u := by decide +kernel
  have hcalls : ∀ x ∈ calls, x.unit ∈ [a, b, c] := by decide +kernel
  have hfree : ∀ x ∈ calls, x.changes = true → m.isWritable x.unit = true := by decide +kernel
  refine ⟨⟨hapart, hclear, hsame, hcalls⟩, ?_, by decide +kernel⟩
  exact ((agrees_with_memory_iff l m [a, b, c] hapart hclear hsame calls hcalls).1.mpr hfree).1

/-- **A protected file is replaced**, and a unit protected in memory is not. -/
theorem protected_file_is_replaced :
    let u : Path := ⟨"/u.json"⟩
    let l : LocalFiles := { disk := { nodes := [(["u.json"], .file [120] true)] } }
    let m : Memory := { files := [(u.location, [120])], readOnly := [u.location] }
    let calls : List Call := [.isWritable u, .write u [121], .read u]
    (Separate l.disk [u] ∧ Unobstructed l.disk [u] ∧ l.read u = .ok (m.contents u)) ∧
    (Backing.run l calls).1 = [.forecast false, .done, .content (some [121])] ∧
    (Backing.run m calls).1 = [.forecast false, .failed, .content (some [120])] := by
  intro u l m calls
  have htree : l.disk.Tree := tree_of_nodes (by decide +kernel)
  have hopen : ∀ v ∈ [u], ∀ n ≤ (l.disk.spot v).dropLast.length,
      l.disk.node? ((l.disk.spot v).dropLast.take n) = none ∨
        l.disk.node? ((l.disk.spot v).dropLast.take n) = some .directory := by decide +kernel
  exact ⟨⟨⟨by decide +kernel, by decide +kernel, by decide +kernel, by decide +kernel⟩,
    ⟨⟨htree, rfl⟩, fun v hv => open_of_take (hopen v hv), by decide +kernel, by decide +kernel,
      by decide +kernel⟩, by decide +kernel⟩, by decide +kernel, by decide +kernel⟩

end LocalFiles

end ScopedState
