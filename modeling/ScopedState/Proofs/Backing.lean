/-
`Proofs/Backing.lean` -- what is relied on of a backing store.

Everything that is proved of scopes holds of every store that keeps the
contents of its units apart: a read tells the content of its unit, a write that
succeeds replaces that content and no other, and a write that fails replaces
nothing. What is read-only, which operations are refused and what is counted is
left to the store.

A store in memory is such a store, with and without refusals. A store of files
is not quite one, because a write there passes through a second file beside
the unit. But files are one as far as it goes for units that are not in each
other's way (`Shelf`), and a shelf stands for its files: what is proved of a
workspace on the shelf holds of the one on files (`Workspace.exists_shelved`).
-/
import ScopedState.Backing.Faulty
set_option autoImplicit false

namespace ScopedState

/-- A store of units that do not get in each other's way. In memory that is every store,
and on disk a shelf of units that are apart. -/
class LawfulBacking (β : Type) [Backing β] where
  /-- What is at a location, if anything. -/
  contents : β → Location → Option Bytes
  read_ok : ∀ {b : β} {unit : Path} {content : Option Bytes},
    Backing.read b unit = .ok content → content = contents b unit.location
  write_ok : ∀ {b b' : β} {unit : Path} {bytes : Bytes},
    Backing.write b unit bytes = (.ok (), b') →
      ∀ l, contents b' l = if l = unit.location then some bytes else contents b l
  write_error : ∀ {b b' : β} {unit : Path} {bytes : Bytes} {e : Failure},
    Backing.write b unit bytes = (.error e, b') → ∀ l, contents b' l = contents b l

/-- **A store that stands for another one** at some units: there it answers the same, and
is afterwards what it stands for; elsewhere nothing can be read from it. -/
structure Backing.StandsFor {β γ : Type} [Backing β] [Backing γ] (f : β → γ) (P : Path → Prop) :
    Prop where
  read : ∀ (b : β) u, P u → Backing.read (f b) u = Backing.read b u
  write : ∀ (b : β) u bytes, P u → Backing.write (f b) u bytes
    = ((Backing.write b u bytes).1, f (Backing.write b u bytes).2)
  isWritable : ∀ (b : β) u, P u → Backing.isWritable (f b) u = Backing.isWritable b u
  refuses : ∀ (b : β) u, ¬ P u → ∃ e, Backing.read b u = .error e

namespace Memory

theorem contents_write {m m' : Memory} {unit : Path} {bytes : Bytes}
    (h : m.write unit bytes = (.ok (), m')) (l : Location) :
    Bindings.get? m'.files l
      = if l = unit.location then some bytes else Bindings.get? m.files l := by
  unfold write at h
  split at h
  · rw [← (Prod.mk.inj h).2]
    exact Bindings.get?_insert m.files unit.location bytes l
  · cases (Prod.mk.inj h).1

theorem write_refused {m m' : Memory} {unit : Path} {bytes : Bytes} {e : Failure}
    (h : m.write unit bytes = (.error e, m')) : m' = m := by
  unfold write at h
  split at h
  · cases (Prod.mk.inj h).1
  · exact (Prod.mk.inj h).2.symm

instance : LawfulBacking Memory where
  contents m l := Bindings.get? m.files l
  read_ok h := (Except.ok.inj h).symm
  write_ok h := contents_write h
  write_error h l := by rw [write_refused h]

end Memory

namespace Faulty

theorem read_ok {f : Faulty} {unit : Path} {content : Option Bytes}
    (h : f.read unit = .ok content) : content = Bindings.get? f.memory.files unit.location := by
  unfold read at h
  split at h
  · cases h
  · exact (Except.ok.inj h).symm

theorem contents_write {f f' : Faulty} {unit : Path} {bytes : Bytes}
    (h : f.write unit bytes = (.ok (), f')) (l : Location) :
    Bindings.get? f'.memory.files l
      = if l = unit.location then some bytes else Bindings.get? f.memory.files l := by
  unfold write at h
  split at h
  · cases (Prod.mk.inj h).1
  · obtain ⟨hout, hf'⟩ := Prod.mk.inj h
    rw [← hf']
    exact Memory.contents_write (Prod.ext hout rfl) l

theorem write_refused {f f' : Faulty} {unit : Path} {bytes : Bytes} {e : Failure}
    (h : f.write unit bytes = (.error e, f')) : f' = f := by
  unfold write at h
  split at h
  · exact (Prod.mk.inj h).2.symm
  · obtain ⟨hout, hf'⟩ := Prod.mk.inj h
    have hmemory : (f.memory.write unit bytes).2 = f.memory :=
      Memory.write_refused (Prod.ext hout rfl)
    rw [← hf', hmemory]

instance : LawfulBacking Faulty where
  contents f l := Bindings.get? f.memory.files l
  read_ok h := read_ok h
  write_ok h := contents_write h
  write_error h l := by rw [write_refused h]

end Faulty

end ScopedState
