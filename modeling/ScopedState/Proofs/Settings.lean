/-
`Proofs/Settings.lean` -- what saving settings leaves on the disk.

Saving goes through five calls, and each of them can be the last one. Up to the write
of the temporary file nothing but directories is made, so every fault until then leaves
the files alone. The move is the other end: it either puts the file where the path
leads, and then nothing of the temporary file is left, or it does nothing at all. In
between stands the temporary file, and nobody takes it away again. So saving is all or
nothing up to one case (`save_leaves`): the temporary file could be written and the
path could not take it.

That case is decided before anything is written. What a path can take (`Takes`) does
not depend on the files around it, only on the text of the path and on the directories
that are there. The name of the temporary file is made from the stem of the path, not
from the whole of it, so the one can be too long, or end in a slash, or have a directory
in its place, while the other is in order. `LocalFiles.writeAtomic` has the same gap
between its two calls and closes it by removing the temporary file.

The five calls are those of a directory tree without links, and each of them is carried
out or refused as a whole: none stops half-way through the temporary file.
-/
import ScopedState.Proofs.Backing.Atomic
import ScopedState.Proofs.Path.Extension
set_option autoImplicit false

namespace ScopedState

namespace Disk

variable {d d' made written : Disk} {p : Path} {parent home : Place} {name step : String}
  {bytes : Bytes}

/-! ## 1. Paths that can take a file -/

/-- **A path can take a file**: it seats one, it does not end in a slash, and there is no
directory in the place. -/
def Takes (d : Disk) (p : Path) : Prop :=
  ∃ parent name, d.Seats p parent name ∧ endsInSlash p = false ∧
    d.node? (parent ++ [name]) ≠ some .directory

/-- **All is as before except at some places.** Elsewhere nothing is gone and no file is
new or another one; directories may have been made. -/
def AsBefore (d d' : Disk) (touched : Place → Prop) : Prop :=
  d'.cwd = d.cwd ∧ ∀ q, ¬ touched q →
    d'.node? q = d.node? q ∨ (d.node? q = none ∧ d'.node? q = some .directory)

/-- Directories that were made are no places that were touched. -/
theorem Grown.asBefore (h : Grown d d') (touched : Place → Prop) : d.AsBefore d' touched :=
  ⟨h.cwd, fun q _ => h.node q⟩

/-- What a path can take, it can take on every disk with the same directories. -/
theorem Takes.congr (h : d.Takes p) (hext : d.Extends d') (hback : d'.Extends d)
    (hcwd : d'.cwd = d.cwd) : d'.Takes p := by
  obtain ⟨parent, name, hseats, hclosed, hfree⟩ := h
  exact ⟨parent, name, hseats.of_extends hext hcwd, hclosed, fun hno => hfree (hback _ hno)⟩

/-- Writing a file that a path seats. It keeps the permission of a file that is there. -/
theorem Seats.write_eq (h : d.Seats p parent name) (hclosed : endsInSlash p = false)
    (bytes : Bytes) : d.write p bytes =
      match d.node? (parent ++ [name]) with
      | some .directory => .error .isDirectory
      | some (.file _ readOnly) => .ok (d.put (parent ++ [name]) (.file bytes readOnly))
      | none => .ok (d.put (parent ++ [name]) (.file bytes false)) := by
  have hgood : ¬ (endsInSlash p || isDots name) = true := by
    rw [hclosed, h.named.not_dots]
    exact Bool.false_ne_true
  have hshort : ¬ tooLong name = true := by
    rw [h.named.not_tooLong]
    exact Bool.false_ne_true
  rw [write, h.locateParent]
  exact (if_neg hgood).trans (if_neg hshort)

/-- A path that can take a file takes what is written. -/
theorem Takes.write (h : d.Takes p) (bytes : Bytes) : ∃ d', d.write p bytes = .ok d' := by
  obtain ⟨parent, name, hseats, hclosed, hfree⟩ := h
  rw [hseats.write_eq hclosed]
  cases hnode : d.node? (parent ++ [name]) with
  | none => exact ⟨_, rfl⟩
  | some node =>
    cases node with
    | directory => exact absurd hnode hfree
    | file old readOnly => exact ⟨_, rfl⟩

/-- A path that was written could take a file. -/
theorem takes_of_write (h : d.write p bytes = .ok d') : d.Takes p := by
  obtain ⟨parent, name, _, hseats, hclosed, hfree, _⟩ := write_eq_ok h
  exact ⟨parent, name, hseats, hclosed, hfree⟩

/-- **A file that is there moves** to every path that can take it. -/
theorem Takes.move {source : Path} (h : d.Takes p) (hseats : d.Seats source home step)
    (hclosed : endsInSlash source = false) {readOnly : Bool}
    (hnode : d.node? (home ++ [step]) = some (.file bytes readOnly)) :
    ∃ d', d.move source p = .ok d' := by
  obtain ⟨parent, name, htarget, hclosed', hfree⟩ := h
  refine ⟨(d.drop (home ++ [step])).put (parent ++ [name]) (.file bytes readOnly), ?_⟩
  rw [Disk.move, hseats.locateParent]
  simp only [htarget.locateParent, hseats.named.not_dots, htarget.named.not_dots,
    hseats.named.not_tooLong, htarget.named.not_tooLong, hnode, hclosed, hclosed', hfree,
    Bool.or_false, Bool.false_eq_true, if_false]

/-! ## 2. A temporary file that was written -/

/-- What there is to know of a file that was written in a directory with new ones above it. -/
structure Wrote (d after : Disk) (p : Path) (bytes : Bytes) (home : Place) (step : String) :
    Prop where
  seats : after.Seats p home step
  closed : endsInSlash p = false
  content : after.contentAt (home ++ [step]) = some bytes
  elsewhere : d.AsBefore after (· = home ++ [step])

/-- **A file that is written** behind directories that were made. -/
theorem wrote_of_write (hgrown : Grown d made)
    (h : made.write p bytes = .ok written) : ∃ home step, Wrote d written p bytes home step := by
  obtain ⟨hkept, -, -⟩ := extends_of_write h
  obtain ⟨home, step, readOnly, hseats, hclosed, hfree, rfl⟩ := write_eq_ok h
  have hnode : ∀ q, (made.put (home ++ [step]) (.file bytes readOnly)).node? q
      = if q = home ++ [step] then some (.file bytes readOnly) else made.node? q :=
    node?_put (by simp)
  refine ⟨home, step, hseats.of_extends hkept rfl, hclosed, ?_, hgrown.cwd, fun q hq => ?_⟩
  · exact contentAt_eq_some.mpr ⟨readOnly, by rw [hnode, if_pos rfl]⟩
  · rw [hnode, if_neg hq]
    exact hgrown.node q

/-- **The file shows**, unless there was one with the same content. -/
theorem Wrote.asBefore_iff (h : Wrote d written p bytes home step) (hgrown : Grown d made)
    (hwrite : made.write p bytes = .ok written) :
    (d.AsBefore written fun _ => False) ↔ d.contentAt (home ++ [step]) = some bytes := by
  constructor
  · intro hall
    rcases hall.2 (home ++ [step]) not_false with hsame | ⟨-, hnew⟩
    · have hcontent := h.content
      rwa [contentAt, hsame] at hcontent
    · have hcontent := h.content
      rw [contentAt, hnew] at hcontent
      cases hcontent
  · intro hold
    obtain ⟨readOnly, hold⟩ := contentAt_eq_some.mp hold
    have hmade : made.node? (home ++ [step]) = some (.file bytes readOnly) := by
      rcases hgrown.node (home ++ [step]) with hsame | ⟨hnone, -⟩
      · rw [hsame, hold]
      · rw [hold] at hnone
        cases hnone
    refine ⟨h.elsewhere.1, fun q _ => ?_⟩
    by_cases hq : q = home ++ [step]
    · -- It is written over by itself.
      left
      obtain ⟨home', step', _, hseats', hclosed, -, -⟩ := write_eq_ok hwrite
      obtain ⟨hkept, -, hcwd⟩ := extends_of_write hwrite
      obtain ⟨rfl, rfl⟩ := h.seats.unique (hseats'.of_extends hkept hcwd)
      rw [hseats'.write_eq hclosed, hmade] at hwrite
      rw [← Except.ok.inj hwrite, hq, node?_put (by simp), if_pos rfl, hold]
    · exact h.elsewhere.2 q hq

end Disk

namespace Settings

open Disk (Takes AsBefore Grown Wrote endsInSlash steps)

variable {d : Disk} {s : Settings} {p : Path}

/-! ## 3. The temporary file of a settings file -/

/-- Directories are made above a settings file, at most. -/
theorem grown_makeParents (d : Disk) (p : Path) : Grown d (makeParents d p).2 := by
  unfold makeParents
  split
  · exact Grown.refl d
  · split
    · exact Grown.refl d
    · exact Disk.grown_makeTreeWithin _ d _

/-- **The temporary file is another one** than the settings file. -/
theorem temporary_ne {d' : Disk} {parent home : Place} {name step : String}
    (h : d.Seats p parent name) (hclosed : endsInSlash p = false)
    (h' : d'.Seats (temporary p) home step) : home ++ [step] ≠ parent ++ [name] := by
  intro heq
  have hsame : step = name := (List.cons.inj (List.append_inj' heq rfl).2).1
  have hend := Disk.endsInName_of_closed hclosed h.last h.named.2.1
  obtain ⟨front, last, -, hsteps, hlast⟩ := Disk.steps_withExtension hend h.last h.named.2.2.1
    (show '/' ∉ "toml.tmp".toList by decide)
  have hstep : step = last := by
    have hseat := h'.last
    rw [temporary, hsteps, List.getLast?_concat] at hseat
    exact (Option.some.inj hseat).symm
  -- The temporary name is no step up, as the path seats it, and so it is the stem with two
  -- extensions.
  rcases hlast with hup | hname
  · exact h'.named.2.2.1 (hstep.trans hup)
  · refine Path.temporary_stem_ne name.toList ?_
    rw [← String.toList_ofList (l := _ ++ _), ← hname, ← hstep, hsame]

/-! ## 4. How far saving gets -/

/-- **Saving gets as far as the temporary file**: the settings are in order and can be
written down, the directories could be made, and the temporary path can take a file. -/
def ReachesTemporary (s : Settings) (d : Disk) (p : Path) : Prop :=
  s.validate = .ok () ∧ s.toText?.isSome = true ∧ (makeParents d p).1 = .ok () ∧
    (makeParents d p).2.Takes (temporary p)

/-- **How saving ends.** It stops before anything is written, or the temporary file is
written and moved or not moved. -/
theorem save_cases (s : Settings) (d : Disk) (p : Path) :
    (¬ s.ReachesTemporary d p ∧ Grown d (s.save d p).2 ∧
      ∃ fault, (s.save d p).1 = .error fault ∧ ∀ e, fault ≠ .notPublished e) ∨
    s.ReachesTemporary d p ∧ ∃ text written, s.toText? = some text ∧
      (makeParents d p).2.write (temporary p) (Utf8.encode text) = .ok written ∧
      ((∃ e, written.move (temporary p) p = .error e ∧
          s.save d p = (.error (.notPublished e), written)) ∨
        ∃ after, written.move (temporary p) p = .ok after ∧ s.save d p = (.ok (), after)) := by
  have hgrown := grown_makeParents d p
  unfold save ReachesTemporary
  cases hvalid : s.validate with
  | error fault =>
    left
    refine ⟨fun h => (nomatch h.1), Grown.refl d, fault, rfl, ?_⟩
    rintro e rfl
    -- No check of the settings says that something was not published.
    unfold validate at hvalid
    split at hvalid
    · rename_i found hfound
      obtain rfl := Except.error.inj hvalid
      unfold fault? at hfound
      repeat' split at hfound
      all_goals cases hfound
    · cases hvalid
  | ok _ =>
    cases hparents : makeParents d p with
    | mk outcome made =>
      rw [hparents] at hgrown
      cases outcome with
      | error e => exact Or.inl ⟨fun h => (nomatch h.2.2.1), hgrown, _, rfl, nofun⟩
      | ok _ =>
        cases htext : s.toText? with
        | none => exact Or.inl ⟨fun h => (nomatch h.2.1), hgrown, _, rfl, nofun⟩
        | some text =>
          cases hwrite : made.write (temporary p) (Utf8.encode text) with
          | error e =>
            left
            refine ⟨fun h => ?_, by simpa only [hwrite] using hgrown, .unwritable e, by
              simp only [hwrite], nofun⟩
            obtain ⟨written, hwritten⟩ := h.2.2.2.write (Utf8.encode text)
            rw [hwrite] at hwritten
            cases hwritten
          | ok written =>
            right
            refine ⟨⟨rfl, rfl, rfl, Disk.takes_of_write hwrite⟩, text, written, rfl, hwrite, ?_⟩
            simp only [hwrite]
            cases hmove : written.move (temporary p) p with
            | error e => exact Or.inl ⟨e, rfl, rfl⟩
            | ok after => exact Or.inr ⟨after, rfl, rfl⟩

/-- **The temporary file is published** exactly if the path can take a file. -/
theorem move_isOk_iff {made written : Disk} {bytes : Bytes}
    (hwrite : made.write (temporary p) bytes = .ok written) :
    (∃ after, written.move (temporary p) p = .ok after) ↔ made.Takes p := by
  obtain ⟨home, step, hwrote⟩ := Disk.wrote_of_write (Grown.refl made) hwrite
  obtain ⟨readOnly, hnode⟩ := Disk.contentAt_eq_some.mp hwrote.content
  -- What a path can take depends on the directories, and these are the same.
  obtain ⟨hkept, hback, hcwd⟩ := Disk.extends_of_write hwrite
  constructor
  · rintro ⟨after, hmove⟩
    obtain ⟨_, _, parent, name, _, _, _, _, htarget, hclosed, hfree, _⟩ := Disk.move_eq_ok hmove
    have htakes : written.Takes p := ⟨parent, name, htarget, hclosed, hfree⟩
    exact htakes.congr hback hkept hcwd.symm
  · intro htakes
    exact (htakes.congr hkept hback hcwd).move hwrote.seats hwrote.closed hnode

/-- **Once it is moved**, the file is at the place of the path, and where the temporary
file was is nothing. -/
theorem published_leaves (hd : d.Tree) {made written after : Disk} {bytes : Bytes}
    (hgrown : Grown d made) (hwrite : made.write (temporary p) bytes = .ok written)
    (hmove : written.move (temporary p) p = .ok after) :
    ∃ place home step, after.read p = .ok bytes ∧
      after.read (temporary p) = .error .notFound ∧ after.locate p = .ok place ∧
      after.Seats (temporary p) home step ∧
      d.AsBefore after (fun q => q = place ∨ q = home ++ [step]) := by
  obtain ⟨home, step, parent, name, readOnly, hsource, htarget, hclosed, -, hcwd, hfree, hfree',
    hnode⟩ := Disk.write_move_eq_ok (hgrown.tree hd) hwrite hmove
  have hne : home ++ [step] ≠ parent ++ [name] := temporary_ne htarget hclosed hsource
  -- No directory goes, so both paths still lead where they led.
  have hkept : made.Extends after := by
    intro q hq
    rw [hnode, if_neg, if_neg]
    · exact hq
    · rintro rfl
      exact hfree hq
    · rintro rfl
      exact hfree' hq
  have htarget' := htarget.of_extends hkept hcwd
  have hsource' := hsource.of_extends hkept hcwd
  have hfile : after.node? (parent ++ [name]) = some (.file bytes readOnly) := by
    rw [hnode, if_pos rfl]
  have hgone : after.node? (home ++ [step]) = none := by
    rw [hnode, if_neg hne, if_pos rfl]
  refine ⟨parent ++ [name], home, step, htarget'.read hclosed hfile, hsource'.read_missing hgone,
    htarget'.locate hclosed (by rw [hfile]; rfl), hsource', hcwd.trans hgrown.cwd, fun q hq => ?_⟩
  rw [not_or] at hq
  rw [hnode, if_neg hq.1, if_neg hq.2]
  exact hgrown.node q

/-! ## 5. All, nothing, or the temporary file -/

/-- **What saving leaves.** If it succeeds, the path has the text of the settings, there is
no temporary file, and everything else is as before. If it fails, files are as before,
except in one case: what could not be published stays in the temporary file, and that
shows unless it held the same before. This happens exactly if saving gets as far as the
temporary file and the path can take no file. The directory tree has no links, and a file
that is written has been written to its end. -/
theorem save_leaves (hd : d.Tree) (s : Settings) (p : Path) :
    let after := (s.save d p).2
    ((s.save d p).1 = .ok () → ∃ text place home step, s.toText? = some text ∧
      after.read p = .ok (Utf8.encode text) ∧ after.read (temporary p) = .error .notFound ∧
      after.locate p = .ok place ∧ after.Seats (temporary p) home step ∧
      d.AsBefore after (fun q => q = place ∨ q = home ++ [step])) ∧
    (∀ fault, (s.save d p).1 = .error fault → (∀ e, fault ≠ .notPublished e) →
      d.AsBefore after fun _ => False) ∧
    (∀ e, (s.save d p).1 = .error (.notPublished e) → ∃ text home step, s.toText? = some text ∧
      after.Seats (temporary p) home step ∧
      after.read (temporary p) = .ok (Utf8.encode text) ∧ d.AsBefore after (· = home ++ [step]) ∧
      ((d.AsBefore after fun _ => False) ↔
        d.contentAt (home ++ [step]) = some (Utf8.encode text))) ∧
    ((∃ e, (s.save d p).1 = .error (.notPublished e)) ↔
      s.ReachesTemporary d p ∧ ¬ (makeParents d p).2.Takes p) ∧
    ((s.save d p).1 = .ok () ↔ s.ReachesTemporary d p ∧ (makeParents d p).2.Takes p) := by
  intro after
  have hgrown := grown_makeParents d p
  have hafter : after = (s.save d p).2 := rfl
  rcases save_cases s d p with ⟨hno, hmade, fault, hfault, hother⟩ |
    ⟨hreaches, text, written, htext, hwrite, hend⟩
  · -- Nothing was written.
    rw [hfault]
    refine ⟨nofun, fun _ _ _ => hmade.asBefore _, ?_, ?_, ?_⟩
    · intro e he
      exact absurd (Except.error.inj he) (hother e)
    · constructor
      · rintro ⟨e, he⟩
        exact absurd (Except.error.inj he) (hother e)
      · rintro ⟨hreaches, -⟩
        exact absurd hreaches hno
    · exact ⟨nofun, fun h => absurd h.1 hno⟩
  · have hpublished := move_isOk_iff hwrite
    rcases hend with ⟨e, hmove, hout⟩ | ⟨moved, hmove, hout⟩
    · -- The temporary file was written and stays.
      have hrefused : ¬ (makeParents d p).2.Takes p := by
        intro htakes
        obtain ⟨moved, hmove'⟩ := hpublished.mpr htakes
        rw [hmove] at hmove'
        cases hmove'
      obtain ⟨home, step, hwrote⟩ := Disk.wrote_of_write hgrown hwrite
      obtain ⟨readOnly, hnode⟩ := Disk.contentAt_eq_some.mp hwrote.content
      rw [hout] at hafter ⊢
      subst hafter
      refine ⟨nofun, ?_, ?_, ?_, ?_⟩
      · intro fault hfault hother
        exact absurd (Except.error.inj hfault).symm (hother e)
      · intro _ _
        exact ⟨text, home, step, htext, hwrote.seats, hwrote.seats.read hwrote.closed hnode,
          hwrote.elsewhere, hwrote.asBefore_iff hgrown hwrite⟩
      · exact ⟨fun _ => ⟨hreaches, hrefused⟩, fun _ => ⟨e, rfl⟩⟩
      · exact ⟨nofun, fun h => absurd h.2 hrefused⟩
    · have htakes := hpublished.mp ⟨moved, hmove⟩
      obtain ⟨place, home, step, hleaves⟩ := published_leaves hd hgrown hwrite hmove
      rw [hout] at hafter ⊢
      subst hafter
      refine ⟨fun _ => ⟨text, place, home, step, htext, hleaves⟩, nofun, nofun, ?_, ?_⟩
      · exact ⟨nofun, fun h => absurd htakes h.2⟩
      · exact ⟨fun _ => ⟨hreaches, htakes⟩, fun _ => rfl⟩

/-- A directory in the place of a settings file. -/
def occupied : Disk := { nodes := [(["s.toml"], .directory)] }

/-- The default settings cannot be published there, and stay in the temporary file. -/
theorem save_leaves_occupied :
    occupied.Tree ∧ (∃ e, (save {} occupied ⟨"/s.toml"⟩).1 = .error (.notPublished e)) ∧
      ¬ (makeParents occupied ⟨"/s.toml"⟩).2.Takes ⟨"/s.toml"⟩ := by
  have htree : occupied.Tree := Disk.tree_of_nodes (by decide +kernel)
  have hfails : (save {} occupied ⟨"/s.toml"⟩).1 = .error (.notPublished .isDirectory) := by
    decide +kernel
  obtain ⟨-, -, -, hunpublished, -⟩ := save_leaves htree {} ⟨"/s.toml"⟩
  exact ⟨htree, ⟨_, hfails⟩, (hunpublished.mp ⟨_, hfails⟩).2⟩

/-- **Saving is not all or nothing**: it may fail and leave a new file. -/
theorem save_not_all_or_nothing :
    ¬ ∀ (d : Disk) (s : Settings) (p : Path), d.Tree → (s.save d p).1.isOk = false →
      d.AsBefore (s.save d p).2 fun _ => False := by
  intro h
  have hfails : (save {} occupied ⟨"/s.toml"⟩).1.isOk = false := by decide +kernel
  have hkept := h occupied {} ⟨"/s.toml"⟩ (Disk.tree_of_nodes (by decide +kernel)) hfails
  have hnew : (save {} occupied ⟨"/s.toml"⟩).2.node? ["s.toml.tmp"] ≠ none ∧
      (save {} occupied ⟨"/s.toml"⟩).2.node? ["s.toml.tmp"] ≠ some .directory := by
    decide +kernel
  rcases hkept.2 ["s.toml.tmp"] not_false with hsame | ⟨-, hdirectory⟩
  · exact hnew.1 hsame
  · exact hnew.2 hdirectory

end Settings

end ScopedState
