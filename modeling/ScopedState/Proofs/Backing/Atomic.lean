/-
`Proofs/Backing/Atomic.lean` -- a write is all or nothing.

A write makes the directories above the unit, writes the temporary file and moves it
over the unit, and each of the calls can be refused. Up to the last one the unit is not
touched, and the last one either moves the file or does nothing. So what a write can
leave behind, wherever it has stopped, are new directories on the way to the unit
(`Spared`), and a temporary file that was there before may be gone.

That the unit is not touched does not quite say that it is found as before. A path that
goes up again out of a directory that was missing does not lead anywhere before the
write; it may lead to some other file once the directory has been made. This is the one
way in which a unit without content can have one after a write that failed: a path that
goes up only out of what was there leads to what was there (`follow_of_made`).

Two things are taken for granted by the directory trees this is about. There are no links
in them, so a place has one file, and one path up. And a call on a file is carried out or
refused: the temporary file has all of the bytes or has not been written. A call that gets
half-way would leave a part of them there, and still not touch the unit.
-/
import ScopedState.Proofs.Disk.Access
set_option autoImplicit false

namespace ScopedState

namespace Disk

variable {d d' d'' : Disk} {p q : Path} {place here found parent home : Place}
  {name step temporary : String} {σ ρ : List String} {bytes : Bytes} {written : Option Place}

/-! ## 1. The file that a path seats -/

namespace Seats

/-- The temporary file of a path has another place. -/
theorem ne_temporary (h : d.Seats p parent name) (hclosed : endsInSlash p = false)
    (h' : d'.Seats (LocalFiles.temporary p) home temporary) :
    home ++ [temporary] ≠ parent ++ [name] := by
  intro heq
  have hname := fileName?_eq (endsInName_of_closed hclosed h.last h.named.2.1) h.last h.named.2.2.1
  have hlast : temporary = name ++ ".tmp" := by
    have hsteps := steps_temporary p
    rw [h'.last, hname] at hsteps
    exact Option.some.inj hsteps
  have hsame : temporary = name := (List.cons.inj (List.append_inj' heq rfl).2).1
  have hlength := congrArg (fun text => text.toList.length) (hsame.symm.trans hlast)
  rw [String.toList_append, List.length_append] at hlength
  exact absurd hlength (by simp)

end Seats

/-- A path that the system takes has something to follow. -/
theorem route_ne_nil (hcheck : check p = .ok ()) : route p ≠ [] := by
  intro hroute
  obtain ⟨hsteps, hslash⟩ := List.append_eq_nil_iff.mp hroute
  have hlast : p.pieces.getLast? = some (p.pieces.getLast (Path.cut_ne_nil _)) :=
    List.getLast?_eq_some_getLast _
  generalize p.pieces.getLast (Path.cut_ne_nil _) = last at hlast
  by_cases hempty : last = []
  · rcases Path.getLast?_of_cut (hempty ▸ hlast) with htext | hends
    · have hfull : p.text.isEmpty = true :=
        String.isEmpty_iff.mpr (String.toList_eq_nil_iff.mp htext)
      rw [check, htext, hfull] at hcheck
      cases hcheck
    · rw [endsInSlash, decide_eq_true hends] at hslash
      cases hslash
  · have hmem : String.ofList last ∈ steps p :=
      List.mem_map_of_mem (List.mem_filter.mpr ⟨List.mem_of_getLast? hlast, by simpa using hempty⟩)
    rw [hsteps] at hmem
    cases hmem

/-- **A file that is read** is the one that the path seats. -/
theorem Tree.seats_of_read (hd : d.Tree) (h : d.read p = .ok bytes) :
    ∃ parent name readOnly, d.Seats p parent name ∧ endsInSlash p = false ∧
      d.node? (parent ++ [name]) = some (.file bytes readOnly) := by
  obtain ⟨found, readOnly, hlocate, hfile⟩ : ∃ found readOnly, d.locate p = .ok found ∧
      d.node? found = some (.file bytes readOnly) := by
    unfold Disk.read stat at h
    split at h
    · cases h
    · cases h
    · rename_i hstat
      obtain rfl := Except.ok.inj h
      split at hstat
      · cases hstat
      · rename_i found hlocate
        cases hnode : d.node? found with
        | none =>
          rw [hnode] at hstat
          cases hstat
        | some node =>
          rw [hnode] at hstat
          exact ⟨found, _, hlocate, hnode.trans (congrArg some (Except.ok.inj hstat))⟩
  have hnot : ∀ {here}, d.node? here = some .directory → found ≠ here := by
    rintro here hdirectory rfl
    rw [hfile] at hdirectory
    cases hdirectory
  cases hcheck : check p with
  | error e =>
    rw [Disk.locate, hcheck] at hlocate
    cases hlocate
  | ok _ =>
    rw [locate_eq_follow hcheck] at hlocate
    rcases List.eq_nil_or_concat (route p) with hnil | ⟨σ, step, hroute⟩
    · exact absurd hnil (route_ne_nil hcheck)
    · -- The last step is to the file, so it is a name, and no dot for a slash.
      rw [hroute, List.concat_eq_append, follow_append] at hlocate
      cases hleads : d.follow (d.start p) σ with
      | error e =>
        rw [hleads] at hlocate
        cases hlocate
      | ok parent =>
        rw [hleads] at hlocate
        obtain ⟨hdirectory, hcases⟩ := follow_step_iff.mp hlocate
        rcases hcases with ⟨_, heq⟩ | ⟨_, heq⟩ | ⟨hdot, hup, hshort, heq, _⟩
        · exact absurd heq (hnot hdirectory)
        · exact absurd heq (hnot (hd.directory_dropLast (by rw [hdirectory]; rfl)))
        · have hclosed : endsInSlash p = false := by
            rw [Bool.eq_false_iff]
            intro hslash
            rw [route, hslash, if_pos rfl, List.concat_eq_append] at hroute
            exact hdot (List.cons.inj (List.append_inj' hroute rfl).2).1.symm
          have hsteps : steps p = σ ++ [step] := by
            rwa [route, hclosed, if_neg Bool.false_ne_true, List.append_nil,
              List.concat_eq_append] at hroute
          have hmem : step ∈ steps p := by
            rw [hsteps]
            exact List.mem_append_right _ (List.mem_singleton_self _)
          have hname := fileName_of_step hcheck hmem (by simp [isDots, hdot, hup]) hshort
          exact ⟨parent, step, readOnly, ⟨hcheck, by rw [hsteps, List.getLast?_concat],
            by rw [hsteps, List.dropLast_concat, hleads], hdirectory, hname⟩, hclosed,
            heq ▸ hfile⟩

/-! ## 2. Directories on the way -/

/-- **A path passes a place**: a front part of its route leads there, and something else
than dots is behind it. -/
def Passes (d : Disk) (p : Path) (place : Place) : Prop :=
  ∃ σ ρ, route p = σ ++ ρ ∧ d.follow (d.start p) σ = .ok place ∧ ∃ step ∈ ρ, step ≠ "."

/-- Directories were made, at most, where a front part of the steps of a path leads. -/
structure MadeAlong (d d' : Disk) (p : Path) : Prop where
  grown : Grown d d'
  along : ∀ place, d.node? place = none → d'.node? place = some .directory →
    ∃ σ, σ <+: steps p ∧ d'.follow (d'.start p) σ = .ok place

namespace MadeAlong

theorem refl (d : Disk) (p : Path) : MadeAlong d d p := by
  refine ⟨Grown.refl d, fun place hnone hnew => ?_⟩
  rw [hnone] at hnew
  cases hnew

theorem trans (h : MadeAlong d d' p) (h' : MadeAlong d' d'' p) : MadeAlong d d'' p := by
  refine ⟨h.grown.trans h'.grown, fun place hnone hnew => ?_⟩
  rcases h.grown.node place with hsame | ⟨_, hmade⟩
  · exact h'.along place (hsame.trans hnone) hnew
  · obtain ⟨σ, hσ, hfollow⟩ := h.along place hnone hmade
    rw [start_of_cwd h'.grown.cwd]
    exact ⟨σ, hσ, follow_of_extends h'.grown.extends hmade hfollow⟩

theorem of_ensureDirectory (h : d.ensureDirectory p = .ok d') : MadeAlong d d' p := by
  have hgrown := grown_of_ensureDirectory h
  refine ⟨hgrown, fun place hnone hnew => ?_⟩
  unfold ensureDirectory at h
  split at h
  · rename_i made hmade
    obtain rfl := Except.ok.inj h
    obtain ⟨parent, name, hseats, _, hput⟩ := makeDirectory_eq_ok hmade
    have hplace : place = parent ++ [name] := by
      by_contra hne
      rw [hput, node?_put (by simp), if_neg hne, hnone] at hnew
      cases hnew
    have hseats' := hseats.of_extends hgrown.extends hgrown.cwd
    have hfollow := hseats'.follow (by rw [← hplace, hnew]; rfl)
    exact ⟨_, List.prefix_refl _, hplace ▸ hfollow⟩
  · split at h
    · rw [← Except.ok.inj h, hnone] at hnew
      cases hnew
    · cases h

/-- What is made for a path above is made for the path. -/
theorem of_above (h : MadeAlong d d' q) (habsolute : q.isAbsolute = p.isAbsolute)
    (hsteps : steps q <+: steps p) : MadeAlong d d' p := by
  refine ⟨h.grown, fun place hnone hnew => ?_⟩
  obtain ⟨σ, hσ, hfollow⟩ := h.along place hnone hnew
  exact ⟨σ, hσ.trans hsteps, start_congr habsolute d' ▸ hfollow⟩

end MadeAlong

theorem madeAlong_makeTree (d : Disk) (p : Path) : MadeAlong d (d.makeTree p).2 p := by
  refine @makeTreeWithin_induction (fun d d' => MadeAlong d d' p)
    (fun q => q.isAbsolute = p.isAbsolute ∧ steps q <+: steps p) (MadeAlong.refl · p)
    (fun _ _ _ => MadeAlong.trans) ?_ ?_ _ d p ⟨rfl, List.prefix_refl _⟩
  · rintro q q' ⟨habsolute, hsteps⟩ hparent
    obtain ⟨habove, ρ, hρ, _⟩ := steps_parent hparent
    exact ⟨habove.trans habsolute, (hρ ▸ List.prefix_append _ _).trans hsteps⟩
  · rintro d d' q ⟨habsolute, hsteps⟩ hensured
    exact (MadeAlong.of_ensureDirectory hensured).of_above habsolute hsteps

/-- **The directories made above a unit** are passed by its path. -/
theorem passes_of_makeParents (d : Disk) (p : Path) (hnone : d.node? place = none)
    (hnew : (LocalFiles.makeParents d p).2.node? place = some .directory) :
    (LocalFiles.makeParents d p).2.Passes p place := by
  unfold LocalFiles.makeParents at hnew ⊢
  split at hnew
  · rw [hnone] at hnew
    cases hnew
  · rename_i parent hparent
    split at hnew
    · rw [hnone] at hnew
      cases hnew
    · rename_i htext
      obtain ⟨habsolute, ρ, hsteps, hρ⟩ := steps_parent hparent
      obtain ⟨step, hstep, hdot⟩ := hρ.resolve_left fun hempty => htext (by rw [hempty]; rfl)
      obtain ⟨σ, ⟨τ, hτ⟩, hfollow⟩ := (madeAlong_makeTree d parent).along place hnone hnew
      rw [if_neg htext]
      refine ⟨σ, τ ++ ρ ++ if endsInSlash p then ["."] else [], ?_, ?_, step, ?_, hdot⟩
      · rw [route, hsteps, ← hτ, List.append_assoc, List.append_assoc, List.append_assoc]
      · rw [← start_congr habsolute]
        exact hfollow
      · exact List.mem_append_left _ (List.mem_append_right _ hstep)

/-! ## 3. Replacing a file -/

/-- **Two places at most are others** after a file was replaced, or was not: where the file
was put, if it was, and that of the temporary file, which is gone. -/
structure Renewed (d d' : Disk) (p : Path) (written : Option Place) : Prop where
  tree : d'.Tree
  cwd : d'.cwd = d.cwd
  node : ∀ place, d'.node? place = d.node? place ∨ d.node? place ≠ some .directory ∧
    (written = some place ∨ d'.node? place = none ∧ ∃ home temporary,
      d.Seats (LocalFiles.temporary p) home temporary ∧ place = home ++ [temporary])

namespace Renewed

theorem refl (hd : d.Tree) (p : Path) : Renewed d d p none := ⟨hd, rfl, fun _ => Or.inl rfl⟩

/-- Directories stay. -/
theorem extend (h : Renewed d d' p written) : d.Extends d' := by
  intro place hplace
  rcases h.node place with hsame | ⟨hno, _⟩
  · rw [hsame, hplace]
  · exact absurd hplace hno

/-- The temporary file is taken away. -/
theorem of_drop (hd : d.Tree) (hseats : d.Seats (LocalFiles.temporary p) home temporary)
    (hfree : d.node? (home ++ [temporary]) ≠ some .directory) (hcwd : d'.cwd = d.cwd)
    (hnode : ∀ place, d'.node? place
      = if place = home ++ [temporary] then none else d.node? place) : Renewed d d' p none := by
  refine ⟨⟨fun place step hsome => ?_, fun place step hsome => ?_⟩, hcwd, fun place => ?_⟩
  · rw [hnode] at hsome
    split at hsome
    · cases hsome
    · exact hd.name place step hsome
  · have hdirectory : d.node? place = some .directory := by
      rw [hnode] at hsome
      split at hsome
      · cases hsome
      · exact hd.parent place step hsome
    rw [hnode, if_neg]
    · exact hdirectory
    · rintro rfl
      exact hfree hdirectory
  · rw [hnode]
    by_cases hplace : place = home ++ [temporary]
    · rw [if_pos hplace, hplace]
      exact Or.inr ⟨hfree, Or.inr ⟨rfl, home, temporary, hseats, rfl⟩⟩
    · exact Or.inl (if_neg hplace)

end Renewed

/-- **A replacement that fails** leaves no temporary file that was not there, whichever
call has failed. -/
theorem renewed_of_error (hd : d.Tree) {e : OsError}
    (h : LocalFiles.replace d p bytes = (.error e, d')) : Renewed d d' p none := by
  unfold LocalFiles.replace at h
  simp only [] at h
  split at h
  · -- Nothing was written. A temporary file may be there, and is removed if it can be.
    have hd' := (Prod.mk.inj h).2
    split at hd'
    · rename_i hremoved
      obtain ⟨home, temporary, hseats, hfree, rfl⟩ := remove_eq_ok hremoved
      rw [← hd']
      exact Renewed.of_drop hd hseats hfree rfl (node?_drop (by simp))
    · rw [← hd']
      exact Renewed.refl hd p
  · rename_i written hwritten
    split at h
    · -- The file was written and not moved, so it can be removed.
      have hd' := (Prod.mk.inj h).2
      obtain ⟨home, temporary, readOnly, hseats, hclosed, hfree, hput⟩ := write_eq_ok hwritten
      have hnode : ∀ place, written.node? place
          = if place = home ++ [temporary] then some (.file bytes readOnly) else d.node? place := by
        rw [hput]
        exact node?_put (by simp)
      obtain ⟨hkept, -, hcwd⟩ := extends_of_write hwritten
      have hthere : written.node? (home ++ [temporary]) = some (.file bytes readOnly) := by
        rw [hnode, if_pos rfl]
      rw [(hseats.of_extends hkept hcwd).remove hclosed hthere] at hd'
      rw [← hd']
      refine Renewed.of_drop hd hseats hfree hcwd fun place => ?_
      rw [node?_drop (by simp), hnode]
      split <;> rfl
    · cases (Prod.mk.inj h).1

/-- **A replacement that succeeds** puts the file where the path seats it. -/
theorem renewed_of_ok {temp : Disk} (hd : d.Tree)
    (hwritten : d.write (LocalFiles.temporary p) bytes = .ok temp)
    (hmoved : temp.move (LocalFiles.temporary p) p = .ok d') :
    ∃ parent name readOnly, Renewed d d' p (some (parent ++ [name])) ∧ d'.Seats p parent name ∧
      endsInSlash p = false ∧ d'.node? (parent ++ [name]) = some (.file bytes readOnly) ∧
      ∃ home temporary, d'.Seats (LocalFiles.temporary p) home temporary ∧
        d'.node? (home ++ [temporary]) = none := by
  obtain ⟨home, temporary, parent, name, readOnly, hsource, hseats, hclosed, htree, hcwd, hfree,
    hfree', hnode⟩ := write_move_eq_ok hd hwritten hmoved
  have hrenewed : Renewed d d' p (some (parent ++ [name])) := by
    refine ⟨htree, hcwd, fun place => ?_⟩
    rw [hnode]
    by_cases hplace : place = parent ++ [name]
    · rw [if_pos hplace, hplace]
      exact Or.inr ⟨hfree', Or.inl rfl⟩
    · rw [if_neg hplace]
      by_cases hhome : place = home ++ [temporary]
      · rw [if_pos hhome, hhome]
        exact Or.inr ⟨hfree, Or.inr ⟨rfl, home, temporary, hsource, rfl⟩⟩
      · exact Or.inl (if_neg hhome)
  refine ⟨parent, name, readOnly, hrenewed, hseats.of_extends hrenewed.extend hcwd, hclosed, ?_,
    home, temporary, hsource.of_extends hrenewed.extend hcwd, ?_⟩
  · rw [hnode, if_pos rfl]
  · rw [hnode, if_neg (hseats.ne_temporary hclosed hsource), if_pos rfl]

/-! ## 4. What a write leaves alone -/

/-- **What a write to a path leaves alone**, where a file was written to the given place, if
any. No directory goes, and no file is another one; only the temporary file may go. What is
new are directories that the path passes. -/
structure Spared (d d' : Disk) (p : Path) (written : Option Place) : Prop where
  tree : d'.Tree
  cwd : d'.cwd = d.cwd
  directory : d.Extends d'
  file : ∀ place bytes readOnly, d.node? place = some (.file bytes readOnly) →
    d'.node? place = some (.file bytes readOnly) ∨ written = some place ∨
      d'.node? place = none ∧ ∃ home temporary,
        d'.Seats (LocalFiles.temporary p) home temporary ∧ place = home ++ [temporary]
  made : ∀ place, d.node? place = none → d'.node? place = none ∨ written = some place ∨
    d'.node? place = some .directory ∧ d'.Passes p place

/-- A place that is passed is passed as long as no directory goes. -/
theorem Passes.of_extends (h : d.Passes p place) (hplace : d.node? place = some .directory)
    (hext : d.Extends d') (hcwd : d'.cwd = d.cwd) : d'.Passes p place := by
  obtain ⟨σ, ρ, hroute, hfollow, hρ⟩ := h
  refine ⟨σ, ρ, hroute, ?_, hρ⟩
  rw [start_of_cwd hcwd]
  exact follow_of_extends hext hplace hfollow

theorem spared_of_renewed (hrenewed : Renewed (LocalFiles.makeParents d p).2 d' p written) :
    Spared d d' p written := by
  have hgrown := grown_makeParents d p
  have hpasses := fun place => @passes_of_makeParents place d p
  generalize (LocalFiles.makeParents d p).2 = made at hrenewed hgrown hpasses
  have hext := hgrown.extends.trans hrenewed.extend
  refine ⟨hrenewed.tree, hrenewed.cwd.trans hgrown.cwd, hext, fun place bytes readOnly hfile => ?_,
    fun place hnone => ?_⟩
  · have hmade : made.node? place = some (.file bytes readOnly) := by
      rcases hgrown.node place with hsame | ⟨hnone, _⟩
      · rw [hsame, hfile]
      · rw [hfile] at hnone
        cases hnone
    rcases hrenewed.node place with hsame | ⟨_, hwritten | ⟨hgone, home, temporary, hseats, hplace⟩⟩
    · exact Or.inl (hsame.trans hmade)
    · exact Or.inr (Or.inl hwritten)
    · exact Or.inr (Or.inr ⟨hgone, home, temporary,
        hseats.of_extends hrenewed.extend hrenewed.cwd, hplace⟩)
  · rcases hrenewed.node place with hsame | ⟨_, hwritten | ⟨hgone, _⟩⟩
    · rcases hgrown.node place with hold | ⟨_, hnew⟩
      · exact Or.inl (hsame.trans (hold.trans hnone))
      · exact Or.inr (Or.inr ⟨hsame.trans hnew,
          (hpasses place hnone hnew).of_extends hnew hrenewed.extend hrenewed.cwd⟩)
    · exact Or.inr (Or.inl hwritten)
    · exact Or.inl hgone

/-- **A write that fails** has written to no place. -/
theorem spared_of_error (hd : d.Tree) {e : OsError}
    (h : LocalFiles.writeAtomic d p bytes = (.error e, d')) : Spared d d' p none := by
  have htree := (grown_makeParents d p).tree hd
  refine spared_of_renewed ?_
  unfold LocalFiles.writeAtomic at h
  split at h
  · rename_i hparents
    rw [hparents] at htree ⊢
    rw [← (Prod.mk.inj h).2]
    exact Renewed.refl htree p
  · rename_i hparents
    rw [hparents] at htree ⊢
    exact renewed_of_error htree h

/-- **A write that succeeds** has put the file where the path leads, and the temporary file
is gone. -/
theorem spared_of_ok (hd : d.Tree) (h : LocalFiles.writeAtomic d p bytes = (.ok (), d')) :
    d'.read p = .ok bytes ∧ d'.read (LocalFiles.temporary p) = .error .notFound ∧
      ∃ place, d'.locate p = .ok place ∧ Spared d d' p (some place) := by
  obtain ⟨made, temp, hparents, hwritten, hmoved⟩ := writeAtomic_eq_ok h
  have htree := (grown_makeParents d p).tree hd
  rw [hparents] at htree
  obtain ⟨parent, name, readOnly, hrenewed, hseats, hclosed, hnode, home, temporary, htemp,
    hgone⟩ := renewed_of_ok htree hwritten hmoved
  have hlocate := hseats.locate hclosed (by rw [hnode]; rfl)
  refine ⟨hseats.read hclosed hnode, htemp.read_missing hgone, _, hlocate, spared_of_renewed ?_⟩
  rw [hparents]
  exact hrenewed

namespace Spared

/-- What is a directory in the end was none of the files. -/
theorem of_directory (h : Spared d d' p none) (hplace : d'.node? place = some .directory) :
    d.node? place = none ∨ d.node? place = some .directory := by
  cases hnode : d.node? place with
  | none => exact Or.inl rfl
  | some node =>
    cases node with
    | directory => exact Or.inr rfl
    | file bytes readOnly =>
      rcases h.file place bytes readOnly hnode with hsame | hwritten | ⟨hgone, _⟩
      · rw [hplace] at hsame
        cases hsame
      · cases hwritten
      · rw [hplace] at hgone
        cases hgone

/-- A file in the end was there before. -/
theorem of_file (h : Spared d d' p none) {readOnly : Bool}
    (hplace : d'.node? place = some (.file bytes readOnly)) :
    d.node? place = some (.file bytes readOnly) := by
  cases hnode : d.node? place with
  | none =>
    rcases h.made place hnode with hgone | hwritten | ⟨hnew, _⟩
    · rw [hplace] at hgone
      cases hgone
    · cases hwritten
    · rw [hplace] at hnew
      cases hnew
  | some node =>
    cases node with
    | directory =>
      rw [h.directory place hnode] at hplace
      cases hplace
    | file bytes' readOnly' =>
      rcases h.file place bytes' readOnly' hnode with hsame | hwritten | ⟨hgone, _⟩
      · rw [← hsame, hplace]
      · cases hwritten
      · rw [hplace] at hgone
        cases hgone

/-- The file of the path is not its temporary file, so it stays. -/
theorem keeps (h : Spared d d' p none) (hseats : d.Seats p parent name)
    (hclosed : endsInSlash p = false) {readOnly : Bool}
    (hnode : d.node? (parent ++ [name]) = some (.file bytes readOnly)) :
    d'.node? (parent ++ [name]) = some (.file bytes readOnly) := by
  rcases h.file _ bytes readOnly hnode with hsame | hwritten | ⟨_, home, temporary, htemp, hplace⟩
  · exact hsame
  · cases hwritten
  · exact absurd hplace.symm (hseats.ne_temporary hclosed htemp)

end Spared

/-! ## 5. Following what was made -/

/-- **A path climbs out of a place**: its route leads there and goes up. -/
def Climbs (d : Disk) (p : Path) (place : Place) : Prop :=
  ∃ σ ρ, route p = σ ++ ".." :: ρ ∧ d.follow (d.start p) σ = .ok place

/-- Steps that go up only out of what was there before. -/
def Level (d d' : Disk) (here : Place) (σ : List String) : Prop :=
  ∀ τ ρ place, σ = τ ++ ".." :: ρ → d'.follow here τ = .ok place → d.node? place ≠ none

/-- So do the steps behind the first ones. -/
theorem Level.behind (h : Level d d' here (σ ++ ρ)) (hfollow : d'.follow here σ = .ok found) :
    Level d d' found ρ := by
  intro τ υ place hρ hplace
  refine h (σ ++ τ) υ place (by rw [hρ, List.append_assoc]) ?_
  rw [follow_append, hfollow]
  exact hplace

/-- In a directory that was made, the steps lead down. -/
theorem eq_of_follow_made (hd : d.Tree) (hnew : d.node? here = none) (hlevel : Level d d' here σ)
    (h : d'.follow here σ = .ok found) :
    d.node? found = none ∧ found = here ++ σ.filter (· ≠ ".") := by
  induction σ generalizing here with
  | nil =>
    obtain rfl := Except.ok.inj h
    exact ⟨hnew, (List.append_nil _).symm⟩
  | cons step σ ih =>
    obtain ⟨next, hstep, hrest⟩ := follow_cons_iff.mp h
    have hbehind : Level d d' next σ := Level.behind (σ := [step]) hlevel hstep
    rcases (follow_step_iff.mp hstep).2 with ⟨hdot, rfl⟩ | ⟨rfl, _⟩ | ⟨hdot, _, _, rfl, _⟩
    · rw [List.filter_cons_of_neg (by simp [hdot])]
      exact ih hnew hbehind hrest
    · exact absurd hnew (hlevel [] σ here rfl rfl)
    · rw [List.filter_cons_of_pos (by simpa using hdot), List.append_cons here step]
      exact ih (hd.below_missing hnew step) hbehind hrest

/-- **What was there before is found as before**, where steps go up only out of what was
there. -/
theorem follow_of_made (hd : d.Tree)
    (hback : ∀ place, d'.node? place = some .directory →
      d.node? place = none ∨ d.node? place = some .directory)
    (hlevel : Level d d' here σ) (hfound : d.node? found ≠ none)
    (h : d'.follow here σ = .ok found) : d.follow here σ = .ok found := by
  -- Once a directory is entered that was made, nothing else is found.
  have hold : ∀ {here σ}, Level d d' here σ → d'.follow here σ = .ok found → d.node? here ≠ none :=
    fun hlevel hfollow hnew => hfound (eq_of_follow_made hd hnew hlevel hfollow).1
  induction σ generalizing here with
  | nil => exact h
  | cons step σ ih =>
    obtain ⟨next, hstep, hrest⟩ := follow_cons_iff.mp h
    have hbehind : Level d d' next σ := Level.behind (σ := [step]) hlevel hstep
    refine follow_cons_iff.mpr ⟨next, ?_, ih hbehind hrest⟩
    obtain ⟨hdirectory, hcases⟩ := follow_step_iff.mp hstep
    refine follow_step_iff.mpr ⟨(hback here hdirectory).resolve_left (hold hlevel h), ?_⟩
    exact hcases.imp_right fun hcases => hcases.imp_right fun ⟨hdot, hup, hshort, heq, _⟩ =>
      ⟨hdot, hup, hshort, heq, Option.isSome_iff_ne_none.mpr (hold hbehind hrest)⟩

/-- A step that is missing is missing in a directory. -/
theorem directory_of_missing (hhere : d.node? here ≠ none)
    (h : d.follow here σ = .error .notFound) : d.node? here = some .directory := by
  cases σ with
  | nil => cases h
  | cons step σ =>
    rw [Disk.follow] at h
    split at h
    · rename_i hnone
      exact absurd hnone hhere
    · cases h
    · assumption

section Missing

variable (hd : d.Tree) (hnew : ∀ place, d.node? place = none →
  d'.node? place = none ∨ d'.node? place = some .directory)

include hd hnew

/-- In a directory that was made, a step is missing or a directory that was made is found. -/
theorem follow_below_made (hhere : d.node? here = none) (hthere : (d'.node? here).isSome = true)
    (hlevel : Level d d' here σ) (hshort : ∀ step ∈ σ, tooLong step = false) :
    d'.follow here σ = .error .notFound ∨
      ∃ found, d'.follow here σ = .ok found ∧ d.node? found = none ∧
        (d'.node? found).isSome = true := by
  induction σ generalizing here with
  | nil => exact Or.inr ⟨here, rfl, hhere, hthere⟩
  | cons step σ ih =>
    obtain ⟨hstep, hshort⟩ := List.forall_mem_cons.mp hshort
    have hdirectory : d'.node? here = some .directory := by
      rcases hnew here hhere with hnone | hdirectory
      · rw [hnone] at hthere
        cases hthere
      · exact hdirectory
    have hup : step ≠ ".." := by
      rintro rfl
      exact hlevel [] σ here rfl rfl hhere
    rw [Disk.follow, hdirectory]
    simp only [if_neg hup, hstep, Bool.false_eq_true, if_false]
    split
    · rename_i hdot
      have hone : d'.follow here [step] = .ok here :=
        follow_step_iff.mpr ⟨hdirectory, Or.inl ⟨hdot, rfl⟩⟩
      exact ih hhere hthere (Level.behind (σ := [step]) hlevel hone) hshort
    · rename_i hdot
      split
      · exact Or.inl rfl
      · rename_i hsome
        have hnext : (d'.node? (here ++ [step])).isSome = true :=
          Option.isSome_iff_ne_none.mpr fun hnone => hsome (by rw [hnone]; rfl)
        have hone : d'.follow here [step] = .ok (here ++ [step]) :=
          follow_step_iff.mpr ⟨hdirectory, Or.inr (Or.inr ⟨hdot, hup, hstep, rfl, hnext⟩)⟩
        have hlevel' := Level.behind (σ := [step]) hlevel hone
        exact ih (hd.below_missing hhere step) hnext hlevel' hshort

/-- **What was missing is still missing**, or is a directory that was made. -/
theorem follow_missing_of_made (hext : d.Extends d') (hlevel : Level d d' here σ)
    (hshort : ∀ step ∈ σ, tooLong step = false) (h : d.follow here σ = .error .notFound) :
    d'.follow here σ = .error .notFound ∨
      ∃ found, d'.follow here σ = .ok found ∧ d.node? found = none ∧
        (d'.node? found).isSome = true := by
  induction σ generalizing here with
  | nil => cases h
  | cons step σ ih =>
    obtain ⟨hstep, hshort'⟩ := List.forall_mem_cons.mp hshort
    -- The steps may start where nothing was, in a working directory that is gone.
    by_cases hhere : d.node? here = none
    · by_cases hthere : d'.node? here = none
      · left
        rw [Disk.follow, hthere]
      · exact follow_below_made hd hnew hhere (Option.isSome_iff_ne_none.mpr hthere) hlevel hshort
    · have hdirectory := directory_of_missing hhere h
      have hdirectory' := hext here hdirectory
      have hone : ∀ {next}, d'.follow here [step] = .ok next → Level d d' next σ :=
        fun hstep => Level.behind (σ := [step]) hlevel hstep
      rw [Disk.follow, hdirectory] at h
      rw [Disk.follow, hdirectory']
      simp only [hstep, Bool.false_eq_true, if_false] at h ⊢
      split at h
      · rename_i hdot
        rw [if_pos hdot]
        exact ih (hone (follow_step_iff.mpr ⟨hdirectory', Or.inl ⟨hdot, rfl⟩⟩)) hshort' h
      · rename_i hdot
        rw [if_neg hdot]
        split at h
        · rename_i hup
          rw [if_pos hup]
          exact ih (hone (follow_step_iff.mpr ⟨hdirectory', Or.inr (Or.inl ⟨hup, rfl⟩)⟩)) hshort' h
        · rename_i hup
          rw [if_neg hup]
          have hlevel' : (d'.node? (here ++ [step])).isSome = true →
              Level d d' (here ++ [step]) σ := fun hsome =>
            hone (follow_step_iff.mpr ⟨hdirectory', Or.inr (Or.inr ⟨hdot, hup, hstep, rfl, hsome⟩)⟩)
          by_cases hnext' : d'.node? (here ++ [step]) = none
          · left
            rw [hnext']
            rfl
          · have hsome := Option.isSome_iff_ne_none.mpr hnext'
            rw [if_neg (by rw [← Option.not_isSome, hsome]; exact Bool.false_ne_true)]
            by_cases hnext : d.node? (here ++ [step]) = none
            · exact follow_below_made hd hnew hnext hsome (hlevel' hsome) hshort'
            · rw [if_neg (by simpa using hnext)] at h
              exact ih (hlevel' hsome) hshort' h

end Missing

/-! ## 6. All or nothing -/

namespace Spared

/-- A file that is there is read as before. -/
theorem read_eq_ok (h : Spared d d' p none) (hd : d.Tree) (hread : d.read p = .ok bytes) :
    d'.read p = .ok bytes := by
  obtain ⟨parent, name, readOnly, hseats, hclosed, hnode⟩ := hd.seats_of_read hread
  exact (hseats.of_extends h.directory h.cwd).read hclosed (h.keeps hseats hclosed hnode)

section Climbing

variable (h : Spared d d' p none) (hd : d.Tree)
  (hclimbs : ∀ place, d'.Climbs p place → d.node? place ≠ none)

include hclimbs in
theorem level : Level d d' (d'.start p) (route p) :=
  fun σ ρ place hroute hfollow => hclimbs place ⟨σ, ρ, hroute, hfollow⟩

include h hd hclimbs

/-- A file that is read in the end was there and was read. -/
theorem read_of_made (hread : d'.read p = .ok bytes) : d.read p = .ok bytes := by
  obtain ⟨parent, name, readOnly, hseats, hclosed, hnode⟩ := h.tree.seats_of_read hread
  have hold := h.of_file hnode
  have hlocate := hseats.locate hclosed (by rw [hnode]; rfl)
  rw [locate_eq_follow hseats.check] at hlocate
  have hfollow := follow_of_made hd (fun _ => h.of_directory) (level hclimbs)
    (by rw [hold]; exact Option.some_ne_none _) hlocate
  rw [Disk.read, stat, locate_eq_follow hseats.check, ← start_of_cwd h.cwd, hfollow]
  simp only [hold, Option.getD_some]

/-- Where nothing was, nothing is. -/
theorem read_missing (hshort : ∀ step ∈ steps p, tooLong step = false)
    (hread : d.read p = .error .notFound) : d'.read p = .error .notFound := by
  have hlocate : d.locate p = .error .notFound := by
    unfold Disk.read stat at hread
    split at hread
    · rename_i e hstat
      split at hstat
      · rename_i e' hlocate
        rw [hlocate, Except.error.inj hstat, Except.error.inj hread]
      · cases hstat
    · cases hread
    · cases hread
  suffices hlocate' : d'.locate p = .error .notFound by rw [Disk.read, stat, hlocate']
  cases hcheck : check p with
  | error e =>
    rw [Disk.locate, hcheck] at hlocate ⊢
    exact hlocate
  | ok _ =>
    rw [locate_eq_follow hcheck] at hlocate ⊢
    rw [← start_of_cwd h.cwd] at hlocate
    have hshort' : ∀ step ∈ route p, tooLong step = false := by
      intro step hstep
      rcases List.mem_append.mp hstep with hstep | hslash
      · exact hshort step hstep
      · split at hslash
        · rw [List.mem_singleton.mp hslash]
          decide
        · cases hslash
    have hnew : ∀ place, d.node? place = none →
        d'.node? place = none ∨ d'.node? place = some .directory := by
      intro place hnone
      rcases h.made place hnone with hmissing | hwritten | ⟨hmade, _⟩
      · exact Or.inl hmissing
      · cases hwritten
      · exact Or.inr hmade
    have hlevel : Level d d' (d'.start p) (route p) := level hclimbs
    refine (follow_missing_of_made hd hnew h.directory hlevel hshort' hlocate).resolve_right ?_
    rintro ⟨found, hfollow, hnone, hthere⟩
    -- A directory that was made is passed, so the route leads on, and further down.
    rcases h.made found hnone with hmissing | hwritten | ⟨_, hpasses⟩
    · rw [hmissing] at hthere
      cases hthere
    · cases hwritten
    · obtain ⟨σ, ρ, hroute, hpassed, step, hstep, hdot⟩ := hpasses
      rw [hroute] at hlevel hfollow
      rw [follow_append, hpassed] at hfollow
      have hdown := (eq_of_follow_made hd hnone (hlevel.behind hpassed) hfollow).2
      have hnil : ρ.filter (· ≠ ".") = [] := List.append_right_eq_self.mp hdown.symm
      exact absurd (List.filter_eq_nil_iff.mp hnil step hstep) (by simpa using hdot)

end Climbing

end Spared

end Disk

namespace LocalFiles

variable {l : LocalFiles} {unit : Path} {content : Bytes}

theorem read_eq_some_iff : l.read unit = .ok (some content) ↔ l.disk.read unit = .ok content := by
  unfold read
  split
  · rename_i bytes hread
    rw [hread]
    exact ⟨fun h => congrArg Except.ok (Option.some.inj (Except.ok.inj h)),
      fun h => congrArg (Except.ok ∘ some) (Except.ok.inj h)⟩
  · rename_i hread
    rw [hread]
    exact ⟨nofun, nofun⟩
  · rename_i e _ hread
    rw [hread]
    exact ⟨nofun, nofun⟩

theorem read_eq_none_iff : l.read unit = .ok none ↔ l.disk.read unit = .error .notFound := by
  unfold read
  split
  · rename_i hread
    rw [hread]
    exact ⟨nofun, nofun⟩
  · rename_i hread
    exact ⟨fun _ => hread, fun _ => rfl⟩
  · rename_i e hne hread
    rw [hread]
    exact ⟨nofun, fun h => absurd (Except.error.inj h) hne⟩

/-- **A write is all or nothing.** If it succeeds, the unit has the bytes and there is no
temporary file. If it fails, a unit that had content has it still. In both cases no other
file is another one than before, except that a temporary file may be gone, and what is new
are directories on the way to the unit. A unit that had no content has none after a failed
write either, if its path climbs out of no directory that was made; and if it was missing,
it is missing, unless there is a name that no file can have. The directory tree has no
links, and each of the calls on it is carried out or refused. -/
theorem write_all_or_nothing (hd : l.disk.Tree) (unit : Path) (bytes : Bytes) :
    let after := (l.write unit bytes).2
    ((l.write unit bytes).1 = .ok () →
      after.read unit = .ok (some bytes) ∧ after.read (temporary unit) = .ok none ∧
        ∃ place, after.disk.locate unit = .ok place ∧
          l.disk.Spared after.disk unit (some place)) ∧
    ∀ e, (l.write unit bytes).1 = .error e →
      l.disk.Spared after.disk unit none ∧
        (∀ content, l.read unit = .ok (some content) → after.read unit = .ok (some content)) ∧
        ((∀ place, after.disk.Climbs unit place → l.disk.node? place ≠ none) →
          (∀ content, after.read unit = .ok (some content) → l.read unit = .ok (some content)) ∧
          (l.read unit = .ok none → (∀ step ∈ Disk.steps unit, Disk.tooLong step = false) →
            after.read unit = .ok none)) := by
  intro after
  have hafter : after = (l.write unit bytes).2 := rfl
  unfold write at hafter ⊢
  cases hout : writeAtomic l.disk unit bytes with
  | mk outcome d' =>
    simp only [hout] at hafter ⊢
    cases outcome with
    | ok u =>
      refine ⟨fun _ => ?_, nofun⟩
      obtain ⟨hread, hgone, hspared⟩ := Disk.spared_of_ok hd hout
      have hdisk : after.disk = d' := by rw [hafter]
      rw [← hdisk] at hread hgone hspared
      exact ⟨read_eq_some_iff.mpr hread, read_eq_none_iff.mpr hgone, hspared⟩
    | error e =>
      refine ⟨nofun, fun _ _ => ?_⟩
      have hspared := Disk.spared_of_error hd hout
      have hdisk : after.disk = d' := by rw [hafter]
      rw [← hdisk] at hspared
      refine ⟨hspared, fun content hread => ?_, fun hclimbs => ⟨fun content hread => ?_,
        fun hread hshort => ?_⟩⟩
      · exact read_eq_some_iff.mpr (hspared.read_eq_ok hd (read_eq_some_iff.mp hread))
      · exact read_eq_some_iff.mpr (hspared.read_of_made hd hclimbs (read_eq_some_iff.mp hread))
      · exact read_eq_none_iff.mpr
          (hspared.read_missing hd hclimbs hshort (read_eq_none_iff.mp hread))

/-- A file, and a directory in the place of its temporary file. -/
def blockedFiles : LocalFiles :=
  { disk := { nodes := [(["f"], .file [120] false), (["f.tmp"], .directory)] } }

/-- The file cannot be written and stays; one in a directory that is missing can be. -/
theorem write_blocked :
    (blockedFiles.write ⟨"/f"⟩ [121]).1.isOk = false ∧
      (blockedFiles.write ⟨"/f"⟩ [121]).2.read ⟨"/f"⟩ = .ok (some [120]) ∧
      (blockedFiles.write ⟨"/m/f"⟩ [121]).1 = .ok () ∧
      (blockedFiles.write ⟨"/m/f"⟩ [121]).2.read ⟨"/m/f"⟩ = .ok (some [121]) := by
  have htree : blockedFiles.disk.Tree := Disk.tree_of_nodes (by decide +kernel)
  have hfails : (blockedFiles.write ⟨"/f"⟩ [121]).1.isOk = false := by decide +kernel
  have hread : blockedFiles.read ⟨"/f"⟩ = .ok (some [120]) := by decide +kernel
  have hsucceeds : (blockedFiles.write ⟨"/m/f"⟩ [121]).1 = .ok () := by decide +kernel
  refine ⟨hfails, ?_, hsucceeds, ?_⟩
  · cases hout : (blockedFiles.write ⟨"/f"⟩ [121]).1 with
    | ok u =>
      rw [hout] at hfails
      cases hfails
    | error e => exact ((write_all_or_nothing htree ⟨"/f"⟩ [121]).2 e hout).2.1 [120] hread
  · exact ((write_all_or_nothing htree ⟨"/m/f"⟩ [121]).1 hsucceeds).1

/-- **A unit may be found after a write that failed** although it was missing before, by way
of a directory that the write has made. -/
theorem write_failed_found :
    let out := blockedFiles.write ⟨"/m/../f"⟩ [121]
    blockedFiles.read ⟨"/m/../f"⟩ = .ok none ∧ out.1.isOk = false ∧
      out.2.read ⟨"/m/../f"⟩ = .ok (some [120]) := by
  decide +kernel

end LocalFiles

end ScopedState
