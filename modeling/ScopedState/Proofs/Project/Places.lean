/-
`Proofs/Project/Places.lean` -- where the storage files of a scope are.

A scope finds its storage files twice: it lists its state directory, and each
component it finds there is mapped to a unit whose path is expanded from a
template. The two paths of a file are not the same text, and neither need be in
normal form, since the directory of a scope is whatever the manifest says. What
they have in common is a place on the disk.

So a directory is given one place, that depends on its names alone; under a
directory that leads there, the listed path of a file and the path of its unit both
spell the file below that place. With this the listing of a state directory is said
by what is on the disk: the names in it that end in the extension and have content.
-/
import ScopedState.Project
import ScopedState.Proofs.Disk
import ScopedState.Proofs.Macros
set_option autoImplicit false

namespace ScopedState

open Bindings (get? keys)

namespace Disk

/-! ## 1. The place of a directory -/

/-- **The place of a directory**: where its names lead, or would lead if they were
made. -/
def placeOf (d : Disk) (dir : Path) : Place :=
  match d.follow [] (names dir) with
  | .ok place => place
  | .error _ => names dir

theorem placeOf_congr (d : Disk) {p q : Path} (h : names p = names q) :
    d.placeOf p = d.placeOf q := by
  rw [placeOf, placeOf, h]

/-- **A directory that is settled**: it is there, or it is written without steps up.
What is made on the disk cannot change where it is. -/
def Settled (d : Disk) (dir : Path) : Prop :=
  ".." ∉ steps dir ∨
    (d.follow [] (steps dir) = .ok (d.placeOf dir) ∧ d.node? (d.placeOf dir) = some .directory)

section Place

variable {d : Disk} {dir : Path} {here found : Place} {σ : List String}

/-- What is followed to is there. -/
theorem Tree.node?_of_follow (hd : d.Tree) (hhere : (d.node? here).isSome = true)
    (h : d.follow here σ = .ok found) : (d.node? found).isSome = true := by
  induction σ generalizing here with
  | nil =>
    rw [← Except.ok.inj h]
    exact hhere
  | cons step rest ih =>
    obtain ⟨next, hstep, hrest⟩ := follow_cons_iff.mp h
    refine ih ?_ hrest
    rcases (follow_step_iff.mp hstep).2 with ⟨_, rfl⟩ | ⟨_, rfl⟩ | ⟨_, _, _, _, hthere⟩
    · exact hhere
    · rw [hd.directory_dropLast hhere]
      rfl
    · exact hthere

/-- What is followed is made of names that something can have. -/
theorem Tree.fileName_of_follow (hd : d.Tree) (h : d.follow here σ = .ok found) :
    ∀ step ∈ σ, step = "." ∨ step = ".." ∨ FileName step := by
  induction σ generalizing here with
  | nil => exact fun step hstep => absurd hstep List.not_mem_nil
  | cons first rest ih =>
    obtain ⟨next, hstep, hrest⟩ := follow_cons_iff.mp h
    refine List.forall_mem_cons.mpr ⟨?_, ih hrest⟩
    rcases (follow_step_iff.mp hstep).2 with ⟨hdot, _⟩ | ⟨hup, _⟩ | ⟨_, _, _, rfl, hthere⟩
    · exact Or.inl hdot
    · exact Or.inr (Or.inl hup)
    · exact Or.inr (Or.inr (hd.name here first hthere))

theorem placeOf_of_noUp (d : Disk) (hup : ".." ∉ steps dir) : d.placeOf dir = names dir := by
  unfold placeOf
  cases hfollow : d.follow [] (names dir) with
  | error e => rfl
  | ok found =>
    have hup' : ".." ∉ names dir := fun h => hup (List.mem_filter.mp h).1
    rw [eq_of_follow hup' hfollow, List.nil_append, names, List.filter_filter]
    simp only [Bool.and_self]

theorem placeOf_of_follow (h : d.follow [] (steps dir) = .ok found) : d.placeOf dir = found := by
  rw [placeOf, names, follow_filter h]

/-- **The steps of a settled directory** lead to its place. -/
theorem Settled.leads (h : d.Settled dir) : d.Leads (steps dir) (d.placeOf dir) := by
  rcases h with hup | ⟨hfollow, hnode⟩
  · rw [placeOf_of_noUp d hup]
    exact leads_of_noUp d hup
  · exact leads_of_follow hfollow hnode

/-- **A settled directory stays where it is.** -/
theorem Settled.extends {d' : Disk} (h : d.Settled dir) (hext : d.Extends d') :
    d'.placeOf dir = d.placeOf dir ∧ d'.Settled dir := by
  rcases h with hup | ⟨hfollow, hnode⟩
  · exact ⟨(placeOf_of_noUp d' hup).trans (placeOf_of_noUp d hup).symm, Or.inl hup⟩
  · have hfollow' := follow_of_extends hext hnode hfollow
    have hplace := placeOf_of_follow hfollow'
    refine ⟨hplace, Or.inr ?_⟩
    rw [hplace]
    exact ⟨hfollow', hext _ hnode⟩

end Place

/-! ## 2. Texts of paths -/

section Texts

variable {p : Path} {name : String}

/-- What is taken off a path are the slashes behind it. -/
theorem trimmed_eq (h : p.isAbsolute = true) :
    p.trimmed.toList.head? = some '/' ∧ p.trimmed.utf8ByteSize ≤ p.text.utf8ByteSize := by
  obtain ⟨rest, hrest⟩ := List.head?_eq_some_iff.mp (of_decide_eq_true h)
  have hsplit : p.text.toList = (p.text.toList.reverse.dropWhile (· = '/')).reverse
      ++ (p.text.toList.reverse.takeWhile (· = '/')).reverse := by
    rw [← List.reverse_append, List.takeWhile_append_dropWhile, List.reverse_reverse]
  unfold Path.trimmed
  dsimp only
  split
  · refine ⟨rfl, Nat.one_le_iff_ne_zero.mpr fun hzero => ?_⟩
    rw [String.utf8ByteSize_eq_zero_iff.mp hzero] at hrest
    cases hrest
  · rename_i hkept
    refine ⟨?_, ?_⟩
    · rw [String.toList_ofList]
      obtain ⟨c, kept, hcons⟩ := List.exists_cons_of_ne_nil fun hnil =>
        hkept (List.isEmpty_iff.mpr hnil)
      rw [hcons] at hsplit ⊢
      rw [hsplit, List.cons_append] at hrest
      rw [(List.cons.inj hrest).1]
      rfl
    · have htext : p.text = String.ofList (p.text.toList.reverse.dropWhile (· = '/')).reverse
          ++ String.ofList (p.text.toList.reverse.takeWhile (· = '/')).reverse := by
        rw [← String.ofList_append, ← hsplit, String.ofList_toList]
      calc _ ≤ _ := Nat.le_add_right _ _
        _ = _ := (String.utf8ByteSize_append ..).symm
        _ = p.text.utf8ByteSize := by rw [← htext]

theorem FileName.relative (h : FileName name) : (⟨name⟩ : Path).isAbsolute = false := by
  rw [Path.isAbsolute, decide_eq_false_iff_not]
  exact fun hhead => h.2.2.2.1 (List.mem_of_mem_head? hhead)

/-- The text of a path below another one ends in its name, and is longer by the name
and at most a slash. -/
theorem join_text (h : FileName name) : ∃ front, (p.join ⟨name⟩).text = front ++ name ∧
    p.text.utf8ByteSize ≤ front.utf8ByteSize ∧ front.utf8ByteSize ≤ p.text.utf8ByteSize + 1 ∧
    ('\x00' ∈ (p.join ⟨name⟩).text.toList ↔ '\x00' ∈ p.text.toList) := by
  have hclean := h.2.2.2.2.1
  rw [Path.join, h.relative, if_neg Bool.false_ne_true]
  split
  · refine ⟨p.text, rfl, Nat.le_refl _, Nat.le_succ _, ?_⟩
    simp [hclean]
  · have hsize : (p.text ++ "/").utf8ByteSize = p.text.utf8ByteSize + 1 :=
      String.utf8ByteSize_append ..
    refine ⟨p.text ++ "/", rfl, hsize ▸ Nat.le_succ _, Nat.le_of_eq hsize, ?_⟩
    simp [hclean]

theorem FileName.stepPart_eq (h : FileName name) : stepPart name = .name name := by
  have hdots : name.toList ≠ ['.', '.'] := fun hdots => h.2.2.1 (String.toList_inj.mp hdots)
  rw [stepPart, Path.partOf, if_neg hdots, String.ofList_toList]

/-- The name of a file below an absolute path is read off it. -/
theorem fileName?_join (hp : p.isAbsolute = true) (h : FileName name) :
    (p.join ⟨name⟩).fileName? = some name := by
  have hkept : [name].filter (· ≠ ".") = [name] :=
    List.filter_cons_of_pos (by simpa using h.2.1)
  have hnames : names (p.join ⟨name⟩) = names p ++ [name] := by
    rw [names, steps_join_name p h.2.2.2.1 h.1, List.filter_append, hkept, names]
  rw [Path.fileName?, location_eq (isAbsolute_join hp), hnames, List.map_append, List.map_singleton,
    ← List.cons_append, List.getLast?_concat, h.stepPart_eq]

/-- A path that ends in a name does not end in a slash. -/
theorem endsInSlash_of_text {front : String} (hname : FileName name)
    (htext : p.text = front ++ name) : endsInSlash p = false := by
  have hlast : p.text.toList.getLast? = name.toList.getLast? := by
    rw [htext, String.toList_append]
    exact List.getLast?_append_of_ne_nil _ (by simpa using hname.1)
  rw [endsInSlash, hlast, decide_eq_false_iff_not]
  exact fun hend => hname.2.2.2.1 (List.mem_of_getLast? hend)

/-- **A path that ends in a name** and is not too long spells what is below the place
that its front leads to. -/
theorem spells_of_steps {d : Disk} {parent : Place} {σ : List String} {front : String}
    (habsolute : p.isAbsolute = true) (hname : FileName name) (hsteps : steps p = σ ++ [name])
    (hleads : d.Leads σ parent) (htext : p.text = front ++ name)
    (hclean : '\x00' ∉ p.text.toList) (hshort : p.text.utf8ByteSize < 4096) :
    d.Spells p parent name where
  absolute := habsolute
  check := by
    have hne : p.text.isEmpty = false := by
      rw [Bool.eq_false_iff]
      intro hempty
      rw [Path.isAbsolute, String.isEmpty_iff.mp hempty] at habsolute
      cases habsolute
    rw [check, if_neg (by simpa using hclean), hne, if_neg Bool.false_ne_true,
      if_neg (Nat.not_le.mpr hshort)]
  closed := endsInSlash_of_text hname htext
  leads := ⟨σ, hsteps, hleads⟩
  named := ⟨hname.2.1, hname.2.2.1⟩

end Texts

end Disk

/-! ## 3. The files of a scope -/

/-- Settings that leave storage files where they are by default. -/
structure Settings.Standard (s : Settings) : Prop where
  stateDir : s.stateDir = ".scopestore"
  extension : s.extension = "json"

open Disk (FileName Spells names steps)

/-- The name of a storage file. -/
def StorageName (f : String) : Prop :=
  FileName f ∧ (Path.cutExtension f.toList).2.map String.ofList = some "json"

instance (f : String) : Decidable (StorageName f) := inferInstanceAs (Decidable (_ ∧ _))

/-- A storage file is no temporary file. -/
theorem StorageName.lasting {f : String} (h : StorageName f) (place : Place) :
    ¬ Disk.Temporary (place ++ [f]) := by
  rintro ⟨name, hname⟩
  rw [List.getLast?_concat, Option.some.injEq] at hname
  have hextension := h.2
  rw [hname, String.toList_append] at hextension
  have htail : (name.toList ++ ".tmp".toList).reverse.takeWhile (· ≠ '.') = ['p', 'm', 't'] := by
    simp
  unfold Path.cutExtension at hextension
  simp only [htail] at hextension
  split at hextension
  · have htmp : String.ofList ['p', 'm', 't'].reverse = "json" := Option.some.inj hextension
    exact absurd htmp (by decide)
  · cases hextension

/-- The path of the unit that stands for a storage file, as templates name it. -/
def unitPath (dir : Path) (f : String) : Path := ⟨dir.trimmed ++ "/.scopestore/" ++ f⟩

/-- The place of the state directory of a scope. -/
def Disk.statePlace (d : Disk) (dir : Path) : Place := d.placeOf dir ++ [".scopestore"]

/-- **A directory for a scope**: it is absolute, it is settled, and the paths below it
are not too long. -/
structure Disk.Stands (d : Disk) (dir : Path) : Prop where
  absolute : dir.isAbsolute = true
  settled : d.Settled dir
  short : (dir.join ⟨".scopestore"⟩).text.utf8ByteSize + 257 < 4096

/-- A directory that can hold storage files. -/
structure Disk.Lies (d : Disk) (dir : Path) : Prop extends Disk.Stands d dir where
  clean : '\x00' ∉ dir.text.toList

section Files

variable {d : Disk} {dir : Path} {f : String}

/-- The state directory has the name of a file. -/
theorem fileName_stateDir : FileName ".scopestore" := by decide

theorem unitPath_toList (dir : Path) (f : String) : (unitPath dir f).text.toList
    = dir.trimmed.toList ++ '/' :: (".scopestore".toList ++ '/' :: f.toList) := by
  rw [unitPath, String.toList_append, String.toList_append, List.append_assoc]
  rfl

theorem isAbsolute_unitPath (h : dir.isAbsolute = true) (f : String) :
    (unitPath dir f).isAbsolute = true := by
  rw [Path.isAbsolute, unitPath_toList, List.head?_append, (Disk.trimmed_eq h).1]
  rfl

theorem steps_unitPath (dir : Path) (hf : FileName f) :
    steps (unitPath dir f) = steps dir ++ [".scopestore"] ++ [f] := by
  have hne : f.toList ≠ [] := by simpa using hf.1
  rw [Disk.steps_eq, unitPath_toList, Disk.stepsOf_append_slash, Disk.stepsOf_append_slash,
    Disk.stepsOf_of_no_slash hf.2.2.2.1 hne, String.ofList_toList, ← Disk.steps_trimmed dir,
    List.append_assoc]
  rfl

/-- **The names of a unit** are those of the directory, the state directory and the
file. -/
theorem names_unitPath (dir : Path) (hf : FileName f) :
    names (unitPath dir f) = names dir ++ [".scopestore", f] := by
  have hkept : [f].filter (· ≠ ".") = [f] := List.filter_cons_of_pos (by simpa using hf.2.1)
  rw [names, steps_unitPath dir hf, List.filter_append, List.filter_append, hkept,
    List.append_assoc]
  rfl

/-- Units of one location are one file of one directory. -/
theorem names_of_unitPath {dir' : Path} {g : String} (h : dir.isAbsolute = true)
    (h' : dir'.isAbsolute = true) (hf : FileName f) (hg : FileName g) :
    (unitPath dir f).location = (unitPath dir' g).location ↔ names dir = names dir' ∧ f = g := by
  rw [Disk.location_eq_iff (isAbsolute_unitPath h f) (isAbsolute_unitPath h' g),
    names_unitPath dir hf, names_unitPath dir' hg]
  constructor
  · intro heq
    obtain ⟨hfront, hback⟩ := List.append_inj' heq rfl
    exact ⟨hfront, (List.cons.inj (List.cons.inj hback).2).1⟩
  · rintro ⟨hfront, rfl⟩
    rw [hfront]

namespace Disk.Lies

/-- The path of the state directory spells its place. -/
theorem stateDir (h : d.Lies dir) :
    d.Spells (dir.join ⟨".scopestore"⟩) (d.placeOf dir) ".scopestore" := by
  obtain ⟨front, htext, _, _, hclean⟩ := join_text (p := dir) fileName_stateDir
  refine spells_of_steps (isAbsolute_join h.absolute) fileName_stateDir
    (steps_join_name dir fileName_stateDir.2.2.2.1 fileName_stateDir.1) h.settled.leads htext
    (mt hclean.mp h.clean) ?_
  have hshort := h.short
  omega

/-- The steps to the state directory lead there. -/
theorem leads_stateDir (h : d.Lies dir) :
    d.Leads (steps dir ++ [".scopestore"]) (d.statePlace dir) :=
  h.settled.leads.append (by decide)

/-- **A file as it is listed** is below the state directory. -/
theorem listed (h : d.Lies dir) (hf : FileName f) :
    d.Spells ((dir.join ⟨".scopestore"⟩).join ⟨f⟩) (d.statePlace dir) f := by
  obtain ⟨_, _, _, _, hclean⟩ := join_text (p := dir) fileName_stateDir
  obtain ⟨front, htext, _, hfront, hclean'⟩ := join_text (p := dir.join ⟨".scopestore"⟩) hf
  refine spells_of_steps (isAbsolute_join (isAbsolute_join h.absolute)) hf ?_ h.leads_stateDir htext
    (mt hclean'.mp (mt hclean.mp h.clean)) ?_
  · rw [steps_join_name _ hf.2.2.2.1 hf.1,
      steps_join_name dir fileName_stateDir.2.2.2.1 fileName_stateDir.1]
  · have hshort := h.short
    have hsize := hf.2.2.2.2.2
    rw [htext, String.utf8ByteSize_append]
    omega

/-- **The unit of a file** is at the same place. -/
theorem unit (h : d.Lies dir) (hf : FileName f) :
    d.Spells (unitPath dir f) (d.statePlace dir) f := by
  obtain ⟨hhead, hsize⟩ := trimmed_eq h.absolute
  refine spells_of_steps (isAbsolute_unitPath h.absolute f) hf (steps_unitPath dir hf)
    h.leads_stateDir rfl ?_ ?_
  · have hdir : '\x00' ∉ dir.trimmed.toList := fun hmem =>
      ((MacroTable.trimmed_path dir).2 _ hmem).elim (by decide) h.clean
    rw [unitPath_toList]
    simpa using ⟨hdir, hf.2.2.2.2.1⟩
  · obtain ⟨front, htext, hfront, _⟩ := join_text (p := dir) fileName_stateDir
    have hshort := h.short
    have hname : (".scopestore" : String).utf8ByteSize = 11 := rfl
    have hmiddle : ("/.scopestore/" : String).utf8ByteSize = 13 := rfl
    have hf' := hf.2.2.2.2.2
    rw [htext, String.utf8ByteSize_append] at hshort
    rw [unitPath, String.utf8ByteSize_append, String.utf8ByteSize_append]
    omega

end Disk.Lies

/-! ## 4. Listing and expanding -/

/-- What is listed right below a place is what is there. -/
theorem Disk.mem_childrenOf {place : Place} :
    f ∈ d.childrenOf place ↔ (d.node? (place ++ [f])).isSome = true := by
  rw [Disk.node?_concat, ← Bindings.mem_keys_iff, Disk.childrenOf, List.mem_filterMap]
  constructor
  · rintro ⟨e, he, hname⟩
    split at hname
    · rename_i name hlast
      split at hname
      · rename_i hplace
        obtain ⟨front, hfront⟩ := List.getLast?_eq_some_iff.mp hlast
        rw [hfront, List.dropLast_concat] at hplace
        rw [← Option.some.inj hname, ← hplace, ← hfront]
        exact List.mem_map_of_mem he
      · cases hname
    · cases hname
  · intro hkey
    obtain ⟨e, he, hplace⟩ := List.mem_map.mp hkey
    refine ⟨e, he, ?_⟩
    rw [hplace, List.getLast?_concat]
    exact if_pos List.dropLast_concat

/-- A state directory that is there can be listed. -/
theorem Disk.Lies.list_stateDir (h : d.Lies dir) (hd : d.Tree)
    (hdir : d.isDirectory (dir.join ⟨".scopestore"⟩) = true) :
    d.list (dir.join ⟨".scopestore"⟩) = .ok (d.childrenOf (d.statePlace dir)) := by
  have hnode : d.node? (d.statePlace dir) = some .directory :=
    (h.stateDir.isDirectory_iff (.refl d) hd).mp hdir
  have hsteps := Disk.steps_join_name dir fileName_stateDir.2.2.2.1 fileName_stateDir.1
  rw [Disk.list, h.stateDir.locate_eq, hsteps, (h.leads_stateDir d (.refl d) hd).2 hnode]
  exact if_pos hnode

theorem Disk.Lies.fileName?_listed (h : d.Lies dir) (hf : FileName f) :
    ((dir.join ⟨".scopestore"⟩).join ⟨f⟩).fileName? = some f :=
  Disk.fileName?_join (Disk.isAbsolute_join h.absolute) hf

/-- **What is left of the listing** when other files and directories are taken out. -/
theorem Disk.Lies.mem_kept_iff (h : d.Lies dir) (hd : d.Tree) (p : Path) :
    p ∈ ((d.childrenOf (d.statePlace dir)).map fun name =>
        (dir.join ⟨".scopestore"⟩).join ⟨name⟩).filter (fun file =>
          d.isFile file && file.extension? = some "json") ↔
      ∃ f, p = (dir.join ⟨".scopestore"⟩).join ⟨f⟩ ∧ StorageName f ∧
        (d.contentAt (d.statePlace dir ++ [f])).isSome = true := by
  rw [List.mem_filter, List.mem_map]
  constructor
  · rintro ⟨⟨f, hf, rfl⟩, hkept⟩
    have hfile := hd.name _ f (Disk.mem_childrenOf.mp hf)
    obtain ⟨hisFile, hextension⟩ := Bool.and_eq_true _ _ |>.mp hkept
    refine ⟨f, rfl, ⟨hfile, ?_⟩, ((h.listed hfile).isFile_iff (.refl d) hd).mp hisFile⟩
    rw [← of_decide_eq_true hextension, Path.extension?, h.fileName?_listed hfile]
    rfl
  · rintro ⟨f, rfl, ⟨hfile, hextension⟩, hcontent⟩
    obtain ⟨bytes, hbytes⟩ := Option.isSome_iff_exists.mp hcontent
    obtain ⟨readOnly, hnode⟩ := Disk.contentAt_eq_some.mp hbytes
    refine ⟨⟨f, Disk.mem_childrenOf.mpr (by rw [hnode]; rfl), rfl⟩, Bool.and_eq_true _ _ |>.mpr
      ⟨((h.listed hfile).isFile_iff (.refl d) hd).mpr hcontent, decide_eq_true ?_⟩⟩
    rw [← hextension, Path.extension?, h.fileName?_listed hfile]
    rfl

/-- **The listing of a state directory**: every storage file in it, once. -/
theorem storageFiles_spec {settings : Settings} (hs : settings.Standard) (h : d.Lies dir)
    (hd : d.Tree) (hdir : d.isDirectory (settings.stateDirFor dir) = true) :
    ∃ fs : List String, fs.Nodup ∧
      Project.storageFiles d settings (settings.stateDirFor dir)
        = .ok (fs.map fun f => (settings.stateDirFor dir).join ⟨f⟩) ∧
      ∀ f, f ∈ fs ↔
        StorageName f ∧ (d.contentAt (d.statePlace dir ++ [f])).isSome = true := by
  have hstate : settings.stateDirFor dir = dir.join ⟨".scopestore"⟩ := by
    rw [Settings.stateDirFor, hs.stateDir]
  rw [hstate] at hdir ⊢
  have hmem := h.mem_kept_iff hd
  have hlisted : Project.storageFiles d settings (dir.join ⟨".scopestore"⟩)
      = .ok (Paths.ofList (((d.childrenOf (d.statePlace dir)).map fun name =>
        (dir.join ⟨".scopestore"⟩).join ⟨name⟩).filter fun file =>
          d.isFile file && file.extension? = some "json")).toList := by
    rw [Project.storageFiles, h.list_stateDir hd hdir, hs.extension]
  generalize ((d.childrenOf (d.statePlace dir)).map fun name =>
    (dir.join ⟨".scopestore"⟩).join ⟨name⟩).filter (fun file =>
      d.isFile file && file.extension? = some "json") = files at hmem hlisted
  have hapart : ∀ p ∈ files, ∀ q ∈ files, p.location = q.location → p = q := by
    intro p hp q hq heq
    obtain ⟨f, rfl, hf, _⟩ := (hmem p).mp hp
    obtain ⟨g, rfl, hg, _⟩ := (hmem q).mp hq
    have hnames : some f = some g := by
      rw [← h.fileName?_listed hf.1, ← h.fileName?_listed hg.1, Path.fileName?, Path.fileName?,
        heq]
    rw [Option.some.inj hnames]
  obtain ⟨hnodup, hall⟩ := Paths.ofList_spec hapart
  have hback : (Paths.ofList files).toList.map (fun p =>
      (dir.join ⟨".scopestore"⟩).join ⟨p.fileName?.getD ""⟩) = (Paths.ofList files).toList := by
    refine (List.map_congr_left fun p hp => ?_).trans (List.map_id _)
    obtain ⟨f, rfl, hf, _⟩ := (hmem p).mp ((hall p).mp hp)
    rw [h.fileName?_listed hf.1]
    rfl
  refine ⟨(Paths.ofList files).toList.map fun p => p.fileName?.getD "", ?_, ?_, fun f => ?_⟩
  · -- The paths are distinct, so their names are.
    have hpaths : (((Paths.ofList files).toList.map fun p => p.fileName?.getD "").map fun f =>
        (dir.join ⟨".scopestore"⟩).join ⟨f⟩).Nodup := by
      rw [List.map_map]
      exact hback.symm ▸ hnodup
    exact (List.pairwise_map.mp hpaths).imp fun hne heq => hne (by rw [heq])
  · rw [hlisted, List.map_map]
    exact congrArg Except.ok hback.symm
  · rw [List.mem_map]
    constructor
    · rintro ⟨p, hp, rfl⟩
      obtain ⟨f, rfl, hf⟩ := (hmem p).mp ((hall p).mp hp)
      rw [h.fileName?_listed hf.1.1]
      exact hf
    · intro hf
      refine ⟨_, (hall _).mpr ((hmem _).mpr ⟨f, rfl, hf⟩), ?_⟩
      rw [h.fileName?_listed hf.1.1]
      rfl

/-- A state directory that is there has no zero character in its path. -/
theorem Disk.Stands.lies (h : d.Stands dir)
    (hdir : d.isDirectory (dir.join ⟨".scopestore"⟩) = true) : d.Lies dir := by
  refine ⟨h, fun hzero => ?_⟩
  obtain ⟨_, _, _, _, hclean⟩ := Disk.join_text (p := dir) fileName_stateDir
  have hcheck : Disk.check (dir.join ⟨".scopestore"⟩) = .error .zeroInPath := by
    rw [Disk.check, if_pos]
    simpa using hclean.mpr hzero
  rw [Disk.isDirectory, Disk.stat, Disk.locate, hcheck] at hdir
  cases hdir

/-- **Without a state directory** there are no storage files. -/
theorem Disk.Stands.contentAt_eq_none (h : d.Stands dir) (hd : d.Tree)
    (hdir : d.isDirectory (dir.join ⟨".scopestore"⟩) = false) (f : String) :
    d.contentAt (d.statePlace dir ++ [f]) = none := by
  cases hcontent : d.contentAt (d.statePlace dir ++ [f]) with
  | none => rfl
  | some bytes =>
    obtain ⟨readOnly, hnode⟩ := Disk.contentAt_eq_some.mp hcontent
    have hstate := hd.parent _ f (by rw [hnode]; rfl)
    have hplace : d.node? (d.placeOf dir) = some .directory :=
      hd.directory_above (List.cons_ne_nil _ _) (by rw [← Disk.statePlace, hstate]; rfl)
    -- The directory of the scope is there, so its path is one the system takes.
    have hclean : '\x00' ∉ dir.text.toList := by
      intro hzero
      obtain ⟨piece, hpiece, hmem⟩ := Path.exists_mem_cut (by decide) hzero
      have hstep : String.ofList piece ∈ steps dir := by
        refine List.mem_map_of_mem (List.mem_filter.mpr ⟨hpiece, ?_⟩)
        simpa using List.ne_nil_of_mem hmem
      have hfollow := (h.settled.leads d (.refl d) hd).2 hplace
      rcases hd.fileName_of_follow hfollow _ hstep with hdots | hdots | hname
      · rw [← String.toList_ofList (l := piece), hdots] at hmem
        revert hmem
        decide
      · rw [← String.toList_ofList (l := piece), hdots] at hmem
        revert hmem
        decide
      · rw [← String.toList_ofList (l := piece)] at hmem
        exact hname.2.2.2.2.1 hmem
    have hlies : d.Lies dir := ⟨h, hclean⟩
    have hthere := (hlies.stateDir.isDirectory_iff (.refl d) hd).mpr hstate
    rw [hdir] at hthere
    cases hthere

/-- What is made on the disk changes nothing about a directory for a scope. -/
theorem Disk.Stands.extends {d' : Disk} (h : d.Stands dir) (hext : d.Extends d') :
    d'.Stands dir ∧ d'.statePlace dir = d.statePlace dir := by
  obtain ⟨hplace, hsettled⟩ := h.settled.extends hext
  exact ⟨⟨h.absolute, hsettled, h.short⟩, congrArg (· ++ [".scopestore"]) hplace⟩

/-- The variables of a scope of a project. -/
def scopeTable (projectDir dir : Path) : MacroTable :=
  (MacroTable.forScope dir).define MacroTable.projectDir projectDir

/-- A template is expanded to the directory of the scope, and behind it to what the path
of the file below that directory is expanded to. -/
theorem expand_template_eq (settings : Settings) (projectDir dir : Path) (f : String) :
    (scopeTable projectDir dir).expand (Project.template settings f)
      = dir.trimmed
        ++ (scopeTable projectDir dir).expand ("/" ++ settings.stateDir ++ "/" ++ f) := by
  have hscope : get? (scopeTable projectDir dir) MacroTable.scopeDir = some dir.trimmed := by
    rw [scopeTable, MacroTable.define, Bindings.get?_insert, if_neg (by decide),
      MacroTable.forScope, MacroTable.define, Bindings.get?_insert, if_pos rfl]
  have htext : (Project.template settings f).toList
      = '$' :: (MacroTable.scopeDir.toList
        ++ '$' :: ("/" ++ settings.stateDir ++ "/" ++ f).toList) := by
    rw [Project.template]
    simp [MacroTable.scopeDir]
  generalize "/" ++ settings.stateDir ++ "/" ++ f = below at htext ⊢
  refine String.toList_inj.mp ?_
  rw [MacroTable.expand_eq, htext, MacroTable.expandFrom_cons, String.toList_ofList]
  have hopen : MacroTable.advance none '$' = ([], some []) := rfl
  rw [hopen, MacroTable.meant_nil, List.nil_append, MacroTable.expandFrom,
    MacroTable.scan_reference (by decide), MacroTable.meant_cons, MacroTable.expandToken,
    String.ofList_toList, hscope, String.toList_append, MacroTable.expand_eq, String.toList_ofList]
  rfl

/-- **The unit of a template** is the file itself, unless its name refers to a
variable. -/
theorem expand_template {settings : Settings} (hs : settings.Standard) (projectDir dir : Path)
    (f : String) : (scopeTable projectDir dir).expand (Project.template settings f)
      = (unitPath dir ((scopeTable projectDir dir).expand f)).text := by
  have hbelow : ("/" ++ settings.stateDir ++ "/" ++ f).toList = "/.scopestore/".toList ++ f.toList := by
    rw [hs.stateDir]
    simp
  have hexpanded : (scopeTable projectDir dir).expand ("/" ++ settings.stateDir ++ "/" ++ f)
      = "/.scopestore/" ++ (scopeTable projectDir dir).expand f := by
    refine String.toList_inj.mp ?_
    rw [MacroTable.expand_eq, hbelow, MacroTable.expandFrom_plain (by decide), MacroTable.expand_eq]
    simp
  rw [expand_template_eq, hexpanded, unitPath, ← String.append_assoc]

end Files

end ScopedState
