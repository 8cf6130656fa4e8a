/-
`Proofs/Disk.lean` -- what a write does to a directory tree.

In a tree every file and directory stands in a directory and has a proper name.
The steps of a path lead to one place there, whatever else is made, if they never
go up or if there is a directory at their end already. A path then spells the
place of a name in that directory, and following it finds what is at the place.

A write by way of a temporary file makes the directories that are missing,
writes the temporary file and moves it. In the end the file is at the place that
its path spells (`Replaced`). Apart from that, directories may have been added,
and something may be gone whose name ends like that of a temporary file. Where
the temporary file was does not matter, nor by what text it was called.
-/
import ScopedState.Backing.LocalFiles
import ScopedState.Proofs.Bindings
import ScopedState.Proofs.Path
set_option autoImplicit false

namespace ScopedState

open Bindings (get?)

namespace Disk

variable {d d' : Disk} {place here : Place} {step : String} {node : Node}

/-! ## 1. Trees -/

/-- A name that a file or directory can have. -/
def FileName (step : String) : Prop :=
  step ≠ "" ∧ step ≠ "." ∧ step ≠ ".." ∧ '/' ∉ step.toList ∧ '\x00' ∉ step.toList ∧
    step.utf8ByteSize ≤ 255

instance (step : String) : Decidable (FileName step) :=
  inferInstanceAs (Decidable (step ≠ "" ∧ step ≠ "." ∧ step ≠ ".." ∧ '/' ∉ step.toList ∧
    '\x00' ∉ step.toList ∧ step.utf8ByteSize ≤ 255))

theorem FileName.not_dots (h : FileName step) : isDots step = false := by
  simp [isDots, h.2.1, h.2.2.1]

theorem FileName.not_tooLong (h : FileName step) : tooLong step = false := by
  rw [tooLong, decide_eq_false_iff_not, Nat.not_lt]
  exact h.2.2.2.2.2

/-- A directory tree: what is there has a name and stands in a directory. -/
structure Tree (d : Disk) : Prop where
  name : ∀ place step, (d.node? (place ++ [step])).isSome = true → FileName step
  parent : ∀ place step, (d.node? (place ++ [step])).isSome = true → d.node? place = some .directory

theorem node?_nil (d : Disk) : d.node? [] = some .directory := rfl

theorem node?_concat (d : Disk) (place : Place) (step : String) :
    d.node? (place ++ [step]) = get? d.nodes (place ++ [step]) := by
  rw [node?, if_neg]
  simp

/-- Whether a disk is a tree shows in the list of its nodes. -/
theorem tree_of_nodes (h : ∀ e ∈ d.nodes, FileName (e.1.getLast?.getD "") ∧
    d.node? e.1.dropLast = some .directory) : d.Tree := by
  have hentry : ∀ place step, (d.node? (place ++ [step])).isSome = true →
      FileName step ∧ d.node? place = some .directory := by
    intro place step hnode
    rw [node?_concat] at hnode
    obtain ⟨node, hnode⟩ := Option.isSome_iff_exists.mp hnode
    have hmem := h _ (Bindings.mem_of_get? hnode)
    simpa using hmem
  exact ⟨fun place step hnode => (hentry place step hnode).1,
    fun place step hnode => (hentry place step hnode).2⟩

/-- Everything above something is a directory. -/
theorem Tree.directory_above (h : d.Tree) {rest : List String} (hrest : rest ≠ [])
    (hnode : (d.node? (here ++ rest)).isSome = true) : d.node? here = some .directory := by
  induction rest using List.reverseRecOn with
  | nil => exact absurd rfl hrest
  | append_singleton front step ih =>
    rw [← List.append_assoc] at hnode
    have hparent := h.parent _ _ hnode
    by_cases hfront : front = []
    · rwa [hfront, List.append_nil] at hparent
    · exact ih hfront (by rw [hparent]; rfl)

/-- Below a place that is missing there is nothing. -/
theorem Tree.below_missing (h : d.Tree) (hnone : d.node? place = none) (step : String) :
    d.node? (place ++ [step]) = none := by
  cases hnode : d.node? (place ++ [step]) with
  | none => rfl
  | some node =>
    rw [h.parent place step (by rw [hnode]; rfl)] at hnone
    cases hnone

/-- Above something is a directory. Above the root is the root. -/
theorem Tree.directory_dropLast (h : d.Tree) (hhere : (d.node? here).isSome = true) :
    d.node? here.dropLast = some .directory := by
  rcases List.eq_nil_or_concat here with rfl | ⟨above, last, rfl⟩
  · rfl
  · rw [List.concat_eq_append] at hhere
    rw [List.concat_eq_append, List.dropLast_concat]
    exact h.parent above last hhere

/-! ## 2. Following steps -/

section Following

variable {σ : List String} {found : Place}

/-- Steps are followed one after the other. -/
theorem follow_append (d : Disk) (here : Place) (σ τ : List String) :
    d.follow here (σ ++ τ) = (d.follow here σ).bind fun there => d.follow there τ := by
  induction σ generalizing here with
  | nil => rfl
  | cons step σ ih =>
    rw [List.cons_append, follow, follow]
    split
    · rfl
    · rfl
    · split
      · exact ih here
      · split
        · exact ih here.dropLast
        · split
          · rfl
          · split
            · rfl
            · exact ih (here ++ [step])

/-- **One step** leads nowhere or up, or to something of that name. -/
theorem follow_step_iff : d.follow here [step] = .ok found ↔
    d.node? here = some .directory ∧ (step = "." ∧ found = here ∨
      step = ".." ∧ found = here.dropLast ∨
      step ≠ "." ∧ step ≠ ".." ∧ tooLong step = false ∧ found = here ++ [step] ∧
        (d.node? found).isSome = true) := by
  constructor
  · intro h
    rw [follow] at h
    split at h
    · cases h
    · cases h
    · rename_i hdirectory
      refine ⟨hdirectory, ?_⟩
      split at h
      · rename_i hdot
        exact Or.inl ⟨hdot, (Except.ok.inj h).symm⟩
      · rename_i hdot
        split at h
        · rename_i hup
          exact Or.inr (Or.inl ⟨hup, (Except.ok.inj h).symm⟩)
        · rename_i hup
          split at h
          · cases h
          · rename_i hshort
            split at h
            · cases h
            · rename_i hthere
              obtain rfl := Except.ok.inj h
              exact Or.inr (Or.inr ⟨hdot, hup, Bool.eq_false_iff.mpr hshort, rfl,
                Option.isSome_iff_ne_none.mpr fun hnone => hthere (by rw [hnone]; rfl)⟩)
  · rintro ⟨hdirectory, ⟨rfl, rfl⟩ | ⟨rfl, rfl⟩ | ⟨hdot, hup, hshort, rfl, hthere⟩⟩
    · rw [follow, hdirectory]
      rfl
    · rw [follow, hdirectory]
      rfl
    · have hfound : (d.node? (here ++ [step])).isNone = false := by
        rw [← Option.not_isSome, hthere]
        rfl
      rw [follow, hdirectory]
      simp only [if_neg hdot, if_neg hup, hshort, hfound, Bool.false_eq_true, if_false]
      rfl

theorem follow_cons_iff : d.follow here (step :: σ) = .ok found ↔
    ∃ next, d.follow here [step] = .ok next ∧ d.follow next σ = .ok found := by
  rw [← List.singleton_append, follow_append]
  cases hstep : d.follow here [step] with
  | error e => exact ⟨nofun, nofun⟩
  | ok next =>
    refine ⟨fun h => ⟨next, rfl, h⟩, ?_⟩
    rintro ⟨_, heq, h⟩
    rw [Except.ok.inj heq]
    exact h

/-- What is found by steps that do not go up. -/
theorem eq_of_follow (hup : ".." ∉ σ) (h : d.follow here σ = .ok found) :
    found = here ++ σ.filter (· ≠ ".") := by
  induction σ generalizing here with
  | nil => simpa [follow] using h.symm
  | cons step σ ih =>
    rw [List.mem_cons, not_or] at hup
    obtain ⟨next, hstep, hrest⟩ := follow_cons_iff.mp h
    rcases (follow_step_iff.mp hstep).2 with ⟨hdot, rfl⟩ | ⟨rfl, _⟩ | ⟨hdot, _, _, rfl, _⟩
    · rw [ih hup.2 hrest, List.filter_cons_of_neg (by simp [hdot])]
    · exact absurd rfl hup.1
    · rw [ih hup.2 hrest, List.filter_cons_of_pos (by simpa using hdot), List.append_assoc]
      rfl

/-- **What is in a tree is found**: a directory by any steps, a file if the last
step is a name. -/
theorem Tree.follow (h : d.Tree) (hup : ".." ∉ σ)
    (hnode : d.node? (here ++ σ.filter (· ≠ ".")) = some node)
    (hend : node = .directory ∨ σ.getLast? ≠ some ".") :
    d.follow here σ = .ok (here ++ σ.filter (· ≠ ".")) := by
  induction σ generalizing here with
  | nil => rw [Disk.follow, List.filter_nil, List.append_nil]
  | cons step σ ih =>
    rw [List.mem_cons, not_or] at hup
    -- There is a directory to step from: either this is not the end, or the end is a dot.
    have hhere : d.node? here = some .directory := by
      by_cases hrest : (step :: σ).filter (· ≠ ".") = []
      · rw [hrest, List.append_nil] at hnode
        rcases hend with rfl | hend
        · exact hnode
        · obtain ⟨last, hlast⟩ := List.getLast?_isSome.mpr (List.cons_ne_nil step σ) |>
            Option.isSome_iff_exists.mp
          have hdot := List.filter_eq_nil_iff.mp hrest last (List.mem_of_getLast? hlast)
          have hdot : last = "." := by simpa using hdot
          exact absurd (hdot ▸ hlast) hend
      · exact h.directory_above hrest (by rw [hnode]; rfl)
    have hend' : node = .directory ∨ σ.getLast? ≠ some "." := by
      refine hend.imp_right fun hend hlast => hend ?_
      cases σ with
      | nil => cases hlast
      | cons next σ => rwa [List.getLast?_cons_cons]
    rw [Disk.follow, hhere]
    by_cases hdot : step = "."
    · rw [List.filter_cons_of_neg (by simp [hdot])] at hnode ⊢
      simp only [if_pos hdot]
      exact ih hup.2 hnode hend'
    · rw [List.filter_cons_of_pos (by simpa using hdot),
        List.append_cons here step (σ.filter (· ≠ "."))] at hnode ⊢
      have hthere : (d.node? (here ++ [step])).isSome = true := by
        by_cases hrest : σ.filter (· ≠ ".") = []
        · rw [hrest, List.append_nil] at hnode
          rw [hnode]
          rfl
        · rw [h.directory_above hrest (by rw [hnode]; rfl)]
          rfl
      have hshort := (h.name _ _ hthere).not_tooLong
      have hnone : (d.node? (here ++ [step])).isNone = false := by
        rw [← Option.not_isSome, hthere]
        rfl
      simp only [if_neg hdot, if_neg (Ne.symm hup.1), hshort, hnone, Bool.false_eq_true, if_false]
      exact ih hup.2 hnode hend'

/-- A disk has all the directories of another one. -/
def Extends (d d' : Disk) : Prop := ∀ q, d.node? q = some .directory → d'.node? q = some .directory

theorem Extends.refl (d : Disk) : d.Extends d := fun _ h => h

theorem Extends.trans {d'' : Disk} (h : d.Extends d') (h' : d'.Extends d'') : d.Extends d'' :=
  fun q hq => h' q (h q hq)

/-- **What is found is found again** on a disk that has all the directories, if it is
there. -/
theorem follow_of_kept (h : d.Extends d') (hfound : (d'.node? found).isSome = true)
    (hfollow : d.follow here σ = .ok found) : d'.follow here σ = .ok found := by
  induction σ generalizing here with
  | nil => exact hfollow
  | cons step σ ih =>
    obtain ⟨next, hstep, hrest⟩ := follow_cons_iff.mp hfollow
    refine follow_cons_iff.mpr ⟨next, ?_, ih hrest⟩
    obtain ⟨hdirectory, hcases⟩ := follow_step_iff.mp hstep
    -- Whatever is passed is a directory, and what is found is there.
    have hnext : (d'.node? next).isSome = true := by
      cases σ with
      | nil =>
        rw [Except.ok.inj hrest]
        exact hfound
      | cons step' σ =>
        obtain ⟨_, hstep', _⟩ := follow_cons_iff.mp hrest
        rw [h next (follow_step_iff.mp hstep').1]
        rfl
    exact follow_step_iff.mpr ⟨h here hdirectory, hcases.imp_right fun hcases => hcases.imp_right
      fun ⟨hdot, hup, hshort, heq, _⟩ => ⟨hdot, hup, hshort, heq, hnext⟩⟩

/-- **Directories are still found** on a disk that has them all. -/
theorem follow_of_extends (h : d.Extends d') (hfound : d.node? found = some .directory)
    (hfollow : d.follow here σ = .ok found) : d'.follow here σ = .ok found :=
  follow_of_kept h (by rw [h found hfound]; rfl) hfollow

/-- Without its dots a path leads to the same place. -/
theorem follow_filter (h : d.follow here σ = .ok found) :
    d.follow here (σ.filter (· ≠ ".")) = .ok found := by
  induction σ generalizing here with
  | nil => exact h
  | cons step σ ih =>
    obtain ⟨next, hstep, hrest⟩ := follow_cons_iff.mp h
    rcases (follow_step_iff.mp hstep).2 with ⟨hdot, rfl⟩ | hnamed
    · rw [List.filter_cons_of_neg (by simp [hdot])]
      exact ih hrest
    · have hdot : step ≠ "." := by
        rcases hnamed with ⟨rfl, _⟩ | ⟨hdot, _⟩
        · decide
        · exact hdot
      rw [List.filter_cons_of_pos (by simpa using hdot)]
      exact follow_cons_iff.mpr ⟨next, hstep, ih hrest⟩

/-- Where a path starts depends on the working directory only. -/
theorem start_of_cwd (h : d'.cwd = d.cwd) (p : Path) : d'.start p = d.start p := by
  rw [start, start, h]

/-- The steps that a path is followed by. A slash at the end is followed like a dot. -/
def route (p : Path) : List String := steps p ++ if endsInSlash p then ["."] else []

/-- The dot at the end of a route is no name. -/
theorem filter_route (p : Path) : (route p).filter (· ≠ ".") = names p := by
  rw [route, List.filter_append]
  split
  · exact List.append_nil _
  · exact List.append_nil _

/-- A path that the system takes is followed. -/
theorem locate_eq_follow {p : Path} (hcheck : check p = .ok ()) :
    d.locate p = d.follow (d.start p) (route p) := by
  rw [locate, hcheck]
  rfl

end Following

/-! ## 3. Steps that lead to a place -/

section Leading

variable {σ τ : List String}

/-- **Steps lead to a place**, whatever is made on a disk: if they are followed to
anything it is there, and they are followed to it once it is a directory. -/
def Leads (d : Disk) (σ : List String) (place : Place) : Prop :=
  ∀ d' : Disk, d.Extends d' → d'.Tree →
    (∀ found, d'.follow [] σ = .ok found → found = place) ∧
      (d'.node? place = some .directory → d'.follow [] σ = .ok place)

/-- Steps that never go up lead to the place of their names. -/
theorem leads_of_noUp (d : Disk) (hup : ".." ∉ σ) : d.Leads σ (σ.filter (· ≠ ".")) := by
  intro d' _ htree
  refine ⟨fun found hfound => eq_of_follow hup hfound, fun hnode => ?_⟩
  exact htree.follow hup hnode (Or.inl rfl)

/-- Steps that find a directory lead to it. -/
theorem leads_of_follow (hfollow : d.follow [] σ = .ok place)
    (hnode : d.node? place = some .directory) : d.Leads σ place := by
  intro d' hext _
  have hfollow' := follow_of_extends hext hnode hfollow
  refine ⟨fun found hfound => ?_, fun _ => hfollow'⟩
  rw [hfollow'] at hfound
  exact (Except.ok.inj hfound).symm

/-- **Further steps** that do not go up lead on to the place of their names. -/
theorem Leads.append (h : d.Leads σ place) (hup : ".." ∉ τ) :
    d.Leads (σ ++ τ) (place ++ τ.filter (· ≠ ".")) := by
  intro d' hext htree
  obtain ⟨honly, hthere⟩ := h d' hext htree
  refine ⟨fun found hfound => ?_, fun hnode => ?_⟩
  · rw [follow_append] at hfound
    cases hfollow : d'.follow [] σ with
    | error e =>
      rw [hfollow] at hfound
      cases hfound
    | ok there =>
      rw [hfollow] at hfound
      rw [eq_of_follow hup hfound, honly there hfollow]
  · have hplace : d'.node? place = some .directory := by
      by_cases hnone : τ.filter (· ≠ ".") = []
      · rwa [hnone, List.append_nil] at hnode
      · exact htree.directory_above hnone (by rw [hnode]; rfl)
    rw [follow_append, hthere hplace]
    exact htree.follow hup hnode (Or.inl rfl)

end Leading

/-! ## 4. Paths that spell places -/

/-- **A path spells a place** in terms of a disk: it is absolute and not too long, the
steps in front of the last one lead to the directory, and the last one is the
name. -/
structure Spells (d : Disk) (p : Path) (parent : Place) (name : String) : Prop where
  absolute : p.isAbsolute = true
  check : check p = .ok ()
  closed : endsInSlash p = false
  leads : ∃ σ, steps p = σ ++ [name] ∧ d.Leads σ parent
  named : name ≠ "." ∧ name ≠ ".."

namespace Spells

variable {p : Path} {parent : Place} {name : String}

theorem start (h : Spells d p parent name) (d' : Disk) : d'.start p = [] := by
  rw [Disk.start, h.absolute, if_pos rfl]

theorem locate_eq (h : Spells d p parent name) (d' : Disk) :
    d'.locate p = d'.follow [] (steps p) := by
  rw [locate, h.check, h.start, h.closed]
  simp only [Bool.false_eq_true, if_false, List.append_nil]
  rfl

/-- **What is at the place** is what the path names. -/
theorem stat (h : Spells d p parent name) (hext : d.Extends d') (hd : d'.Tree)
    (hnode : d'.node? (parent ++ [name]) = some node) : d'.stat p = .ok node := by
  obtain ⟨σ, hsteps, hleads⟩ := h.leads
  have hparent := hd.parent parent name (by rw [hnode]; rfl)
  have hname : [name].filter (· ≠ ".") = [name] :=
    List.filter_cons_of_pos (by simpa using h.named.1)
  have hlast := hd.follow (σ := [name])
    (by simpa using Ne.symm h.named.2) (by rw [hname]; exact hnode)
    (Or.inr (by simpa using h.named.1))
  rw [Disk.stat, h.locate_eq, hsteps, follow_append, (hleads d' hext hd).2 hparent]
  simp only [Except.bind, hlast, hname, hnode, Option.getD_some]

/-- What the path names is at the place. -/
theorem node? (h : Spells d p parent name) (hext : d.Extends d') (hd : d'.Tree)
    (hstat : d'.stat p = .ok node) : d'.node? (parent ++ [name]) = some node := by
  obtain ⟨σ, hsteps, hleads⟩ := h.leads
  rw [Disk.stat, h.locate_eq, hsteps, follow_append] at hstat
  cases hfollow : d'.follow [] σ with
  | error e =>
    rw [hfollow] at hstat
    cases hstat
  | ok there =>
    rw [hfollow, (hleads d' hext hd).1 there hfollow] at hstat
    simp only [Except.bind, follow, if_neg h.named.1, if_neg h.named.2] at hstat
    split at hstat
    · cases hstat
    · rename_i found hfound
      -- The step to the name has found something there.
      split at hfound
      · cases hfound
      · cases hfound
      · split at hfound
        · cases hfound
        · split at hfound
          · cases hfound
          · rename_i hthere
            obtain rfl := Except.ok.inj hfound
            cases hnode : d'.node? (parent ++ [name]) with
            | none => simp [hnode] at hthere
            | some found =>
              rw [hnode] at hstat
              exact congrArg some (Except.ok.inj hstat)

end Spells

/-- The content of the file at a place. -/
def contentAt (d : Disk) (place : Place) : Option Bytes :=
  match d.node? place with
  | some (.file bytes _) => some bytes
  | _ => none

theorem contentAt_eq_some {bytes : Bytes} :
    d.contentAt place = some bytes ↔ ∃ readOnly, d.node? place = some (.file bytes readOnly) := by
  unfold contentAt
  split
  · rename_i found readOnly hnode
    rw [hnode]
    constructor
    · intro h
      exact ⟨readOnly, by rw [Option.some.inj h]⟩
    · rintro ⟨_, h⟩
      rw [(Node.file.inj (Option.some.inj h)).1]
  · rename_i hno
    constructor
    · intro h
      cases h
    · rintro ⟨readOnly, h⟩
      exact absurd h (hno bytes readOnly)

section Reading

variable {p : Path} {parent : Place} {name : String} {bytes : Bytes} {content : Option Bytes}

/-- **Reading a file** by a path that spells its place. -/
theorem Spells.read (h : Spells d p parent name) (hext : d.Extends d') (hd : d'.Tree)
    (hcontent : d'.contentAt (parent ++ [name]) = some bytes) : d'.read p = .ok bytes := by
  obtain ⟨readOnly, hnode⟩ := contentAt_eq_some.mp hcontent
  rw [Disk.read, h.stat hext hd hnode]

/-- What is read is the file at the place. -/
theorem Spells.contentAt_of_read (h : Spells d p parent name) (hext : d.Extends d') (hd : d'.Tree)
    (hread : d'.read p = .ok bytes) : d'.contentAt (parent ++ [name]) = some bytes := by
  unfold Disk.read at hread
  split at hread
  · cases hread
  · cases hread
  · rename_i found readOnly hstat
    rw [← Except.ok.inj hread]
    exact contentAt_eq_some.mpr ⟨readOnly, h.node? hext hd hstat⟩

theorem Spells.isFile_iff (h : Spells d p parent name) (hext : d.Extends d') (hd : d'.Tree) :
    d'.isFile p = true ↔ (d'.contentAt (parent ++ [name])).isSome = true := by
  unfold isFile
  constructor
  · intro hfile
    split at hfile
    · rename_i bytes readOnly hstat
      rw [contentAt_eq_some.mpr ⟨readOnly, h.node? hext hd hstat⟩]
      rfl
    · cases hfile
  · intro hsome
    obtain ⟨bytes, hbytes⟩ := Option.isSome_iff_exists.mp hsome
    obtain ⟨readOnly, hnode⟩ := contentAt_eq_some.mp hbytes
    rw [h.stat hext hd hnode]

theorem Spells.isDirectory_iff (h : Spells d p parent name) (hext : d.Extends d') (hd : d'.Tree) :
    d'.isDirectory p = true ↔ d'.node? (parent ++ [name]) = some .directory := by
  unfold isDirectory
  constructor
  · intro hdirectory
    split at hdirectory
    · rename_i hstat
      exact h.node? hext hd hstat
    · cases hdirectory
  · intro hnode
    rw [h.stat hext hd hnode]

/-- **Reading a unit** gives what is at the place that its path spells. -/
theorem Spells.content_of_read (h : Spells d p parent name) {l : LocalFiles}
    (hext : d.Extends l.disk) (hd : l.disk.Tree) (hread : l.read p = .ok content) :
    content = l.disk.contentAt (parent ++ [name]) := by
  unfold LocalFiles.read at hread
  cases hcontent : l.disk.contentAt (parent ++ [name]) with
  | some bytes =>
    rw [h.read hext hd hcontent] at hread
    exact (Except.ok.inj hread).symm
  | none =>
    split at hread
    · rename_i bytes hbytes
      rw [h.contentAt_of_read hext hd hbytes] at hcontent
      cases hcontent
    · exact (Except.ok.inj hread).symm
    · cases hread

theorem Spells.read_unit (h : Spells d p parent name) {l : LocalFiles} (hext : d.Extends l.disk)
    (hd : l.disk.Tree) (hcontent : l.disk.contentAt (parent ++ [name]) = some bytes) :
    l.read p = .ok (some bytes) := by
  rw [LocalFiles.read, h.read hext hd hcontent]

end Reading

/-! ## 5. One change -/

section Changing

variable {p : Path} {bytes : Bytes} {parent : Place}

theorem node?_put (hplace : place ≠ []) (q : Place) :
    (d.put place node).node? q = if q = place then some node else d.node? q := by
  cases q with
  | nil => rw [if_neg (Ne.symm hplace), node?_nil, node?_nil]
  | cons x q => exact Bindings.get?_insert d.nodes place node (x :: q)

theorem node?_drop (hplace : place ≠ []) (q : Place) :
    (d.drop place).node? q = if q = place then none else d.node? q := by
  cases q with
  | nil => rw [if_neg (Ne.symm hplace), node?_nil, node?_nil]
  | cons x q => exact Bindings.get?_erase d.nodes place (x :: q)

/-- Something new in a directory, in place of anything but a directory. -/
theorem Tree.put (h : d.Tree) (hparent : d.node? parent = some .directory) (hname : FileName step)
    (hplace : d.node? (parent ++ [step]) = some .directory → node = .directory) :
    (d.put (parent ++ [step]) node).Tree := by
  have hnode : ∀ q, (d.put (parent ++ [step]) node).node? q
      = if q = parent ++ [step] then some node else d.node? q := node?_put (by simp)
  refine ⟨fun q s hsome => ?_, fun q s hsome => ?_⟩
  · rw [hnode] at hsome
    split at hsome
    · rename_i heq
      rw [(List.append_inj_right' heq rfl |> List.cons.inj).1]
      exact hname
    · exact h.name q s hsome
  · have hq : d.node? q = some .directory := by
      rw [hnode] at hsome
      split at hsome
      · rename_i heq
        rw [List.append_inj_left' heq rfl]
        exact hparent
      · exact h.parent q s hsome
    rw [hnode]
    split
    · rename_i heq
      rw [hplace (heq ▸ hq)]
    · exact hq

/-- Something that is no directory is taken away. -/
theorem Tree.drop (h : d.Tree) (hne : place ≠ []) (hplace : d.node? place ≠ some .directory) :
    (d.drop place).Tree := by
  have hnode := d.node?_drop hne
  refine ⟨fun q s hsome => ?_, fun q s hsome => ?_⟩
  · rw [hnode] at hsome
    split at hsome
    · cases hsome
    · exact h.name q s hsome
  · have hq : d.node? q = some .directory := by
      rw [hnode] at hsome
      split at hsome
      · cases hsome
      · exact h.parent q s hsome
    rw [hnode, if_neg]
    · exact hq
    · rintro rfl
      exact hplace hq

theorem locateParent_eq_ok {σ : List String} {last : Option String}
    (h : d.locateParent p σ = .ok (parent, last)) :
    check p = .ok () ∧ d.follow (d.start p) σ.dropLast = .ok parent ∧
      d.node? parent = some .directory ∧ last = σ.getLast? := by
  unfold locateParent at h
  cases hcheck : check p with
  | error e =>
    rw [hcheck] at h
    cases h
  | ok u =>
    cases hfollow : d.followDirectory (d.start p) σ.dropLast with
    | error e =>
      rw [hcheck, hfollow] at h
      cases h
    | ok place =>
      rw [hcheck, hfollow] at h
      obtain ⟨rfl, rfl⟩ := Prod.mk.inj (Except.ok.inj h)
      unfold followDirectory at hfollow
      split at hfollow
      · cases hfollow
      · rename_i found hfound
        split at hfollow
        · rename_i hdirectory
          obtain rfl := Except.ok.inj hfollow
          exact ⟨rfl, hfound, hdirectory, rfl⟩
        · cases hfollow

/-- A step of a path that may be a name is one. -/
theorem fileName_of_step (hcheck : check p = .ok ()) (hmem : step ∈ steps p)
    (hdots : isDots step = false) (hshort : tooLong step = false) : FileName step := by
  obtain ⟨hne, hslash, hchars⟩ := of_mem_steps hmem
  rw [isDots, Bool.or_eq_false_iff, decide_eq_false_iff_not, decide_eq_false_iff_not] at hdots
  rw [tooLong, decide_eq_false_iff_not, Nat.not_lt] at hshort
  refine ⟨hne, hdots.1, hdots.2, hslash, fun hzero => ?_, hshort⟩
  have hin := List.contains_iff_mem.mpr (hchars _ hzero)
  rw [check, if_pos hin] at hcheck
  cases hcheck

/-- **A path seats a file**: nothing is wrong with its text, the steps in front of the
last one lead to a directory, and the last one is a name. -/
structure Seats (d : Disk) (p : Path) (parent : Place) (name : String) : Prop where
  check : Disk.check p = .ok ()
  last : (steps p).getLast? = some name
  leads : d.follow (d.start p) (steps p).dropLast = .ok parent
  directory : d.node? parent = some .directory
  named : FileName name

namespace Seats

variable {name : String}

theorem of_locateParent (h : d.locateParent p (steps p) = .ok (parent, some name))
    (hdots : isDots name = false) (hshort : tooLong name = false) : Seats d p parent name := by
  obtain ⟨hcheck, hfollow, hdirectory, hlast⟩ := locateParent_eq_ok h
  exact ⟨hcheck, hlast.symm, hfollow, hdirectory,
    fileName_of_step hcheck (List.mem_of_getLast? hlast.symm) hdots hshort⟩

theorem locateParent (h : Seats d p parent name) :
    d.locateParent p (steps p) = .ok (parent, some name) := by
  rw [Disk.locateParent, h.check, followDirectory, h.leads, h.last]
  simp only [h.directory, if_true]
  rfl

theorem steps_eq (h : Seats d p parent name) : steps p = (steps p).dropLast ++ [name] := by
  obtain ⟨σ, hσ⟩ := List.getLast?_eq_some_iff.mp h.last
  rw [hσ, List.dropLast_concat]

/-- There is one such place for a path. -/
theorem unique (h : Seats d p parent name) {parent' : Place} {name' : String}
    (h' : Seats d p parent' name') : parent' = parent ∧ name' = name :=
  ⟨(Except.ok.inj (h.leads.symm.trans h'.leads)).symm,
    (Option.some.inj (h.last.symm.trans h'.last)).symm⟩

/-- It stays as long as no directory goes. -/
theorem of_extends (h : Seats d p parent name) (hext : d.Extends d') (hcwd : d'.cwd = d.cwd) :
    Seats d' p parent name := by
  refine ⟨h.check, h.last, ?_, hext _ h.directory, h.named⟩
  rw [start_of_cwd hcwd]
  exact follow_of_extends hext h.directory h.leads

/-- What is at such a place is found there. -/
theorem follow (h : Seats d p parent name) (hthere : (d.node? (parent ++ [name])).isSome = true) :
    d.follow (d.start p) (steps p) = .ok (parent ++ [name]) := by
  rw [h.steps_eq, follow_append, h.leads]
  exact follow_step_iff.mpr ⟨h.directory, Or.inr (Or.inr ⟨h.named.2.1, h.named.2.2.1,
    h.named.not_tooLong, rfl, hthere⟩)⟩

theorem locate (h : Seats d p parent name) (hclosed : endsInSlash p = false)
    (hthere : (d.node? (parent ++ [name])).isSome = true) :
    d.locate p = .ok (parent ++ [name]) := by
  rw [locate_eq_follow h.check, route, hclosed, if_neg Bool.false_ne_true, List.append_nil]
  exact h.follow hthere

theorem read (h : Seats d p parent name) (hclosed : endsInSlash p = false) {readOnly : Bool}
    (hnode : d.node? (parent ++ [name]) = some (.file bytes readOnly)) : d.read p = .ok bytes := by
  rw [Disk.read, stat, h.locate hclosed (by rw [hnode]; rfl)]
  simp only [hnode, Option.getD_some]

/-- Where nothing is, nothing is found, with a slash at the end or without. -/
theorem read_missing (h : Seats d p parent name) (hnone : d.node? (parent ++ [name]) = none) :
    d.read p = .error .notFound := by
  have hlast : d.follow parent ([name] ++ if endsInSlash p then ["."] else [])
      = .error .notFound := by
    rw [List.singleton_append, Disk.follow, h.directory]
    simp only [if_neg h.named.2.1, if_neg h.named.2.2.1, h.named.not_tooLong, hnone,
      Option.isNone_none, Bool.false_eq_true, if_false, if_true]
  rw [Disk.read, stat, locate_eq_follow h.check, route, h.steps_eq, List.append_assoc,
    follow_append, h.leads]
  simp only [Except.bind, hlast]

/-- A file that a path seats can be removed. -/
theorem remove (h : Seats d p parent name) (hclosed : endsInSlash p = false) {readOnly : Bool}
    (hnode : d.node? (parent ++ [name]) = some (.file bytes readOnly)) :
    d.remove p = .ok (d.drop (parent ++ [name])) := by
  rw [Disk.remove, hclosed, if_neg Bool.false_ne_true, List.append_nil, h.locateParent]
  simp only [h.named.not_dots, h.named.not_tooLong, Bool.false_eq_true, if_false, hnode]

end Seats

/-- **What writing a file does.** -/
theorem write_eq_ok (h : d.write p bytes = .ok d') :
    ∃ parent name readOnly, d.Seats p parent name ∧ endsInSlash p = false ∧
      d.node? (parent ++ [name]) ≠ some .directory ∧
      d' = d.put (parent ++ [name]) (.file bytes readOnly) := by
  unfold write at h
  split at h
  · cases h
  · cases h
  · rename_i parent name hparent
    split at h
    · cases h
    · rename_i hdots
      rw [Bool.or_eq_true, not_or, Bool.not_eq_true, Bool.not_eq_true] at hdots
      split at h
      · cases h
      · rename_i hshort
        have hseats := Seats.of_locateParent hparent hdots.2 (Bool.eq_false_iff.mpr hshort)
        simp only [] at h
        split at h
        · cases h
        · rename_i found readOnly hnode
          refine ⟨parent, name, readOnly, hseats, hdots.1, ?_, (Except.ok.inj h).symm⟩
          rw [hnode]
          exact fun h => Node.noConfusion (Option.some.inj h)
        · rename_i hnode
          refine ⟨parent, name, false, hseats, hdots.1, ?_, (Except.ok.inj h).symm⟩
          rw [hnode]
          exact nofun

/-- **A write leaves the directories as they are**, so paths lead where they led. -/
theorem extends_of_write (h : d.write p bytes = .ok d') :
    d.Extends d' ∧ d'.Extends d ∧ d'.cwd = d.cwd := by
  obtain ⟨parent, name, readOnly, _, _, hfree, rfl⟩ := write_eq_ok h
  refine ⟨fun q hq => ?_, fun q hq => ?_, rfl⟩
  · rw [node?_put (by simp), if_neg]
    · exact hq
    · rintro rfl
      exact hfree hq
  · rw [node?_put (by simp)] at hq
    split at hq
    · cases hq
    · exact hq

/-- **What removing a file does.** -/
theorem remove_eq_ok (h : d.remove p = .ok d') :
    ∃ parent name, d.Seats p parent name ∧ d.node? (parent ++ [name]) ≠ some .directory ∧
      d' = d.drop (parent ++ [name]) := by
  unfold remove at h
  split at h
  · cases h
  · cases h
  · rename_i parent name hparent
    split at h
    · cases h
    · rename_i hdots
      split at h
      · cases h
      · rename_i hshort
        -- Behind a slash there would be a dot to remove.
        have hclosed : endsInSlash p = false := by
          rw [Bool.eq_false_iff]
          intro hslash
          obtain ⟨_, _, _, hlast⟩ := locateParent_eq_ok hparent
          rw [hslash, if_pos rfl, List.getLast?_concat] at hlast
          exact hdots (by rw [Option.some.inj hlast]; rfl)
        rw [hclosed, if_neg Bool.false_ne_true, List.append_nil] at hparent
        have hseats := Seats.of_locateParent hparent (Bool.eq_false_iff.mpr hdots)
          (Bool.eq_false_iff.mpr hshort)
        simp only [] at h
        split at h
        · cases h
        · cases h
        · rename_i hnode
          refine ⟨parent, name, hseats, ?_, (Except.ok.inj h).symm⟩
          rw [hnode]
          exact fun h => Node.noConfusion (Option.some.inj h)

/-- **What moving a file does.** -/
theorem move_eq_ok {source target : Path} (h : d.move source target = .ok d') :
    ∃ parent name newParent newName bytes readOnly, d.Seats source parent name ∧
      d.node? (parent ++ [name]) = some (.file bytes readOnly) ∧
      d.Seats target newParent newName ∧ endsInSlash target = false ∧
      d.node? (newParent ++ [newName]) ≠ some .directory ∧
      d' = (d.drop (parent ++ [name])).put (newParent ++ [newName]) (.file bytes readOnly) := by
  unfold move at h
  split at h
  · cases h
  · rename_i parent step hsource
    split at h
    · cases h
    · rename_i newParent newStep htarget
      split at h
      · rename_i name newName
        split at h
        · cases h
        · rename_i hdots
          rw [Bool.or_eq_true, not_or, Bool.not_eq_true, Bool.not_eq_true] at hdots
          split at h
          · cases h
          · rename_i hshort
            rw [Bool.or_eq_true, not_or, Bool.not_eq_true, Bool.not_eq_true] at hshort
            have hseats := Seats.of_locateParent hsource hdots.1 hshort.1
            have hseats' := Seats.of_locateParent htarget hdots.2 hshort.2
            simp only [] at h
            split at h
            · cases h
            · cases h
            · rename_i bytes readOnly hnode
              split at h
              · cases h
              · rename_i hclosed
                rw [Bool.or_eq_true, not_or, Bool.not_eq_true, Bool.not_eq_true] at hclosed
                split at h
                · cases h
                · rename_i hfree
                  exact ⟨parent, name, newParent, newName, bytes, readOnly, hseats, hnode, hseats',
                    hclosed.2, hfree, (Except.ok.inj h).symm⟩
      · cases h

/-! ## 6. Directories that are made -/

/-- Directories were added, at most. -/
structure Grown (d d' : Disk) : Prop where
  tree : d.Tree → d'.Tree
  cwd : d'.cwd = d.cwd
  node : ∀ q, d'.node? q = d.node? q ∨ (d.node? q = none ∧ d'.node? q = some .directory)

theorem Grown.extends (h : Grown d d') : d.Extends d' := by
  intro q hq
  rcases h.node q with hsame | ⟨_, hnew⟩
  · rw [hsame]
    exact hq
  · exact hnew

theorem Grown.refl (d : Disk) : Grown d d := ⟨id, rfl, fun _ => Or.inl rfl⟩

theorem Grown.trans {d'' : Disk} (h : Grown d d') (h' : Grown d' d'') : Grown d d'' := by
  refine ⟨fun hd => h'.tree (h.tree hd), h'.cwd.trans h.cwd, fun q => ?_⟩
  rcases h'.node q with hsame | ⟨hnone, hnew⟩
  · rw [hsame]
    exact h.node q
  · rcases h.node q with hsame | ⟨_, hnew'⟩
    · exact Or.inr ⟨hsame ▸ hnone, hnew⟩
    · rw [hnone] at hnew'
      cases hnew'

/-- **What making a directory does.** -/
theorem makeDirectory_eq_ok (h : d.makeDirectory p = .ok d') :
    ∃ parent name, d.Seats p parent name ∧ d.node? (parent ++ [name]) = none ∧
      d' = d.put (parent ++ [name]) .directory := by
  unfold makeDirectory at h
  split at h
  · cases h
  · cases h
  · rename_i parent name hparent
    split at h
    · cases h
    · rename_i hdots
      split at h
      · cases h
      · rename_i hshort
        split at h
        · cases h
        · rename_i hfree
          exact ⟨parent, name, Seats.of_locateParent hparent (Bool.eq_false_iff.mpr hdots)
            (Bool.eq_false_iff.mpr hshort), by simpa using hfree, (Except.ok.inj h).symm⟩

theorem grown_of_makeDirectory (h : d.makeDirectory p = .ok d') : Grown d d' := by
  obtain ⟨parent, name, hseats, hnone, rfl⟩ := makeDirectory_eq_ok h
  refine ⟨fun hd => hd.put hseats.directory hseats.named fun _ => rfl, rfl, fun q => ?_⟩
  rw [node?_put (by simp)]
  split
  · rename_i hq
    rw [hq]
    exact Or.inr ⟨hnone, rfl⟩
  · exact Or.inl rfl

theorem grown_of_ensureDirectory (h : d.ensureDirectory p = .ok d') : Grown d d' := by
  unfold ensureDirectory at h
  split at h
  · rename_i made hmade
    rw [← Except.ok.inj h]
    exact grown_of_makeDirectory hmade
  · split at h
    · rw [← Except.ok.inj h]
      exact Grown.refl d
    · cases h

/-- **Making directories is a series of steps**, each of which ensures the directory of the
path or of one above it. -/
theorem makeTreeWithin_induction {R : Disk → Disk → Prop} {above : Path → Prop}
    (hrefl : ∀ d, R d d) (htrans : ∀ d d' d'', R d d' → R d' d'' → R d d'')
    (hup : ∀ q q', above q → q.parent? = some q' → above q')
    (hensure : ∀ d d' q, above q → d.ensureDirectory q = .ok d' → R d d')
    (fuel : Nat) (d : Disk) (p : Path) (hp : above p) : R d (makeTreeWithin fuel d p).2 := by
  induction fuel generalizing d p with
  | zero =>
    unfold makeTreeWithin
    split
    · exact hrefl d
    · cases hensured : d.ensureDirectory p with
      | ok made => exact hensure d made p hp hensured
      | error e => cases e <;> exact hrefl d
  | succ fuel ih =>
    unfold makeTreeWithin
    split
    · exact hrefl d
    · cases hensured : d.ensureDirectory p with
      | ok made => exact hensure d made p hp hensured
      | error e =>
        cases hparent : p.parent? with
        | none => cases e <;> exact hrefl d
        | some parent =>
          by_cases hmissing : e = .notFound
          · -- Only where something is missing above are the directories above made.
            subst hmissing
            have habove := ih d parent (hup p parent hp hparent)
            cases hout : makeTreeWithin fuel d parent with
            | mk outcome higher =>
              rw [hout] at habove
              cases outcome with
              | error e => simpa only [hout] using habove
              | ok u =>
                cases hmade : higher.ensureDirectory p with
                | ok made =>
                  simpa only [hout, hmade] using
                    htrans d higher made habove (hensure higher made p hp hmade)
                | error e => simpa only [hout, hmade] using habove
          · cases e <;> first | exact absurd rfl hmissing | exact hrefl d

theorem grown_makeTreeWithin (fuel : Nat) (d : Disk) (p : Path) :
    Grown d (makeTreeWithin fuel d p).2 :=
  makeTreeWithin_induction Grown.refl (fun _ _ _ => Grown.trans) (fun _ _ _ _ => trivial)
    (fun _ _ _ _ => grown_of_ensureDirectory) fuel d p trivial

theorem grown_makeParents (d : Disk) (p : Path) : Grown d (LocalFiles.makeParents d p).2 := by
  unfold LocalFiles.makeParents
  split
  · exact Grown.refl d
  · split
    · exact Grown.refl d
    · exact grown_makeTreeWithin _ d _

end Changing

/-! ## 7. Writing by way of a temporary file -/

/-- Whether something is named like a temporary file. -/
def Temporary (place : Place) : Prop := ∃ name : String, place.getLast? = some (name ++ ".tmp")

/-- A file was replaced, by way of a temporary file somewhere. -/
structure Replaced (d d' : Disk) (place : Place) (bytes : Bytes) : Prop where
  tree : d'.Tree
  cwd : d'.cwd = d.cwd
  extend : d.Extends d'
  written : d'.contentAt place = some bytes
  other : ∀ q, q ≠ place → ¬ Temporary q →
    d'.node? q = d.node? q ∨ (d.node? q = none ∧ d'.node? q = some .directory)

/-- The last step to a temporary file. -/
theorem steps_temporary (p : Path) :
    (steps (LocalFiles.temporary p)).getLast? = some (p.fileName?.getD "" ++ ".tmp") := by
  have hslash : '/' ∉ (p.fileName?.getD "" ++ ".tmp").toList := by
    rw [String.toList_append, List.mem_append, not_or]
    refine ⟨?_, by decide⟩
    cases hname : p.fileName? with
    | none => exact List.not_mem_nil
    | some text => exact Path.no_slash_of_fileName hname
  have hne : p.fileName?.getD "" ++ ".tmp" ≠ "" := by
    intro h
    have hlength := congrArg (fun text => text.toList.length) h
    rw [String.toList_append, List.length_append] at hlength
    exact absurd hlength (by simp)
  unfold LocalFiles.temporary Path.withFileName
  split <;>
  · rw [steps_join_name _ hslash hne, List.getLast?_concat]

section Moving

variable {d₀ written : Disk} {p source : Path} {parent : Place} {name : String} {bytes : Bytes}

/-- **A file that is written and then moved** goes to the place of the other path. -/
theorem write_move_eq_ok (hd : d.Tree) (hwritten : d.write source bytes = .ok written)
    (hmoved : written.move source p = .ok d') :
    ∃ home temporary parent name readOnly, d.Seats source home temporary ∧
      d.Seats p parent name ∧ endsInSlash p = false ∧ d'.Tree ∧ d'.cwd = d.cwd ∧
      d.node? (home ++ [temporary]) ≠ some .directory ∧
      d.node? (parent ++ [name]) ≠ some .directory ∧
      ∀ q, d'.node? q = if q = parent ++ [name] then some (.file bytes readOnly)
        else if q = home ++ [temporary] then none else d.node? q := by
  obtain ⟨home, temporary, readOnly, hsource, _, hfree, hput⟩ := write_eq_ok hwritten
  obtain ⟨home', temporary', parent, name, bytes', readOnly', hsource', hnode', htarget, hclosed,
    hfree', hmove⟩ := move_eq_ok hmoved
  have hnode : ∀ q, written.node? q
      = if q = home ++ [temporary] then some (.file bytes readOnly) else d.node? q := by
    rw [hput]
    exact node?_put (by simp)
  have htree : written.Tree := by
    rw [hput]
    exact hd.put hsource.directory hsource.named fun hdirectory => absurd hdirectory hfree
  obtain ⟨hkept, hback, hcwd⟩ := extends_of_write hwritten
  obtain ⟨rfl, rfl⟩ := (hsource.of_extends hkept hcwd).unique hsource'
  rw [hnode, if_pos rfl] at hnode'
  obtain ⟨rfl, rfl⟩ := Node.file.inj (Option.some.inj hnode')
  refine ⟨_, _, parent, name, readOnly, hsource, htarget.of_extends hback hcwd.symm, hclosed,
    ?_, ?_, hfree, fun hq => hfree' (hkept _ hq), fun q => ?_⟩
  · have hgone : (written.drop (home' ++ [temporary'])).Tree := by
      refine htree.drop (by simp) ?_
      rw [hnode, if_pos rfl]
      exact nofun
    rw [hmove]
    refine hgone.put ?_ htarget.named fun hdirectory => ?_
    · rw [node?_drop (by simp), if_neg]
      · exact htarget.directory
      · intro heq
        have hdirectory := htarget.directory
        rw [heq, hnode, if_pos rfl] at hdirectory
        cases hdirectory
    · rw [node?_drop (by simp)] at hdirectory
      split at hdirectory
      · cases hdirectory
      · exact absurd hdirectory hfree'
  · rw [hmove]
    exact hcwd
  · rw [hmove, node?_put (by simp), node?_drop (by simp), hnode]
    split
    · rfl
    · split <;> rfl

/-- A write that succeeds has gone through all of its calls. -/
theorem writeAtomic_eq_ok (h : LocalFiles.writeAtomic d p bytes = (.ok (), d')) :
    ∃ made written, LocalFiles.makeParents d p = (.ok (), made) ∧
      made.write (LocalFiles.temporary p) bytes = .ok written ∧
      written.move (LocalFiles.temporary p) p = .ok d' := by
  unfold LocalFiles.writeAtomic at h
  split at h
  · cases (Prod.mk.inj h).1
  · rename_i made hparents
    unfold LocalFiles.replace at h
    simp only [] at h
    split at h
    · cases (Prod.mk.inj h).1
    · rename_i written hwritten
      split at h
      · cases (Prod.mk.inj h).1
      · rename_i replaced hmoved
        obtain rfl := (Prod.mk.inj h).2
        exact ⟨made, written, hparents, hwritten, hmoved⟩

/-- A path that spells a place seats a file there. -/
theorem Spells.eq_of_seats (h : Spells d₀ p parent name) (hext : d₀.Extends d) (hd : d.Tree)
    {parent' : Place} {name' : String} (hseats : d.Seats p parent' name') :
    parent' = parent ∧ name' = name := by
  obtain ⟨σ, hsteps, hleads⟩ := h.leads
  have hlast := hseats.last
  have hfollow := hseats.leads
  rw [hsteps, List.getLast?_concat] at hlast
  rw [hsteps, List.dropLast_concat, h.start] at hfollow
  exact ⟨(hleads d hext hd).1 parent' hfollow, (Option.some.inj hlast).symm⟩

/-- **A write that succeeds replaces the file** at the place that its path
spells. -/
theorem Spells.replaced (h : Spells d₀ p parent name) (hext : d₀.Extends d) (hd : d.Tree)
    (hwrite : LocalFiles.writeAtomic d p bytes = (.ok (), d')) :
    Replaced d d' (parent ++ [name]) bytes := by
  obtain ⟨made, written, hparents, hwritten, hmoved⟩ := writeAtomic_eq_ok hwrite
  have hgrown := grown_makeParents d p
  rw [hparents] at hgrown
  have hmade := hgrown.tree hd
  obtain ⟨home, temporary, parent', name', readOnly, hsource, hseats, _, htree, hcwd, hfree, hfree',
    hnode⟩ := write_move_eq_ok hmade hwritten hmoved
  obtain ⟨rfl, rfl⟩ := h.eq_of_seats (hext.trans hgrown.extends) hmade hseats
  refine ⟨htree, hcwd.trans hgrown.cwd, fun q hq => ?_, ?_, fun q hq htemporary => ?_⟩
  · have hstill := hgrown.extends q hq
    rw [hnode, if_neg, if_neg]
    · exact hstill
    · rintro rfl
      exact hfree hstill
    · rintro rfl
      exact hfree' hstill
  · exact contentAt_eq_some.mpr ⟨readOnly, by rw [hnode, if_pos rfl]⟩
  · rw [hnode, if_neg hq, if_neg]
    · exact hgrown.node q
    · rintro rfl
      refine htemporary ⟨p.fileName?.getD "", ?_⟩
      rw [List.getLast?_concat, ← steps_temporary, hsource.last]

end Moving

end Disk

end ScopedState
