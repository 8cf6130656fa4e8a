/-
`Proofs/Disk/Access.lean` -- what each call does at the place of a path.

`Proofs/Disk.lean` says what a call has done if it came to pass. Here it is the
other way round: when a call comes to pass, and how it fails otherwise. A path
whose steps never go up and are short enough points to one place (`Points`), and
what a call on it answers depends only on what is at the place and above it. If
there is nothing but directories on the way, as far as there is anything, then a
call that needs the file and does not find it says that nothing is there; it does
not stumble on the way.

Missing directories are made from below: the first attempt fails, the directories
above are made, and the second attempt succeeds (`makeTreeWithin_ok`). A write by
way of a temporary file then always comes to pass (`writeAtomic_ok`).
-/
import ScopedState.Proofs.Disk
import ScopedState.Proofs.Path.Pieces
set_option autoImplicit false

namespace ScopedState

namespace Disk

variable {d d' : Disk} {p q : Path} {parent place here : Place} {name : String} {bytes : Bytes}

/-! ## 1. Where a path points -/

/-- A tree whose working directory is there. -/
structure Ready (d : Disk) : Prop where
  tree : d.Tree
  cwd : d.node? d.cwd = some .directory

theorem Ready.start (h : d.Ready) (p : Path) : d.node? (d.start p) = some .directory := by
  unfold Disk.start
  split
  · rfl
  · exact h.cwd

/-- There is nothing but directories at a place and above it, if there is
anything. -/
def Open (d : Disk) (place : Place) : Prop :=
  ∀ q, q <+: place → d.node? q = none ∨ d.node? q = some .directory

/-- **A path points to a name in a place**: nothing is wrong with its text, its
steps in front of the last one do not go up and lead to the place by their names,
and the last one is a name that a file can have. -/
structure Points (d : Disk) (p : Path) (parent : Place) (name : String) : Prop where
  check : Disk.check p = .ok ()
  closed : endsInSlash p = false
  way : ∃ σ, steps p = σ ++ [name] ∧ parent = d.start p ++ σ.filter (· ≠ ".") ∧ ".." ∉ σ ∧
    ∀ step ∈ σ, tooLong step = false
  named : FileName name

/-- Where a path points to depends on the working directory at most. -/
theorem Points.congr (h : Points d p parent name) (hcwd : d'.cwd = d.cwd) :
    Points d' p parent name := by
  obtain ⟨σ, hsteps, hparent, hup, hshort⟩ := h.way
  have hstart : d'.start p = d.start p := start_of_cwd hcwd p
  exact ⟨h.check, h.closed, ⟨σ, hsteps, by rw [hparent, hstart], hup, hshort⟩, h.named⟩

/-- **A step that is missing on the way** is found to be missing. -/
theorem follow_missing {σ : List String} (hup : ".." ∉ σ)
    (hshort : ∀ step ∈ σ, tooLong step = false) (hhere : d.node? here = some .directory)
    (hway : ∀ q, q <+: σ.filter (· ≠ ".") → q ≠ σ.filter (· ≠ ".") →
      d.node? (here ++ q) = none ∨ d.node? (here ++ q) = some .directory)
    (hnone : d.node? (here ++ σ.filter (· ≠ ".")) = none) : d.follow here σ = .error .notFound := by
  induction σ generalizing here with
  | nil =>
    rw [List.filter_nil, List.append_nil, hhere] at hnone
    cases hnone
  | cons step σ ih =>
    rw [List.mem_cons, not_or] at hup
    rw [List.forall_mem_cons] at hshort
    rw [Disk.follow, hhere]
    by_cases hdot : step = "."
    · rw [List.filter_cons_of_neg (by simp [hdot])] at hnone hway
      simp only [if_pos hdot]
      exact ih hup.2 hshort.2 hhere hway hnone
    · rw [List.filter_cons_of_pos (by simpa using hdot)] at hnone hway
      simp only [if_neg hdot, if_neg (Ne.symm hup.1), hshort.1, Bool.false_eq_true, if_false]
      by_cases hnext : (d.node? (here ++ [step])).isNone = true
      · rw [if_pos hnext]
      · rw [if_neg hnext]
        rw [List.append_cons here step] at hnone
        have hrest : σ.filter (· ≠ ".") ≠ [] := by
          intro hnil
          rw [hnil, List.append_nil] at hnone
          simp [hnone] at hnext
        -- What is there on the way is a directory, and the search goes on in it.
        have hdirectory : d.node? (here ++ [step]) = some .directory := by
          have hbegins : [step] <+: step :: σ.filter (· ≠ ".") := ⟨σ.filter (· ≠ "."), rfl⟩
          rcases hway [step] hbegins (by simpa using Ne.symm hrest) with hmissing | hthere
          · simp [hmissing] at hnext
          · exact hthere
        refine ih hup.2 hshort.2 hdirectory (fun q hq hne => ?_) hnone
        rw [List.append_assoc, List.singleton_append]
        exact hway (step :: q) (List.cons_prefix_cons.mpr ⟨rfl, hq⟩) (by simpa using hne)

namespace Points

/-- A path that points to a place seats a file there, when the directory above is there. -/
theorem seats (h : Points d p parent name) (hd : d.Ready)
    (hparent : d.node? parent = some .directory) : d.Seats p parent name := by
  obtain ⟨σ, hsteps, rfl, hup, _⟩ := h.way
  refine ⟨h.check, by rw [hsteps, List.getLast?_concat], ?_, hparent, h.named⟩
  rw [hsteps, List.dropLast_concat]
  exact hd.tree.follow hup hparent (Or.inl rfl)

/-- The directory that a path points into, when it is missing. -/
theorem locateParent_missing (h : Points d p parent name) (hd : d.Ready) (hopen : d.Open parent)
    (hparent : d.node? parent = none) : d.locateParent p (steps p) = .error .notFound := by
  obtain ⟨σ, hsteps, rfl, hup, hshort⟩ := h.way
  have hfollow := follow_missing hup hshort (hd.start p)
    (fun q hq _ => hopen _ ((List.prefix_append_right_inj _).mpr hq)) hparent
  rw [locateParent, h.check, hsteps, List.dropLast_concat, followDirectory, hfollow]
  rfl

/-- Above a path is a directory, or nothing. -/
theorem parent_cases (hopen : d.Open parent) :
    d.node? parent = none ∨ d.node? parent = some .directory := hopen parent (List.prefix_refl _)

/-! ## 2. Asking and removing -/

theorem locate_eq (h : Points d p parent name) : d.locate p = d.follow (d.start p) (steps p) := by
  rw [locate_eq_follow h.check, route, h.closed, if_neg Bool.false_ne_true, List.append_nil]

/-- **What is at the place is found**, file or directory. -/
theorem stat_ok (h : Points d p parent name) (hd : d.Ready) {node : Node}
    (hnode : d.node? (parent ++ [name]) = some node) : d.stat p = .ok node := by
  have hthere : (d.node? (parent ++ [name])).isSome = true := by
    rw [hnode]
    rfl
  have hseats := h.seats hd (hd.tree.parent parent name hthere)
  rw [Disk.stat, hseats.locate h.closed hthere]
  simp only [hnode, Option.getD_some]

/-- **Nothing is found** where nothing is. -/
theorem stat_missing (h : Points d p parent name) (hd : d.Ready) (hopen : d.Open parent)
    (hnone : d.node? (parent ++ [name]) = none) : d.stat p = .error .notFound := by
  obtain ⟨σ, hsteps, rfl, hup, hshort⟩ := h.way
  have hname : (σ ++ [name]).filter (· ≠ ".") = σ.filter (· ≠ ".") ++ [name] := by
    rw [List.filter_append, List.filter_cons_of_pos (by simpa using h.named.2.1), List.filter_nil]
  -- The path may be cut short above the name as well as at the name.
  have hfollow : d.follow (d.start p) (σ ++ [name]) = .error .notFound := by
    refine follow_missing ?_ ?_ (hd.start p) ?_ ?_
    · simp [hup, Ne.symm h.named.2.2.1]
    · intro step hstep
      rcases List.mem_append.mp hstep with hin | hlast
      · exact hshort step hin
      · rw [List.mem_singleton.mp hlast]
        exact h.named.not_tooLong
    · intro q hq hne
      rw [hname] at hq hne
      have hshorter : q <+: σ.filter (· ≠ ".") := (List.prefix_concat_iff.mp hq).resolve_left hne
      exact hopen _ ((List.prefix_append_right_inj _).mpr hshorter)
    · rw [hname, ← List.append_assoc]
      exact hnone
  rw [Disk.stat, h.locate_eq, hsteps, hfollow]

/-- **Reading** a file. -/
theorem read_ok (h : Points d p parent name) (hd : d.Ready)
    (hcontent : d.contentAt (parent ++ [name]) = some bytes) : d.read p = .ok bytes := by
  obtain ⟨readOnly, hnode⟩ := contentAt_eq_some.mp hcontent
  rw [Disk.read, h.stat_ok hd hnode]

/-- Reading where nothing is. -/
theorem read_missing (h : Points d p parent name) (hd : d.Ready) (hopen : d.Open parent)
    (hnone : d.node? (parent ++ [name]) = none) : d.read p = .error .notFound := by
  rw [Disk.read, h.stat_missing hd hopen hnone]

/-- **Removing** a file. -/
theorem remove_ok (h : Points d p parent name) (hd : d.Ready)
    (hcontent : d.contentAt (parent ++ [name]) = some bytes) :
    d.remove p = .ok (d.drop (parent ++ [name])) := by
  obtain ⟨readOnly, hnode⟩ := contentAt_eq_some.mp hcontent
  have hparent := hd.tree.parent parent name (by rw [hnode]; rfl)
  exact (h.seats hd hparent).remove h.closed hnode

/-- Removing where nothing is. -/
theorem remove_missing (h : Points d p parent name) (hd : d.Ready) (hopen : d.Open parent)
    (hnone : d.node? (parent ++ [name]) = none) : d.remove p = .error .notFound := by
  rw [remove, h.closed]
  simp only [Bool.false_eq_true, if_false, List.append_nil]
  rcases parent_cases hopen with hmissing | hthere
  · rw [h.locateParent_missing hd hopen hmissing]
  · rw [(h.seats hd hthere).locateParent]
    simp only [h.named.not_dots, h.named.not_tooLong, Bool.false_eq_true, if_false, hnone]

/-! ## 3. Writing and moving -/

end Points

/-- Whether the file at a place has no write permission. -/
def lockedAt (d : Disk) (place : Place) : Bool :=
  match d.node? place with
  | some (.file _ readOnly) => readOnly
  | _ => false

namespace Points

/-- **Writing** a file in a directory that is there. A file that was there keeps its
permission. -/
theorem write_ok (h : Points d p parent name) (hd : d.Ready)
    (hparent : d.node? parent = some .directory)
    (hfree : d.node? (parent ++ [name]) ≠ some .directory) (bytes : Bytes) :
    d.write p bytes
      = .ok (d.put (parent ++ [name]) (.file bytes (d.lockedAt (parent ++ [name])))) := by
  rw [Disk.write, (h.seats hd hparent).locateParent]
  simp only [h.closed, h.named.not_dots, h.named.not_tooLong, Bool.or_self, Bool.false_eq_true,
    if_false, lockedAt]
  cases hnode : d.node? (parent ++ [name]) with
  | none => rfl
  | some node =>
    cases node with
    | directory => exact absurd hnode hfree
    | file old readOnly => rfl

/-- **Moving** a file over another one, or to where nothing is. -/
theorem move_ok {source : Path} {temporary : String} {readOnly : Bool}
    (hsource : Points d source parent temporary) (h : Points d p parent name) (hd : d.Ready)
    (hnode : d.node? (parent ++ [temporary]) = some (.file bytes readOnly))
    (hfree : d.node? (parent ++ [name]) ≠ some .directory) :
    d.move source p = .ok ((d.drop (parent ++ [temporary])).put (parent ++ [name])
      (.file bytes readOnly)) := by
  have hparent := hd.tree.parent parent temporary (by rw [hnode]; rfl)
  rw [move, (hsource.seats hd hparent).locateParent, (h.seats hd hparent).locateParent]
  simp only [hsource.closed, h.closed, hsource.named.not_dots, h.named.not_dots,
    hsource.named.not_tooLong, h.named.not_tooLong, Bool.or_self, Bool.false_eq_true, if_false,
    hnode, if_neg hfree]

end Points

/-! ## 4. Making directories -/

/-- The place that a path names word by word. -/
def spot (d : Disk) (p : Path) : Place := d.start p ++ names p

/-- A path that can be taken word by word: nothing is wrong with its text, and its
steps are short and never go up. -/
structure Literal (p : Path) : Prop where
  check : Disk.check p = .ok ()
  noUp : ".." ∉ steps p
  short : ∀ step ∈ steps p, tooLong step = false

instance : DecidablePred Literal := fun p =>
  decidable_of_iff (Disk.check p = .ok () ∧ ".." ∉ steps p ∧ ∀ step ∈ steps p, tooLong step = false)
    ⟨fun h => ⟨h.1, h.2.1, h.2.2⟩, fun h => ⟨h.check, h.noUp, h.short⟩⟩

/-- **A path with a name at its end** points to it. -/
theorem Literal.points (h : Literal p) (hend : p.endsInName = true) (d : Disk) :
    ∃ front name, names p = front ++ [name] ∧ (steps p).getLast? = some name ∧
      Points d p (d.start p ++ front) name := by
  obtain ⟨σ, name, hsteps, hname, hnames, hclosed⟩ := steps_of_endsInName hend
  have hmem : name ∈ steps p := by
    rw [hsteps]
    exact List.mem_append_right _ List.mem_cons_self
  have hσ : ∀ step ∈ σ, step ∈ steps p := by
    intro step hstep
    rw [hsteps]
    exact List.mem_append_left _ hstep
  have hdots : isDots name = false := by
    have hup : name ≠ ".." := fun heq => h.noUp (heq ▸ hmem)
    simp [isDots, hname, hup]
  refine ⟨_, name, hnames, by rw [hsteps, List.getLast?_concat], h.check, hclosed,
    ⟨σ, hsteps, rfl, fun hup => h.noUp (hσ _ hup), fun step hstep => h.short step (hσ step hstep)⟩,
    ?_⟩
  exact fileName_of_step h.check hmem hdots (h.short name hmem)

theorem Literal.noUp_route (h : Literal p) : ".." ∉ route p := by
  rw [route, List.mem_append, not_or]
  refine ⟨h.noUp, ?_⟩
  split
  · decide
  · exact List.not_mem_nil

/-- **A path that is taken word by word** leads where its words do, if anywhere. -/
theorem Literal.eq_spot (h : Literal p) (hlocate : d.locate p = .ok place) : place = d.spot p := by
  rw [locate_eq_follow h.check] at hlocate
  rw [eq_of_follow h.noUp_route hlocate, filter_route, spot]

/-- So it does if a file could be put there. -/
theorem Literal.spot_eq (h : Literal p) (hseats : d.Seats p parent name) :
    d.spot p = parent ++ [name] := by
  have hup : ".." ∉ (steps p).dropLast := fun hin => h.noUp ((List.dropLast_prefix _).subset hin)
  rw [eq_of_follow hup hseats.leads, spot, names, hseats.steps_eq, List.dropLast_concat,
    List.filter_append, List.filter_cons_of_pos (by simpa using hseats.named.2.1),
    List.filter_nil, List.append_assoc]

/-- A directory that is there is found to be one. -/
theorem isDirectory_of_node (h : Literal p) (hd : d.Ready)
    (hnode : d.node? (d.spot p) = some .directory) : d.isDirectory p = true := by
  have hthere : d.node? (d.start p ++ (route p).filter (· ≠ ".")) = some .directory := by
    rw [filter_route]
    exact hnode
  have hlocate : d.locate p = .ok (d.spot p) := by
    rw [locate_eq_follow h.check, hd.tree.follow h.noUp_route hthere (Or.inl rfl), filter_route, spot]
  rw [isDirectory, Disk.stat, hlocate]
  simp only [hnode, Option.getD_some]

/-- Nothing is made where something is. -/
theorem makeDirectory_there (h : Literal p) (hnode : d.node? (d.spot p) = some .directory)
    (made : Disk) : d.makeDirectory p ≠ .ok made := by
  intro hmade
  obtain ⟨parent, step, hseats, hnone, _⟩ := makeDirectory_eq_ok hmade
  -- The step stands where the path leads, and there is a directory.
  rw [← h.spot_eq hseats, hnode] at hnone
  cases hnone

/-- A directory that is there need not be made. -/
theorem ensureDirectory_there (h : Literal p) (hd : d.Ready)
    (hnode : d.node? (d.spot p) = some .directory) : d.ensureDirectory p = .ok d := by
  unfold ensureDirectory
  -- Making it fails, and then it is looked for.
  cases hmade : d.makeDirectory p with
  | ok made => exact absurd hmade (makeDirectory_there h hnode made)
  | error e => simp only [isDirectory_of_node h hd hnode, if_true]

/-- A directory is made in one that is there. -/
theorem ensureDirectory_made (h : Points d p parent name) (hd : d.Ready)
    (hparent : d.node? parent = some .directory) (hnone : d.node? (parent ++ [name]) = none) :
    d.ensureDirectory p = .ok (d.put (parent ++ [name]) .directory) := by
  have hmade : d.makeDirectory p = .ok (d.put (parent ++ [name]) .directory) := by
    rw [makeDirectory, (h.seats hd hparent).locateParent]
    simp only [h.named.not_dots, h.named.not_tooLong, Bool.false_eq_true, if_false, hnone,
      Option.isSome_none]
  rw [ensureDirectory, hmade]

/-- A directory cannot be made in one that is missing. -/
theorem ensureDirectory_missing (h : Points d p parent name) (hd : d.Ready) (hopen : d.Open parent)
    (hparent : d.node? parent = none) : d.ensureDirectory p = .error .notFound := by
  have hnone : d.node? (parent ++ [name]) = none := hd.tree.below_missing hparent name
  have hmade : d.makeDirectory p = .error .notFound := by
    rw [makeDirectory, h.locateParent_missing hd hopen hparent]
  have hno : d.isDirectory p = false := by
    rw [isDirectory, h.stat_missing hd hopen hnone]
  rw [ensureDirectory, hmade]
  simp only [hno, Bool.false_eq_true, if_false]

/-- **Directories were made** down to a place, and nowhere else. -/
structure MadeTo (d d' : Disk) (place : Place) : Prop where
  grown : Grown d d'
  there : d'.node? place = some .directory
  only : ∀ q, d'.node? q = d.node? q ∨ q <+: place

theorem MadeTo.ready (h : MadeTo d d' place) (hd : d.Ready) : d'.Ready := by
  refine ⟨h.grown.tree hd.tree, ?_⟩
  rw [h.grown.cwd]
  exact h.grown.extends _ hd.cwd

theorem madeTo_refl (h : d.node? place = some .directory) : MadeTo d d place :=
  ⟨Grown.refl d, h, fun _ => Or.inl rfl⟩

/-- One more directory. -/
theorem MadeTo.step (h : MadeTo d d' parent)
    (hnone : d.node? (parent ++ [name]) = none) (hname : FileName name) :
    MadeTo d (d'.put (parent ++ [name]) .directory) (parent ++ [name]) := by
  have hnode : ∀ q, (d'.put (parent ++ [name]) .directory).node? q
      = if q = parent ++ [name] then some .directory else d'.node? q := node?_put (by simp)
  refine ⟨h.grown.trans ⟨fun htree => htree.put h.there hname fun _ => rfl, rfl, fun q => ?_⟩, ?_,
    fun q => ?_⟩
  · rw [hnode]
    by_cases hq : q = parent ++ [name]
    · -- The directories that were made before are all above this one.
      rw [if_pos hq, hq]
      rcases h.only (parent ++ [name]) with hsame | hbegins
      · exact Or.inr ⟨hsame.trans hnone, rfl⟩
      · exact absurd hbegins.length_le (by simp)
    · rw [if_neg hq]
      exact Or.inl rfl
  · rw [hnode, if_pos rfl]
  · rw [hnode]
    by_cases hq : q = parent ++ [name]
    · exact Or.inr (hq ▸ List.prefix_refl _)
    · rw [if_neg hq]
      exact (h.only q).imp_right fun hbegins => hbegins.trans (List.prefix_append _ _)

/-- Nothing is wrong with a beginning of a text that nothing is wrong with. -/
theorem check_of_start (hbegins : q.text.toList <+: p.text.toList) (hcheck : Disk.check p = .ok ())
    (hne : q.text ≠ "") : Disk.check q = .ok () := by
  obtain ⟨more, hmore⟩ := hbegins
  have htext : p.text = q.text ++ String.ofList more := by
    rw [← String.toList_inj, String.toList_append, String.toList_ofList, hmore]
  have hsize : p.text.utf8ByteSize
      = q.text.utf8ByteSize + (String.ofList more).utf8ByteSize := by
    rw [htext, String.utf8ByteSize_append]
  unfold Disk.check at hcheck ⊢
  split at hcheck
  · cases hcheck
  · rename_i hzero
    split at hcheck
    · cases hcheck
    · split at hcheck
      · cases hcheck
      · rename_i hshort
        have hzero' : ¬ q.text.toList.contains '\x00' = true := by
          intro hin
          refine hzero (List.contains_iff_mem.mpr ?_)
          rw [← hmore]
          exact List.mem_append_left _ (List.contains_iff_mem.mp hin)
        have hempty : ¬ q.text.isEmpty = true := fun h => hne (String.isEmpty_iff.mp h)
        rw [if_neg hzero', if_neg hempty, if_neg (by omega)]

/-- A path above a literal one is literal, if it has a text. -/
theorem Literal.above (h : Literal p) (hbegins : q.text.toList <+: p.text.toList)
    (hsteps : ∀ step ∈ steps q, step ∈ steps p) (hne : q.text ≠ "") : Literal q :=
  ⟨check_of_start hbegins h.check hne, fun hup => h.noUp (hsteps _ hup),
    fun step hstep => h.short step (hsteps step hstep)⟩

/-- A path without a text has no location. -/
theorem location_of_empty (h : p.text = "") : p.location = [] := by
  rw [Path.location, Path.pieces, h]
  rfl

theorem start_congr (h : p.isAbsolute = q.isAbsolute) (d : Disk) : d.start p = d.start q := by
  rw [Disk.start, Disk.start, h]

/-- A directory that is there need not be made, nor the ones above it. -/
theorem makeTreeWithin_there (fuel : Nat) (hd : d.Ready) (h : p.text = "" ∨ Literal p)
    (hnode : d.node? (d.spot p) = some .directory) : makeTreeWithin fuel d p = (.ok (), d) := by
  unfold makeTreeWithin
  by_cases hempty : p.location = []
  · rw [if_pos hempty]
  · have hliteral : Literal p := h.resolve_left fun htext => hempty (location_of_empty htext)
    rw [if_neg hempty, ensureDirectory_there hliteral hd hnode]

/-- **Missing directories are made**, as long as there is nothing else on the way.
The induction follows the attempts from the last directory up; what is missing is
made on the way back. -/
theorem makeTreeWithin_ok (fuel : Nat) (hd : d.Ready) (h : p.text = "" ∨ Literal p)
    (hend : p.endsInName = true ∨ names p = []) (hopen : d.Open (d.spot p))
    (hfuel : (names p).length ≤ fuel) :
    ∃ d', makeTreeWithin fuel d p = (.ok (), d') ∧ MadeTo d d' (d.spot p) := by
  induction fuel generalizing p with
  | zero =>
    have hnone : names p = [] := List.eq_nil_of_length_eq_zero (Nat.le_zero.mp hfuel)
    have hthere : d.node? (d.spot p) = some .directory := by
      rw [spot, hnone, List.append_nil]
      exact hd.start p
    exact ⟨d, makeTreeWithin_there 0 hd h hthere, madeTo_refl hthere⟩
  | succ fuel ih =>
    rcases hopen _ (List.prefix_refl _) with hmissing | hthere
    · -- The place where a path starts is there, so this one has a name.
      have hnames : names p ≠ [] := by
        intro hnone
        rw [spot, hnone, List.append_nil, hd.start p] at hmissing
        cases hmissing
      have hplace : p.location ≠ [] := by
        intro hnil
        rw [names_eq_filterMap, hnil] at hnames
        exact hnames rfl
      have hliteral : Literal p := h.resolve_left fun htext => hplace (location_of_empty htext)
      have hname := hend.resolve_right hnames
      obtain ⟨front, name, hfront, hlast, hpoints⟩ := hliteral.points hname d
      have hspot : d.spot p = d.start p ++ front ++ [name] := by
        rw [spot, hfront, List.append_assoc]
      rw [hspot] at hmissing hopen ⊢
      have habove : d.Open (d.start p ++ front) :=
        fun q hq => hopen q (hq.trans (List.prefix_append _ _))
      unfold makeTreeWithin
      rw [if_neg hplace]
      rcases Points.parent_cases habove with hnone | hparent
      · -- The first attempt fails: above has to be made first.
        obtain ⟨up, hup, hbegins, habsolute, hnames', hsteps, hend'⟩ := parent_spec hname
        have hstart : d.start up = d.start p := start_congr habsolute d
        have hfront' : names up = front := by
          rw [hfront, hlast] at hnames'
          exact (List.append_inj' hnames' rfl).1.symm
        have hspot' : d.spot up = d.start p ++ front := by rw [spot, hstart, hfront']
        have htext : up.text = "" ∨ Literal up :=
          or_iff_not_imp_left.mpr fun hne => hliteral.above hbegins hsteps hne
        have hfuel' : (names up).length ≤ fuel := by
          rw [hfront, List.length_append, List.length_singleton] at hfuel
          rw [hfront']
          omega
        obtain ⟨above, hmade, hto⟩ := ih htext hend' (by rw [hspot']; exact habove) hfuel'
        rw [hspot'] at hto
        have hstill : above.node? (d.start p ++ front ++ [name]) = none := by
          rcases hto.only (d.start p ++ front ++ [name]) with hsame | hshorter
          · rw [hsame]
            exact hmissing
          · exact absurd hshorter.length_le (by simp)
        rw [ensureDirectory_missing hpoints hd habove hnone]
        simp only [hup, hmade]
        rw [ensureDirectory_made (hpoints.congr hto.grown.cwd) (hto.ready hd) hto.there hstill]
        exact ⟨_, rfl, hto.step hmissing hpoints.named⟩
      · rw [ensureDirectory_made hpoints hd hparent hmissing]
        exact ⟨_, rfl, (madeTo_refl hparent).step hmissing hpoints.named⟩
    · exact ⟨d, makeTreeWithin_there _ hd h hthere, madeTo_refl hthere⟩

/-! ## 5. Beside a path -/

/-- A path that a file can be kept at: it ends in a name, and it can be taken word
by word, also with the ending of a temporary file behind it. -/
structure Keepable (p : Path) : Prop where
  literal : Literal p
  named : p.endsInName = true
  beside : Literal (LocalFiles.temporary p)

instance : DecidablePred Keepable := fun p =>
  decidable_of_iff (Literal p ∧ p.endsInName = true ∧ Literal (LocalFiles.temporary p))
    ⟨fun h => ⟨h.1, h.2.1, h.2.2⟩, fun h => ⟨h.literal, h.named, h.beside⟩⟩

/-- A name in a directory is as absolute as the directory. -/
theorem isAbsolute_join_name (p : Path) {name : String} (hslash : '/' ∉ name.toList) :
    (p.join ⟨name⟩).isAbsolute = p.isAbsolute := by
  have hrelative : (⟨name⟩ : Path).isAbsolute = false := by
    rw [Path.isAbsolute, decide_eq_false_iff_not]
    exact fun hhead => hslash (List.mem_of_mem_head? hhead)
  unfold Path.join
  rw [if_neg (by simp [hrelative])]
  cases htext : p.text.toList with
  | nil =>
    have hempty : p.text = "" := by simpa using htext
    have hsame : (⟨"" ++ name⟩ : Path).isAbsolute = (⟨name⟩ : Path).isAbsolute := by simp
    rw [if_pos (by simp [hempty]), hempty, hsame, hrelative, Path.isAbsolute, hempty]
    rfl
  | cons c rest =>
    split
    · rw [Path.isAbsolute, Path.isAbsolute, String.toList_append, htext]
      rfl
    · rw [Path.isAbsolute, Path.isAbsolute, String.toList_append, String.toList_append, htext]
      rfl

/-- A path that is put together with a name does not end in a slash. -/
theorem endsInSlash_join_name (p : Path) {name : String} (hslash : '/' ∉ name.toList)
    (hne : name ≠ "") : endsInSlash (p.join ⟨name⟩) = false := by
  have hend : ∃ front, (p.join ⟨name⟩).text.toList = front ++ name.toList := by
    unfold Path.join
    split
    · exact ⟨[], rfl⟩
    · split
      · exact ⟨_, String.toList_append⟩
      · exact ⟨_, String.toList_append⟩
  obtain ⟨front, hfront⟩ := hend
  rw [endsInSlash, decide_eq_false_iff_not, hfront, List.getLast?_append]
  intro hlast
  cases hname : name.toList.getLast? with
  | none => exact hne (by simpa using hname)
  | some c =>
    rw [hname] at hlast
    exact hslash (Option.some.inj hlast ▸ List.mem_of_getLast? hname)

/-- The name at the end of a path. -/
theorem fileName?_eq (hend : p.endsInName = true) (hlast : (steps p).getLast? = some name)
    (hup : name ≠ "..") : p.fileName? = some name := by
  obtain ⟨front, last, hbody, hcounts⟩ := Path.exists_body_of_endsInName hend
  have hpieces : p.pieces.getLast? = some last := by
    rw [← Path.getLast?_body, hbody, List.getLast?_concat]
  obtain ⟨before, hbefore⟩ := List.getLast?_eq_some_iff.mp hpieces
  have hname : name = String.ofList last := by
    have hne : last ≠ [] := by
      rintro rfl
      cases hcounts
    rw [steps, hbefore, List.filter_append, List.map_append,
      List.filter_cons_of_pos (by simpa using hne), List.filter_nil, List.map_singleton,
      List.getLast?_concat] at hlast
    exact (Option.some.inj hlast).symm
  have hup' : last ≠ ['.', '.'] := by
    rintro rfl
    exact hup hname
  rw [Path.fileName?, getLast?_location hbefore hcounts, Path.partOf, if_neg hup', hname]

/-- **A path and its temporary file** point into one directory. -/
theorem Keepable.points (h : Keepable p) (d : Disk) :
    ∃ parent name, d.spot p = parent ++ [name] ∧
      d.spot (LocalFiles.temporary p) = parent ++ [name ++ ".tmp"] ∧
      Points d p parent name ∧ Points d (LocalFiles.temporary p) parent (name ++ ".tmp") := by
  obtain ⟨front, name, hfront, hlast, hpoints⟩ := h.literal.points h.named d
  obtain ⟨up, hup, _, habsolute, hnames, hsteps, _⟩ := parent_spec h.named
  have hparent : names up = front := by
    rw [hfront, hlast] at hnames
    exact (List.append_inj' hnames rfl).1.symm
  have hfile := fileName?_eq h.named hlast hpoints.named.2.2.1
  have htemporary : LocalFiles.temporary p = up.join ⟨name ++ ".tmp"⟩ := by
    rw [LocalFiles.temporary, Path.withFileName, hfile, hup]
    rfl
  have hslash : '/' ∉ (name ++ ".tmp").toList := by
    rw [String.toList_append, List.mem_append, not_or]
    exact ⟨hpoints.named.2.2.2.1, by decide⟩
  have hlength : 4 ≤ (name ++ ".tmp").toList.length := by simp
  have hne : name ++ ".tmp" ≠ "" := fun heq => by simp [heq] at hlength
  have hdots : isDots (name ++ ".tmp") = false := by
    rw [isDots, Bool.or_eq_false_iff, decide_eq_false_iff_not, decide_eq_false_iff_not]
    exact ⟨fun heq => by simp [heq] at hlength, fun heq => by simp [heq] at hlength⟩
  have hsteps' : steps (LocalFiles.temporary p) = steps up ++ [name ++ ".tmp"] := by
    rw [htemporary, steps_join_name up hslash hne]
  have hstart : d.start (LocalFiles.temporary p) = d.start p := by
    rw [htemporary]
    exact start_congr ((isAbsolute_join_name up hslash).trans habsolute) d
  have hmem : name ++ ".tmp" ∈ steps (LocalFiles.temporary p) := by
    rw [hsteps']
    exact List.mem_append_right _ List.mem_cons_self
  have hdot : name ++ ".tmp" ≠ "." := fun heq => by simp [heq] at hlength
  refine ⟨d.start p ++ front, name, ?_, ?_, hpoints, h.beside.check, ?_, ?_, ?_⟩
  · rw [spot, hfront, List.append_assoc]
  · rw [spot, hstart, names, hsteps', List.filter_append,
      List.filter_cons_of_pos (by simpa using hdot), List.filter_nil, ← hparent, List.append_assoc]
    rfl
  · rw [htemporary]
    exact endsInSlash_join_name up hslash hne
  · refine ⟨steps up, hsteps', by rw [hstart, ← hparent, names], ?_, ?_⟩
    · exact fun hin => h.literal.noUp (hsteps _ hin)
    · exact fun step hstep => h.literal.short step (hsteps step hstep)
  · exact fileName_of_step h.beside.check hmem hdots (h.beside.short _ hmem)

/-! ## 6. Writing by way of a temporary file -/

/-- **The directories above a path** are made. -/
theorem makeParents_ok (hd : d.Ready) (h : Literal p) (hend : p.endsInName = true)
    (hspot : d.spot p = parent ++ [name]) (hopen : d.Open parent) :
    ∃ d', LocalFiles.makeParents d p = (.ok (), d') ∧ MadeTo d d' parent := by
  obtain ⟨up, hup, hbegins, habsolute, hnames, hsteps, hend'⟩ := parent_spec hend
  obtain ⟨front, last, hfront, hlast, _⟩ := h.points hend d
  have hparent : d.spot up = parent := by
    have hfront' : names up = front := by
      rw [hfront, hlast] at hnames
      exact (List.append_inj' hnames rfl).1.symm
    rw [spot, hfront, ← List.append_assoc] at hspot
    rw [spot, start_congr habsolute d, hfront']
    exact (List.append_inj' hspot rfl).1
  unfold LocalFiles.makeParents
  rw [hup]
  by_cases hempty : up.text = ""
  · have hthere : d.node? parent = some .directory := by
      have hnone : names up = [] := by
        rw [names_eq_filterMap, location_of_empty hempty]
        rfl
      rw [← hparent, spot, hnone, List.append_nil]
      exact hd.start up
    refine ⟨d, ?_, madeTo_refl hthere⟩
    simp [hempty]
  · have hfuel : (names up).length ≤ up.location.length := by
      rw [names_eq_filterMap]
      exact List.length_filterMap_le _ _
    obtain ⟨d', hmade, hto⟩ := makeTreeWithin_ok up.location.length hd
      (Or.inr (h.above hbegins hsteps hempty)) hend' (by rw [hparent]; exact hopen) hfuel
    rw [hparent] at hto
    refine ⟨d', ?_, hto⟩
    have hnonempty : up.text.isEmpty = false := by simpa using hempty
    simp only [hnonempty, Bool.false_eq_true, if_false]
    exact hmade

/-- A file put into a directory. -/
theorem Ready.put_file (h : d.Ready) {readOnly : Bool} (hparent : d.node? parent = some .directory)
    (hname : FileName name) (hfree : d.node? (parent ++ [name]) ≠ some .directory) :
    (d.put (parent ++ [name]) (.file bytes readOnly)).Ready := by
  refine ⟨h.tree.put hparent hname fun hdirectory => absurd hdirectory hfree, ?_⟩
  rw [node?_put (by simp), if_neg]
  · exact h.cwd
  · intro hcwd
    exact hfree (hcwd ▸ h.cwd)

/-- A file taken away. -/
theorem Ready.drop_file (h : d.Ready) (hfree : d.node? (parent ++ [name]) ≠ some .directory) :
    (d.drop (parent ++ [name])).Ready := by
  refine ⟨h.tree.drop (by simp) hfree, ?_⟩
  rw [node?_drop (by simp), if_neg]
  · exact h.cwd
  · intro hcwd
    exact hfree (hcwd ▸ h.cwd)

/-- **A file was put in its place** by way of a temporary one, and the directories
above were made. -/
structure PutIn (d d' : Disk) (parent : Place) (name : String) (bytes : Bytes) : Prop where
  ready : d'.Ready
  cwd : d'.cwd = d.cwd
  file : d'.node? (parent ++ [name]) = some (.file bytes false)
  temporary : d'.node? (parent ++ [name ++ ".tmp"]) = none
  other : ∀ q, q ≠ parent ++ [name] → q ≠ parent ++ [name ++ ".tmp"] →
    d'.node? q = d.node? q ∨ (d'.node? q = some .directory ∧ q <+: parent)

/-- The steps of a write, each of which comes to pass. -/
theorem writeAtomic_of_steps {made written : Disk}
    (hmade : LocalFiles.makeParents d p = (.ok (), made))
    (hwrite : made.write (LocalFiles.temporary p) bytes = .ok written)
    (hmove : written.move (LocalFiles.temporary p) p = .ok d') :
    LocalFiles.writeAtomic d p bytes = (.ok (), d') := by
  have hreplace : LocalFiles.replace made p bytes = (.ok (), d') := by
    unfold LocalFiles.replace
    simp only [hwrite, hmove]
  unfold LocalFiles.writeAtomic
  rw [hmade]
  exact hreplace

/-- The file and its temporary one are at two places. -/
theorem ne_temporaryPlace (parent : Place) (name : String) :
    parent ++ [name] ≠ parent ++ [name ++ ".tmp"] := by
  intro heq
  have hname : name = name ++ ".tmp" := by simpa using heq
  have hlength := congrArg (fun text => text.toList.length) hname
  simp at hlength

/-- **A file is put into a directory** that is there: it is written under its temporary
name, and moved. -/
theorem exists_replaced (hd : d.Ready) (hpoints : d.Points p parent name)
    (hbeside : d.Points (LocalFiles.temporary p) parent (name ++ ".tmp"))
    (hparent : d.node? parent = some .directory)
    (hfree : d.node? (parent ++ [name]) ≠ some .directory)
    (htemporary : d.node? (parent ++ [name ++ ".tmp"]) ≠ some .directory)
    (hunlocked : d.lockedAt (parent ++ [name ++ ".tmp"]) = false) (bytes : Bytes) :
    ∃ written d', d.write (LocalFiles.temporary p) bytes = .ok written ∧
      written.move (LocalFiles.temporary p) p = .ok d' ∧ d'.Ready ∧ d'.cwd = d.cwd ∧
      ∀ q, d'.node? q = if q = parent ++ [name] then some (.file bytes false)
        else if q = parent ++ [name ++ ".tmp"] then none else d.node? q := by
  have hdistinct := ne_temporaryPlace parent name
  have hwrite := hbeside.write_ok hd hparent htemporary bytes
  rw [hunlocked] at hwrite
  have hready : (d.put (parent ++ [name ++ ".tmp"]) (.file bytes false)).Ready :=
    hd.put_file hparent hbeside.named htemporary
  have hcwd : (d.put (parent ++ [name ++ ".tmp"]) (.file bytes false)).cwd = d.cwd := rfl
  generalize hwritten : d.put (parent ++ [name ++ ".tmp"]) (.file bytes false) = written
    at hwrite hready hcwd
  have hnode : ∀ q, written.node? q = if q = parent ++ [name ++ ".tmp"] then
      some (.file bytes false) else d.node? q := by
    rw [← hwritten]
    exact node?_put (by simp)
  have hthere : written.node? (parent ++ [name ++ ".tmp"]) = some (.file bytes false) := by
    rw [hnode, if_pos rfl]
  have hfree' : written.node? (parent ++ [name]) ≠ some .directory := by
    rw [hnode, if_neg hdistinct]
    exact hfree
  have hmove := (hbeside.congr hcwd).move_ok (hpoints.congr hcwd) hready hthere hfree'
  -- Moving takes the temporary file away and puts another one in the place of the file.
  have hdropped : ∀ q, (written.drop (parent ++ [name ++ ".tmp"])).node? q
      = if q = parent ++ [name ++ ".tmp"] then none else d.node? q := by
    intro q
    rw [node?_drop (by simp), hnode]
    split <;> rfl
  have hready' : (written.drop (parent ++ [name ++ ".tmp"])).Ready := by
    refine hready.drop_file ?_
    rw [hthere]
    exact nofun
  have hparent' : (written.drop (parent ++ [name ++ ".tmp"])).node? parent
      = some .directory := by
    rw [hdropped, if_neg (by simp)]
    exact hparent
  have hfree'' : (written.drop (parent ++ [name ++ ".tmp"])).node? (parent ++ [name])
      ≠ some .directory := by
    rw [hdropped, if_neg hdistinct]
    exact hfree
  refine ⟨written, _, hwrite, hmove, hready'.put_file hparent' hpoints.named hfree'', hcwd, ?_⟩
  intro q
  rw [node?_put (by simp), hdropped]

/-- **A write comes to pass** when nothing but directories is on the way, no
directory is in the place of the file or of its temporary one, and a temporary file
that was left over may be written. -/
theorem writeAtomic_ok (hd : d.Ready) (h : Keepable p) (hspot : d.spot p = parent ++ [name])
    (hopen : d.Open parent) (hfree : d.node? (parent ++ [name]) ≠ some .directory)
    (htemporary : d.node? (parent ++ [name ++ ".tmp"]) ≠ some .directory)
    (hunlocked : d.lockedAt (parent ++ [name ++ ".tmp"]) = false) (bytes : Bytes) :
    ∃ d', LocalFiles.writeAtomic d p bytes = (.ok (), d') ∧ PutIn d d' parent name bytes := by
  obtain ⟨parent', name', hspot', _, hpoints, hbeside⟩ := h.points d
  obtain ⟨rfl, hlast⟩ := List.append_inj' (hspot.symm.trans hspot') rfl
  obtain rfl := (List.cons.inj hlast).1
  obtain ⟨made, hmade, hto⟩ := makeParents_ok hd h.literal h.named hspot hopen
  -- What stands in the directory is not touched by making it.
  have hsame : ∀ name, made.node? (parent ++ [name]) = d.node? (parent ++ [name]) := by
    intro name
    exact (hto.only _).resolve_right fun hbegins => absurd hbegins.length_le (by simp)
  have hunlocked' : made.lockedAt (parent ++ [name ++ ".tmp"]) = false := by
    rw [lockedAt, hsame]
    exact hunlocked
  obtain ⟨written, d', hwrite, hmove, hready, hcwd, hnode⟩ :=
    exists_replaced (hto.ready hd) (hpoints.congr hto.grown.cwd) (hbeside.congr hto.grown.cwd)
      hto.there (by rw [hsame]; exact hfree) (by rw [hsame]; exact htemporary) hunlocked' bytes
  refine ⟨d', writeAtomic_of_steps hmade hwrite hmove, hready, hcwd.trans hto.grown.cwd, ?_, ?_,
    fun q hq hq' => ?_⟩
  · rw [hnode, if_pos rfl]
  · rw [hnode, if_neg (ne_temporaryPlace parent name).symm, if_pos rfl]
  · rw [hnode, if_neg hq, if_neg hq']
    rcases hto.only q with hsame' | hbegins
    · exact Or.inl hsame'
    · rcases hto.grown.node q with hsame' | ⟨_, hnew⟩
      · exact Or.inl hsame'
      · exact Or.inr ⟨hnew, hbegins⟩

end Disk

end ScopedState
