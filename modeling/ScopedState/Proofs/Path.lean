/-
`Proofs/Path.lean` -- the steps of a path.

A path is followed step by step, and its steps are the pieces of its text
between the slashes, the empty ones left out. So the steps of a text with a
slash in it are those in front of the slash and those behind it, no matter how
many slashes there are. With that, the steps of a path that is put together are
read off its parts, although its text need not be.

The location of an absolute path holds its steps without the dots. So two absolute
paths have one location exactly when they have the same names to follow.
-/
import Mathlib.Data.List.Induction
import ScopedState.Disk
set_option autoImplicit false

namespace ScopedState

namespace Path

variable {a b : List Char}

/-! ## 1. Pieces -/

theorem cut_ne_nil (text : List Char) : cut text ≠ [] := by
  cases text with
  | nil => exact List.cons_ne_nil _ _
  | cons c text =>
    rw [cut]
    split
    · exact List.cons_ne_nil _ _
    · split <;> exact List.cons_ne_nil _ _

/-- **A slash** separates the pieces in front of it from those behind it. -/
theorem cut_append_slash (a b : List Char) : cut (a ++ '/' :: b) = cut a ++ cut b := by
  induction a with
  | nil => rfl
  | cons c a ih =>
    rw [List.cons_append, cut, cut, ih]
    split
    · rfl
    · cases hcut : cut a with
      | nil => exact absurd hcut (cut_ne_nil a)
      | cons piece pieces => rfl

theorem cut_of_no_slash (h : '/' ∉ a) : cut a = [a] := by
  induction a with
  | nil => rfl
  | cons c a ih =>
    rw [List.mem_cons, not_or] at h
    rw [cut, if_neg (Ne.symm h.1), ih h.2]

/-- No slash is in a piece, and nothing else than was in the text. -/
theorem of_mem_cut {piece : List Char} (h : piece ∈ cut a) :
    '/' ∉ piece ∧ ∀ c ∈ piece, c ∈ a := by
  induction a generalizing piece with
  | nil =>
    rw [List.mem_singleton.mp h]
    exact ⟨List.not_mem_nil, fun c hc => hc⟩
  | cons c a ih =>
    rw [cut] at h
    split at h
    · rcases List.mem_cons.mp h with rfl | h
      · exact ⟨List.not_mem_nil, fun c hc => absurd hc List.not_mem_nil⟩
      · exact ⟨(ih h).1, fun d hd => List.mem_cons_of_mem _ ((ih h).2 d hd)⟩
    · rename_i hc
      cases hcut : cut a with
      | nil => exact absurd hcut (cut_ne_nil a)
      | cons first pieces =>
        simp only [hcut] at h
        rcases List.mem_cons.mp h with rfl | h
        · obtain ⟨hslash, hmem⟩ := ih (hcut ▸ List.mem_cons_self)
          refine ⟨?_, fun d hd => ?_⟩
          · rw [List.mem_cons, not_or]
            exact ⟨Ne.symm hc, hslash⟩
          · rcases List.mem_cons.mp hd with rfl | hd
            · exact List.mem_cons_self
            · exact List.mem_cons_of_mem _ (hmem d hd)
        · have hin := ih (hcut ▸ List.mem_cons_of_mem first h)
          exact ⟨hin.1, fun d hd => List.mem_cons_of_mem _ (hin.2 d hd)⟩

/-- Every character that is no slash is in a piece. -/
theorem exists_mem_cut {c : Char} (hc : c ≠ '/') (h : c ∈ a) : ∃ piece ∈ cut a, c ∈ piece := by
  induction a with
  | nil => cases h
  | cons d a ih =>
    rw [cut]
    rcases List.mem_cons.mp h with rfl | h
    · rw [if_neg hc]
      split
      · exact ⟨_, List.mem_cons_self, List.mem_cons_self⟩
      · exact ⟨_, List.mem_cons_self, List.mem_cons_self⟩
    · obtain ⟨piece, hpiece, hmem⟩ := ih h
      split
      · exact ⟨piece, List.mem_cons_of_mem _ hpiece, hmem⟩
      · split
        · rename_i hnil
          rw [hnil] at hpiece
          cases hpiece
        · rename_i first pieces hcut
          rw [hcut] at hpiece
          rcases List.mem_cons.mp hpiece with rfl | hpiece
          · exact ⟨_, List.mem_cons_self, List.mem_cons_of_mem _ hmem⟩
          · exact ⟨piece, List.mem_cons_of_mem _ hpiece, hmem⟩

theorem name_of_partOf {piece : List Char} {text : String} (h : partOf piece = .name text) :
    text = String.ofList piece := by
  unfold partOf at h
  split at h
  · cases h
  · exact (Part.name.inj h).symm

/-- A name in a location has no slash in it. -/
theorem no_slash_of_mem_location {p : Path} {text : String} (h : Part.name text ∈ p.location) :
    '/' ∉ text.toList := by
  have hpart : ∀ piece ∈ p.pieces, partOf piece = .name text → '/' ∉ text.toList := by
    intro piece hpiece hname
    rw [name_of_partOf hname, String.toList_ofList]
    exact (of_mem_cut hpiece).1
  have hinner : ∀ rest, (∀ piece ∈ rest, piece ∈ p.pieces) → Part.name text ∈ innerParts rest →
      '/' ∉ text.toList := by
    intro rest hrest hmem
    obtain ⟨piece, hpiece, hname⟩ := List.mem_map.mp hmem
    exact hpart piece (hrest piece (List.mem_filter.mp hpiece).1) hname
  unfold location at h
  cases hpieces : p.pieces with
  | nil =>
    rw [hpieces] at h
    cases h
  | cons first rest =>
    have hrest : ∀ piece ∈ rest, piece ∈ p.pieces :=
      fun piece hpiece => hpieces ▸ List.mem_cons_of_mem _ hpiece
    simp only [hpieces] at h
    split at h
    · rcases List.mem_append.mp h with h | h
      · split at h
        · cases h
        · exact Part.noConfusion (List.mem_singleton.mp h)
      · exact hinner rest hrest h
    · split at h
      · rcases List.mem_cons.mp h with h | h
        · exact Part.noConfusion h
        · exact hinner rest hrest h
      · rcases List.mem_cons.mp h with h | h
        · exact hpart first (hpieces ▸ List.mem_cons_self) h.symm
        · exact hinner rest hrest h

theorem no_slash_of_fileName {p : Path} {text : String} (h : p.fileName? = some text) :
    '/' ∉ text.toList := by
  unfold fileName? at h
  split at h
  · rename_i last hlast
    obtain rfl := Option.some.inj h
    exact no_slash_of_mem_location (List.mem_of_getLast? hlast)
  · cases h

end Path

namespace Disk

/-! ## 2. Steps -/

/-- The steps of a text. -/
def stepsOf (text : List Char) : List String :=
  ((Path.cut text).filter (· ≠ [])).map String.ofList

theorem steps_eq (p : Path) : steps p = stepsOf p.text.toList := rfl

theorem stepsOf_append_slash (a b : List Char) :
    stepsOf (a ++ '/' :: b) = stepsOf a ++ stepsOf b := by
  rw [stepsOf, Path.cut_append_slash, List.filter_append, List.map_append]
  rfl

/-- A slash at the end adds nothing. -/
theorem stepsOf_append_singleton (a : List Char) : stepsOf (a ++ ['/']) = stepsOf a := by
  rw [stepsOf_append_slash]
  exact List.append_nil _

theorem stepsOf_of_no_slash {a : List Char} (h : '/' ∉ a) (hne : a ≠ []) :
    stepsOf a = [String.ofList a] := by
  rw [stepsOf, Path.cut_of_no_slash h, List.filter_cons_of_pos (by simpa using hne)]
  rfl

/-- **A step** is not empty and has no slash in it, and its characters are those of
the path. -/
theorem of_mem_steps {p : Path} {step : String} (h : step ∈ steps p) :
    step ≠ "" ∧ '/' ∉ step.toList ∧ ∀ c ∈ step.toList, c ∈ p.text.toList := by
  obtain ⟨piece, hpiece, rfl⟩ := List.mem_map.mp h
  obtain ⟨hmem, hne⟩ := List.mem_filter.mp hpiece
  obtain ⟨hslash, hin⟩ := Path.of_mem_cut hmem
  rw [String.toList_ofList]
  refine ⟨fun hempty => ?_, hslash, hin⟩
  have hnil : piece = [] := by
    have htoList := congrArg String.toList hempty
    rwa [String.toList_ofList] at htoList
  rw [hnil] at hne
  cases hne

/-- **The steps of a path that is put together.** -/
theorem steps_join (p : Path) {q : Path} (hq : q.isAbsolute = false) :
    steps (p.join q) = steps p ++ steps q := by
  rw [Path.join, hq, if_neg Bool.false_ne_true]
  split
  · rename_i h
    rcases Bool.or_eq_true _ _ |>.mp h with hempty | hslash
    · have htext : p.text = "" := String.isEmpty_iff.mp hempty
      rw [steps_eq, steps_eq p, htext, String.empty_append]
      rfl
    · -- The slash that is there already separates.
      obtain ⟨front, hfront⟩ := List.getLast?_eq_some_iff.mp (of_decide_eq_true hslash)
      rw [steps_eq, steps_eq p, steps_eq q, String.toList_append, hfront,
        stepsOf_append_singleton, List.append_assoc]
      exact stepsOf_append_slash _ _
  · rw [steps_eq, steps_eq p, steps_eq q, String.toList_append, String.toList_append,
      List.append_assoc]
    exact stepsOf_append_slash _ _

/-- A text without slashes is one step more. -/
theorem steps_join_name (p : Path) {name : String} (hslash : '/' ∉ name.toList) (hne : name ≠ "") :
    steps (p.join ⟨name⟩) = steps p ++ [name] := by
  have hrelative : (⟨name⟩ : Path).isAbsolute = false := by
    rw [Path.isAbsolute, decide_eq_false_iff_not]
    exact fun hhead => hslash (List.mem_of_mem_head? hhead)
  rw [steps_join p hrelative, steps_eq ⟨name⟩, stepsOf_of_no_slash hslash (by simpa using hne),
    String.ofList_toList]

/-- Taking slashes off the end takes no step away. -/
theorem steps_trimmed (p : Path) : steps ⟨p.trimmed⟩ = steps p := by
  have hkept : ∀ text : List Char,
      stepsOf (text.reverse.dropWhile (· = '/')).reverse = stepsOf text := by
    intro text
    induction text using List.reverseRecOn with
    | nil => rfl
    | append_singleton text c ih =>
      rw [List.reverse_append, List.reverse_singleton, List.singleton_append, List.dropWhile_cons]
      split
      · rename_i hc
        obtain rfl : c = '/' := of_decide_eq_true hc
        rw [ih, stepsOf_append_singleton]
      · rw [← List.singleton_append, List.reverse_append, List.reverse_reverse,
          List.reverse_singleton]
  rw [steps_eq, steps_eq p, ← hkept p.text.toList, Path.trimmed]
  dsimp only
  split
  · rename_i hempty
    rw [List.isEmpty_iff.mp hempty]
    rfl
  · rw [String.toList_ofList]

/-! ## 3. Absolute paths -/

/-- A path below an absolute one is absolute. -/
theorem isAbsolute_join {p q : Path} (hp : p.isAbsolute = true) : (p.join q).isAbsolute = true := by
  unfold Path.join
  split
  · assumption
  · have hhead : p.text.toList.head? = some '/' := of_decide_eq_true hp
    obtain ⟨rest, hrest⟩ := List.head?_eq_some_iff.mp hhead
    split <;>
    · rw [Path.isAbsolute]
      simp [hrest]

/-- The names that a path is followed by: its steps, without the dots. -/
def names (p : Path) : List String := (steps p).filter (· ≠ ".")

/-- Paths with the same names have the same characters, but for slashes and dots. -/
theorem mem_text_of_names {p q : Path} {c : Char} (hslash : c ≠ '/') (hdot : c ≠ '.')
    (h : names p = names q) (hc : c ∈ p.text.toList) : c ∈ q.text.toList := by
  obtain ⟨piece, hpiece, hmem⟩ := Path.exists_mem_cut hslash hc
  have hne : piece ≠ [] := List.ne_nil_of_mem hmem
  have hstep : String.ofList piece ∈ steps p :=
    List.mem_map_of_mem (List.mem_filter.mpr ⟨hpiece, by simpa using hne⟩)
  have hname : String.ofList piece ∈ names p := by
    refine List.mem_filter.mpr ⟨hstep, ?_⟩
    rw [decide_eq_true_eq]
    intro heq
    rw [← String.toList_ofList (l := piece), heq] at hmem
    exact hdot (List.mem_singleton.mp hmem)
  rw [h] at hname
  refine (of_mem_steps (List.mem_filter.mp hname).1).2.2 c ?_
  rwa [String.toList_ofList]

/-- The part of a location that a step is. -/
def stepPart (step : String) : Part := Path.partOf step.toList

theorem stepPart_inj {s t : String} (h : stepPart s = stepPart t) : s = t := by
  unfold stepPart Path.partOf at h
  split at h
  · rename_i hs
    split at h
    · rename_i ht
      exact String.toList_inj.mp (hs.trans ht.symm)
    · cases h
  · split at h
    · cases h
    · simpa only [String.ofList_toList] using Part.name.inj h

/-- **The location of an absolute path** says its names. -/
theorem location_eq {p : Path} (hp : p.isAbsolute = true) :
    p.location = .root :: (names p).map stepPart := by
  obtain ⟨rest, hrest⟩ := List.head?_eq_some_iff.mp (of_decide_eq_true hp)
  have hpieces : p.pieces = [] :: Path.cut rest := by
    rw [Path.pieces, hrest, Path.cut, if_pos rfl]
  have hsteps : steps p = stepsOf rest := by
    rw [steps_eq, hrest]
    exact stepsOf_append_slash [] rest
  have hopen : (Path.cut rest).isEmpty = false := by
    rw [List.isEmpty_eq_false_iff]
    exact Path.cut_ne_nil rest
  rw [names, hsteps]
  simp only [Path.location, hpieces, if_true, hopen, Bool.false_eq_true, if_false,
    List.singleton_append, List.cons.injEq, true_and]
  -- Piece by piece, both sides drop what is silent.
  unfold stepsOf
  generalize Path.cut rest = pieces
  induction pieces with
  | nil => rfl
  | cons piece pieces ih =>
    have hsilent : Path.isSilent piece = true ↔ piece = [] ∨ piece = ['.'] := by
      simp [Path.isSilent]
    by_cases hnil : piece = []
    · have hdropped : Path.innerParts (piece :: pieces) = Path.innerParts pieces := by
        simp [Path.innerParts, hsilent.mpr (Or.inl hnil)]
      rw [hdropped, hnil]
      exact ih
    · have hstep : ((piece :: pieces).filter (· ≠ [])).map String.ofList
          = String.ofList piece :: (pieces.filter (· ≠ [])).map String.ofList := by
        rw [List.filter_cons_of_pos (by simpa using hnil)]
        rfl
      rw [hstep]
      by_cases hdot : piece = ['.']
      · have hdropped : Path.innerParts (piece :: pieces) = Path.innerParts pieces := by
          simp [Path.innerParts, hsilent.mpr (Or.inr hdot)]
        have hword : String.ofList piece = "." := by rw [hdot]
        rw [hdropped, List.filter_cons_of_neg (by simp [hword])]
        exact ih
      · have hword : String.ofList piece ≠ "." := by
          intro h
          refine hdot ?_
          have htoList := congrArg String.toList h
          rwa [String.toList_ofList] at htoList
        have hkept : Path.innerParts (piece :: pieces)
            = stepPart (String.ofList piece) :: Path.innerParts pieces := by
          simp [Path.innerParts, Path.isSilent, hnil, hdot, stepPart]
        rw [hkept, List.filter_cons_of_pos (by simpa using hword), List.map_cons, ih]

/-- **Two absolute paths have one location** exactly when they have the same
names. -/
theorem location_eq_iff {p q : Path} (hp : p.isAbsolute = true) (hq : q.isAbsolute = true) :
    p.location = q.location ↔ names p = names q := by
  rw [location_eq hp, location_eq hq, List.cons.injEq, eq_self, true_and]
  exact List.map_inj_right fun _ _ h => stepPart_inj h

end Disk

end ScopedState
