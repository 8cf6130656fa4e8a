/-
`Proofs/Path/Extension.lean` -- names cut at their last dot.

A name has an extension exactly if there is something in front of its last dot, and
then it is the stem, the dot and the extension (`cutExtension_eq_some_iff`). Both
halves of this are used. Reading it from the right, a name whose end is known has the
extension that stands there. Reading it from the left, a name that is changed behind
its stem is another one: the temporary file of a settings file gets two extensions in
place of one, and no stem is two names at once (`temporary_stem_ne`).

Where the new extension goes is decided on the pieces of a path. Those at its end that
name nothing are dropped first, so that the path with the new extension has the steps
of the old one up to the name, and the new name behind them (`steps_withExtension`).
-/
import ScopedState.Proofs.Disk.Access
import ScopedState.Settings
set_option autoImplicit false

namespace ScopedState

namespace Path

variable {name stem tail : List Char}

/-! ## 1. The last dot -/

/-- What stands in front of the last dot and behind it. -/
theorem splitAtLast_append (stem : List Char) (htail : '.' ∉ tail) :
    ((stem ++ '.' :: tail).reverse.takeWhile (· ≠ '.')).reverse = tail ∧
      ((stem ++ '.' :: tail).reverse.dropWhile (· ≠ '.')).reverse.dropLast = stem := by
  have hall : ∀ c ∈ tail.reverse, (decide (c ≠ '.')) = true := by
    intro c hc
    rw [decide_eq_true_eq]
    rintro rfl
    exact htail (List.mem_reverse.mp hc)
  have hreverse : (stem ++ '.' :: tail).reverse = tail.reverse ++ '.' :: stem.reverse := by simp
  constructor
  · rw [hreverse, List.takeWhile_append_of_pos hall, List.takeWhile_cons_of_neg (by simp)]
    simp
  · rw [hreverse, List.dropWhile_append_of_pos hall, List.dropWhile_cons_of_neg (by simp)]
    simp

/-- A name with something in front of its last dot is cut there. -/
theorem cutExtension_append (hstem : stem ≠ []) (htail : '.' ∉ tail) :
    cutExtension (stem ++ '.' :: tail) = (stem, some tail) := by
  obtain ⟨htake, hdrop⟩ := splitAtLast_append stem htail
  have hdot : (stem ++ '.' :: tail).contains '.' = true := by simp
  have hfull : stem.isEmpty = false := by simpa using hstem
  unfold cutExtension
  simp only [htake, hdrop, hdot, hfull]
  rfl

/-- A character of a text has a last occurrence. -/
theorem exists_last {c : Char} {text : List Char} (h : c ∈ text) :
    ∃ front tail, text = front ++ c :: tail ∧ c ∉ tail := by
  induction text with
  | nil => cases h
  | cons first text ih =>
    by_cases hbehind : c ∈ text
    · obtain ⟨front, tail, rfl, htail⟩ := ih hbehind
      exact ⟨first :: front, tail, rfl, htail⟩
    · have hc : c = first := (List.mem_cons.mp h).resolve_right hbehind
      exact ⟨[], text, by rw [hc]; rfl, hbehind⟩

/-- A name is cut at its last dot, or it is not cut at all. -/
theorem cutExtension_cases (name : List Char) :
    cutExtension name = (name, none) ∨
      ∃ stem tail, name = stem ++ '.' :: tail ∧ stem ≠ [] ∧ '.' ∉ tail ∧
        cutExtension name = (stem, some tail) := by
  by_cases hdot : '.' ∈ name
  · obtain ⟨stem, tail, rfl, htail⟩ := exists_last hdot
    by_cases hstem : stem = []
    · -- The only dot is in front.
      left
      subst hstem
      have hdrop := (splitAtLast_append [] htail).2
      unfold cutExtension
      simp only [hdrop, List.isEmpty_nil, Bool.not_true, Bool.and_false,
        Bool.false_eq_true, if_false]
    · exact Or.inr ⟨stem, tail, rfl, hstem, htail, cutExtension_append hstem htail⟩
  · left
    have hno : name.contains '.' = false := by simpa using hdot
    unfold cutExtension
    simp only [hno, Bool.false_and, Bool.false_eq_true, if_false]

/-- **A name and its extension.** -/
theorem cutExtension_eq_some_iff :
    cutExtension name = (stem, some tail) ↔
      name = stem ++ '.' :: tail ∧ stem ≠ [] ∧ '.' ∉ tail := by
  constructor
  · intro h
    rcases cutExtension_cases name with hwhole | ⟨stem', tail', hname, hstem, htail, hcut⟩
    · rw [hwhole] at h
      cases h
    · rw [hcut] at h
      cases h
      exact ⟨hname, hstem, htail⟩
  · rintro ⟨rfl, hstem, htail⟩
    exact cutExtension_append hstem htail

/-- The stem is a front part of the name. -/
theorem stem_prefix (name : List Char) : (cutExtension name).1 <+: name := by
  rcases cutExtension_cases name with hwhole | ⟨stem, tail, rfl, -, -, hcut⟩
  · exact ⟨[], by rw [hwhole, List.append_nil]⟩
  · rw [hcut]
    exact List.prefix_append _ _

/-- **A path has an extension** exactly if its file name is a stem, a dot and that. -/
theorem extension?_eq_some_iff {p : Path} {ext : String} :
    p.extension? = some ext ↔
      ∃ stem : String, stem ≠ "" ∧ '.' ∉ ext.toList ∧ p.fileName? = some (stem ++ "." ++ ext) := by
  constructor
  · intro h
    obtain ⟨file, hfile, hext⟩ := Option.bind_eq_some_iff.mp h
    rcases cutExtension_cases file.toList with hwhole | ⟨stem, tail, heq, hstem, htail, hcut⟩
    · rw [hwhole] at hext
      cases hext
    · rw [hcut] at hext
      obtain rfl := Option.some.inj hext
      refine ⟨String.ofList stem, by simpa using hstem, by rwa [String.toList_ofList], ?_⟩
      rw [hfile, Option.some.injEq, ← String.toList_inj, heq]
      simp
  · rintro ⟨stem, hstem, hext, hfile⟩
    have hfull : stem.toList ≠ [] := by simpa using hstem
    have hcut := cutExtension_append hfull hext
    have htext : (stem ++ "." ++ ext).toList = stem.toList ++ '.' :: ext.toList := by simp
    rw [extension?, hfile, Option.bind_some, htext, hcut]
    simp

/-- No stem is left that the temporary name could be cut back to. -/
theorem temporary_stem_ne (name : List Char) :
    (cutExtension name).1 ++ '.' :: "toml.tmp".toList ≠ name := by
  intro heq
  have hcut : cutExtension name = ((cutExtension name).1 ++ ".toml".toList, some "tmp".toList) := by
    rw [cutExtension_eq_some_iff]
    refine ⟨?_, by simp, by decide⟩
    rw [List.append_assoc]
    exact heq.symm
  -- The name would have a stem that is longer than its stem.
  have hlength := congrArg (fun cut => cut.1.length) hcut
  simp at hlength

end Path

namespace Disk

variable {p : Path} {name : String}

/-! ## 2. The name with another extension -/

/-- The pieces of a path that ends in a name, last one first. -/
theorem reversedPieces_of_endsInName (h : p.endsInName = true)
    (hlast : (steps p).getLast? = some name) :
    ∃ front, p.body = front ++ [name.toList] ∧ p.reversedPieces = name.toList :: front.reverse ∧
      steps p = (front.filter (· ≠ [])).map String.ofList ++ [name] := by
  obtain ⟨front, last, hbody, hcounts⟩ := Path.exists_body_of_endsInName h
  have hne : last ≠ [] := by
    rintro rfl
    cases hcounts
  have hsteps : steps p = (front.filter (· ≠ [])).map String.ofList ++ [String.ofList last] := by
    rw [steps_eq_body, hbody, List.filter_append, List.map_append,
      List.filter_cons_of_pos (by simpa using hne)]
    rfl
  have hname : name = String.ofList last := by
    rw [hsteps, List.getLast?_concat] at hlast
    exact (Option.some.inj hlast).symm
  subst hname
  rw [String.toList_ofList]
  refine ⟨front, hbody, ?_, hsteps⟩
  have hreverse : p.body.reverse = last :: front.reverse := by simp [hbody]
  rw [← Path.dropSilent_of_counts p.isAbsolute hcounts front.reverse, ← hreverse]
  rfl

/-- **The steps of a path with another extension** are the old ones up to the name. When the
stem is a single dot, what is left of the name is the step up. -/
theorem steps_withExtension (h : p.endsInName = true) (hlast : (steps p).getLast? = some name)
    (hup : name ≠ "..") {ext : String} (hext : '/' ∉ ext.toList) :
    ∃ front last, steps p = front ++ [name] ∧ steps (p.withExtension ext) = front ++ [last] ∧
      (last = ".." ∨
        last = String.ofList ((Path.cutExtension name.toList).1 ++ '.' :: ext.toList)) := by
  obtain ⟨front, hbody, hreversed, hsteps⟩ := reversedPieces_of_endsInName h hlast
  have hfile := fileName?_eq h hlast hup
  -- Any other piece without a slash may stand in the place of the last one.
  have hnew : ∀ piece : List Char, piece ≠ [] → '/' ∉ piece →
      steps (Path.ofReversed p.isAbsolute (piece :: front.reverse))
        = (front.filter (· ≠ [])).map String.ofList ++ [String.ofList piece] := by
    intro piece hpiece hslash
    have hall : ∀ x ∈ front ++ [piece], '/' ∉ x := by
      intro x hx
      rcases List.mem_append.mp hx with hfront | hlast
      · exact Path.no_slash_of_mem_body (hbody ▸ List.mem_append_left _ hfront)
      · rwa [List.mem_singleton.mp hlast]
    have hfirst : p.isAbsolute = false → (front ++ [piece]).head? ≠ some [] := by
      intro hrelative hhead
      cases front with
      | nil => exact hpiece (Option.some.inj hhead)
      | cons first front => exact Path.head_body_ne_nil hrelative hbody (Option.some.inj hhead)
    have hrev : (front ++ [piece]).reverse = piece :: front.reverse := by simp
    rw [← hrev, (steps_ofReversed p.isAbsolute hall hfirst).2, List.filter_append, List.map_append,
      List.filter_cons_of_pos (by simpa using hpiece)]
    rfl
  have hstem : '/' ∉ (Path.cutExtension name.toList).1 ++ '.' :: ext.toList := by
    have hname : '/' ∉ name.toList :=
      Path.no_slash_of_mem_body (hbody ▸ List.mem_append_right _ List.mem_cons_self)
    rw [List.mem_append, List.mem_cons, not_or, not_or]
    exact ⟨fun hin => hname ((Path.stem_prefix _).subset hin), by decide, hext⟩
  -- With a single dot for its stem the name becomes the step up.
  refine ⟨_, ?last, hsteps, ?_, ?_⟩
  case last =>
    exact if (Path.cutExtension name.toList).1 = ['.'] ∧ p.pieces.getLast? = some name.toList
      then ".." else String.ofList ((Path.cutExtension name.toList).1 ++ '.' :: ext.toList)
  · unfold Path.withExtension
    rw [hreversed]
    simp only [hfile, Option.isNone_some, Bool.false_eq_true, if_false, Bool.and_eq_true,
      decide_eq_true_eq]
    split
    · exact hnew ['.', '.'] (by simp) (by decide)
    · exact hnew _ (by simp) hstem
  · split
    · exact Or.inl rfl
    · exact Or.inr rfl

end Disk

end ScopedState
