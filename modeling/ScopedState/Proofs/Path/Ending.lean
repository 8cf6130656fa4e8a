/-
`Proofs/Path/Ending.lean` -- the file name of a path that is known from behind.

A path may be put together so that only its end is known: something in front, a dot, and
a text behind the dot. What is its file name then, and which extension does that have?
The text behind the dot need not be a part of a name. Slashes at its end name nothing
and are passed over (`location_trailing`). A slash further inside ends the name that the
dot is in, and the file name is what stands behind it, without a dot. Only a text
without other slashes is the extension, and even then only if there is something in
front of the dot in the same name.

So the extension is `x` in one case, and there is one exception (`extension?_append`): the
text is `x`, apart from slashes at its end, and the file name is not just a dot and `x`.
-/
import Mathlib.Data.List.TakeWhile
import ScopedState.Proofs.Path.Extension
import ScopedState.Proofs.Path.Pieces
set_option autoImplicit false

namespace ScopedState

namespace Path

variable {p q : Path} {front last base tail : List Char}

/-! ## 1. The last piece -/

/-- **The file name** is the last piece, if that is a name. -/
theorem fileName?_of_pieces {pieces : List (List Char)} (h : p.pieces = pieces ++ [last])
    (hcounts : isSilent last = false) (hup : last ≠ ['.', '.']) :
    p.fileName? = some (String.ofList last) := by
  rw [fileName?, Disk.getLast?_location h hcounts, partOf, if_neg hup]

/-- A step up is no file name. -/
theorem fileName?_of_up {pieces : List (List Char)} (h : p.pieces = pieces ++ [['.', '.']]) :
    p.fileName? = none := by
  rw [fileName?, Disk.getLast?_location h (by decide), partOf, if_pos rfl]

/-- The pieces of a text end in what stands behind its last slash. -/
theorem exists_pieces (text : List Char) :
    ∃ (pieces : List (List Char)) (front last : List Char), text = front ++ last ∧ '/' ∉ last ∧
      (front = [] ∨ front.getLast? = some '/') ∧
      ∀ more, '/' ∉ more → cut (text ++ more) = pieces ++ [last ++ more] := by
  by_cases hslash : '/' ∈ text
  · obtain ⟨front, last, rfl, hlast⟩ := exists_last hslash
    refine ⟨cut front, front ++ ['/'], last, by simp, hlast, Or.inr ?_, fun more hmore => ?_⟩
    · exact List.getLast?_concat
    · have hboth : '/' ∉ last ++ more := by simp [hlast, hmore]
      rw [List.append_assoc, List.cons_append, cut_append_slash, cut_of_no_slash hboth]
  · refine ⟨[], [], text, rfl, hslash, Or.inl rfl, fun more hmore => ?_⟩
    have hboth : '/' ∉ text ++ more := by simp [hslash, hmore]
    rw [cut_of_no_slash hboth, List.nil_append]

/-! ## 2. Slashes at the end -/

/-- A slash behind a text names nothing. -/
theorem location_concat_slash (h : q.text.toList = p.text.toList ++ ['/'])
    (hne : p.text.toList ≠ []) : q.location = p.location := by
  obtain ⟨first, rest, hcut⟩ := List.exists_cons_of_ne_nil (cut_ne_nil p.text.toList)
  have hp : p.pieces = first :: rest := hcut
  have hq : q.pieces = first :: (rest ++ [[]]) := by
    rw [pieces, h, cut_append_slash, hcut]
    rfl
  have hinner : innerParts (rest ++ [[]]) = innerParts rest := by
    simp [innerParts, isSilent]
  rw [location, location, hp, hq]
  simp only [hinner]
  by_cases hfirst : first = []
  · -- There is a slash in front, and so there are pieces behind it.
    have hrest : rest ≠ [] := by
      rintro rfl
      have htext := intercalate_cut p.text.toList
      rw [hcut, List.intercalate_singleton] at htext
      exact hne (htext.symm.trans hfirst)
    have hfull : rest.isEmpty = false := by simpa using hrest
    simp [hfirst, hfull]
  · rw [if_neg hfirst, if_neg hfirst]

/-- **Slashes behind a text** name nothing. -/
theorem location_trailing (hne : p.text.toList ≠ []) {slashes : List Char}
    (hslashes : ∀ c ∈ slashes, c = '/') (h : q.text.toList = p.text.toList ++ slashes) :
    q.location = p.location := by
  induction slashes using List.reverseRecOn generalizing q with
  | nil =>
    have htext : q.text = p.text := String.toList_inj.mp (h.trans (List.append_nil _))
    rw [location, location, pieces, pieces, htext]
  | append_singleton slashes c ih =>
    have hc : c = '/' := hslashes c (List.mem_append_right _ List.mem_cons_self)
    have hfront : ∀ x ∈ slashes, x = '/' := fun x hx => hslashes x (List.mem_append_left _ hx)
    let shorter : Path := ⟨String.ofList (p.text.toList ++ slashes)⟩
    have hshorter : shorter.text.toList = p.text.toList ++ slashes := String.toList_ofList
    have hfull : shorter.text.toList ≠ [] := by
      rw [hshorter]
      exact List.append_ne_nil_of_left_ne_nil hne _
    rw [← ih hfront hshorter]
    refine location_concat_slash ?_ hfull
    rw [h, hshorter, hc, List.append_assoc]

/-- A text is what is left of it without the slashes at its end, and those. -/
theorem exists_trimmed (p : Path) : ∃ core slashes, p.text.toList = core ++ slashes ∧
    (∀ c ∈ slashes, c = '/') ∧ core.getLast? ≠ some '/' ∧
    p.trimmed = if core = [] then "/" else String.ofList core := by
  refine ⟨(p.text.toList.reverse.dropWhile (· = '/')).reverse,
    (p.text.toList.reverse.takeWhile (· = '/')).reverse, ?_, fun c hc => ?_, fun hlast => ?_, ?_⟩
  · rw [← List.reverse_append, List.takeWhile_append_dropWhile, List.reverse_reverse]
  · have htaken := List.mem_takeWhile_imp (List.mem_reverse.mp hc)
    exact of_decide_eq_true htaken
  · -- Dropping would have gone on at a slash.
    rw [List.getLast?_reverse] at hlast
    have hkept := List.head?_dropWhile_not (fun c => decide (c = '/')) p.text.toList.reverse
    rw [hlast] at hkept
    simp at hkept
  · rw [trimmed]
    simp only [List.isEmpty_iff]

/-! ## 3. Something, a dot, and a text -/

/-- A name that is a dot and a text without one has no extension. -/
theorem cutExtension_hidden (htail : '.' ∉ tail) : (cutExtension ('.' :: tail)).2 = none := by
  rcases cutExtension_cases ('.' :: tail) with hwhole | ⟨stem, tail', heq, hstem, -, -⟩
  · rw [hwhole]
  · cases stem with
    | nil => exact absurd rfl hstem
    | cons c stem =>
      obtain ⟨-, rfl⟩ := List.cons.inj heq
      exact absurd (List.mem_append_right _ List.mem_cons_self) htail

/-- The extension of a name that ends in a dot and a text without one. -/
theorem cutExtension_ending (last : List Char) (htail : '.' ∉ tail) :
    (cutExtension (last ++ '.' :: tail)).2 = if last = [] then none else some tail := by
  by_cases hlast : last = []
  · rw [if_pos hlast, hlast]
    exact cutExtension_hidden htail
  · rw [if_neg hlast, cutExtension_append hlast htail]

/-- A name without a dot has no extension. -/
theorem cutExtension_of_no_dot (h : '.' ∉ last) : (cutExtension last).2 = none := by
  rcases cutExtension_cases last with hwhole | ⟨stem, tail, rfl, -⟩
  · rw [hwhole]
  · exact absurd (List.mem_append_right _ List.mem_cons_self) h

/-- A slash in the text puts the dot into another part than the last. -/
theorem extension?_of_slash (htext : p.text.toList = base ++ '.' :: tail) (hdot : '.' ∉ tail)
    (hclosed : tail.getLast? ≠ some '/') (hslash : '/' ∈ tail) : p.extension? = none := by
  obtain ⟨front, last, rfl, hlast⟩ := exists_last hslash
  have hnodot : '.' ∉ last := fun h => hdot (List.mem_append_right _ (List.mem_cons_of_mem _ h))
  have hcounts : isSilent last = false := by
    cases last with
    | nil => exact absurd List.getLast?_concat hclosed
    | cons c last =>
      have hc : c ≠ '.' := fun h => hnodot (h ▸ List.mem_cons_self)
      simp [isSilent, hc]
  have hpieces : p.pieces = cut (base ++ '.' :: front) ++ [last] := by
    rw [pieces, htext, ← List.cons_append, ← List.append_assoc, cut_append_slash,
      cut_of_no_slash hlast]
  have hfile := fileName?_of_pieces hpieces hcounts fun h => hnodot (by simp [h])
  rw [extension?, hfile, Option.bind_some, String.toList_ofList, cutExtension_of_no_dot hnodot]
  rfl

/-- Without one the dot is in the file name, which has the text for its extension unless it
starts with the dot. -/
theorem extension?_of_no_slash {x : String} (hx : x ≠ "")
    (htext : p.text.toList = base ++ '.' :: tail) (hdot : '.' ∉ tail) (hslash : '/' ∉ tail)
    (hname : (base ≠ [] ∧ base.getLast? ≠ some '/') ∨ tail ≠ []) :
    p.extension? = some x ↔ String.ofList tail = x ∧ p.fileName? ≠ some ("." ++ x) := by
  obtain ⟨pieces, front, last, hbase, -, hfront, hcut⟩ := exists_pieces base
  have hpieces : p.pieces = pieces ++ [last ++ '.' :: tail] := by
    rw [Path.pieces, htext]
    exact hcut _ (by simp [hslash])
  -- A dot that starts the name has the text behind it.
  have hfull : last = [] → tail ≠ [] := by
    rintro rfl
    refine hname.resolve_left fun hbehind => ?_
    rw [List.append_nil] at hbase
    rw [hbase] at hbehind
    exact hbehind.2 (hfront.resolve_left hbehind.1)
  by_cases hup : last ++ '.' :: tail = ['.', '.']
  · -- The name is a dot, and the text is empty.
    have htail : tail = [] := by
      cases last with
      | nil =>
        obtain ⟨-, rfl⟩ := List.cons.inj hup
        exact absurd List.mem_cons_self hdot
      | cons c last =>
        have hrest : last ++ '.' :: tail = ['.'] := (List.cons.inj hup).2
        have hlength := congrArg List.length hrest
        simp only [List.length_append, List.length_cons, List.length_nil] at hlength
        exact List.eq_nil_of_length_eq_zero (by omega)
    rw [extension?, fileName?_of_up (hup ▸ hpieces), Option.bind_none, htail]
    constructor
    · intro h
      cases h
    · rintro ⟨rfl, -⟩
      exact absurd rfl hx
  · have hcounts : isSilent (last ++ '.' :: tail) = false := by
      cases last with
      | nil => simp [isSilent, hfull rfl]
      | cons c last => simp [isSilent]
    rw [extension?, fileName?_of_pieces hpieces hcounts hup, Option.bind_some,
      String.toList_ofList, cutExtension_ending last hdot]
    by_cases hlast : last = []
    · rw [if_pos hlast, hlast]
      constructor
      · intro h
        cases h
      · rintro ⟨rfl, hhidden⟩
        refine absurd (congrArg some (String.toList_inj.mp ?_)) hhidden
        simp
    · rw [if_neg hlast, Option.map_some, Option.some.injEq]
      refine ⟨fun h => ⟨h, fun hhidden => ?_⟩, And.left⟩
      -- A name in front of the dot makes the file name longer.
      have hlength := congrArg (fun name : String => name.toList.length) (Option.some.inj hhidden)
      rw [← h] at hlength
      simp only [String.toList_ofList, String.toList_append, List.length_append,
        List.length_cons] at hlength
      have hpos := List.length_pos_iff.mpr hlast
      have hone : ".".toList.length = 1 := rfl
      omega

/-- **A path that ends in a dot and a text** has the text for its extension, but for
slashes at the end, unless its file name is the dot and the text. The text is not to have
dots; and it is a name, or there is one in front of the dot. -/
theorem extension?_append (ext : Path) {x : String} (hx : x ≠ "") (hslash : '/' ∉ x.toList)
    (htext : p.text.toList = base ++ '.' :: ext.text.toList) (hdot : '.' ∉ ext.text.toList)
    (hname : (base ≠ [] ∧ base.getLast? ≠ some '/') ∨
      ('/' ∉ ext.text.toList ∧ ext.text.toList ≠ [])) :
    p.extension? = some x ↔ ext.trimmed = x ∧ p.fileName? ≠ some ("." ++ x) := by
  obtain ⟨core, slashes, hext, hslashes, hclosed, htrimmed⟩ := exists_trimmed ext
  have hcore : '.' ∉ core := fun h => hdot (hext ▸ List.mem_append_left _ h)
  -- The path without the slashes at its end is at the same location.
  let q : Path := ⟨String.ofList (base ++ '.' :: core)⟩
  have hq : q.text.toList = base ++ '.' :: core := String.toList_ofList
  have hlocation : p.location = q.location := by
    refine location_trailing (by simp [hq]) hslashes ?_
    rw [htext, hq, hext, List.append_assoc, List.cons_append]
  have hfile : p.fileName? = q.fileName? := by rw [fileName?, fileName?, hlocation]
  have hextension : p.extension? = q.extension? := by rw [extension?, extension?, hfile]
  have hsame : ext.trimmed = x ↔ String.ofList core = x := by
    rw [htrimmed]
    split
    · rename_i hnil
      rw [hnil]
      constructor
      · rintro rfl
        exact absurd List.mem_cons_self hslash
      · rintro rfl
        exact absurd rfl hx
    · rfl
  rw [hextension, hfile, hsame]
  by_cases hinner : '/' ∈ core
  · rw [extension?_of_slash hq hcore hclosed hinner]
    constructor
    · intro h
      cases h
    · rintro ⟨rfl, -⟩
      rw [String.toList_ofList] at hslash
      exact absurd hinner hslash
  · refine extension?_of_no_slash hx hq hcore hinner (hname.imp_right ?_)
    -- There are no slashes in the text that could be all of it.
    rintro ⟨hnone, hne⟩ rfl
    rw [List.nil_append] at hext
    cases slashes with
    | nil => exact hne hext
    | cons c slashes =>
      have hc : c = '/' := hslashes c List.mem_cons_self
      exact hnone (by simp [hext, hc])

end Path

end ScopedState
