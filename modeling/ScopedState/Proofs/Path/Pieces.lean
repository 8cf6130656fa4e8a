/-
`Proofs/Path/Pieces.lean` -- the path above a path, and the names in a location.

The path above is made from the pieces of a path: the last one goes, then those
in front of it that name nothing, and the rest is joined by slashes again. That
the result can be followed like the path itself needs three facts (`parent_spec`).
Its text is a beginning of the text it comes from, so it is not longer and holds
no other characters. Its names are those of the path without the last one. And it
ends in a name again, or has none, so that going up can go on. The pieces in
question are the ones behind the root, as the opening slash is not a separator.

A location keeps of the pieces what has to be followed. So paths with one location
start in the same place and have the same names, whether they are absolute or not
(`names_eq_of_location`).
-/
import ScopedState.Proofs.Path
set_option autoImplicit false

namespace ScopedState

namespace Path

/-! ## 1. Pieces and slashes -/

/-- Joined by slashes, the pieces of a text are the text. -/
theorem intercalate_cut (text : List Char) : ['/'].intercalate (cut text) = text := by
  induction text with
  | nil => rfl
  | cons c text ih =>
    obtain ⟨piece, pieces, hcut⟩ := List.exists_cons_of_ne_nil (cut_ne_nil text)
    rw [hcut] at ih
    by_cases hslash : c = '/'
    · rw [cut, if_pos hslash, hcut, List.intercalate_cons_cons, ih, hslash]
      rfl
    · rw [cut, if_neg hslash, hcut]
      cases pieces with
      | nil =>
        rw [List.intercalate_singleton] at ih ⊢
        rw [ih]
      | cons next pieces =>
        rw [List.intercalate_cons_cons] at ih ⊢
        rw [List.cons_append, List.cons_append, ih]

/-- Cut at the slashes, joined pieces are the pieces. -/
theorem cut_intercalate {pieces : List (List Char)} (hne : pieces ≠ [])
    (hslash : ∀ piece ∈ pieces, '/' ∉ piece) : cut (['/'].intercalate pieces) = pieces := by
  induction pieces with
  | nil => exact absurd rfl hne
  | cons piece pieces ih =>
    have hpiece : '/' ∉ piece := hslash piece List.mem_cons_self
    cases pieces with
    | nil => rw [List.intercalate_singleton, cut_of_no_slash hpiece]
    | cons next pieces =>
      have hrest := ih (List.cons_ne_nil _ _) fun x hx => hslash x (List.mem_cons_of_mem _ hx)
      rw [List.intercalate_cons_cons, List.append_assoc, List.singleton_append, cut_append_slash,
        hrest, cut_of_no_slash hpiece]
      rfl

/-- The last piece of a text is empty only behind a slash. -/
theorem getLast?_of_cut {text : List Char} (h : (cut text).getLast? = some []) :
    text = [] ∨ text.getLast? = some '/' := by
  induction text with
  | nil => exact Or.inl rfl
  | cons c text ih =>
    obtain ⟨piece, pieces, hcut⟩ := List.exists_cons_of_ne_nil (cut_ne_nil text)
    have hbehind : text.getLast? = some '/' → (c :: text).getLast? = some '/' := by
      intro hlast
      cases text with
      | nil => cases hlast
      | cons next text => rwa [List.getLast?_cons_cons]
    rw [hcut] at ih
    right
    by_cases hslash : c = '/'
    · rw [cut, if_pos hslash, hcut, List.getLast?_cons_cons] at h
      rcases ih h with rfl | hlast
      · rw [hslash]
        rfl
      · exact hbehind hlast
    · rw [cut, if_neg hslash, hcut] at h
      cases pieces with
      | nil => cases h
      | cons next pieces =>
        rw [List.getLast?_cons_cons] at h ih
        rcases ih h with rfl | hlast
        · cases hcut
        · exact hbehind hlast

/-- Fewer pieces give a beginning of the text. -/
theorem intercalate_prefix (kept more : List (List Char)) :
    ['/'].intercalate kept <+: ['/'].intercalate (kept ++ more) := by
  induction kept with
  | nil => exact List.nil_prefix
  | cons piece kept ih =>
    cases kept with
    | nil =>
      rw [List.intercalate_singleton]
      cases more with
      | nil =>
        refine ⟨[], ?_⟩
        rw [List.append_nil, List.append_nil, List.intercalate_singleton]
      | cons next more =>
        rw [List.singleton_append, List.intercalate_cons_cons, List.append_assoc]
        exact List.prefix_append _ _
    | cons next kept =>
      rw [List.cons_append, List.cons_append, List.intercalate_cons_cons,
        List.intercalate_cons_cons]
      exact (List.prefix_append_right_inj _).mpr ih

/-! ## 2. Behind the root -/

/-- The slash in front of an absolute path. -/
def opening (absolute : Bool) : List Char := if absolute then ['/'] else []

/-- The pieces behind the root. -/
def body (p : Path) : List (List Char) := if p.isAbsolute then p.pieces.tail else p.pieces

theorem pieces_of_absolute {p : Path} (h : p.isAbsolute = true) :
    ∃ rest, p.text.toList = '/' :: rest ∧ p.pieces = [] :: cut rest := by
  obtain ⟨rest, hrest⟩ := List.head?_eq_some_iff.mp (of_decide_eq_true h)
  exact ⟨rest, hrest, by rw [pieces, hrest, cut, if_pos rfl]⟩

/-- **A path is its pieces**, with the root in front of them. -/
theorem text_eq (p : Path) :
    p.text.toList = opening p.isAbsolute ++ ['/'].intercalate p.body := by
  unfold body opening
  cases h : p.isAbsolute with
  | true =>
    obtain ⟨rest, hrest, hpieces⟩ := pieces_of_absolute h
    rw [if_pos rfl, if_pos rfl, hpieces, List.tail_cons, intercalate_cut, hrest]
    rfl
  | false => exact (intercalate_cut _).symm

theorem no_slash_of_mem_body {p : Path} {piece : List Char} (h : piece ∈ p.body) : '/' ∉ piece := by
  unfold body at h
  split at h
  · exact (of_mem_cut (List.mem_of_mem_tail h)).1
  · exact (of_mem_cut h).1

/-- The last piece is behind the root. -/
theorem getLast?_body (p : Path) : p.body.getLast? = p.pieces.getLast? := by
  unfold body
  cases h : p.isAbsolute with
  | true =>
    obtain ⟨rest, _, hpieces⟩ := pieces_of_absolute h
    obtain ⟨piece, pieces, hcut⟩ := List.exists_cons_of_ne_nil (cut_ne_nil rest)
    rw [if_pos rfl, hpieces, hcut, List.tail_cons, List.getLast?_cons_cons]
  | false => rfl

/-- A relative path has nothing but itself in front of its first slash. -/
theorem head_body_ne_nil {p : Path} (h : p.isAbsolute = false) {front : List (List Char)}
    {first last : List Char} (hbody : p.body = first :: front ++ [last]) : first ≠ [] := by
  rintro rfl
  -- The text would begin with the slash behind that piece.
  have htext := text_eq p
  rw [h, hbody] at htext
  have hhead : p.text.toList.head? = some '/' := by
    rw [htext]
    cases front with
    | nil => simp [opening, List.intercalate_cons_cons]
    | cons next front => simp [opening, List.intercalate_cons_cons]
  rw [isAbsolute, hhead] at h
  cases h

/-- The pieces of a path that is put together from pieces. -/
theorem body_ofReversed {absolute : Bool} {pieces : List (List Char)} (hne : pieces ≠ [])
    (hslash : ∀ piece ∈ pieces, '/' ∉ piece)
    (hfirst : absolute = false → pieces.head? ≠ some []) :
    (ofReversed absolute pieces.reverse).isAbsolute = absolute ∧
      (ofReversed absolute pieces.reverse).body = pieces := by
  have htext : (ofReversed absolute pieces.reverse).text.toList
      = opening absolute ++ ['/'].intercalate pieces := by
    rw [ofReversed, String.toList_ofList, List.reverse_reverse]
    rfl
  have hcut := cut_intercalate hne hslash
  cases absolute with
  | true =>
    have habsolute : (ofReversed true pieces.reverse).isAbsolute = true := by
      rw [isAbsolute, htext]
      rfl
    refine ⟨habsolute, ?_⟩
    rw [body, habsolute, if_pos rfl, Path.pieces, htext]
    exact hcut
  | false =>
    have hopen : opening false ++ ['/'].intercalate pieces = ['/'].intercalate pieces := rfl
    have hrelative : (ofReversed false pieces.reverse).isAbsolute = false := by
      rw [isAbsolute, htext, hopen, decide_eq_false_iff_not]
      intro hhead
      obtain ⟨piece, rest, rfl⟩ := List.exists_cons_of_ne_nil hne
      -- The first character is one of the first piece, and that has no slash.
      cases piece with
      | nil => exact hfirst rfl rfl
      | cons c piece =>
        have hc : c = '/' := by
          cases rest with
          | nil => simpa using hhead
          | cons next rest => simpa [List.intercalate_cons_cons] using hhead
        exact hslash _ List.mem_cons_self (hc ▸ List.mem_cons_self)
    refine ⟨hrelative, ?_⟩
    rw [body, hrelative, if_neg Bool.false_ne_true, Path.pieces, htext, hopen]
    exact hcut

/-! ## 3. Going up -/

/-- Whether a path ends in a step that counts. -/
def endsInName (p : Path) : Bool := p.pieces.getLast?.any fun piece => !isSilent piece

theorem exists_body_of_endsInName {p : Path} (h : p.endsInName = true) :
    ∃ front last, p.body = front ++ [last] ∧ isSilent last = false := by
  rw [endsInName, ← getLast?_body, Option.any_eq_true] at h
  obtain ⟨last, hlast, hcounts⟩ := h
  obtain ⟨front, hfront⟩ := List.getLast?_eq_some_iff.mp hlast
  exact ⟨front, last, hfront, by simpa using hcounts⟩

/-- What is dropped from the end are pieces that name nothing. -/
theorem dropSilent_spec (absolute : Bool) (pieces : List (List Char)) :
    ∃ silent, pieces = silent ++ dropSilent absolute pieces ∧
      (∀ piece ∈ silent, isSilent piece = true) ∧
      (dropSilent absolute pieces = [] ∨
        (absolute = false ∧ dropSilent absolute pieces = [['.']]) ∨
        ∃ last rest, dropSilent absolute pieces = last :: rest ∧ isSilent last = false) := by
  induction pieces with
  | nil => exact ⟨[], rfl, by simp, Or.inl rfl⟩
  | cons piece pieces ih =>
    cases pieces with
    | nil =>
      rw [dropSilent]
      -- At the front only the dot of a relative path is kept although it names nothing.
      by_cases hdrop : (piece = [] || (absolute && piece = ['.'])) = true
      · rw [if_pos hdrop]
        refine ⟨[piece], rfl, ?_, Or.inl rfl⟩
        rw [Bool.or_eq_true, Bool.and_eq_true, decide_eq_true_eq, decide_eq_true_eq] at hdrop
        simp only [List.mem_singleton, forall_eq, isSilent, Bool.or_eq_true, decide_eq_true_eq]
        exact hdrop.imp_right And.right
      · rw [if_neg hdrop]
        refine ⟨[], rfl, by simp, Or.inr ?_⟩
        by_cases hsilent : isSilent piece = true
        · simp only [Bool.or_eq_true, Bool.and_eq_true, decide_eq_true_eq, not_or,
            not_and] at hdrop
          simp only [isSilent, Bool.or_eq_true, decide_eq_true_eq] at hsilent
          have hdot : piece = ['.'] := hsilent.resolve_left hdrop.1
          refine Or.inl ⟨?_, by rw [hdot]⟩
          cases absolute with
          | true => exact absurd hdot (hdrop.2 rfl)
          | false => rfl
        · exact Or.inr ⟨piece, [], rfl, by simpa using hsilent⟩
    | cons next pieces =>
      rw [dropSilent]
      by_cases hsilent : isSilent piece = true
      · rw [if_pos hsilent]
        obtain ⟨silent, hsplit, hall, hrest⟩ := ih
        refine ⟨piece :: silent, by rw [List.cons_append, ← hsplit], ?_, hrest⟩
        rw [List.forall_mem_cons]
        exact ⟨hsilent, hall⟩
      · rw [if_neg hsilent]
        exact ⟨[], rfl, by simp, Or.inr (Or.inr ⟨piece, _, rfl, by simpa using hsilent⟩)⟩

/-- Dropping stops at a piece that counts. -/
theorem dropSilent_of_counts (absolute : Bool) {last : List Char} (h : isSilent last = false)
    (rest : List (List Char)) : dropSilent absolute (last :: rest) = last :: rest := by
  have hne : last ≠ [] ∧ last ≠ ['.'] := by simpa [isSilent] using h
  cases rest with
  | nil => rw [dropSilent, if_neg (by simp [hne])]
  | cons next rest => rw [dropSilent, if_neg (by simp [h])]

end Path

namespace Disk

/-- The steps of a path are its pieces that are not empty. -/
theorem steps_eq_body (p : Path) : steps p = (p.body.filter (· ≠ [])).map String.ofList := by
  unfold Path.body
  cases h : p.isAbsolute with
  | true =>
    obtain ⟨rest, _, hpieces⟩ := Path.pieces_of_absolute h
    rw [steps, hpieces, if_pos rfl, List.tail_cons, List.filter_cons_of_neg (by simp)]
  | false => rfl

theorem ofList_ne_dot {piece : List Char} (h : piece ≠ ['.']) : String.ofList piece ≠ "." := by
  intro heq
  have htoList := congrArg String.toList heq
  rw [String.toList_ofList] at htoList
  exact h htoList

/-- The last step of a path that ends in a name. -/
theorem steps_of_endsInName {p : Path} (h : p.endsInName = true) :
    ∃ σ name, steps p = σ ++ [name] ∧ name ≠ "." ∧ names p = σ.filter (· ≠ ".") ++ [name] ∧
      endsInSlash p = false := by
  obtain ⟨front, last, hbody, hcounts⟩ := Path.exists_body_of_endsInName h
  have hne : last ≠ [] ∧ last ≠ ['.'] := by simpa [Path.isSilent] using hcounts
  have hsteps : steps p = (front.filter (· ≠ [])).map String.ofList ++ [String.ofList last] := by
    rw [steps_eq_body, hbody, List.filter_append, List.map_append,
      List.filter_cons_of_pos (by simpa using hne.1)]
    rfl
  have hname : String.ofList last ≠ "." := ofList_ne_dot hne.2
  refine ⟨_, _, hsteps, hname, ?_, ?_⟩
  · rw [names, hsteps, List.filter_append, List.filter_cons_of_pos (by simpa using hname)]
    rfl
  · -- Behind a slash at the end there is an empty piece.
    rw [endsInSlash, decide_eq_false_iff_not]
    intro hslash
    obtain ⟨text, htext⟩ := List.getLast?_eq_some_iff.mp hslash
    have hlast : p.pieces.getLast? = some [] := by
      rw [Path.pieces, htext, Path.cut_append_slash]
      exact List.getLast?_concat
    rw [← Path.getLast?_body, hbody, List.getLast?_concat] at hlast
    exact hne.1 (Option.some.inj hlast)

/-- A path that does not end in a slash, and whose last step is no dot, ends in a name. -/
theorem endsInName_of_closed {p : Path} {name : String} (hclosed : endsInSlash p = false)
    (hlast : (steps p).getLast? = some name) (hdot : name ≠ ".") : p.endsInName = true := by
  rw [endsInSlash, decide_eq_false_iff_not] at hclosed
  obtain ⟨last, hpieces⟩ : ∃ last, p.pieces.getLast? = some last :=
    ⟨_, List.getLast?_eq_some_getLast (Path.cut_ne_nil p.text.toList)⟩
  have hne : last ≠ [] := by
    rintro rfl
    rcases Path.getLast?_of_cut hpieces with hempty | hslash
    · have hnone : steps p = [] := by
        rw [steps_eq, hempty]
        rfl
      rw [hnone] at hlast
      cases hlast
    · exact hclosed hslash
  obtain ⟨front, hfront⟩ := List.getLast?_eq_some_iff.mp hpieces
  rw [steps, hfront, List.filter_append, List.filter_cons_of_pos (by simpa using hne),
    List.map_append, List.filter_nil, List.map_singleton, List.getLast?_concat] at hlast
  have hcounts : last ≠ ['.'] := by
    rintro rfl
    exact hdot (Option.some.inj hlast).symm
  rw [Path.endsInName, hpieces]
  simp [Path.isSilent, hne, hcounts]

/-- Pieces that name nothing are no names. -/
theorem names_of_silent {pieces : List (List Char)}
    (h : ∀ piece ∈ pieces, Path.isSilent piece = true) :
    ((pieces.filter (· ≠ [])).map String.ofList).filter (· ≠ ".") = [] := by
  rw [List.filter_eq_nil_iff]
  intro step hstep
  obtain ⟨piece, hpiece, rfl⟩ := List.mem_map.mp hstep
  obtain ⟨hmem, hne⟩ := List.mem_filter.mp hpiece
  have hsilent : piece = [] ∨ piece = ['.'] := by simpa [Path.isSilent] using h piece hmem
  have hdot : piece = ['.'] := hsilent.resolve_left (by simpa using hne)
  simp [hdot]

/-- **The steps of a path that is put together from pieces.** -/
theorem steps_ofReversed (absolute : Bool) {pieces : List (List Char)}
    (hslash : ∀ piece ∈ pieces, '/' ∉ piece)
    (hfirst : absolute = false → pieces.head? ≠ some []) :
    (Path.ofReversed absolute pieces.reverse).isAbsolute = absolute ∧
      steps (Path.ofReversed absolute pieces.reverse)
        = (pieces.filter (· ≠ [])).map String.ofList := by
  by_cases hne : pieces = []
  · -- The root, or a path without a text.
    subst hne
    cases absolute with
    | true => exact ⟨rfl, rfl⟩
    | false => exact ⟨rfl, rfl⟩
  · obtain ⟨habsolute, hbody⟩ := Path.body_ofReversed hne hslash hfirst
    exact ⟨habsolute, by rw [steps_eq_body, hbody]⟩

/-- **The steps of the path above** are a front part of the steps of a path. Something
else than dots is behind them, unless the path above has no text. -/
theorem steps_parent {p q : Path} (h : p.parent? = some q) :
    q.isAbsolute = p.isAbsolute ∧ ∃ ρ, steps p = steps q ++ ρ ∧
      (q.text = "" ∨ ∃ step ∈ ρ, step ≠ ".") := by
  -- Pieces are dropped from the end twice, with the last part in between.
  obtain ⟨silent, hsplit, _, hends⟩ := Path.dropSilent_spec p.isAbsolute p.body.reverse
  have hreversed : Path.dropSilent p.isAbsolute p.body.reverse = p.reversedPieces := rfl
  rw [hreversed] at hsplit hends
  unfold Path.parent? at h
  cases hpieces : p.reversedPieces with
  | nil =>
    rw [hpieces] at h
    cases h
  | cons x rest =>
    rw [hpieces] at h hsplit hends
    obtain ⟨silent', hsplit', _, _⟩ := Path.dropSilent_spec p.isAbsolute rest
    simp only [Option.some.injEq] at h
    generalize hkept : Path.dropSilent p.isAbsolute rest = kept at h hsplit'
    have hbody : p.body = kept.reverse ++ (silent'.reverse ++ [x] ++ silent.reverse) := by
      rw [← List.reverse_reverse p.body, hsplit, hsplit']
      simp
    have hmem : ∀ piece ∈ kept.reverse, piece ∈ p.body := by
      intro piece hpiece
      rw [hbody]
      exact List.mem_append_left _ hpiece
    have hfirst : p.isAbsolute = false → kept.reverse.head? ≠ some [] := by
      intro hrelative hhead
      obtain ⟨more, hmore⟩ := List.head?_eq_some_iff.mp hhead
      obtain ⟨front, last, hlast⟩ : ∃ front last,
          more ++ (silent'.reverse ++ [x] ++ silent.reverse) = front ++ [last] :=
        ⟨_, _, (List.dropLast_concat_getLast (by simp)).symm⟩
      rw [hmore, List.cons_append, hlast, ← List.cons_append] at hbody
      exact Path.head_body_ne_nil hrelative hbody rfl
    obtain ⟨habsolute, hsteps⟩ := steps_ofReversed p.isAbsolute
      (fun piece hpiece => Path.no_slash_of_mem_body (hmem piece hpiece)) hfirst
    rw [List.reverse_reverse] at habsolute hsteps
    subst h
    refine ⟨habsolute,
      ((silent'.reverse ++ [x] ++ silent.reverse).filter (· ≠ [])).map String.ofList, ?_, ?_⟩
    · rw [hsteps, steps_eq_body, hbody, List.filter_append, List.map_append]
    · rcases hends with hnil | ⟨hrelative, hdot⟩ | ⟨last, rest', hlast, hcounts⟩
      · cases hnil
      · -- The dot that opens a relative path has nothing above it.
        obtain ⟨_, rfl⟩ := List.cons.inj hdot
        left
        rw [← hkept, hrelative]
        rfl
      · right
        obtain ⟨rfl, _⟩ := List.cons.inj hlast
        have hne : x ≠ [] ∧ x ≠ ['.'] := by simpa [Path.isSilent] using hcounts
        exact ⟨String.ofList x, List.mem_map_of_mem (List.mem_filter.mpr
          ⟨by simp, by simpa using hne.1⟩), ofList_ne_dot hne.2⟩

/-- What the pieces of a path are when the last one is taken off. -/
theorem parent_eq {p : Path} (h : p.endsInName = true) :
    ∃ (kept silent : List (List Char)) (last : List Char),
      p.body = kept ++ silent ++ [last] ∧ last ≠ [] ∧
      (∀ piece ∈ silent, Path.isSilent piece = true) ∧
      p.parent? = some (Path.ofReversed p.isAbsolute kept.reverse) ∧
      (kept = [] ∨ kept = [['.']] ∨
        ∃ front last, kept = front ++ [last] ∧ Path.isSilent last = false) := by
  obtain ⟨front, last, hbody, hcounts⟩ := Path.exists_body_of_endsInName h
  -- Pieces are dropped from the end, so all lists are turned round.
  obtain ⟨silent, hsplit, hsilent, hends⟩ := Path.dropSilent_spec p.isAbsolute front.reverse
  generalize hkept : Path.dropSilent p.isAbsolute front.reverse = kept at hsplit hends
  refine ⟨kept.reverse, silent.reverse, last, ?_, ?_, ?_, ?_, ?_⟩
  · rw [hbody, ← List.reverse_append, ← hsplit, List.reverse_reverse]
  · rintro rfl
    cases hcounts
  · exact fun piece hpiece => hsilent piece (List.mem_reverse.mp hpiece)
  · have hreversed : p.reversedPieces = last :: front.reverse := by
      have hdrop := Path.dropSilent_of_counts p.isAbsolute hcounts front.reverse
      have hrev : p.body.reverse = last :: front.reverse := by simp [hbody]
      rw [← hdrop, ← hrev]
      rfl
    rw [Path.parent?, hreversed, List.reverse_reverse, ← hkept]
  · rcases hends with rfl | ⟨_, rfl⟩ | ⟨next, rest, rfl, hnext⟩
    · exact Or.inl rfl
    · exact Or.inr (Or.inl rfl)
    · exact Or.inr (Or.inr ⟨rest.reverse, next, List.reverse_cons, hnext⟩)

/-- **The path above** one that ends in a name: a beginning of its text, with the
same names but for the last one. It ends in a name again, or has no names. -/
theorem parent_spec {p : Path} (h : p.endsInName = true) :
    ∃ q : Path, p.parent? = some q ∧ q.text.toList <+: p.text.toList ∧
      q.isAbsolute = p.isAbsolute ∧ names p = names q ++ (steps p).getLast?.toList ∧
      (∀ step ∈ steps q, step ∈ steps p) ∧ (q.endsInName = true ∨ names q = []) := by
  obtain ⟨kept, silent, last, hbody, hne, hsilent, hparent, hends⟩ := parent_eq h
  obtain ⟨σ, name, hsteps, _, hnames, _⟩ := steps_of_endsInName h
  have hmem : ∀ piece ∈ kept, piece ∈ p.body := by
    intro piece hpiece
    rw [hbody]
    exact List.mem_append_left _ (List.mem_append_left _ hpiece)
  have hfirst : p.isAbsolute = false → kept.head? ≠ some [] := by
    intro hrelative hhead
    obtain ⟨rest, rfl⟩ := List.head?_eq_some_iff.mp hhead
    exact Path.head_body_ne_nil hrelative hbody rfl
  obtain ⟨habsolute, hkept⟩ := steps_ofReversed p.isAbsolute
    (fun piece hpiece => Path.no_slash_of_mem_body (hmem piece hpiece)) hfirst
  -- The steps in front of the last one are those above, and dots.
  have hσ : σ.filter (· ≠ ".") = names (Path.ofReversed p.isAbsolute kept.reverse) := by
    have hall := steps_eq_body p
    rw [hsteps, hbody, List.filter_append, List.map_append,
      List.filter_cons_of_pos (by simpa using hne), List.filter_nil] at hall
    rw [(List.append_inj' hall rfl).1, List.filter_append, List.map_append, List.filter_append,
      names_of_silent hsilent, List.append_nil, names, hkept]
  refine ⟨_, hparent, ?_, habsolute, ?_, ?_, ?_⟩
  · rw [Path.ofReversed, String.toList_ofList, List.reverse_reverse, Path.text_eq p, hbody,
      List.append_assoc]
    exact (List.prefix_append_right_inj _).mpr (Path.intercalate_prefix _ _)
  · rw [hnames, hσ, hsteps, List.getLast?_concat]
    rfl
  · rw [hkept, steps_eq_body p]
    intro step hstep
    obtain ⟨piece, hpiece, rfl⟩ := List.mem_map.mp hstep
    obtain ⟨hin, hne⟩ := List.mem_filter.mp hpiece
    exact List.mem_map_of_mem (List.mem_filter.mpr ⟨hmem piece hin, hne⟩)
  · -- Above is nothing, a dot, or a path on which dropping has stopped at a name.
    rcases hends with rfl | rfl | ⟨front, next, rfl, hnext⟩
    · right
      rw [names, hkept]
      rfl
    · right
      rw [names, hkept]
      rfl
    · left
      obtain ⟨_, hbody'⟩ := Path.body_ofReversed (List.append_ne_nil_of_right_ne_nil front
        (List.cons_ne_nil next [])) (fun piece hpiece => Path.no_slash_of_mem_body
          (hmem piece hpiece)) hfirst
      rw [Path.endsInName, ← Path.getLast?_body, hbody', List.getLast?_concat]
      simp [hnext]

/-! ## 4. What a location says -/

/-- The name to follow for a part of a location. -/
def nameOf : Part → Option String
  | .root => none
  | .here => none
  | .up => some ".."
  | .name text => some text

theorem nameOf_partOf (piece : List Char) :
    nameOf (Path.partOf piece) = some (String.ofList piece) := by
  unfold Path.partOf
  split
  · rename_i hup
    rw [hup]
    rfl
  · rfl

theorem filterMap_innerParts (pieces : List (List Char)) :
    (Path.innerParts pieces).filterMap nameOf
      = ((pieces.filter (· ≠ [])).map String.ofList).filter (· ≠ ".") := by
  induction pieces with
  | nil => rfl
  | cons piece pieces ih =>
    by_cases hsilent : Path.isSilent piece = true
    · have hdropped : Path.innerParts (piece :: pieces) = Path.innerParts pieces := by
        simp [Path.innerParts, hsilent]
      have hall : ∀ x ∈ [piece], Path.isSilent x = true := by simpa using hsilent
      have hnone := names_of_silent hall
      rw [hdropped, ih, ← List.singleton_append, List.filter_append, List.map_append,
        List.filter_append, hnone, List.nil_append]
    · have hkept : Path.innerParts (piece :: pieces)
          = Path.partOf piece :: Path.innerParts pieces := by
        simp [Path.innerParts, hsilent]
      have hcounts : piece ≠ [] ∧ piece ≠ ['.'] := by simpa [Path.isSilent] using hsilent
      have hname : String.ofList piece ≠ "." := ofList_ne_dot hcounts.2
      rw [hkept, List.filterMap_cons, nameOf_partOf, ih,
        List.filter_cons_of_pos (by simpa using hcounts.1), List.map_cons,
        List.filter_cons_of_pos (by simpa using hname)]

/-- **The names of a path** can be read off its location. -/
theorem names_eq_filterMap (p : Path) : names p = p.location.filterMap nameOf := by
  obtain ⟨first, rest, hpieces⟩ := List.exists_cons_of_ne_nil (Path.cut_ne_nil p.text.toList)
  have hpieces : p.pieces = first :: rest := hpieces
  have hinner := filterMap_innerParts rest
  rw [names, steps, Path.location, hpieces]
  simp only []
  -- The first piece becomes a root, a dot, or a name like the others.
  by_cases hempty : first = []
  · rw [if_pos hempty, List.filter_cons_of_neg (by simpa using hempty), ← hinner,
      List.filterMap_append]
    split <;> rfl
  · rw [if_neg hempty, List.filter_cons_of_pos (by simpa using hempty), List.map_cons]
    by_cases hdot : first = ['.']
    · rw [if_pos hdot, hdot, List.filter_cons_of_neg (by decide), ← hinner]
      rfl
    · have hname : String.ofList first ≠ "." := ofList_ne_dot hdot
      rw [if_neg hdot, List.filterMap_cons, nameOf_partOf,
        List.filter_cons_of_pos (by simpa using hname), ← hinner]

/-- A location tells whether a path is absolute. -/
theorem isAbsolute_iff_location (p : Path) :
    p.isAbsolute = true ↔ p.location.head? = some .root := by
  constructor
  · intro habsolute
    rw [location_eq habsolute]
    rfl
  · intro hroot
    cases htext : p.text.toList with
    | nil =>
      rw [Path.location, Path.pieces, htext] at hroot
      cases hroot
    | cons c rest =>
      by_cases hc : c = '/'
      · rw [Path.isAbsolute, htext, hc]
        rfl
      · obtain ⟨first, pieces, hpieces⟩ : ∃ first pieces, p.pieces = (c :: first) :: pieces := by
          rw [Path.pieces, htext, Path.cut, if_neg hc]
          split
          · exact ⟨_, _, rfl⟩
          · exact ⟨_, _, rfl⟩
        rw [Path.location, hpieces] at hroot
        simp only [List.cons_ne_nil, if_false] at hroot
        -- The first part is a dot, two dots or a name.
        split at hroot
        · cases hroot
        · unfold Path.partOf at hroot
          split at hroot <;> cases hroot

/-- **Paths with one location** start in the same place and have the same names. -/
theorem names_eq_of_location {p q : Path} (h : p.location = q.location) :
    p.isAbsolute = q.isAbsolute ∧ names p = names q := by
  refine ⟨?_, by rw [names_eq_filterMap, names_eq_filterMap q, h]⟩
  rw [Bool.eq_iff_iff, isAbsolute_iff_location, isAbsolute_iff_location, h]

/-- The last part of a path that ends in a name. -/
theorem getLast?_location {p : Path} {front : List (List Char)} {last : List Char}
    (h : p.pieces = front ++ [last]) (hcounts : Path.isSilent last = false) :
    p.location.getLast? = some (Path.partOf last) := by
  have hne : last ≠ [] ∧ last ≠ ['.'] := by simpa [Path.isSilent] using hcounts
  cases front with
  | nil =>
    rw [List.nil_append] at h
    rw [Path.location, h]
    simp [hne, Path.innerParts]
  | cons first front =>
    have hinner : Path.innerParts (front ++ [last])
        = Path.innerParts front ++ [Path.partOf last] := by
      simp [Path.innerParts, hcounts]
    rw [Path.location, h]
    simp only [List.cons_append, hinner]
    split
    · rw [← List.append_assoc, List.getLast?_concat]
    · split <;> rw [← List.cons_append, List.getLast?_concat]

end Disk

end ScopedState
