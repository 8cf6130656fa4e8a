/-
`Proofs/Macros.lean` -- what becomes of a text that is collapsed and expanded
again.

Collapsing puts a reference in the place of a path, and expanding puts the path
back, if it sees the reference. It reads from left to right, and a dollar sign
that the text had of its own may open a name just in front of the reference.
Then the first dollar sign of the reference closes that name. So `$A/p` with
`X` for `/p` is collapsed into `$A$X$`, which is expanded as the reference
`$A$` with `X$` behind it.

To tell where this happens, the collapsed text is kept with a mark on every
reference that was put in (`marked`). A marked text can be read in two ways: as
it is written, and as it was meant, with the paths in place of the marks. A
text is clean when no reference stands behind an open name, and clean texts are
exactly the ones that come back as they would have been expanded without being
collapsed.
-/
import Mathlib.Data.List.Basic
import ScopedState.Macros
import ScopedState.Proofs.Bindings
set_option autoImplicit false

namespace ScopedState

open Bindings (Sorted get?)

namespace MacroTable

/-! ## 1. Tables -/

/-- A name that a reference can have. -/
def IsName : List Char → Prop
  | [] => False
  | c :: rest => startsName c = true ∧ ∀ d ∈ rest, continuesName d = true

instance decidableIsName : ∀ name : List Char, Decidable (IsName name)
  | [] => isFalse id
  | c :: rest =>
    decidable_of_iff (startsName c = true ∧ rest.all continuesName = true)
      (and_congr_right' List.all_eq_true)

/-- A table of variables whose references can be written, with paths that hold no
dollar sign. -/
structure Proper (table : MacroTable) : Prop where
  sorted : Sorted table
  name : ∀ e ∈ table, IsName e.1.toList
  path : ∀ e ∈ table, e.2.toList ≠ [] ∧ '$' ∉ e.2.toList

theorem proper_nil : Proper [] := ⟨Bindings.sorted_nil, by simp, by simp⟩

/-- Taking slashes off the end leaves something, and nothing new. -/
theorem trimmed_path (p : Path) :
    p.trimmed.toList ≠ [] ∧ ∀ c ∈ p.trimmed.toList, c = '/' ∨ c ∈ p.text.toList := by
  unfold Path.trimmed
  dsimp only
  split
  · refine ⟨by decide, fun c hc => Or.inl ?_⟩
    simpa using hc
  · rename_i hkept
    rw [String.toList_ofList]
    refine ⟨fun hnil => hkept (by rw [hnil]; rfl), fun c hc => Or.inr ?_⟩
    have hmem := (List.dropWhile_sublist _).subset (List.mem_reverse.mp hc)
    exact List.mem_reverse.mp hmem

/-- **A table that is built up variable by variable** is proper. -/
theorem Proper.define {table : MacroTable} (h : table.Proper) {name : String} {path : Path}
    (hname : IsName name.toList) (hpath : '$' ∉ path.text.toList) :
    (table.define name path).Proper := by
  obtain ⟨hne, hmem⟩ := trimmed_path path
  refine ⟨h.sorted.insert name _, fun e he => ?_, fun e he => ?_⟩
  · rcases Bindings.mem_insert he with rfl | he
    · exact hname
    · exact h.name e he
  · rcases Bindings.mem_insert he with rfl | he
    · refine ⟨hne, fun hdollar => ?_⟩
      rcases hmem _ hdollar with hslash | hin
      · exact absurd hslash (by decide)
      · exact hpath hin
    · exact h.path e he

/-- A variable of a proper table. -/
theorem Proper.of_get? {table : MacroTable} (h : table.Proper) {name path : String}
    (hname : get? table name = some path) :
    IsName name.toList ∧ path.toList ≠ [] ∧ '$' ∉ path.toList :=
  ⟨h.name _ (Bindings.mem_of_get? hname), h.path _ (Bindings.mem_of_get? hname)⟩

theorem mem_schedule {e x : String × String} {l : List (String × String)} :
    x ∈ schedule e l ↔ x = e ∨ x ∈ l := by
  induction l with
  | nil => simp [schedule]
  | cons a l ih =>
    rw [schedule]
    split
    · exact List.mem_cons
    · rw [List.mem_cons, ih, List.mem_cons]
      exact or_left_comm

theorem mem_inOrder {x : String × String} {table : MacroTable} :
    x ∈ inOrder table ↔ x ∈ table := by
  induction table with
  | nil => exact Iff.rfl
  | cons e table ih =>
    have hstep : inOrder (e :: table) = schedule e (inOrder table) := rfl
    rw [hstep, mem_schedule, ih, List.mem_cons]

/-! ## 2. Expanding, character by character -/

/-- What has turned out to be a token once a character has been read, and what is
open behind it. -/
def advance (open? : Option (List Char)) (c : Char) : List Token × Option (List Char) :=
  match open? with
  | none => if c = '$' then ([], some []) else ([.plain c], none)
  | some seen =>
    if c = '$' then
      if seen.isEmpty then ([.plain '$'], some []) else ([.reference seen.reverse], none)
    else if (if seen.isEmpty then startsName c else continuesName c) then ([], some (c :: seen))
    else (plainly ('$' :: seen.reverse) ++ [.plain c], none)

theorem scan_cons (open? : Option (List Char)) (c : Char) (rest : List Char) :
    scan open? (c :: rest) = (advance open? c).1 ++ scan (advance open? c).2 rest := by
  rw [scan.eq_def, advance.eq_def]
  cases open? with
  | none =>
    simp only []
    split <;> rfl
  | some seen =>
    simp only []
    split
    · split <;> rfl
    · by_cases hname : (if seen.isEmpty then startsName c else continuesName c) = true
      · rw [if_pos hname, if_pos hname]
        rfl
      · rw [if_neg hname, if_neg hname, List.append_assoc]
        rfl

/-- The text of tokens, references replaced by paths. -/
def meant (table : MacroTable) (ts : List Token) : List Char := ts.flatMap (expandToken table)

@[simp] theorem meant_nil (table : MacroTable) : meant table [] = [] := rfl

@[simp] theorem meant_cons (table : MacroTable) (t : Token) (ts : List Token) :
    meant table (t :: ts) = expandToken table t ++ meant table ts := rfl

theorem meant_append (table : MacroTable) (ts us : List Token) :
    meant table (ts ++ us) = meant table ts ++ meant table us := List.flatMap_append

@[simp] theorem meant_plainly (table : MacroTable) (text : List Char) :
    meant table (plainly text) = text := by
  induction text with
  | nil => rfl
  | cons c text ih =>
    have hstep : meant table (plainly (c :: text)) = c :: meant table (plainly text) := rfl
    rw [hstep, ih]

/-- A text with its references expanded, where something may be open. -/
def expandFrom (table : MacroTable) (open? : Option (List Char)) (text : List Char) : List Char :=
  meant table (scan open? text)

variable {table : MacroTable} {open? : Option (List Char)} {seen name path rest : List Char}

theorem expand_eq (table : MacroTable) (text : String) :
    expand table text = String.ofList (expandFrom table none text.toList) := rfl

theorem expandFrom_cons (table : MacroTable) (open? : Option (List Char)) (c : Char)
    (rest : List Char) : expandFrom table open? (c :: rest)
      = meant table (advance open? c).1 ++ expandFrom table (advance open? c).2 rest := by
  rw [expandFrom, scan_cons, meant_append]
  rfl

theorem expandFrom_open_nil (table : MacroTable) (seen : List Char) :
    expandFrom table (some seen) [] = '$' :: seen.reverse := meant_plainly table _

/-- A text without a dollar sign stays. -/
theorem expandFrom_plain (hpath : '$' ∉ path) (rest : List Char) :
    expandFrom table none (path ++ rest) = path ++ expandFrom table none rest := by
  induction path with
  | nil => rfl
  | cons c path ih =>
    have hc : c ≠ '$' := fun h => hpath (h ▸ List.mem_cons_self)
    have hadvance : advance none c = ([.plain c], none) := if_neg hc
    rw [List.cons_append, expandFrom_cons, hadvance, ih fun h => hpath (List.mem_cons_of_mem _ h)]
    rfl

theorem not_continues_of_boundary {c : Char} (hc : c = '/' ∨ c = '\\') :
    c ≠ '$' ∧ startsName c = false ∧ continuesName c = false := by
  rcases hc with rfl | rfl <;> decide

theorem ne_of_continues {c : Char} (hc : continuesName c = true) :
    c ≠ '$' ∧ c ≠ '/' ∧ c ≠ '\\' := by
  refine ⟨?_, ?_, ?_⟩ <;>
  · rintro rfl
    revert hc
    decide

theorem continues_of_starts {c : Char} (hc : startsName c = true) : continuesName c = true := by
  simp only [startsName, continuesName, Char.isAlphanum, Bool.or_eq_true] at hc ⊢
  rcases hc with hc | hc
  · exact Or.inl (Or.inl hc)
  · exact Or.inr hc

/-- The characters of a name all go on with a name. -/
theorem IsName.continues (h : IsName name) : ∀ c ∈ name, continuesName c = true := by
  cases name with
  | nil => exact h.elim
  | cons d name =>
    intro c hc
    rcases List.mem_cons.mp hc with rfl | hc
    · exact continues_of_starts h.1
    · exact h.2 c hc

/-- A character of a name. -/
theorem advance_name {c : Char}
    (hname : (if seen.isEmpty then startsName c else continuesName c) = true) :
    continuesName c = true ∧ advance (some seen) c = ([], some (c :: seen)) := by
  have hcontinues : continuesName c = true := by
    split at hname
    · exact continues_of_starts hname
    · exact hname
  refine ⟨hcontinues, ?_⟩
  unfold advance
  simp only []
  rw [if_neg (ne_of_continues hcontinues).1, if_pos hname]

/-- A character that ends a name, but is no dollar sign, shows that there was no
reference. -/
theorem advance_flush {c : Char} (hc : c ≠ '$')
    (hname : (if seen.isEmpty then startsName c else continuesName c) = false) :
    advance (some seen) c = (plainly ('$' :: seen.reverse ++ [c]), none) := by
  unfold advance
  simp only []
  rw [if_neg hc, if_neg (by rw [hname]; exact Bool.false_ne_true)]
  simp [plainly]

/-- **A path behind an open name**, with the end of a path part behind it, belongs
to no reference. -/
theorem expandFrom_open (hpath : '$' ∉ path)
    (hend : path.getLast? = some '/' ∨ atBoundary rest = true) :
    expandFrom table (some seen) (path ++ rest)
      = '$' :: seen.reverse ++ path ++ expandFrom table none rest := by
  induction path generalizing seen with
  | nil =>
    have hboundary : atBoundary rest = true := by
      rcases hend with hlast | hboundary
      · cases hlast
      · exact hboundary
    cases rest with
    | nil => rw [List.append_nil, expandFrom_open_nil, List.append_nil, expandFrom, scan]; simp
    | cons c rest =>
      have hc : c = '/' ∨ c = '\\' := by simpa [atBoundary] using hboundary
      obtain ⟨hdollar, hstarts, hcontinues⟩ := not_continues_of_boundary hc
      have hplain : advance none c = ([.plain c], none) := if_neg hdollar
      rw [List.nil_append, expandFrom_cons, expandFrom_cons table none, hplain,
        advance_flush hdollar (by rw [hstarts, hcontinues, ite_self]), meant_plainly]
      simp [expandToken]
  | cons c path ih =>
    have hc : c ≠ '$' := fun h => hpath (h ▸ List.mem_cons_self)
    have hpath' : '$' ∉ path := fun h => hpath (List.mem_cons_of_mem _ h)
    rw [List.cons_append, expandFrom_cons]
    cases hname : (if seen.isEmpty then startsName c else continuesName c) with
    | true =>
      -- The name goes on, and so does the argument with one character more in it.
      obtain ⟨hcontinues, hadvance⟩ := advance_name hname
      have hend' : path.getLast? = some '/' ∨ atBoundary rest = true := by
        refine hend.imp_left fun hlast => ?_
        cases path with
        | nil => exact absurd (Option.some.inj hlast) (ne_of_continues hcontinues).2.1
        | cons d path => exact hlast
      rw [hadvance, ih hpath' hend', List.reverse_cons]
      simp
    | false =>
      rw [advance_flush hc hname, meant_plainly, expandFrom_plain hpath']
      simp

/-- A name that is read behind a dollar sign and another character of a name. -/
theorem scan_continues (hseen : seen ≠ []) (hname : ∀ c ∈ name, continuesName c = true) :
    scan (some seen) (name ++ rest) = scan (some (name.reverse ++ seen)) rest := by
  induction name generalizing seen with
  | nil => rfl
  | cons c name ih =>
    have hc : (if seen.isEmpty then startsName c else continuesName c) = true := by
      rw [if_neg (by simpa using hseen)]
      exact hname c List.mem_cons_self
    obtain ⟨_, hadvance⟩ := advance_name hc
    rw [List.cons_append, scan_cons, hadvance, List.nil_append,
      ih (List.cons_ne_nil _ _) fun d hd => hname d (List.mem_cons_of_mem _ hd), List.reverse_cons,
      List.append_assoc]
    rfl

/-- **A reference is seen** behind a dollar sign. -/
theorem scan_reference (hname : IsName name) (rest : List Char) :
    scan (some []) (name ++ '$' :: rest) = .reference name :: scan none rest := by
  cases name with
  | nil => exact hname.elim
  | cons c name =>
    have hc : (if ([] : List Char).isEmpty then startsName c else continuesName c) = true :=
      hname.1
    have hadvance : advance (some []) c = ([], some [c]) := (advance_name hc).2
    have hclose : advance (some (name.reverse ++ [c])) '$' = ([.reference (c :: name)], none) := by
      simp [advance]
    rw [List.cons_append, scan_cons, hadvance, List.nil_append,
      scan_continues (List.cons_ne_nil _ _) hname.2, scan_cons, hclose]
    rfl

/-! ## 3. Marked texts -/

/-- A token as it is written. -/
def writtenToken : Token → List Char
  | .plain c => [c]
  | .reference name => '$' :: name ++ ['$']

/-- The text of tokens as it is written. -/
def written (ts : List Token) : List Char := ts.flatMap writtenToken

@[simp] theorem written_nil : written [] = [] := rfl

@[simp] theorem written_cons (t : Token) (ts : List Token) :
    written (t :: ts) = writtenToken t ++ written ts := rfl

theorem written_append (ts us : List Token) : written (ts ++ us) = written ts ++ written us :=
  List.flatMap_append

@[simp] theorem written_plainly (text : List Char) : written (plainly text) = text := by
  induction text with
  | nil => rfl
  | cons c text ih =>
    have hstep : written (plainly (c :: text)) = c :: written (plainly text) := rfl
    rw [hstep, ih]

/-- What is left of a marked text behind `value`, if it starts with it. -/
def behindPlain : List Char → List Token → Option (List Token)
  | [], ts => some ts
  | v :: vs, .plain c :: ts => if v = c then behindPlain vs ts else none
  | _ :: _, _ => none

/-- Replace occurrences of `value` as `replaceFrom` does, and mark what comes in
their place. -/
def markFrom (value name : List Char) (skip : Nat) : List Token → List Token
  | [] => []
  | t :: ts =>
    match skip with
    | n + 1 => markFrom value name n ts
    | 0 =>
      match behindPlain value (t :: ts) with
      | none => t :: markFrom value name 0 ts
      | some after =>
        let image :=
          if value.getLast? = some '/' || atBoundary (written after) then [.reference name]
          else plainly value
        image ++ markFrom value name (value.length - 1) ts

/-- **The collapsed text with its references marked.** -/
def marked (table : MacroTable) (text : List Char) : List Token :=
  (inOrder table).foldl (fun ts entry => markFrom entry.2.toList entry.1.toList 0 ts)
    (plainly text)

theorem behind_eq_some {value text after : List Char} (h : behind value text = some after) :
    text = value ++ after := by
  induction value generalizing text with
  | nil => exact Option.some.inj h
  | cons v value ih =>
    cases text with
    | nil => cases h
    | cons c text =>
      rw [behind] at h
      split at h
      · rename_i hvc
        rw [List.cons_append, hvc, ih h]
      · cases h

theorem behind_append (value after : List Char) : behind value (value ++ after) = some after := by
  induction value with
  | nil => rfl
  | cons v value ih => rw [List.cons_append, behind, if_pos rfl, ih]

theorem behindPlain_eq_some {value : List Char} {ts after : List Token}
    (h : behindPlain value ts = some after) : ts = plainly value ++ after := by
  induction value generalizing ts with
  | nil => exact Option.some.inj h
  | cons v value ih =>
    cases ts with
    | nil => cases h
    | cons t ts =>
      cases t with
      | plain c =>
        rw [behindPlain] at h
        split at h
        · rename_i hvc
          rw [ih h, hvc]
          rfl
        · cases h
      | reference name => cases h

theorem behindPlain_append (value : List Char) (after : List Token) :
    behindPlain value (plainly value ++ after) = some after := by
  induction value with
  | nil => rfl
  | cons v value ih =>
    have hstep : plainly (v :: value) ++ after = .plain v :: (plainly value ++ after) := rfl
    rw [hstep, behindPlain, if_pos rfl, ih]

/-- A text without a dollar sign is found among the plain characters. -/
theorem behind_written {value : List Char} (hvalue : '$' ∉ value) (ts : List Token) :
    behind value (written ts) = (behindPlain value ts).map written := by
  induction value generalizing ts with
  | nil => rfl
  | cons v value ih =>
    cases ts with
    | nil => rfl
    | cons t ts =>
      cases t with
      | plain c =>
        have hstep : written (.plain c :: ts) = c :: written ts := rfl
        rw [hstep, behind, behindPlain]
        split
        · exact ih (fun h => hvalue (List.mem_cons_of_mem _ h)) ts
        · rfl
      | reference name =>
        have hstep : written (.reference name :: ts) = '$' :: (name ++ ['$'] ++ written ts) := rfl
        have hv : v ≠ '$' := fun h => hvalue (h ▸ List.mem_cons_self)
        rw [hstep, behind, if_neg hv, behindPlain]
        · rfl
        · intro c ts' h
          cases h

section Replacing

variable {value replacement after : List Char}

theorem replaceFrom_skip (value replacement skipped rest : List Char) :
    replaceFrom value replacement skipped.length (skipped ++ rest)
      = replaceFrom value replacement 0 rest := by
  induction skipped with
  | nil => rfl
  | cons c skipped ih => rw [List.cons_append, List.length_cons, replaceFrom, ih]

/-- **An occurrence** is replaced or passed over whole. -/
theorem replaceFrom_found (hvalue : value ≠ []) (replacement after : List Char) :
    replaceFrom value replacement 0 (value ++ after)
      = (if value.getLast? = some '/' || atBoundary after then replacement else value)
        ++ replaceFrom value replacement 0 after := by
  cases value with
  | nil => exact absurd rfl hvalue
  | cons v value =>
    have hfound := behind_append (v :: value) after
    rw [List.cons_append] at hfound ⊢
    rw [replaceFrom, hfound, List.length_cons, Nat.add_sub_cancel, replaceFrom_skip]

theorem replaceFrom_other {c : Char} (h : behind value (c :: rest) = none) :
    replaceFrom value replacement 0 (c :: rest) = c :: replaceFrom value replacement 0 rest := by
  rw [replaceFrom, h]

/-- A text without a dollar sign that is found in front of one ends before it. -/
theorem prefix_of_append_eq {word : List Char} (hvalue : '$' ∉ value)
    (h : word ++ '$' :: rest = value ++ after) :
    ∃ left, word = value ++ left ∧ after = left ++ '$' :: rest := by
  rcases List.append_eq_append_iff.mp h with ⟨more, hmore, hrest⟩ | ⟨left, hleft, hafter⟩
  · cases more with
    | nil => exact ⟨[], by simpa using hmore.symm, by simpa using hrest.symm⟩
    | cons d more =>
      obtain ⟨rfl, _⟩ := List.cons.inj hrest
      exact absurd (hmore ▸ List.mem_append_right _ List.mem_cons_self) hvalue
  · exact ⟨left, hleft, hafter⟩

/-- **Nothing is replaced inside a name** in front of a dollar sign: what is found
there is no path part. -/
theorem replaceFrom_word (hne : value ≠ []) (hvalue : '$' ∉ value) (replacement rest : List Char) :
    ∀ (n : Nat) (word : List Char), word.length = n → (∀ c ∈ word, continuesName c = true) →
      replaceFrom value replacement 0 (word ++ '$' :: rest)
        = word ++ replaceFrom value replacement 0 ('$' :: rest) := by
  intro n
  induction n using Nat.strongRecOn with
  | ind n ih =>
    intro word hlength hword
    cases word with
    | nil => rfl
    | cons c word =>
      rw [List.length_cons] at hlength
      cases hfound : behind value (c :: word ++ '$' :: rest) with
      | none =>
        rw [List.cons_append] at hfound ⊢
        rw [replaceFrom_other hfound, ih word.length (by omega) word rfl
          fun d hd => hword d (List.mem_cons_of_mem _ hd)]
        rfl
      | some after =>
        obtain ⟨left, hleft, rfl⟩ := prefix_of_append_eq hvalue (behind_eq_some hfound)
        have hshorter : left.length < n := by
          have hlen := congrArg List.length hleft
          have hpos := List.length_pos_iff.mpr hne
          rw [List.length_cons, List.length_append] at hlen
          omega
        have hinside : ∀ d ∈ left, continuesName d = true :=
          fun d hd => hword d (hleft ▸ List.mem_append_right _ hd)
        have hlast : value.getLast? ≠ some '/' := by
          intro h
          have hmem : '/' ∈ c :: word := hleft ▸ List.mem_append_left _ (List.mem_of_getLast? h)
          exact (ne_of_continues (hword _ hmem)).2.1 rfl
        have hboundary : atBoundary (left ++ '$' :: rest) = false := by
          cases left with
          | nil => rfl
          | cons d left =>
            obtain ⟨_, hslash, hback⟩ := ne_of_continues (hinside d List.mem_cons_self)
            simp [atBoundary, hslash, hback]
        rw [hleft, List.append_assoc, replaceFrom_found hne, hboundary, Bool.or_false,
          if_neg (by simpa using hlast), ih left.length hshorter left rfl hinside,
          List.append_assoc]

/-- **A reference stays** while other paths are replaced. -/
theorem replaceFrom_reference (hne : value ≠ []) (hvalue : '$' ∉ value) (hname : IsName name)
    (replacement rest : List Char) :
    replaceFrom value replacement 0 ('$' :: name ++ '$' :: rest)
      = '$' :: name ++ '$' :: replaceFrom value replacement 0 rest := by
  have hdollar : ∀ rest, behind value ('$' :: rest) = none := by
    intro rest
    cases value with
    | nil => exact absurd rfl hne
    | cons v value =>
      have hv : v ≠ '$' := fun h => hvalue (h ▸ List.mem_cons_self)
      exact if_neg hv
  rw [List.cons_append, replaceFrom_other (hdollar _),
    replaceFrom_word hne hvalue replacement rest _ name rfl hname.continues,
    replaceFrom_other (hdollar _), List.cons_append]

end Replacing

/-! ## 4. What marking keeps -/

/-- The marks of a text are references to variables, each where a path part
ends. -/
def Marked (table : MacroTable) : List Token → Prop
  | [] => True
  | .plain _ :: ts => Marked table ts
  | .reference name :: ts =>
    (∃ path, get? table (String.ofList name) = some path ∧
      (path.toList.getLast? = some '/' ∨ atBoundary (meant table ts) = true)) ∧ Marked table ts

/-- Characters of the text's own carry no marks. -/
theorem marked_plainly_append (table : MacroTable) (text : List Char) (ts : List Token) :
    Marked table (plainly text ++ ts) ↔ Marked table ts := by
  induction text with
  | nil => exact Iff.rfl
  | cons c text ih => exact ih

/-- Where a path part ends in a marked text as it is written, it ends in the text
that is meant. -/
theorem atBoundary_meant {ts : List Token} (h : atBoundary (written ts) = true) :
    atBoundary (meant table ts) = true := by
  cases ts with
  | nil => rfl
  | cons t ts =>
    cases t with
    | plain c => exact h
    | reference name => exact absurd h (by simp [atBoundary, writtenToken])

theorem markFrom_skip (value name skipped : List Char) (ts : List Token) :
    markFrom value name skipped.length (plainly skipped ++ ts) = markFrom value name 0 ts := by
  induction skipped with
  | nil => rfl
  | cons c skipped ih =>
    have hstep : plainly (c :: skipped) ++ ts = .plain c :: (plainly skipped ++ ts) := rfl
    rw [hstep, List.length_cons, markFrom, ih]

/-- **An occurrence** is marked or passed over whole. -/
theorem markFrom_found {value : List Char} (hvalue : value ≠ []) (name : List Char)
    (after : List Token) :
    markFrom value name 0 (plainly value ++ after)
      = (if value.getLast? = some '/' || atBoundary (written after) then [.reference name]
          else plainly value) ++ markFrom value name 0 after := by
  cases value with
  | nil => exact absurd rfl hvalue
  | cons v value =>
    have hfound := behindPlain_append (v :: value) after
    have hstep : plainly (v :: value) ++ after = .plain v :: (plainly value ++ after) := rfl
    rw [hstep] at hfound ⊢
    rw [markFrom, hfound, List.length_cons, Nat.add_sub_cancel, markFrom_skip]

theorem markFrom_other {value name : List Char} {t : Token} {ts : List Token}
    (h : behindPlain value (t :: ts) = none) :
    markFrom value name 0 (t :: ts) = t :: markFrom value name 0 ts := by
  rw [markFrom, h]

/-- **An induction over the steps of marking**: an occurrence of the path, or a
token that is none. -/
theorem markFrom_induction {value name : List Char} (hvalue : value ≠ [])
    {motive : List Token → List Token → Prop} (nil : motive [] [])
    (found : ∀ after, motive after (markFrom value name 0 after) →
      motive (plainly value ++ after) ((if value.getLast? = some '/' ||
        atBoundary (written after) then [.reference name] else plainly value)
          ++ markFrom value name 0 after))
    (other : ∀ t ts, behindPlain value (t :: ts) = none →
      motive ts (markFrom value name 0 ts) → motive (t :: ts) (t :: markFrom value name 0 ts))
    (ts : List Token) : motive ts (markFrom value name 0 ts) := by
  generalize hn : ts.length = n
  induction n using Nat.strongRecOn generalizing ts with
  | ind n ih =>
    subst hn
    cases ts with
    | nil => exact nil
    | cons t ts =>
      cases hbehind : behindPlain value (t :: ts) with
      | none =>
        rw [markFrom_other hbehind]
        exact other t ts hbehind (ih ts.length (Nat.lt_succ_self _) ts rfl)
      | some after =>
        have hsplit := behindPlain_eq_some hbehind
        have hshorter : after.length < (t :: ts).length := by
          have hpos := List.length_pos_iff.mpr hvalue
          rw [hsplit, List.length_append, plainly, List.length_map]
          omega
        rw [hsplit, markFrom_found hvalue]
        exact found after (ih after.length hshorter after rfl)

/-- **Marking is collapsing**, as far as what is written is concerned. -/
theorem written_markFrom (htable : table.Proper) {value : List Char} (hvalue : value ≠ [])
    (hdollar : '$' ∉ value) (name : List Char) (ts : List Token) (h : Marked table ts) :
    written (markFrom value name 0 ts)
      = replaceFrom value ('$' :: name ++ ['$']) 0 (written ts) := by
  revert h
  refine markFrom_induction (motive := fun ts us => Marked table ts →
    written us = replaceFrom value ('$' :: name ++ ['$']) 0 (written ts)) hvalue
    (fun _ => rfl) (fun after ih h => ?_) (fun t ts hnone ih h => ?_) ts
  · have hafter := ih ((marked_plainly_append table value after).mp h)
    rw [written_append, written_append, written_plainly, replaceFrom_found hvalue, hafter]
    congr 1
    split
    · exact List.append_nil _
    · exact written_plainly value
  · have hbehind := behind_written hdollar (t :: ts)
    rw [hnone, Option.map_none] at hbehind
    cases t with
    | plain c =>
      have hstep : ∀ ts, written (.plain c :: ts) = c :: written ts := fun _ => rfl
      rw [hstep] at hbehind
      rw [hstep, hstep, replaceFrom_other hbehind, ih h]
    | reference m =>
      obtain ⟨⟨path, hpath, _⟩, hts⟩ := h
      have hm : IsName m := by
        have hname := (htable.of_get? hpath).1
        rwa [String.toList_ofList] at hname
      have hstep : ∀ ts, written (.reference m :: ts) = '$' :: m ++ '$' :: written ts :=
        fun ts => by simp [writtenToken]
      rw [hstep, hstep, replaceFrom_reference hvalue hdollar hm, ih hts]

/-- **Marking changes nothing of what is meant**, and puts references where path
parts end. -/
theorem meant_markFrom {name value : String} (hvalue : value.toList ≠ [])
    (hget : get? table name = some value) (ts : List Token) (h : Marked table ts) :
    meant table (markFrom value.toList name.toList 0 ts) = meant table ts ∧
      Marked table (markFrom value.toList name.toList 0 ts) := by
  revert h
  refine markFrom_induction (motive := fun ts us => Marked table ts →
    meant table us = meant table ts ∧ Marked table us) hvalue
    (fun h => ⟨rfl, h⟩) (fun after ih h => ?_) (fun t ts hnone ih h => ?_) ts
  · obtain ⟨hafter, hmarked⟩ := ih ((marked_plainly_append table value.toList after).mp h)
    rw [meant_append, meant_append, hafter, meant_plainly]
    split
    · rename_i hend
      have hreference : meant table [.reference name.toList] = value.toList := by
        simp [expandToken, hget]
      rw [Bool.or_eq_true, decide_eq_true_eq] at hend
      have hend' : value.toList.getLast? = some '/' ∨
          atBoundary (meant table (markFrom value.toList name.toList 0 after)) = true := by
        rw [hafter]
        exact hend.imp_right atBoundary_meant
      exact ⟨by rw [hreference], ⟨value, by rw [String.ofList_toList, hget], hend'⟩, hmarked⟩
    · refine ⟨by rw [meant_plainly], ?_⟩
      exact (marked_plainly_append table value.toList _).mpr hmarked
  · cases t with
    | plain c =>
      obtain ⟨hmeant, hmarked⟩ := ih h
      exact ⟨by rw [meant_cons, meant_cons, hmeant], hmarked⟩
    | reference m =>
      obtain ⟨⟨path, hpath, hend⟩, hts⟩ := h
      obtain ⟨hmeant, hmarked⟩ := ih hts
      exact ⟨by rw [meant_cons, meant_cons, hmeant], ⟨path, hpath, hmeant ▸ hend⟩, hmarked⟩

/-- **The marked text** is written as the collapsed one and means the text
itself. -/
theorem marked_spec (htable : table.Proper) (text : String) :
    Marked table (marked table text.toList) ∧
      written (marked table text.toList) = (collapse table text).toList ∧
      meant table (marked table text.toList) = text.toList := by
  -- The same for any variables of the table, and any marked text to begin with.
  suffices h : ∀ (entries : List (String × String)) (ts : List Token),
      (∀ e ∈ entries, e ∈ table) → Marked table ts →
      let us := entries.foldl (fun ts e => markFrom e.2.toList e.1.toList 0 ts) ts
      Marked table us ∧ meant table us = meant table ts ∧
        written us = entries.foldl
          (fun text e => replaceFrom e.2.toList (reference e.1) 0 text) (written ts) by
    obtain ⟨hmarked, hmeant, hwritten⟩ := h (inOrder table) (plainly text.toList)
      (fun e he => mem_inOrder.mp he) (by
        rw [← List.append_nil (plainly text.toList), marked_plainly_append]
        trivial)
    rw [meant_plainly] at hmeant
    rw [written_plainly] at hwritten
    refine ⟨hmarked, hwritten.trans ?_, hmeant⟩
    rw [collapse, String.toList_ofList]
  intro entries
  induction entries with
  | nil => exact fun ts _ hts => ⟨hts, rfl, rfl⟩
  | cons e entries ih =>
    intro ts hentries hts
    have he : e ∈ table := hentries e List.mem_cons_self
    obtain ⟨hne, hdollar⟩ := htable.path e he
    obtain ⟨hmeant, hmarked⟩ := meant_markFrom hne (htable.sorted.get?_of_mem he) ts hts
    have hwritten := written_markFrom htable hne hdollar e.1.toList ts hts
    obtain ⟨hmarked', hmeant', hwritten'⟩ :=
      ih _ (fun x hx => hentries x (List.mem_cons_of_mem _ hx)) hmarked
    refine ⟨hmarked', hmeant'.trans hmeant, ?_⟩
    rw [hwritten] at hwritten'
    exact hwritten'

/-! ## 5. Clean texts -/

/-- Whether no mark stands behind an open name. -/
def cleanFrom : Option (List Char) → List Token → Bool
  | _, [] => true
  | open?, .plain c :: ts => cleanFrom (advance open? c).2 ts
  | open?, .reference _ :: ts => (open? = none || open? = some []) && cleanFrom none ts

/-- **Whether a text is clean**: collapsing it puts no reference behind a dollar
sign of its own with a name behind it. -/
def clean (table : MacroTable) (text : String) : Bool :=
  cleanFrom none (marked table text.toList)

/-- A reference to a variable behind an open name is not seen. -/
theorem expandFrom_hidden (htable : table.Proper) (hseen : seen ≠ [])
    (hpath : path ≠ [] ∧ '$' ∉ path) (left right : List Char) :
    expandFrom table (some seen) ('$' :: left) ≠ '$' :: seen.reverse ++ path ++ right := by
  have hadvance : advance (some seen) '$' = ([.reference seen.reverse], none) := by
    simp [advance, hseen]
  obtain ⟨c, path', rfl⟩ := List.exists_cons_of_ne_nil hpath.1
  have hc : '$' ≠ c := fun h => hpath.2 (h ▸ List.mem_cons_self)
  rw [expandFrom_cons, hadvance, meant_cons, expandToken]
  intro heq
  split at heq
  · -- The name is that of a variable: what comes out begins with its path.
    rename_i other hother
    obtain ⟨_, hne, hdollar⟩ := htable.of_get? hother
    obtain ⟨d, other', hd⟩ := List.exists_cons_of_ne_nil hne
    rw [hd] at heq hdollar
    obtain ⟨rfl, _⟩ := List.cons.inj heq
    exact hdollar List.mem_cons_self
  · -- It is not: what comes out goes on with a dollar sign behind the name.
    simp only [meant_nil, List.append_nil, List.cons_append, List.append_assoc, List.nil_append,
      List.cons.injEq, true_and, List.append_cancel_left_eq] at heq
    exact hc heq.1

/-- **A marked text is expanded to what it means** exactly when it is clean. -/
theorem expandFrom_written_iff (htable : table.Proper) (ts : List Token)
    (open? : Option (List Char)) (h : Marked table ts) :
    expandFrom table open? (written ts) = expandFrom table open? (meant table ts) ↔
      cleanFrom open? ts = true := by
  induction ts generalizing open? with
  | nil => exact ⟨fun _ => rfl, fun _ => rfl⟩
  | cons t ts ih =>
    cases t with
    | plain c =>
      have hwritten : written (.plain c :: ts) = c :: written ts := rfl
      have hmeant : meant table (.plain c :: ts) = c :: meant table ts := rfl
      rw [hwritten, hmeant, expandFrom_cons, expandFrom_cons table open? c (meant table ts),
        cleanFrom, ← ih _ h, List.append_cancel_left_eq]
    | reference name =>
      obtain ⟨⟨path, hget, hend⟩, hts⟩ := h
      obtain ⟨hname, hne, hdollar⟩ := htable.of_get? hget
      rw [String.toList_ofList] at hname
      have hwritten : written (.reference name :: ts) = '$' :: (name ++ '$' :: written ts) := by
        simp [writtenToken]
      have hmeant : meant table (.reference name :: ts) = path.toList ++ meant table ts := by
        rw [meant_cons, expandToken, hget]
      have hseen : expandFrom table (some []) (name ++ '$' :: written ts)
          = path.toList ++ expandFrom table none (written ts) := by
        rw [expandFrom, scan_reference hname, meant_cons, expandToken, hget]
        rfl
      rw [hwritten, hmeant]
      cases open? with
      | none =>
        have hadvance : advance none '$' = ([], some []) := rfl
        rw [expandFrom_cons, hadvance, meant_nil, List.nil_append, hseen,
          expandFrom_plain hdollar, List.append_cancel_left_eq, cleanFrom, ih none hts]
        simp
      | some seen =>
        cases seen with
        | nil =>
          have hadvance : advance (some []) '$' = ([.plain '$'], some []) := rfl
          rw [expandFrom_cons, hadvance, hseen, expandFrom_open hdollar hend, cleanFrom]
          simp only [meant_cons, meant_nil, expandToken, List.append_nil, List.reverse_nil,
            List.cons_append, List.nil_append, List.cons.injEq, true_and,
            List.append_cancel_left_eq, ih none hts]
          simp
        | cons c seen =>
          rw [expandFrom_open hdollar hend, cleanFrom]
          refine iff_of_false ?_ (by simp)
          exact expandFrom_hidden htable (List.cons_ne_nil _ _) ⟨hne, hdollar⟩ _ _

/-- **Clean texts are the ones that come back.** A text that is collapsed and
expanded is the text expanded at once exactly when it is clean. -/
theorem expand_collapse_iff (htable : table.Proper) (text : String) :
    expand table (collapse table text) = expand table text ↔ table.clean text = true := by
  obtain ⟨hmarked, hwritten, hmeant⟩ := marked_spec htable text
  have h := expandFrom_written_iff htable (marked table text.toList) none hmarked
  rw [hwritten, hmeant] at h
  rw [expand_eq, expand_eq, clean, ← h]
  exact ⟨fun heq => String.ofList_injective heq, fun heq => congrArg _ heq⟩

/-- Only dollar signs of the text's own can be in the way. -/
theorem clean_of_no_dollar (htable : table.Proper) {text : String} (h : '$' ∉ text.toList) :
    table.clean text = true := by
  obtain ⟨_, _, hmeant⟩ := marked_spec htable text
  suffices hts : ∀ ts : List Token, '$' ∉ meant table ts → cleanFrom none ts = true by
    refine hts _ ?_
    rw [hmeant]
    exact h
  intro ts
  induction ts with
  | nil => exact fun _ => rfl
  | cons t ts ih =>
    intro hnot
    rw [meant_cons, List.mem_append, not_or] at hnot
    cases t with
    | plain c =>
      have hc : c ≠ '$' := fun hc => hnot.1 (List.mem_singleton.mpr hc.symm)
      have hadvance : advance none c = ([.plain c], none) := if_neg hc
      rw [cleanFrom, hadvance]
      exact ih hnot.2
    | reference name =>
      rw [cleanFrom, ih hnot.2]
      rfl

/-- A text without a dollar sign has no references. -/
theorem expand_of_no_dollar (table : MacroTable) {text : String} (h : '$' ∉ text.toList) :
    table.expand text = text := by
  have hplain : expandFrom table none text.toList = text.toList := by
    have hrest : expandFrom table none (text.toList ++ []) = text.toList ++ [] :=
      expandFrom_plain h []
    rwa [List.append_nil] at hrest
  rw [expand_eq, hplain, String.ofList_toList]

/-- **A text without a dollar sign comes back as it was.** -/
theorem expand_collapse_of_no_dollar (htable : table.Proper) {text : String}
    (h : '$' ∉ text.toList) : expand table (collapse table text) = text :=
  ((expand_collapse_iff htable text).mpr (clean_of_no_dollar htable h)).trans
    (expand_of_no_dollar table h)

/-- A dollar sign with a name in front of a path is in the way, and one that is not
followed by a name is not. -/
example :
    clean [("X", "/p")] "$A/p" = false ∧ clean [("X", "/p")] "$/p" = true ∧
      clean [("X", "/p")] "$A /p" = true := by decide

end MacroTable

/-! ## 6. Whole values -/

namespace Json

variable {f g : String → String}

mutual

/-- **Two ways to replace strings agree on a value** when they agree on its
strings. -/
theorem mapStrings_eq_iff : ∀ v : Json,
    v.mapStrings f = v.mapStrings g ↔ ∀ t ∈ v.strings, f t = g t
  | null => by simp [mapStrings, strings]
  | bool b => by simp [mapStrings, strings]
  | integer n => by simp [mapStrings, strings]
  | float x => by simp [mapStrings, strings]
  | string t => by simp [mapStrings, strings]
  | array items => by
    rw [mapStrings, mapStrings, strings, array.injEq]
    exact mapStringsItems_eq_iff items
  | object fields => by
    rw [mapStrings, mapStrings, strings, object.injEq]
    exact mapStringsFields_eq_iff fields

theorem mapStringsItems_eq_iff : ∀ vs : List Json,
    mapStringsItems f vs = mapStringsItems g vs ↔ ∀ t ∈ stringsOfItems vs, f t = g t
  | [] => by simp [mapStringsItems, stringsOfItems]
  | v :: vs => by
    rw [mapStringsItems, mapStringsItems, stringsOfItems, List.cons.injEq, List.forall_mem_append,
      mapStrings_eq_iff v, mapStringsItems_eq_iff vs]

theorem mapStringsFields_eq_iff : ∀ fs : List (String × Json),
    mapStringsFields f fs = mapStringsFields g fs ↔ ∀ t ∈ stringsOfFields fs, f t = g t
  | [] => by simp [mapStringsFields, stringsOfFields]
  | (k, v) :: fs => by
    rw [mapStringsFields, mapStringsFields, stringsOfFields, List.cons.injEq,
      List.forall_mem_append, mapStringsFields_eq_iff fs, Prod.mk.injEq, mapStrings_eq_iff v]
    simp only [true_and]

end

mutual

/-- Replacing strings twice is replacing them once. -/
theorem mapStrings_mapStrings : ∀ v : Json, (v.mapStrings g).mapStrings f = v.mapStrings (f ∘ g)
  | null => rfl
  | bool _ => rfl
  | integer _ => rfl
  | float _ => rfl
  | string _ => rfl
  | array items => by
    rw [mapStrings, mapStrings, mapStrings, mapStringsItems_mapStringsItems items]
  | object fields => by
    rw [mapStrings, mapStrings, mapStrings, mapStringsFields_mapStringsFields fields]

theorem mapStringsItems_mapStringsItems : ∀ vs : List Json,
    mapStringsItems f (mapStringsItems g vs) = mapStringsItems (f ∘ g) vs
  | [] => rfl
  | v :: vs => by
    rw [mapStringsItems, mapStringsItems, mapStringsItems, mapStrings_mapStrings v,
      mapStringsItems_mapStringsItems vs]

theorem mapStringsFields_mapStringsFields : ∀ fs : List (String × Json),
    mapStringsFields f (mapStringsFields g fs) = mapStringsFields (f ∘ g) fs
  | [] => rfl
  | (k, v) :: fs => by
    rw [mapStringsFields, mapStringsFields, mapStringsFields, mapStrings_mapStrings v,
      mapStringsFields_mapStringsFields fs]

end

end Json

/-- **A value comes back** from being collapsed and expanded exactly when its
strings are clean. -/
theorem MacroTable.expandValue_collapseValue_iff {table : MacroTable} (htable : table.Proper)
    (v : Json) : table.expandValue (table.collapseValue v) = table.expandValue v ↔
      ∀ t ∈ v.strings, table.clean t = true := by
  rw [expandValue, collapseValue, Json.mapStrings_mapStrings, expandValue, Json.mapStrings_eq_iff]
  exact forall₂_congr fun t _ => expand_collapse_iff htable t

end ScopedState
