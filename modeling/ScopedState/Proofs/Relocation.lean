/-
`Proofs/Relocation.lean` -- persisted paths, read in another place.

A module of a project has two variables, for its own directory and for that of
the project. A path below the project is collapsed with the variables of one
place and may be expanded with those of another. It is the path there if the
directory of the project was replaced in front, and nothing else was. But
collapsing looks for a directory anywhere in a text and only checks where the
occurrence ends. A directory that comes again further inside is replaced as
well, and moves along.

The argument goes by tokens. A collapsed path is a list of references and plain
characters, which says the path here with the paths of this place put in
(`exists_tokens`), and another path with those of the other. Now let the other
place vary. A reference that is not in front shows when the project there is
longer than all that was plain before the reference, and a second reference
makes the whole longer than a path below the project can be. So the path is
relocated everywhere exactly when one reference stands in front of plain
characters (`relocated_iff`).
-/
import ScopedState.Proofs.Macros.Plain
set_option autoImplicit false

namespace ScopedState

open Bindings (Sorted get?)

namespace MacroTable

/-! ## 1. Directories -/

/-- A name in a normalised path without a dollar sign. -/
def PlainName (name : List Char) : Prop :=
  name ≠ [] ∧ name ≠ ['.'] ∧ name ≠ ['.', '.'] ∧ '/' ∉ name ∧ '$' ∉ name

instance (name : List Char) : Decidable (PlainName name) :=
  inferInstanceAs (Decidable (name ≠ [] ∧ name ≠ ['.'] ∧ name ≠ ['.', '.'] ∧ '/' ∉ name ∧ '$' ∉ name))

/-- The directory of a project: absolute, normalised, not the root, and without a
dollar sign. -/
def ProjectDir (p : Path) : Prop :=
  ∃ names : List (List Char), names ≠ [] ∧ (∀ name ∈ names, PlainName name) ∧
    p.text.toList = names.flatMap fun name => '/' :: name

/-- The variables of a module of a project. -/
def moduleTable (project module : Path) : MacroTable :=
  (forScope (project.join module)).define projectDir project

/-- A text without the slashes at its end. -/
def trimEnd (text : List Char) : List Char := (text.reverse.dropWhile (· = '/')).reverse

/-- What the directory of a module adds to that of the project. -/
def below (module : Path) : List Char := trimEnd ('/' :: module.text.toList)

/-- What is put in front of slashes at an end that is no slash stays. -/
theorem trimEnd_append {front : List Char} (hfront : front.getLast? ≠ some '/')
    (text : List Char) : trimEnd (front ++ text) = front ++ trimEnd text := by
  have hwhole : front.reverse.dropWhile (· = '/') = front.reverse := by
    cases hrev : front.reverse with
    | nil => rfl
    | cons c rest =>
      have hc : c ≠ '/' := by
        rintro rfl
        refine hfront ?_
        rw [← List.head?_reverse, hrev]
        rfl
      exact List.dropWhile_cons_of_neg (by simpa using hc)
  rw [trimEnd, trimEnd, List.reverse_append, List.dropWhile_append]
  split
  · rename_i hnil
    rw [List.isEmpty_iff.mp hnil, hwhole, List.reverse_reverse, List.reverse_nil, List.append_nil]
  · rw [List.reverse_append, List.reverse_reverse]

namespace ProjectDir

variable {p : Path}

theorem starts (h : ProjectDir p) : ∃ rest, p.text.toList = '/' :: rest := by
  obtain ⟨names, hne, _, htext⟩ := h
  obtain ⟨name, names, rfl⟩ := List.exists_cons_of_ne_nil hne
  exact ⟨_, htext⟩

theorem no_dollar (h : ProjectDir p) : '$' ∉ p.text.toList := by
  obtain ⟨names, _, hnames, htext⟩ := h
  rw [htext, List.mem_flatMap]
  rintro ⟨name, hname, hmem⟩
  rcases List.mem_cons.mp hmem with hslash | hmem
  · exact absurd hslash (by decide)
  · exact (hnames name hname).2.2.2.2 hmem

/-- The last character is one of the last name. -/
theorem ends (h : ProjectDir p) : p.text.toList.getLast? ≠ some '/' := by
  obtain ⟨names, hne, hnames, htext⟩ := h
  obtain ⟨front, name, rfl⟩ := List.eq_nil_or_concat names |>.resolve_left hne
  obtain ⟨hname, _, _, hslash, _⟩ := hnames name (by simp)
  have hlast : p.text.toList.getLast? = name.getLast? := by
    rw [htext, List.concat_eq_append, List.flatMap_append, List.flatMap_singleton,
      List.getLast?_append_of_ne_nil _ (List.cons_ne_nil _ _), List.getLast?_cons_of_ne_nil hname]
  rw [hlast]
  intro h
  exact hslash (List.mem_of_getLast? h)

/-- A project that is as long as one likes. -/
theorem long (n : Nat) : ProjectDir ⟨String.ofList ('/' :: List.replicate (n + 1) 'x')⟩ := by
  refine ⟨[List.replicate (n + 1) 'x'], List.cons_ne_nil _ _, fun name hname => ?_, by simp⟩
  rw [List.mem_singleton.mp hname]
  refine ⟨by simp, ?_, ?_, ?_, ?_⟩
  · simp [List.replicate_succ]
  · simp [List.replicate_succ]
  · simp [List.mem_replicate]
  · simp [List.mem_replicate]

end ProjectDir

/-! ## 2. The variables of a module -/

section Table

variable {p m : Path}

/-- **The table of a module**: the project, and the module below it. -/
theorem moduleTable_eq (hp : ProjectDir p) (hm : m.isAbsolute = false) :
    moduleTable p m =
      [(projectDir, p.text), (scopeDir, String.ofList (p.text.toList ++ below m))] := by
  have hne : p.text.toList ≠ [] := by
    obtain ⟨rest, hrest⟩ := hp.starts
    rw [hrest]
    exact List.cons_ne_nil _ _
  -- Taking slashes off the end leaves the project as it is.
  have htrimmed : ∀ (text : List Char) (q : Path), q.text.toList = p.text.toList ++ text →
      q.trimmed = String.ofList (p.text.toList ++ trimEnd text) := by
    intro text q hq
    have hkept : (q.text.toList.reverse.dropWhile (· = '/')).reverse
        = p.text.toList ++ trimEnd text := by
      rw [hq]
      exact trimEnd_append hp.ends text
    rw [Path.trimmed, hkept, if_neg]
    simp [hne]
  have hjoin : (p.join m).text.toList = p.text.toList ++ '/' :: m.text.toList := by
    have hopen : (p.text.isEmpty || decide (p.text.toList.getLast? = some '/')) = false := by
      rw [decide_eq_false hp.ends, Bool.or_false]
      simpa using hne
    rw [Path.join, hm, if_neg Bool.false_ne_true, hopen, if_neg Bool.false_ne_true]
    simp
  have hproject : p.trimmed = p.text := by
    have h := htrimmed [] p (List.append_nil _).symm
    rw [h]
    simp [trimEnd]
  have hmodule := htrimmed _ _ hjoin
  rw [moduleTable, forScope, define, define, hproject, hmodule]
  rfl

/-- One of the two names. -/
def Known (name : List Char) : Prop := name = projectDir.toList ∨ name = scopeDir.toList

/-- What a variable adds to the directory of the project. -/
def added (m : Path) (name : List Char) : List Char :=
  if name = projectDir.toList then [] else below m

/-- **A reference** is replaced by the project and what the variable adds. -/
theorem expandToken_known (hp : ProjectDir p) (hm : m.isAbsolute = false) {name : List Char}
    (hname : Known name) :
    expandToken (moduleTable p m) (.reference name) = p.text.toList ++ added m name := by
  rw [moduleTable_eq hp hm, expandToken, added]
  rcases hname with rfl | rfl
  · rw [String.ofList_toList, get?, if_pos rfl, if_pos rfl, List.append_nil]
  · have hother : scopeDir ≠ projectDir := by decide
    rw [String.ofList_toList, get?, if_neg hother, get?, if_pos rfl, if_neg (by decide)]
    exact String.toList_ofList

end Table

/-! ## 3. Collapsed paths as tokens -/

section Tokens

variable {ts : List Token}

/-- Characters that are no dollar signs, and references to the two variables. -/
def Clear : List Token → Prop
  | [] => True
  | .plain c :: ts => c ≠ '$' ∧ Clear ts
  | .reference name :: ts => Known name ∧ Clear ts

theorem isName_of_known {name : List Char} (h : Known name) : IsName name := by
  rcases h with rfl | rfl <;> decide

theorem legible_of_clear (h : Clear ts) : Legible ts := by
  induction ts with
  | nil => exact fun _ ht => absurd ht List.not_mem_nil
  | cons t ts ih =>
    cases t with
    | plain c => exact legible_cons.mpr ⟨h.1, ih h.2⟩
    | reference name => exact legible_cons.mpr ⟨isName_of_known h.1, ih h.2⟩

/-- **Expanding** a collapsed path is a matter of its tokens. -/
theorem expand_of_written (h : Clear ts) {text : String} (htext : text.toList = written ts)
    (table : MacroTable) : (expand table text).toList = meant table ts := by
  rw [expand_eq, String.toList_ofList, htext, expandFrom,
    scan_written_of_legible (legible_of_clear h)]

/-- Marks are clear in a text without dollar signs. -/
theorem clear_of_marked {table : MacroTable}
    (htable : ∀ name path, get? table name = some path → Known name.toList)
    (h : Marked table ts) (hdollar : '$' ∉ meant table ts) : Clear ts := by
  induction ts with
  | nil => trivial
  | cons t ts ih =>
    rw [meant_cons, List.mem_append, not_or] at hdollar
    cases t with
    | plain c => exact ⟨fun hc => hdollar.1 (hc ▸ List.mem_singleton.mpr rfl), ih h hdollar.2⟩
    | reference name =>
      obtain ⟨⟨path, hget, _⟩, hts⟩ := h
      have hknown := htable _ _ hget
      rw [String.toList_ofList] at hknown
      exact ⟨hknown, ih hts hdollar.2⟩

/-- Marks mean the same in a table that knows more. -/
theorem meant_of_marked {table larger : MacroTable}
    (hlarger : ∀ name path, get? table name = some path → get? larger name = some path)
    (h : Marked table ts) : meant larger ts = meant table ts := by
  induction ts with
  | nil => rfl
  | cons t ts ih =>
    cases t with
    | plain c =>
      rw [meant_cons, meant_cons, ih h]
      rfl
    | reference name =>
      obtain ⟨⟨path, hget, _⟩, hts⟩ := h
      rw [meant_cons, meant_cons, ih hts, expandToken, expandToken, hget, hlarger _ _ hget]

end Tokens

/-! ## 4. Occurrences -/

section Occurrences

variable {value replacement text : List Char}

/-- A path occurs in a text behind `before`, and a path part ends with it. -/
def Occurs (value before text : List Char) : Prop :=
  ∃ after, text = before ++ value ++ after ∧
    (value.getLast? = some '/' || atBoundary after) = true

/-- What occurs further inside occurs in the whole text. -/
theorem Occurs.behind {before rest : List Char} (h : Occurs value before rest)
    (front : List Char) : Occurs value (front ++ before) (front ++ rest) := by
  obtain ⟨after, rfl, hend⟩ := h
  exact ⟨after, by simp, hend⟩

/-- **What does not occur is not replaced.** -/
theorem replaceFrom_eq_self (hvalue : value ≠ []) (h : ∀ before, ¬ Occurs value before text) :
    replaceFrom value replacement 0 text = text := by
  generalize hn : text.length = n
  induction n using Nat.strongRecOn generalizing text with
  | ind n ih =>
    subst hn
    cases text with
    | nil => rfl
    | cons c rest =>
      have hrest : ∀ front rest', c :: rest = front ++ rest' → front ≠ [] →
          replaceFrom value replacement 0 rest' = rest' := by
        intro front rest' hsplit hfront
        refine ih rest'.length ?_ (fun before hoccurs => h (front ++ before) ?_) rfl
        · have hlength := congrArg List.length hsplit
          have hpos := List.length_pos_iff.mpr hfront
          rw [List.length_append] at hlength
          omega
        · rw [hsplit]
          exact hoccurs.behind front
      cases hbehind : MacroTable.behind value (c :: rest) with
      | none =>
        rw [replaceFrom_other hbehind, hrest [c] rest rfl (List.cons_ne_nil _ _)]
      | some after =>
        have hsplit := behind_eq_some hbehind
        have hend : ¬ (value.getLast? = some '/' || atBoundary after) = true := by
          intro hend
          exact h [] ⟨after, by simpa using hsplit, by simpa using hend⟩
        rw [hsplit, replaceFrom_found hvalue, if_neg hend, hrest value after hsplit hvalue]

/-- **What occurs in front only** is replaced there, or nothing is. -/
theorem replaceFrom_front (hvalue : value ≠ [])
    (h : ∀ before, Occurs value before text → before = []) :
    (∃ after, text = value ++ after ∧
        replaceFrom value replacement 0 text = replacement ++ after) ∨
      (¬ Occurs value [] text ∧ replaceFrom value replacement 0 text = text) := by
  by_cases hfront : Occurs value [] text
  · obtain ⟨after, htext, hend⟩ := hfront
    rw [List.nil_append] at htext
    refine Or.inl ⟨after, htext, ?_⟩
    have hafter : ∀ before, ¬ Occurs value before after := by
      intro before hoccurs
      have hnil := h (value ++ before) (htext ▸ hoccurs.behind value)
      exact hvalue (List.append_eq_nil_iff.mp hnil).1
    rw [htext, replaceFrom_found hvalue, if_pos hend, replaceFrom_eq_self hvalue hafter]
  · refine Or.inr ⟨hfront, replaceFrom_eq_self hvalue fun before hoccurs => hfront ?_⟩
    rw [← h before hoccurs]
    exact hoccurs

/-- **Two paths in turn.** When both occur in front only, and one of them does, that
one is replaced, and the other one is not found any more. -/
theorem replaceFrom_twice {first second : List Char} {name₁ : String} (name₂ : String)
    (hfirst : first ≠ []) (hsecond : second ≠ [] ∧ '$' ∉ second) (hname : IsName name₁.toList)
    (hfront₁ : ∀ before, Occurs first before text → before = [])
    (hfront₂ : ∀ before, Occurs second before text → before = [])
    (hoccurs : Occurs first [] text ∨ Occurs second [] text) :
    ∃ name after, (name = name₁ ∧ text = first ++ after ∨ name = name₂ ∧ text = second ++ after) ∧
      replaceFrom second (reference name₂) 0 (replaceFrom first (reference name₁) 0 text)
        = reference name ++ after := by
  rcases replaceFrom_front hfirst hfront₁ with
    ⟨after, htext, hreplaced⟩ | ⟨hnot, hreplaced⟩
  · have hafter : ∀ before, ¬ Occurs second before after := by
      intro before h
      have hnil := hfront₂ (first ++ before) (htext ▸ h.behind first)
      exact hfirst (List.append_eq_nil_iff.mp hnil).1
    have hreference : reference name₁ ++ after = '$' :: name₁.toList ++ '$' :: after := by
      simp [reference]
    refine ⟨name₁, after, Or.inl ⟨rfl, htext⟩, ?_⟩
    rw [hreplaced, hreference, replaceFrom_reference hsecond.1 hsecond.2 hname,
      replaceFrom_eq_self hsecond.1 hafter]
  · rw [hreplaced]
    rcases replaceFrom_front hsecond.1 hfront₂ with
      ⟨after, htext, hreplaced⟩ | ⟨hnot', _⟩
    · exact ⟨name₂, after, Or.inr ⟨rfl, htext⟩, hreplaced⟩
    · exact absurd (hoccurs.resolve_left hnot) hnot'

end Occurrences

/-! ## 5. The tokens of a collapsed path -/

section Collapsing

variable {p m : Path} {text : String}

/-- The two paths of a module. -/
theorem paths_of_module (hp : ProjectDir p) :
    p.text.toList ≠ [] ∧ p.text.toList ++ below m ≠ [] := by
  obtain ⟨rest, hrest⟩ := hp.starts
  rw [hrest]
  exact ⟨List.cons_ne_nil _ _, List.cons_ne_nil _ _⟩

/-- **The order of collapsing**: the module first, unless it is the project. -/
theorem inOrder_moduleTable (hp : ProjectDir p) (hm : m.isAbsolute = false) :
    inOrder (moduleTable p m) =
      if below m = [] then
        [(projectDir, p.text), (scopeDir, String.ofList (p.text.toList ++ below m))]
      else [(scopeDir, String.ofList (p.text.toList ++ below m)), (projectDir, p.text)] := by
  have hsize : (String.ofList (p.text.toList ++ below m)).utf8ByteSize
      = p.text.utf8ByteSize + (String.ofList (below m)).utf8ByteSize := by
    rw [String.ofList_append, String.ofList_toList, String.utf8ByteSize_append]
  have hschedule : ∀ a b : String × String,
      inOrder [a, b] = if collapsesBefore a b then [a, b] else [b, a] := fun _ _ => rfl
  rw [moduleTable_eq hp hm, hschedule]
  by_cases hbelow : below m = []
  · have hfirst : collapsesBefore (projectDir, p.text)
        (scopeDir, String.ofList (p.text.toList ++ below m)) = true := by
      have hname : projectDir ≤ scopeDir := by decide
      have hempty : (String.ofList []).utf8ByteSize = 0 := rfl
      rw [collapsesBefore, hsize, hbelow, hempty]
      simp [hname]
    rw [if_pos hfirst, if_pos hbelow]
  · have hlonger : 0 < (String.ofList (below m)).utf8ByteSize := by
      rw [Nat.pos_iff_ne_zero]
      simp [hbelow]
    have hsecond : collapsesBefore (projectDir, p.text)
        (scopeDir, String.ofList (p.text.toList ++ below m)) = false := by
      rw [collapsesBefore, hsize]
      simp only [Bool.or_eq_false_iff, Bool.and_eq_false_iff, decide_eq_false_iff_not]
      exact ⟨by omega, Or.inl (by omega)⟩
    rw [hsecond, if_neg Bool.false_ne_true, if_neg hbelow]

/-- A path that holds a dollar sign does not occur in a text without one. -/
theorem not_occurs_of_dollar {value : List Char} (hvalue : '$' ∈ value)
    (htext : '$' ∉ text.toList) (before : List Char) : ¬ Occurs value before text.toList := by
  rintro ⟨after, hsplit, _⟩
  refine htext ?_
  rw [hsplit]
  exact List.mem_append_left _ (List.mem_append_right _ hvalue)

/-- The variables of a module whose directory holds no dollar sign. -/
theorem proper_moduleTable (hp : ProjectDir p) (hm : m.isAbsolute = false)
    (hbelow : '$' ∉ below m) : (moduleTable p m).Proper := by
  obtain ⟨hproject, hmodule⟩ := paths_of_module (m := m) hp
  rw [moduleTable_eq hp hm]
  refine ⟨?_, ?_, ?_⟩
  · refine List.pairwise_cons.mpr ⟨fun e he => ?_, List.pairwise_singleton _ _⟩
    rw [List.mem_singleton.mp he]
    exact (by decide : projectDir < scopeDir)
  · simp only [List.mem_cons, List.not_mem_nil, or_false, forall_eq_or_imp, forall_eq]
    exact ⟨isName_of_known (Or.inl rfl), isName_of_known (Or.inr rfl)⟩
  · simp only [List.mem_cons, List.not_mem_nil, or_false, forall_eq_or_imp, forall_eq,
      String.toList_ofList, List.mem_append, not_or]
    exact ⟨⟨hproject, hp.no_dollar⟩, hmodule, hp.no_dollar, hbelow⟩

/-- Only the two variables are known. -/
theorem known_of_get? (hp : ProjectDir p) (hm : m.isAbsolute = false) {name path : String}
    (h : get? (moduleTable p m) name = some path) : Known name.toList := by
  rw [moduleTable_eq hp hm, get?] at h
  split at h
  · rename_i hname
    exact Or.inl (congrArg String.toList hname)
  · rw [get?] at h
    split at h
    · rename_i hname
      exact Or.inr (congrArg String.toList hname)
    · cases h

/-- **A collapsed path is a list of tokens** that says the path with the variables
of its place. -/
theorem exists_tokens (hp : ProjectDir p) (hm : m.isAbsolute = false)
    (htext : '$' ∉ text.toList) :
    ∃ ts, Clear ts ∧ (collapse (moduleTable p m) text).toList = written ts ∧
      meant (moduleTable p m) ts = text.toList := by
  -- The table, or what counts of it, is proper.
  obtain ⟨table, hproper, hcollapse, hlarger⟩ : ∃ table : MacroTable, table.Proper ∧
      collapse (moduleTable p m) text = collapse table text ∧
      ∀ name path, get? table name = some path →
        get? (moduleTable p m) name = some path := by
    by_cases hbelow : '$' ∈ below m
    · -- The module has a dollar sign, so it is looked for first, and not found.
      refine ⟨[(projectDir, p.text)], ⟨List.pairwise_singleton _ _, ?_, ?_⟩, ?_, ?_⟩
      · simp only [List.mem_singleton, forall_eq]
        exact isName_of_known (Or.inl rfl)
      · simp only [List.mem_singleton, forall_eq]
        exact ⟨(paths_of_module (m := m) hp).1, hp.no_dollar⟩
      · have hne : below m ≠ [] := List.ne_nil_of_mem hbelow
        have hmodule : '$' ∈ (String.ofList (p.text.toList ++ below m)).toList := by
          rw [String.toList_ofList]
          exact List.mem_append_right _ hbelow
        have habsent : replaceFrom _ (reference scopeDir) 0 _ = _ := replaceFrom_eq_self
          (List.ne_nil_of_mem hmodule) (not_occurs_of_dollar hmodule htext)
        have honly : inOrder [(projectDir, p.text)] = [(projectDir, p.text)] := rfl
        rw [collapse, inOrder_moduleTable hp hm, if_neg hne, List.foldl_cons, habsent, collapse,
          honly]
      · intro name path hget
        rw [moduleTable_eq hp hm, get?]
        rw [get?] at hget
        split at hget
        · rename_i hname
          rw [if_pos hname]
          exact hget
        · cases hget
    · exact ⟨_, proper_moduleTable hp hm hbelow, rfl, fun _ _ h => h⟩
  obtain ⟨hmarked, hwritten, hmeant⟩ := marked_spec hproper text
  refine ⟨marked table text.toList, ?_, ?_, ?_⟩
  · refine clear_of_marked (fun name path h => known_of_get? hp hm (hlarger _ _ h)) hmarked ?_
    rw [hmeant]
    exact htext
  · rw [hcollapse, hwritten]
  · rw [meant_of_marked hlarger hmarked, hmeant]

end Collapsing

/-! ## 6. Another place -/

section Relocating

variable {p q m : Path} {ts : List Token}

/-- Plain tokens in front of what begins with a reference. -/
theorem split_plain (ts : List Token) :
    ∃ front, ts = plainly front ∨ ∃ name rest, ts = plainly front ++ .reference name :: rest := by
  induction ts with
  | nil => exact ⟨[], Or.inl rfl⟩
  | cons t ts ih =>
    cases t with
    | reference name => exact ⟨[], Or.inr ⟨name, ts, rfl⟩⟩
    | plain c =>
      obtain ⟨front, hplain | ⟨name, rest, hsplit⟩⟩ := ih
      · exact ⟨c :: front, Or.inl (by rw [hplain]; rfl)⟩
      · exact ⟨c :: front, Or.inr ⟨name, rest, by rw [hsplit]; rfl⟩⟩

theorem clear_plainly_append {front : List Char} :
    Clear (plainly front ++ ts) ↔ '$' ∉ front ∧ Clear ts := by
  induction front with
  | nil => simp [plainly]
  | cons c front ih =>
    have hstep : plainly (c :: front) ++ ts = .plain c :: (plainly front ++ ts) := rfl
    rw [hstep, Clear, ih, List.mem_cons, not_or, and_assoc]
    exact and_congr_left' ne_comm

/-- **What is relocated everywhere** is one reference in front of plain
characters. -/
theorem tokens_of_relocated (hm : m.isAbsolute = false) (hclear : Clear ts) {rest : List Char}
    (h : ∀ q, ProjectDir q → meant (moduleTable q m) ts = q.text.toList ++ rest) :
    ∃ name plain, Known name ∧ '$' ∉ plain ∧ ts = .reference name :: plainly plain := by
  have hlong : ∀ n, ∃ q, ProjectDir q ∧ q.text.toList = '/' :: List.replicate (n + 1) 'x' :=
    fun n => ⟨_, ProjectDir.long n, String.toList_ofList⟩
  obtain ⟨front, hplain | ⟨name, behind, hsplit⟩⟩ := split_plain ts
  · -- Without a reference the path could not vary.
    obtain ⟨q, hq, htext⟩ := hlong front.length
    have hlength := congrArg List.length (h q hq)
    rw [hplain, meant_plainly, htext] at hlength
    simp at hlength
    omega
  · rw [hsplit] at hclear h
    obtain ⟨_, hname, hbehind⟩ := clear_plainly_append.mp hclear
    have hmeant : ∀ q, ProjectDir q → front ++ (q.text.toList ++ (added m name ++
        meant (moduleTable q m) behind)) = q.text.toList ++ rest := by
      intro q hq
      rw [← h q hq, meant_append, meant_plainly, meant_cons, expandToken_known hq hm hname]
      simp
    -- Where the first slash of the project would be further inside, there is a name.
    have hfront : front = [] := by
      cases hfront : front with
      | nil => rfl
      | cons c front' =>
        obtain ⟨q, hq, htext⟩ := hlong front'.length
        have hslash : (front ++ ('/' :: List.replicate (front'.length + 1) 'x' ++ (added m name ++
            meant (moduleTable q m) behind)))[front.length]? = some '/' := by
          rw [List.getElem?_append_right (Nat.le_refl _), Nat.sub_self]
          rfl
        have hinside : ('/' :: List.replicate (front'.length + 1) 'x' ++ rest)[front.length]?
            = some 'x' := by
          rw [hfront, List.length_cons, List.cons_append, List.getElem?_cons_succ,
            List.getElem?_append_left (by simp), List.getElem?_replicate, if_pos (Nat.lt_succ_self _)]
        rw [← htext, hmeant q hq, htext, hinside] at hslash
        exact absurd hslash (by decide)
    obtain ⟨plain, hplain | ⟨name', behind', hsplit'⟩⟩ := split_plain behind
    · have hdollar : '$' ∉ plain := by
        rw [hplain, ← List.append_nil (plainly plain)] at hbehind
        exact (clear_plainly_append.mp hbehind).1
      refine ⟨name, plain, hname, hdollar, ?_⟩
      rw [hsplit, hfront, hplain]
      rfl
    · -- A second reference makes the path longer than it can be.
      rw [hsplit'] at hbehind
      have hname' := (clear_plainly_append.mp hbehind).2.1
      obtain ⟨q, hq, htext⟩ := hlong rest.length
      have hlength := congrArg List.length (hmeant q hq)
      rw [hsplit', meant_append, meant_cons, expandToken_known hq hm hname', htext] at hlength
      simp at hlength
      omega

/-- **A path whose front alone can be replaced** is collapsed into one reference. -/
theorem collapse_of_front (hp : ProjectDir p) (hm : m.isAbsolute = false) {rest : List Char}
    {text : String} (htext : text.toList = p.text.toList ++ '/' :: rest)
    (hfront : ∀ e ∈ moduleTable p m, ∀ before, Occurs e.2.toList before text.toList → before = []) :
    ∃ e ∈ moduleTable p m, ∃ after, text.toList = e.2.toList ++ after ∧
      (collapse (moduleTable p m) text).toList = reference e.1 ++ after := by
  have hmem : ∀ e, e ∈ moduleTable p m ↔ e = (projectDir, p.text) ∨
      e = (scopeDir, String.ofList (p.text.toList ++ below m)) := by
    intro e
    rw [moduleTable_eq hp hm]
    simp
  obtain ⟨hproject, hmodule⟩ := paths_of_module (m := m) hp
  have hmodule' : (String.ofList (p.text.toList ++ below m)).toList ≠ [] := by
    rw [String.toList_ofList]
    exact hmodule
  have hoccurs : Occurs p.text.toList [] text.toList := ⟨'/' :: rest, htext, by simp [atBoundary]⟩
  have hfront₁ := hfront _ ((hmem _).mpr (Or.inl rfl))
  have hfront₂ := hfront _ ((hmem _).mpr (Or.inr rfl))
  rw [collapse, String.toList_ofList, inOrder_moduleTable hp hm]
  split
  · -- The module is the project, and holds no dollar sign either.
    rename_i hbelow
    have hdollar : '$' ∉ (String.ofList (p.text.toList ++ below m)).toList := by
      rw [String.toList_ofList, hbelow, List.append_nil]
      exact hp.no_dollar
    obtain ⟨name, after, hname, hcollapsed⟩ := replaceFrom_twice scopeDir hproject
      ⟨hmodule', hdollar⟩ (isName_of_known (Or.inl rfl)) hfront₁ hfront₂ (Or.inl hoccurs)
    rcases hname with ⟨rfl, hsplit⟩ | ⟨rfl, hsplit⟩
    · exact ⟨_, (hmem _).mpr (Or.inl rfl), after, hsplit, hcollapsed⟩
    · exact ⟨_, (hmem _).mpr (Or.inr rfl), after, hsplit, hcollapsed⟩
  · obtain ⟨name, after, hname, hcollapsed⟩ := replaceFrom_twice projectDir hmodule'
      ⟨hproject, hp.no_dollar⟩ (isName_of_known (Or.inr rfl)) hfront₂ hfront₁ (Or.inr hoccurs)
    rcases hname with ⟨rfl, hsplit⟩ | ⟨rfl, hsplit⟩
    · exact ⟨_, (hmem _).mpr (Or.inr rfl), after, hsplit, hcollapsed⟩
    · exact ⟨_, (hmem _).mpr (Or.inl rfl), after, hsplit, hcollapsed⟩

end Relocating

/-- **Where a path is relocated.** Collapsed with the variables of a module in one
project and expanded with those of the module in any other, a path below the
project is the path below the other, exactly when it was collapsed into one
reference and characters without a dollar sign. It is so when neither the
project nor the module occurs, with the end of a path part behind it, anywhere
but in front. -/
theorem relocated_iff {p m : Path} (hp : ProjectDir p) (hm : m.isAbsolute = false) {r : String}
    (hr : '$' ∉ r.toList) :
    ((∀ q, ProjectDir q → expand (moduleTable q m)
          (collapse (moduleTable p m) (p.text ++ "/" ++ r)) = q.text ++ "/" ++ r) ↔
        ∃ name ∈ [projectDir, scopeDir], ∃ rest, '$' ∉ rest ∧
          (collapse (moduleTable p m) (p.text ++ "/" ++ r)).toList = reference name ++ rest) ∧
      ((∀ e ∈ moduleTable p m, ∀ before,
          Occurs e.2.toList before (p.text ++ "/" ++ r).toList → before = []) →
        ∀ q, ProjectDir q → expand (moduleTable q m)
          (collapse (moduleTable p m) (p.text ++ "/" ++ r)) = q.text ++ "/" ++ r) := by
  have htext : ∀ q : Path, (q.text ++ "/" ++ r).toList = q.text.toList ++ '/' :: r.toList := by
    intro q
    simp
  have hdollar : '$' ∉ (p.text ++ "/" ++ r).toList := by
    rw [htext, List.mem_append, List.mem_cons, not_or, not_or]
    exact ⟨hp.no_dollar, by decide, hr⟩
  obtain ⟨ts, hclear, hwritten, hmeant⟩ := exists_tokens hp hm hdollar
  have hexpand := expand_of_written hclear hwritten
  have hiff : (∀ q, ProjectDir q → expand (moduleTable q m)
        (collapse (moduleTable p m) (p.text ++ "/" ++ r)) = q.text ++ "/" ++ r) ↔
      ∃ name ∈ [projectDir, scopeDir], ∃ rest, '$' ∉ rest ∧
        (collapse (moduleTable p m) (p.text ++ "/" ++ r)).toList = reference name ++ rest := by
    constructor
    · intro h
      obtain ⟨name, plain, hname, hplain, rfl⟩ := tokens_of_relocated hm hclear
        fun q hq => by rw [← hexpand, h q hq, htext]
      have hcollapsed : (collapse (moduleTable p m) (p.text ++ "/" ++ r)).toList
          = '$' :: name ++ ['$'] ++ plain := by
        rw [hwritten, written_cons, written_plainly]
        rfl
      rcases hname with rfl | rfl
      · exact ⟨projectDir, List.mem_cons_self, plain, hplain, hcollapsed⟩
      · exact ⟨scopeDir, List.mem_cons_of_mem _ List.mem_cons_self, plain, hplain, hcollapsed⟩
    · rintro ⟨name, hname, rest, hrest, hcollapsed⟩ q hq
      have hknown : Known name.toList := by
        simp only [List.mem_cons, List.not_mem_nil, or_false] at hname
        exact hname.imp (congrArg _) (congrArg _)
      -- The tokens are those of the reference and of the rest.
      have hts : Clear (.reference name.toList :: plainly rest) := by
        refine ⟨hknown, ?_⟩
        rw [← List.append_nil (plainly rest)]
        exact clear_plainly_append.mpr ⟨hrest, trivial⟩
      have hsame : (collapse (moduleTable p m) (p.text ++ "/" ++ r)).toList
          = written (.reference name.toList :: plainly rest) := by
        rw [hcollapsed, written_cons, written_plainly]
        rfl
      have hvalue : ∀ q, ProjectDir q → (expand (moduleTable q m)
          (collapse (moduleTable p m) (p.text ++ "/" ++ r))).toList
            = q.text.toList ++ (added m name.toList ++ rest) := by
        intro q hq
        rw [expand_of_written hts hsame, meant_cons, expandToken_known hq hm hknown, meant_plainly,
          List.append_assoc]
      have hback := hvalue p hp
      rw [hexpand, hmeant, htext, List.append_cancel_left_eq] at hback
      rw [← String.toList_inj, hvalue q hq, htext, hback]
  refine ⟨hiff, fun hfront => hiff.mpr ?_⟩
  obtain ⟨e, he, after, hsplit, hcollapsed⟩ := collapse_of_front hp hm (htext p) hfront
  have hafter : '$' ∉ after := by
    rw [hsplit, List.mem_append, not_or] at hdollar
    exact hdollar.2
  rw [moduleTable_eq hp hm] at he
  rcases List.mem_cons.mp he with rfl | he
  · exact ⟨projectDir, List.mem_cons_self, after, hafter, hcollapsed⟩
  · obtain rfl := List.mem_singleton.mp he
    exact ⟨scopeDir, List.mem_cons_of_mem _ List.mem_cons_self, after, hafter, hcollapsed⟩

/-- A path of a module moves along with the project. -/
theorem module_relocated :
    ProjectDir ⟨"/home/u/demo"⟩ ∧
      expand (moduleTable ⟨"/home/u/demo"⟩ ⟨"core"⟩)
        (collapse (moduleTable ⟨"/work/demo"⟩ ⟨"core"⟩) ("/work/demo" ++ "/" ++ "core/x.json"))
        = "/home/u/demo" ++ "/" ++ "core/x.json" := by
  have hp : ProjectDir ⟨"/work/demo"⟩ :=
    ⟨["work".toList, "demo".toList], by decide, by decide, by decide⟩
  have hq : ProjectDir ⟨"/home/u/demo"⟩ :=
    ⟨["home".toList, "u".toList, "demo".toList], by decide, by decide, by decide⟩
  refine ⟨hq, (relocated_iff hp (by decide) (by decide)).1.mpr ?_ _ hq⟩
  exact ⟨scopeDir, by decide, "/x.json".toList, by decide, by decide +kernel⟩

/-- **A directory that comes again moves along.** The project `/a` has a directory
`x/a`, and a path in it is read elsewhere as one in the other project. -/
theorem repeated_directory_moves :
    ProjectDir ⟨"/a"⟩ ∧ ProjectDir ⟨"/b"⟩ ∧
      expand (moduleTable ⟨"/b"⟩ ⟨"m"⟩) (collapse (moduleTable ⟨"/a"⟩ ⟨"m"⟩) ("/a" ++ "/" ++ "x/a/y"))
        = "/b/x/b/y" := by
  refine ⟨⟨["a".toList], by decide, by decide, by decide⟩,
    ⟨["b".toList], by decide, by decide, by decide⟩, by decide +kernel⟩

end MacroTable

end ScopedState
