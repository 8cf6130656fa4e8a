/-
`Proofs/Macros/Plain.lean` -- plain values come back from being collapsed.

Collapsing replaces one path after the other, each in what the ones before have
left. Seen from outside, a later replacement could tear a reference that is
already there, or put another one beside it so that the two are read as a third.
With marks it cannot be seen any more: a marked text is a list of tokens, and
marking only ever turns plain tokens into a reference. It remains to see that
reading the collapsed text finds the marks again. It does, when every dollar
sign of the text belongs to a mark (`scan_written_of_legible`), because a name
has no dollar sign inside and so each reference ends at the one behind it.

So the tokens of a collapsed plain text are its marks (`tokens_collapse`). Both
things asked of it can be read off: the marks mean the text, and the table knows
every name among them.
-/
import ScopedState.Proofs.Macros
set_option autoImplicit false

namespace ScopedState

open Bindings (get?)

namespace MacroTable

variable {table : MacroTable}

/-! ## 1. Legible tokens -/

/-- Tokens that can be told apart once they are written: no plain character is a
dollar sign, and every reference has a name. -/
def Legible (ts : List Token) : Prop :=
  ∀ t ∈ ts, match t with
    | .plain c => c ≠ '$'
    | .reference name => IsName name

theorem legible_cons {t : Token} {ts : List Token} :
    Legible (t :: ts) ↔ (match t with | .plain c => c ≠ '$' | .reference name => IsName name) ∧
      Legible ts := List.forall_mem_cons

/-- **Legible tokens are read as they were written.** -/
theorem scan_written_of_legible {ts : List Token} (h : Legible ts) :
    scan none (written ts) = ts := by
  induction ts with
  | nil => rfl
  | cons t ts ih =>
    obtain ⟨ht, hts⟩ := legible_cons.mp h
    cases t with
    | plain c =>
      have hadvance : advance none c = ([.plain c], none) := if_neg ht
      have hwritten : written (.plain c :: ts) = c :: written ts := rfl
      rw [hwritten, scan_cons, hadvance, ih hts]
      rfl
    | reference name =>
      have hwritten : written (.reference name :: ts) = '$' :: (name ++ '$' :: written ts) := by
        simp [writtenToken]
      have hadvance : advance none '$' = ([], some []) := rfl
      rw [hwritten, scan_cons, hadvance, scan_reference ht, ih hts]
      rfl

/-! ## 2. Collapsed plain text -/

/-- A mark is the reference to a variable. -/
theorem bound_of_marked {ts : List Token} (h : Marked table ts) {name : List Char}
    (hname : Token.reference name ∈ ts) : ∃ path, get? table (String.ofList name) = some path := by
  induction ts with
  | nil => exact absurd hname List.not_mem_nil
  | cons t ts ih =>
    cases t with
    | plain c =>
      refine ih h ?_
      simpa using hname
    | reference other =>
      obtain ⟨⟨path, hpath, _⟩, hts⟩ := h
      rcases List.mem_cons.mp hname with heq | hin
      · cases heq
        exact ⟨path, hpath⟩
      · exact ih hts hin

/-- A plain character of a marked text is one of the text that is meant. -/
theorem mem_meant_of_plain {ts : List Token} {c : Char} (h : Token.plain c ∈ ts) :
    c ∈ meant table ts :=
  List.mem_flatMap.mpr ⟨.plain c, h, List.mem_singleton_self c⟩

/-- **The tokens of a collapsed text** without dollar signs are its marks. -/
theorem tokens_collapse (htable : table.Proper) {text : String} (htext : '$' ∉ text.toList) :
    tokens (table.collapse text).toList = marked table text.toList := by
  obtain ⟨hmarked, hwritten, hmeant⟩ := marked_spec htable text
  rw [← hwritten, tokens]
  refine scan_written_of_legible fun t ht => ?_
  cases t with
  | plain c =>
    -- A dollar sign left over would be one of the text.
    intro hdollar
    have hin : c ∈ meant table (marked table text.toList) := mem_meant_of_plain ht
    rw [hmeant, hdollar] at hin
    exact htext hin
  | reference name =>
    obtain ⟨path, hpath⟩ := bound_of_marked hmarked ht
    have hname := (htable.of_get? hpath).1
    rwa [String.toList_ofList] at hname

/-- **No name is unknown** in a collapsed text without dollar signs. -/
theorem unknownIn_collapse (htable : table.Proper) {text : String} (htext : '$' ∉ text.toList) :
    table.unknownIn (table.collapse text) = [] := by
  obtain ⟨hmarked, _, _⟩ := marked_spec htable text
  rw [unknownIn, tokens_collapse htable htext, List.filterMap_eq_nil_iff]
  intro t ht
  cases t with
  | plain c => rfl
  | reference name =>
    obtain ⟨path, hpath⟩ := bound_of_marked hmarked ht
    have hbinds : Bindings.binds table (String.ofList name) = true := by
      simp [Bindings.binds, hpath]
    exact if_pos hbinds

end MacroTable

/-! ## 3. Whole values -/

namespace Json

mutual

/-- Replacing strings by themselves. -/
theorem mapStrings_id : ∀ v : Json, v.mapStrings id = v
  | null => rfl
  | bool _ => rfl
  | integer _ => rfl
  | float _ => rfl
  | string _ => rfl
  | array items => by rw [mapStrings, mapStringsItems_id items]
  | object fields => by rw [mapStrings, mapStringsFields_id fields]

theorem mapStringsItems_id : ∀ vs : List Json, mapStringsItems id vs = vs
  | [] => rfl
  | v :: vs => by rw [mapStringsItems, mapStrings_id v, mapStringsItems_id vs]

theorem mapStringsFields_id : ∀ fs : List (String × Json), mapStringsFields id fs = fs
  | [] => rfl
  | (k, v) :: fs => by rw [mapStringsFields, mapStrings_id v, mapStringsFields_id fs]

end

mutual

/-- **The strings of a value** whose strings were replaced. -/
theorem strings_mapStrings (f : String → String) : ∀ v : Json,
    (v.mapStrings f).strings = v.strings.map f
  | null => rfl
  | bool _ => rfl
  | integer _ => rfl
  | float _ => rfl
  | string _ => rfl
  | array items => by rw [mapStrings, strings, strings, stringsOfItems_mapStringsItems f items]
  | object fields => by
    rw [mapStrings, strings, strings, stringsOfFields_mapStringsFields f fields]

theorem stringsOfItems_mapStringsItems (f : String → String) : ∀ vs : List Json,
    stringsOfItems (mapStringsItems f vs) = (stringsOfItems vs).map f
  | [] => rfl
  | v :: vs => by
    rw [mapStringsItems, stringsOfItems, stringsOfItems, List.map_append, strings_mapStrings f v,
      stringsOfItems_mapStringsItems f vs]

theorem stringsOfFields_mapStringsFields (f : String → String) : ∀ fs : List (String × Json),
    stringsOfFields (mapStringsFields f fs) = (stringsOfFields fs).map f
  | [] => rfl
  | (k, v) :: fs => by
    rw [mapStringsFields, stringsOfFields, stringsOfFields, List.map_append,
      strings_mapStrings f v, stringsOfFields_mapStringsFields f fs]

end

end Json

namespace MacroTable

variable {table : MacroTable} {v : Json}

/-- Expanding a collapsed value whose strings hold no dollar sign. -/
theorem expandValue_collapseValue (htable : table.Proper)
    (hv : ∀ t ∈ v.strings, '$' ∉ t.toList) : table.expandValue (table.collapseValue v) = v := by
  rw [expandValue, collapseValue, Json.mapStrings_mapStrings]
  refine Eq.trans ?_ (Json.mapStrings_id v)
  rw [Json.mapStrings_eq_iff]
  intro t ht
  exact expand_collapse_of_no_dollar htable (hv t ht)

/-- Nothing is unknown in a collapsed value whose strings hold no dollar sign. -/
theorem unknownInValue_collapseValue (htable : table.Proper)
    (hv : ∀ t ∈ v.strings, '$' ∉ t.toList) :
    table.unknownInValue (table.collapseValue v) = [] := by
  rw [unknownInValue, collapseValue, Json.strings_mapStrings, List.flatMap_eq_nil_iff]
  intro collapsed hcollapsed
  obtain ⟨t, ht, rfl⟩ := List.mem_map.mp hcollapsed
  exact unknownIn_collapse htable (hv t ht)

/-! ## 4. Tables as they are built -/

/-- The table with the given variables, added one after the other. -/
def ofVariables (macros : List (String × Path)) : MacroTable :=
  macros.foldl (fun table x => table.define x.1 x.2) []

/-- Variables with names that can be referred to and paths without dollar signs
make a proper table, whatever the paths have to do with each other. -/
theorem proper_ofVariables {macros : List (String × Path)}
    (h : ∀ x ∈ macros, IsName x.1.toList ∧ '$' ∉ x.2.text.toList) :
    (ofVariables macros).Proper := by
  suffices hfold : ∀ (macros : List (String × Path)) (table : MacroTable), table.Proper →
      (∀ x ∈ macros, IsName x.1.toList ∧ '$' ∉ x.2.text.toList) →
      (macros.foldl (fun table x => table.define x.1 x.2) table).Proper from
    hfold macros [] proper_nil h
  intro macros
  induction macros with
  | nil => exact fun table htable _ => htable
  | cons x macros ih =>
    intro table htable hall
    obtain ⟨hname, hpath⟩ := hall x List.mem_cons_self
    exact ih _ (htable.define hname hpath) fun y hy => hall y (List.mem_cons_of_mem _ hy)

/-- **Expanding undoes collapsing on plain values.** Take a table of variables
whose names can be referred to and whose paths hold no dollar sign, and a value
none of whose strings holds one. The collapsed value is expanded to the value
itself, and the names that were unknown before are all that are unknown
afterwards. -/
theorem expand_collapsed_plain_value (macros : List (String × Path)) (unknown : List String)
    (v : Json) (hmacros : ∀ x ∈ macros, IsName x.1.toList ∧ '$' ∉ x.2.text.toList)
    (hv : ∀ t ∈ v.strings, '$' ∉ t.toList) :
    let s : Substitutor := { table := ofVariables macros, unknown }
    Substitutor.expandWith (some s) (Substitutor.collapseWith (some s.table) v)
      = (v, some s) := by
  intro s
  have htable : s.table.Proper := proper_ofVariables hmacros
  have hvalue : s.table.expandValue (s.table.collapseValue v) = v :=
    expandValue_collapseValue htable hv
  have hunknown : s.table.unknownInValue (s.table.collapseValue v) = [] :=
    unknownInValue_collapseValue htable hv
  have hremember : s.remember [] = s := rfl
  simp only [Substitutor.expandWith, Substitutor.collapseWith, Substitutor.expandValue]
  rw [hvalue, hunknown, hremember]

/-- Nested and equal paths, and the root: every slash is collapsed, and all of it
comes back. -/
theorem expand_collapsed_nested_paths :
    let macros : List (String × Path) :=
      [("ROOT", ⟨"/"⟩), ("A", ⟨"/w"⟩), ("B", ⟨"/w/demo/"⟩), ("C", ⟨"/w"⟩)]
    let v : Json := .array [.string "/w/demo/x:/w", .object [("k$", .string "/w/demo2")]]
    let s : Substitutor := { table := ofVariables macros, unknown := ["Z"] }
    ((∀ x ∈ macros, IsName x.1.toList ∧ '$' ∉ x.2.text.toList) ∧
      ∀ t ∈ v.strings, '$' ∉ t.toList) ∧
    (s.table.collapseValue v).strings = ["$B$$ROOT$x:$A$", "$A$$ROOT$demo2"] ∧
    Substitutor.expandWith (some s) (Substitutor.collapseWith (some s.table) v)
      = (v, some s) := by
  intro macros v s
  have hmacros : ∀ x ∈ macros, IsName x.1.toList ∧ '$' ∉ x.2.text.toList := by decide
  have hv : ∀ t ∈ v.strings, '$' ∉ t.toList := by decide
  exact ⟨⟨hmacros, hv⟩, by decide +kernel,
    expand_collapsed_plain_value macros ["Z"] v hmacros hv⟩

end MacroTable

end ScopedState
