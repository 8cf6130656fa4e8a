/-
`Proofs/Json/Layout.lean` -- where a written value ends.

In the pretty layout a field is its key, its value and then a comma or a line
break. To tell from the text alone which fields were written, the text of a
value has to show its own end. It does: outside of quotes and brackets a
value holds neither a comma nor a line break. `front` reads a text up to the
first of these that stands outside, and of a written value followed by one it
finds exactly the value. So an object's text determines its keys and the text
of each of its values, and is determined by them.

Nothing here says that a number can be read back as it was. A double may be
read as its neighbour, and that is why two documents with one text are
compared by the texts of their entries and not by the entries.
-/
import ScopedState.Json.Reader
import ScopedState.Json.Writer
set_option autoImplicit false

namespace ScopedState.Json

/-! ## 1. Strings are read back -/

theorem readString_short {c e : Char} (seen rest : List Char) (hu : c ≠ 'u')
    (h : shortEscape? c = some e) :
    readString seen ('\\' :: c :: rest) = readString (e :: seen) rest := by
  rw [readString.eq_def]
  split
  · simp_all
  · simp_all
  · simp_all
  · rename_i heq
    simp only [List.cons.injEq, true_and] at heq
    obtain ⟨rfl, rfl⟩ := heq
    rw [h]
  · rename_i hno heq
    simp only [List.cons.injEq] at heq
    exact absurd heq.2.symm (hno c rest heq.1.symm)

theorem hexUnit?_control : ∀ n : Fin 32,
    hexUnit? '0' '0' (hexDigit (n.val / 16)) (hexDigit (n.val % 16)) = some n.val := by decide

theorem readString_control {c : Char} (seen rest : List Char) (h : c.toNat < 32) :
    readString seen
        ('\\' :: 'u' :: '0' :: '0' :: hexDigit (c.toNat / 16) :: hexDigit (c.toNat % 16) :: rest)
      = readString (c :: seen) rest := by
  have hex := hexUnit?_control ⟨c.toNat, h⟩
  have hback : Char.ofNat c.toNat = c := Char.ofNat_toNat c
  have hlow : (decide (c.toNat < 0xD800) || decide (0xDFFF < c.toNat)) = true := by
    rw [Bool.or_eq_true, decide_eq_true_eq]
    exact Or.inl (by omega)
  rw [readString, hex]
  dsimp only
  rw [if_pos hlow, hback]

theorem readString_plain {c : Char} (seen rest : List Char) (hquote : c ≠ '"') (hback : c ≠ '\\')
    (h : ¬ c < ' ') : readString seen (c :: rest) = readString (c :: seen) rest := by
  rw [readString]
  · simp only [h, hback, decide_false, Bool.or_self, Bool.false_eq_true, if_false]
  · exact hquote
  · intro a b c' d rest' hc
    exact absurd hc hback
  · intro c' rest' hc
    exact absurd hc hback

/-- **A character is read back from what stands for it.** -/
theorem readString_escape (c : Char) (seen rest : List Char) :
    readString seen (escape c ++ rest) = readString (c :: seen) rest := by
  unfold escape
  split
  · rename_i h; subst h; exact readString_short seen rest (by decide) rfl
  split
  · rename_i h; subst h; exact readString_short seen rest (by decide) rfl
  split
  · rename_i h; subst h; exact readString_short seen rest (by decide) rfl
  split
  · rename_i h; subst h; exact readString_short seen rest (by decide) rfl
  split
  · rename_i h; subst h; exact readString_short seen rest (by decide) rfl
  split
  · rename_i h; subst h; exact readString_short seen rest (by decide) rfl
  split
  · rename_i h; subst h; exact readString_short seen rest (by decide) rfl
  split
  · rename_i h
    exact readString_control seen rest h
  · exact readString_plain seen rest (by assumption) (by assumption) (by assumption)

theorem readString_escapes (text seen rest : List Char) :
    readString seen (text.flatMap escape ++ rest) = readString (text.reverse ++ seen) rest := by
  induction text generalizing seen with
  | nil => rfl
  | cons c text ih =>
    rw [List.flatMap_cons, List.append_assoc, readString_escape, ih, List.reverse_cons,
      List.append_assoc]
    rfl

/-- **A string is read back**, whatever follows its closing quote. -/
theorem readString_quote (text : String) (rest : List Char) :
    readString [] (text.toList.flatMap escape ++ '"' :: rest) = .ok (text, rest) := by
  rw [readString_escapes, List.append_nil, readString, List.reverse_reverse, String.ofList_toList]

/-- Two quoted keys in front of two texts can only be the same key in front of
the same text. -/
theorem quote_append_inj {k l : String} {xs ys : List Char}
    (h : quote k ++ xs = quote l ++ ys) : k = l ∧ xs = ys := by
  have hbody : k.toList.flatMap escape ++ '"' :: xs = l.toList.flatMap escape ++ '"' :: ys := by
    simpa only [quote, List.cons_append, List.append_assoc, List.nil_append, List.cons.injEq,
      true_and] using h
  have hk := readString_quote k xs
  rw [hbody, readString_quote] at hk
  have hpair := Except.ok.inj hk
  exact ⟨(Prod.mk.inj hpair).1.symm, (Prod.mk.inj hpair).2.symm⟩

/-! ## 2. The front of a text -/

/-- Where in a text a reader is. -/
inductive Mode where
  | outside
  | quoted
  | escaped
  deriving DecidableEq, Repr

/-- The mode behind a character. -/
def Mode.behind (mode : Mode) (c : Char) : Mode :=
  match mode with
  | .outside => if c = '"' then .quoted else .outside
  | .quoted => if c = '"' then .outside else if c = '\\' then .escaped else .quoted
  | .escaped => .quoted

/-- The number of open brackets behind a character. -/
def bracketsBehind (mode : Mode) (depth : Nat) (c : Char) : Nat :=
  if mode ≠ .outside then depth
  else if c = '[' ∨ c = '{' then depth + 1
  else if c = ']' ∨ c = '}' then depth - 1
  else depth

/-- Whether a character ends a value. -/
def endsValue (mode : Mode) (depth : Nat) (c : Char) : Bool :=
  mode = .outside && depth = 0 && (c = ',' || c = '\n')

/-- Cut a text in front of the first comma or line break outside of quotes and
brackets. -/
def front (mode : Mode) (depth : Nat) : List Char → List Char × List Char
  | [] => ([], [])
  | c :: rest =>
    if endsValue mode depth c then ([], c :: rest)
    else
      let out := front (mode.behind c) (bracketsBehind mode depth c) rest
      (c :: out.1, out.2)

/-- Reading `text` in one mode and depth leads to another, without an end in
between. -/
def Passes (m : Mode) (k : Nat) (text : List Char) (m' : Mode) (k' : Nat) : Prop :=
  ∀ rest, front m k (text ++ rest) = (text ++ (front m' k' rest).1, (front m' k' rest).2)

theorem Passes.nil (m : Mode) (k : Nat) : Passes m k [] m k := fun _ => rfl

theorem Passes.append {m m' m'' : Mode} {k k' k'' : Nat} {a b : List Char}
    (ha : Passes m k a m' k') (hb : Passes m' k' b m'' k'') : Passes m k (a ++ b) m'' k'' := by
  intro rest
  rw [List.append_assoc, ha, hb, List.append_assoc]

/-- One character that ends nothing. -/
theorem Passes.single {m : Mode} {k : Nat} {c : Char} (h : endsValue m k c = false) :
    Passes m k [c] (m.behind c) (bracketsBehind m k c) := by
  intro rest
  rw [List.cons_append, List.nil_append, front, h]
  rfl

theorem Passes.cons {m m' : Mode} {k k' : Nat} {c : Char} {a : List Char}
    (h : endsValue m k c = false) (ha : Passes (m.behind c) (bracketsBehind m k c) a m' k') :
    Passes m k (c :: a) m' k' :=
  (Passes.single h).append ha

/-- A character that is neither quote, bracket, comma nor line break. -/
def Quiet (c : Char) : Prop :=
  c ≠ '"' ∧ c ≠ '[' ∧ c ≠ ']' ∧ c ≠ '{' ∧ c ≠ '}' ∧ c ≠ ',' ∧ c ≠ '\n'

instance (c : Char) : Decidable (Quiet c) := by
  unfold Quiet
  infer_instance

/-- A text can be looked through for such characters. -/
theorem quiet_of_all {text : List Char} (h : text.all (fun c => Quiet c) = true) :
    ∀ c ∈ text, Quiet c :=
  fun c hc => of_decide_eq_true (List.all_eq_true.mp h c hc)

theorem Passes.quiet {text : List Char} (k : Nat) (h : ∀ c ∈ text, Quiet c) :
    Passes .outside k text .outside k := by
  induction text with
  | nil => exact Passes.nil _ _
  | cons c text ih =>
    obtain ⟨hquote, hopen, hclose, hopen', hclose', hcomma, hline⟩ := h c List.mem_cons_self
    have hend : endsValue .outside k c = false := by simp [endsValue, hcomma, hline]
    have hmode : Mode.behind .outside c = .outside := if_neg hquote
    have hdepth : bracketsBehind .outside k c = k := by
      simp [bracketsBehind, hopen, hclose, hopen', hclose']
    refine Passes.cons hend ?_
    rw [hmode, hdepth]
    exact ih fun c' hc' => h c' (List.mem_cons_of_mem _ hc')

/-! ## 3. Written values -/

theorem Passes.inQuotes {c : Char} (k : Nat) (hquote : c ≠ '"') (hback : c ≠ '\\') :
    Passes .quoted k [c] .quoted k := by
  have h := Passes.single (m := .quoted) (k := k) (c := c) rfl
  have hmode : Mode.behind .quoted c = .quoted := by
    rw [Mode.behind, if_neg hquote, if_neg hback]
  rwa [hmode] at h

theorem Passes.escapePair (k : Nat) (c : Char) : Passes .quoted k ['\\', c] .quoted k :=
  Passes.cons rfl (Passes.single rfl)

theorem hexDigit_ne : ∀ n : Fin 16, hexDigit n.val ≠ '"' ∧ hexDigit n.val ≠ '\\' := by decide

theorem Passes.escape (k : Nat) (c : Char) : Passes .quoted k (escape c) .quoted k := by
  unfold Json.escape
  split
  · exact Passes.escapePair k _
  split
  · exact Passes.escapePair k _
  split
  · exact Passes.escapePair k _
  split
  · exact Passes.escapePair k _
  split
  · exact Passes.escapePair k _
  split
  · exact Passes.escapePair k _
  split
  · exact Passes.escapePair k _
  split
  · rename_i h
    -- A control character is written as its number: none of the characters of the
    -- escape ends the string.
    have hc : c.toNat < 32 := h
    have hhigh := hexDigit_ne ⟨c.toNat / 16, by omega⟩
    have hlow := hexDigit_ne ⟨c.toNat % 16, by omega⟩
    refine (Passes.escapePair k 'u').append ?_
    refine (Passes.inQuotes k (c := '0') (by decide) (by decide)).append ?_
    refine (Passes.inQuotes k (c := '0') (by decide) (by decide)).append ?_
    exact (Passes.inQuotes k hhigh.1 hhigh.2).append (Passes.inQuotes k hlow.1 hlow.2)
  · exact Passes.inQuotes k (by assumption) (by assumption)

theorem Passes.escapes (k : Nat) (text : List Char) :
    Passes .quoted k (text.flatMap Json.escape) .quoted k := by
  induction text with
  | nil => exact Passes.nil _ _
  | cons c text ih =>
    rw [List.flatMap_cons]
    exact (Passes.escape k c).append ih

theorem Passes.quote (k : Nat) (text : String) : Passes .outside k (quote text) .outside k := by
  refine Passes.cons (by simp [endsValue]) ?_
  exact (Passes.escapes k _).append (Passes.single rfl)

theorem quiet_digit {c : Char} (h : c.isDigit = true) : Quiet c := by
  refine ⟨?_, ?_, ?_, ?_, ?_, ?_, ?_⟩ <;>
  · intro hc
    subst hc
    revert h
    decide

theorem quiet_natDigits (n : Nat) : ∀ c ∈ natDigits n, Quiet c := fun _ hc =>
  quiet_digit (Nat.isDigit_of_mem_toDigits (by omega) (by omega) hc)

theorem quiet_cons {c : Char} {text : List Char} (hc : Quiet c) (h : ∀ c ∈ text, Quiet c) :
    ∀ x ∈ c :: text, Quiet x := by
  intro x hx
  rcases List.mem_cons.mp hx with rfl | hx
  · exact hc
  · exact h x hx

theorem quiet_append {a b : List Char} (ha : ∀ c ∈ a, Quiet c) (hb : ∀ c ∈ b, Quiet c) :
    ∀ c ∈ a ++ b, Quiet c := by
  intro c hc
  rcases List.mem_append.mp hc with hc | hc
  · exact ha c hc
  · exact hb c hc

theorem quiet_zeros (n : Nat) : ∀ c ∈ List.replicate n '0', Quiet c := by
  intro c hc
  rw [List.eq_of_mem_replicate hc]
  decide

theorem quiet_writeInteger (n : Int) : ∀ c ∈ writeInteger n, Quiet c := by
  unfold writeInteger
  split
  · exact quiet_cons (by decide) (quiet_natDigits _)
  · exact quiet_natDigits _

theorem quiet_placePoint {digits : List Char} (h : ∀ c ∈ digits, Quiet c) (point : Int) :
    ∀ c ∈ placePoint digits point, Quiet c := by
  unfold placePoint
  dsimp only
  split
  · exact quiet_append (quiet_append h (quiet_zeros _)) (quiet_of_all rfl)
  split
  · refine quiet_append (fun c hc => h c (List.mem_of_mem_take hc)) (quiet_cons (by decide) ?_)
    exact fun c hc => h c (List.mem_of_mem_drop hc)
  split
  · exact quiet_cons (by decide) (quiet_cons (by decide) (quiet_append (quiet_zeros _) h))
  -- With an exponent, the point stands behind the first digit, if others follow.
  · refine quiet_append ?_ (quiet_cons (by decide) (quiet_cons ?_ (quiet_natDigits _)))
    · match digits, h with
      | [], _ => exact fun c hc => absurd hc List.not_mem_nil
      | [d], h => exact h
      | d :: e :: rest, h =>
        have hrest : ∀ c ∈ e :: rest, Quiet c := fun c hc => h c (List.mem_cons_of_mem _ hc)
        exact quiet_cons (h d List.mem_cons_self) (quiet_cons (by decide) hrest)
    · split <;> decide

theorem quiet_writeFloat (x : Binary64) : ∀ c ∈ writeFloat x, Quiet c := by
  have hsign : ∀ c ∈ if x.negative then ['-'] else [], Quiet c := by
    split <;> exact quiet_of_all rfl
  unfold writeFloat
  dsimp only
  split
  · exact quiet_append hsign (quiet_of_all rfl)
  · exact quiet_append hsign (quiet_placePoint (quiet_natDigits _) _)

theorem quiet_spaces (n : Nat) : ∀ c ∈ List.replicate n ' ', Quiet c := by
  intro c hc
  rw [List.eq_of_mem_replicate hc]
  decide

/-- Inside a bracket a line break ends nothing. -/
theorem Passes.newLine (k depth : Nat) :
    Passes .outside (k + 1) (newLine depth) .outside (k + 1) :=
  Passes.cons rfl (Passes.quiet _ (quiet_spaces _))

/-- The three steps inside a bracket: a comma, and the two closing ones. -/
theorem Passes.comma (k : Nat) : Passes .outside (k + 1) [','] .outside (k + 1) :=
  Passes.single rfl

theorem Passes.close {c : Char} (k : Nat) (hc : c = ']' ∨ c = '}') :
    Passes .outside (k + 1) [c] .outside k := by
  rcases hc with rfl | rfl <;> exact Passes.single rfl

theorem Passes.open {c : Char} (k : Nat) (hc : c = '[' ∨ c = '{') :
    Passes .outside k [c] .outside (k + 1) := by
  rcases hc with rfl | rfl <;> exact Passes.single (by simp [endsValue])

mutual

/-- **A written value has no end inside.** -/
theorem passes_pretty (depth k : Nat) : ∀ v : Json, Passes .outside k (pretty depth v) .outside k
  | null => by
    rw [pretty]
    exact Passes.quiet k (quiet_of_all rfl)
  | bool true => by
    rw [pretty]
    exact Passes.quiet k (quiet_of_all rfl)
  | bool false => by
    rw [pretty]
    exact Passes.quiet k (quiet_of_all rfl)
  | integer n => by
    rw [pretty, writeScalar]
    exact Passes.quiet k (quiet_writeInteger n)
  | float x => by
    rw [pretty, writeScalar]
    exact Passes.quiet k (quiet_writeFloat x)
  | string text => by
    rw [pretty, writeScalar]
    exact Passes.quote k text
  | array [] => (Passes.open k (Or.inl rfl)).append (Passes.close k (Or.inl rfl))
  | array (v :: vs) => by
    rw [pretty]
    exact (Passes.open k (Or.inl rfl)).append (passes_prettyItems depth k (v :: vs))
  | object [] => (Passes.open k (Or.inr rfl)).append (Passes.close k (Or.inr rfl))
  | object (f :: fs) => by
    rw [pretty]
    exact (Passes.open k (Or.inr rfl)).append (passes_prettyFields depth k (f :: fs))

theorem passes_prettyItems (depth k : Nat) : ∀ vs : List Json,
    Passes .outside (k + 1) (prettyItems depth vs) .outside k
  | [] => (Passes.newLine k depth).append (Passes.close k (Or.inl rfl))
  | [v] => by
    rw [prettyItems]
    exact (((Passes.newLine k _).append (passes_pretty (depth + 1) (k + 1) v)).append
      (Passes.newLine k depth)).append (Passes.close k (Or.inl rfl))
  | v :: w :: vs => by
    rw [prettyItems]
    exact ((Passes.newLine k _).append (passes_pretty (depth + 1) (k + 1) v)).append
      ((Passes.comma k).append (passes_prettyItems depth k (w :: vs)))

theorem passes_prettyFields (depth k : Nat) : ∀ fs : List (String × Json),
    Passes .outside (k + 1) (prettyFields depth fs) .outside k
  | [] => (Passes.newLine k depth).append (Passes.close k (Or.inr rfl))
  | [(key, v)] => by
    rw [prettyFields]
    have hcolon : Passes .outside (k + 1) [':', ' '] .outside (k + 1) :=
      Passes.quiet (k + 1) (quiet_of_all rfl)
    have hvalue := hcolon.append (passes_pretty (depth + 1) (k + 1) v)
    exact ((((Passes.newLine k _).append (Passes.quote (k + 1) key)).append hvalue).append
      (Passes.newLine k depth)).append (Passes.close k (Or.inr rfl))
  | (key, v) :: f :: fs => by
    rw [prettyFields]
    have hcolon : Passes .outside (k + 1) [':', ' '] .outside (k + 1) :=
      Passes.quiet (k + 1) (quiet_of_all rfl)
    have hvalue := hcolon.append (passes_pretty (depth + 1) (k + 1) v)
    exact (((Passes.newLine k _).append (Passes.quote (k + 1) key)).append hvalue).append
      ((Passes.comma k).append (passes_prettyFields depth k (f :: fs)))

end

/-! ## 4. The text of an object -/

/-- A text that is empty or goes on with a comma or a line break. -/
def AtEnd (rest : List Char) : Prop := front .outside 0 rest = ([], rest)

theorem atEnd_comma (rest : List Char) : AtEnd (',' :: rest) := rfl

theorem atEnd_newLine (depth : Nat) (rest : List Char) : AtEnd (newLine depth ++ rest) := rfl

/-- **The end of a value shows.** Two values in front of an end each can only
have one text, in front of one end. -/
theorem pretty_append_inj {depth : Nat} {v w : Json} {xs ys : List Char} (hx : AtEnd xs)
    (hy : AtEnd ys) (h : pretty depth v ++ xs = pretty depth w ++ ys) :
    pretty depth v = pretty depth w ∧ xs = ys := by
  -- Both sides are cut at the same place: where the one value ends, and the other.
  have hv := passes_pretty depth 0 v xs
  have hw := passes_pretty depth 0 w ys
  rw [hx] at hv
  rw [hy] at hw
  rw [h, hw] at hv
  obtain ⟨htext, hrest⟩ := Prod.mk.inj hv
  rw [List.append_nil, List.append_nil] at htext
  exact ⟨htext.symm, hrest.symm⟩

/-- The keys of an object with the texts of their values. -/
def fieldTexts (d : List (String × Json)) : List (String × List Char) :=
  d.map fun f => (f.1, pretty 1 f.2)

/-- What stands behind the first field of an object. -/
def behindField : List (String × Json) → List Char
  | [] => newLine 0 ++ ['}']
  | f :: fs => ',' :: prettyFields 0 (f :: fs)

theorem atEnd_behindField (fs : List (String × Json)) : AtEnd (behindField fs) := by
  cases fs with
  | nil => exact atEnd_newLine 0 _
  | cons f fs => exact atEnd_comma _

theorem prettyFields_cons (k : String) (v : Json) (fs : List (String × Json)) :
    prettyFields 0 ((k, v) :: fs)
      = newLine 1 ++ (quote k ++ (':' :: ' ' :: (pretty 1 v ++ behindField fs))) := by
  cases fs with
  | nil =>
    rw [prettyFields, behindField]
    simp only [List.append_assoc, List.cons_append]
  | cons f fs =>
    rw [prettyFields, behindField]
    simp only [List.append_assoc, List.cons_append]

/-- **The text of the fields determines them**, each value up to its own
text. -/
theorem fieldTexts_of_prettyFields {d e : List (String × Json)}
    (h : prettyFields 0 d = prettyFields 0 e) : fieldTexts d = fieldTexts e := by
  induction d generalizing e with
  | nil =>
    cases e with
    | nil => rfl
    | cons g e =>
      rw [prettyFields_cons] at h
      exact absurd h (by simp [prettyFields, newLine])
  | cons f d ih =>
    obtain ⟨k, v⟩ := f
    cases e with
    | nil =>
      rw [prettyFields_cons] at h
      exact absurd h (by simp [prettyFields, newLine])
    | cons g e =>
      obtain ⟨l, w⟩ := g
      rw [prettyFields_cons, prettyFields_cons] at h
      obtain ⟨hkey, hvalue⟩ := quote_append_inj (List.append_cancel_left h)
      have htexts := pretty_append_inj (atEnd_behindField d) (atEnd_behindField e)
        (List.cons.inj (List.cons.inj hvalue).2).2
      -- What stands behind the values tells whether more fields follow.
      have hrest : fieldTexts d = fieldTexts e := by
        cases d with
        | nil =>
          cases e with
          | nil => rfl
          | cons g' e => exact absurd htexts.2 (by simp [behindField, newLine])
        | cons f' d =>
          cases e with
          | nil => exact absurd htexts.2 (by simp [behindField, newLine])
          | cons g' e => exact ih (List.cons.inj htexts.2).2
      show (k, pretty 1 v) :: fieldTexts d = (l, pretty 1 w) :: fieldTexts e
      rw [hkey, htexts.1, hrest]

/-- And it is determined by them. -/
theorem prettyFields_of_fieldTexts {d e : List (String × Json)}
    (h : fieldTexts d = fieldTexts e) : prettyFields 0 d = prettyFields 0 e := by
  induction d generalizing e with
  | nil =>
    cases e with
    | nil => rfl
    | cons g e => exact absurd h (by simp [fieldTexts])
  | cons f d ih =>
    obtain ⟨k, v⟩ := f
    cases e with
    | nil => exact absurd h (by simp [fieldTexts])
    | cons g e =>
      obtain ⟨l, w⟩ := g
      simp only [fieldTexts, List.map_cons, List.cons.injEq, Prod.mk.injEq] at h
      obtain ⟨⟨hkey, hvalue⟩, hrest⟩ := h
      have hbehind : behindField d = behindField e := by
        cases d with
        | nil =>
          cases e with
          | nil => rfl
          | cons g' e => exact absurd hrest (by simp)
        | cons f' d =>
          cases e with
          | nil => exact absurd hrest (by simp)
          | cons g' e =>
            rw [behindField, behindField]
            exact congrArg _ (ih hrest)
      rw [prettyFields_cons, prettyFields_cons, hkey, hvalue, hbehind]

/-- **Two objects have one text exactly when they bind the same keys to values
of one text.** -/
theorem pretty_object_eq_iff {d e : List (String × Json)} :
    pretty 0 (object d) = pretty 0 (object e) ↔ fieldTexts d = fieldTexts e := by
  cases d with
  | nil =>
    cases e with
    | nil => exact ⟨fun _ => rfl, fun _ => rfl⟩
    | cons g e =>
      obtain ⟨l, w⟩ := g
      constructor
      · intro h
        rw [pretty, pretty, prettyFields_cons] at h
        -- The brackets of an empty object have no line break between them.
        exact absurd h (by simp [newLine])
      · intro h
        exact absurd h (by simp [fieldTexts])
  | cons f d =>
    obtain ⟨k, v⟩ := f
    cases e with
    | nil =>
      constructor
      · intro h
        rw [pretty, pretty, prettyFields_cons] at h
        exact absurd h (by simp [newLine])
      · intro h
        exact absurd h (by simp [fieldTexts])
    | cons g e =>
      rw [pretty, pretty]
      constructor
      · intro h
        exact fieldTexts_of_prettyFields (List.cons.inj h).2
      · intro h
        rw [prettyFields_of_fieldTexts h]

end ScopedState.Json
