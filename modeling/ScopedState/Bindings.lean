/-
`Bindings.lean` -- finite maps and finite sets in key order.

A storage document, the components of a scope, the units of a session and the
pending paths of a change feed are all finite, and all of them are shown in
the order of their keys. Both are kept here as plain lists in that order: a
map is a list of pairs, a set is a list of elements.

The point of the representation is that the laws of `get?` need nothing about
the order. Looking a key up after an insertion or a removal is settled by
equality of keys alone, so these two laws hold of every list of pairs, and the
order only decides what is printed first.
-/
set_option autoImplicit false

namespace ScopedState

/-- A finite map: pairs of key and value, in ascending order of the keys. -/
abbrev Bindings (κ ν : Type) := List (κ × ν)

namespace Bindings

variable {κ ν μ : Type} [DecidableEq κ]

/-! ## 1. Looking up and removing -/

/-- The value bound to `k`, if there is one. -/
def get? (m : Bindings κ ν) (k : κ) : Option ν :=
  match m with
  | [] => none
  | (a, v) :: rest => if k = a then some v else get? rest k

/-- Whether `k` is bound. -/
def binds (m : Bindings κ ν) (k : κ) : Bool := (get? m k).isSome

/-- The map without `k`. -/
def erase (m : Bindings κ ν) (k : κ) : Bindings κ ν :=
  m.filter fun entry => entry.1 ≠ k

/-- The keys, in order. -/
def keys (m : Bindings κ ν) : List κ := m.map Prod.fst

/-- The values, in the order of their keys. -/
def values (m : Bindings κ ν) : List ν := m.map Prod.snd

/-- The same keys, each value replaced by its image. -/
def mapValues (f : ν → μ) (m : Bindings κ ν) : Bindings κ μ :=
  m.map fun entry => (entry.1, f entry.2)

/-! ## 2. Inserting -/

section Order

variable [LT κ] [DecidableLT κ]

/-- Bind `k` to `v`, in place of what it was bound to. -/
def insert (m : Bindings κ ν) (k : κ) (v : ν) : Bindings κ ν :=
  match m with
  | [] => [(k, v)]
  | (a, b) :: rest =>
    if k = a then (a, v) :: rest
    else if k < a then (k, v) :: (a, b) :: rest
    else (a, b) :: insert rest k v

/-- Bind `k` to `v` unless `k` is bound already: the first binding stays. -/
def insertNew (m : Bindings κ ν) (k : κ) (v : ν) : Bindings κ ν :=
  if binds m k then m else insert m k v

/-- Bind the pairs one after the other, so that the last pair of a key wins. -/
def ofList (pairs : List (κ × ν)) : Bindings κ ν :=
  pairs.foldl (fun m entry => insert m entry.1 entry.2) []

/-- `m` together with the keys of `n` that it does not bind. -/
def union (m n : Bindings κ ν) : Bindings κ ν :=
  n.foldl (fun acc entry => insertNew acc entry.1 entry.2) m

end Order

/-! ## 3. The laws of `get?` -/

@[simp] theorem get?_nil (k : κ) : get? ([] : Bindings κ ν) k = none := rfl

/-- **Lookup after removal.** Only the removed key is gone. -/
theorem get?_erase (m : Bindings κ ν) (k k' : κ) :
    get? (erase m k) k' = if k' = k then none else get? m k' := by
  induction m with
  | nil => simp [erase, get?]
  | cons entry rest ih =>
    obtain ⟨a, v⟩ := entry
    by_cases ha : a = k
    · have hstep : erase ((a, v) :: rest) k = erase rest k := by simp [erase, ha]
      rw [hstep, ih]
      by_cases hk : k' = k
      · simp [hk]
      · have hka : ¬ k' = a := fun h => hk (h.trans ha)
        simp [get?, hk, hka]
    · have hstep : erase ((a, v) :: rest) k = (a, v) :: erase rest k := by simp [erase, ha]
      rw [hstep]
      by_cases hk' : k' = a
      · have hne : ¬ k' = k := fun h => ha (hk'.symm.trans h)
        simp [get?, hk', ha]
      · simp only [get?, hk', if_false]
        exact ih

section Order

variable [LT κ] [DecidableLT κ]

/-- **Lookup after insertion.** Only the inserted key changes. -/
theorem get?_insert (m : Bindings κ ν) (k : κ) (v : ν) (k' : κ) :
    get? (insert m k v) k' = if k' = k then some v else get? m k' := by
  induction m with
  | nil => simp [insert, get?]
  | cons entry rest ih =>
    obtain ⟨a, b⟩ := entry
    by_cases hka : k = a
    · subst hka
      by_cases hk' : k' = k <;> simp [insert, get?, hk']
    · by_cases hlt : k < a
      · by_cases hk' : k' = k
        · simp [insert, get?, hka, hlt, hk']
        · simp [insert, get?, hka, hlt, hk']
      · by_cases hk' : k' = a
        · have hne : ¬ a = k := fun h => hka h.symm
          simp [insert, get?, hka, hlt, hk', hne]
        · simp [insert, get?, hka, hlt, hk', ih]

end Order

end Bindings

/-! ## 4. Sets in ascending order -/

namespace Ascending

variable {κ : Type} [DecidableEq κ] [LT κ] [DecidableLT κ]

/-- The set with `x` in it. -/
def insert (xs : List κ) (x : κ) : List κ :=
  match xs with
  | [] => [x]
  | a :: rest =>
    if x = a then a :: rest
    else if x < a then x :: a :: rest
    else a :: insert rest x

/-- The set of the listed elements. -/
def ofList (xs : List κ) : List κ := xs.foldl insert []

/-- The elements of either set. -/
def union (xs ys : List κ) : List κ := ys.foldl insert xs

/-- **Membership after insertion.** -/
theorem mem_insert (xs : List κ) (x y : κ) : y ∈ insert xs x ↔ y = x ∨ y ∈ xs := by
  induction xs with
  | nil => simp [insert]
  | cons a rest ih =>
    by_cases hxa : x = a
    · subst hxa
      simp [insert]
    · by_cases hlt : x < a
      · simp [insert, hxa, hlt]
      · simp only [insert, hxa, hlt, if_false, List.mem_cons, ih]
        constructor
        · rintro (h | h | h)
          · exact Or.inr (Or.inl h)
          · exact Or.inl h
          · exact Or.inr (Or.inr h)
        · rintro (h | h | h)
          · exact Or.inr (Or.inl h)
          · exact Or.inl h
          · exact Or.inr (Or.inr h)

/-- **Membership in a union.** -/
theorem mem_union (xs ys : List κ) (y : κ) : y ∈ union xs ys ↔ y ∈ xs ∨ y ∈ ys := by
  unfold union
  induction ys generalizing xs with
  | nil => simp
  | cons a rest ih =>
    rw [List.foldl_cons, ih, mem_insert, List.mem_cons]
    constructor
    · rintro ((h | h) | h)
      · exact Or.inr (Or.inl h)
      · exact Or.inl h
      · exact Or.inr (Or.inr h)
    · rintro (h | h | h)
      · exact Or.inl (Or.inr h)
      · exact Or.inl (Or.inl h)
      · exact Or.inr h

/-- **Membership among the listed elements.** -/
theorem mem_ofList (xs : List κ) (y : κ) : y ∈ ofList xs ↔ y ∈ xs := by
  have hunion := mem_union [] xs y
  simp only [List.not_mem_nil, false_or] at hunion
  exact hunion

end Ascending

end ScopedState
