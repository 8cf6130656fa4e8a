/-
`Proofs/Bindings.lean` -- bindings whose keys ascend.

The laws of `get?` that stand beside the definitions hold of every list of
pairs. What they do not give is that a map is known by its lookups: two lists
may answer every key alike and still differ in their order or in entries that
are never reached. Both kinds of freedom go away once the keys ascend, and
every operation keeps that. So from here on an equation between two maps is
proved by looking up one key.

The order of the keys has to be a strict one in which two keys that are
neither below each other are equal. Numbers, texts, parts of a path and
locations all have such an order.
-/
import ScopedState.Path
set_option autoImplicit false

namespace ScopedState

/-! ## 1. Ordered keys -/

/-- Keys whose `<` is a strict order with nothing side by side. -/
class OrderedKey (κ : Type) [LT κ] : Prop where
  irrefl : ∀ a : κ, ¬ a < a
  trans : ∀ {a b c : κ}, a < b → b < c → a < c
  connected : ∀ {a b : κ}, ¬ a < b → ¬ b < a → a = b

namespace OrderedKey

theorem ne_of_lt {κ : Type} [LT κ] [OrderedKey κ] {a b : κ} (h : a < b) : a ≠ b := by
  intro hab
  rw [hab] at h
  exact irrefl b h

instance : OrderedKey Nat where
  irrefl := Nat.lt_irrefl
  trans := Nat.lt_trans
  connected := fun hab hba => Nat.le_antisymm (Nat.not_lt.mp hba) (Nat.not_lt.mp hab)

instance : OrderedKey String where
  irrefl := String.lt_irrefl
  trans := String.lt_trans
  connected := fun hab hba => String.le_antisymm hba hab

/-- Parts are told apart by their kind and their text. -/
theorem part_ext {a b : Part} (hrank : a.rank = b.rank) (htext : a.text = b.text) : a = b := by
  cases a <;> cases b <;> simp_all [Part.rank, Part.text]

instance : OrderedKey Part where
  irrefl a := by
    rintro (h | ⟨_, h⟩)
    · exact Nat.lt_irrefl _ h
    · exact String.lt_irrefl _ h
  trans := by
    rintro a b c (hab | ⟨hab, htab⟩) (hbc | ⟨hbc, htbc⟩)
    · exact Or.inl (Nat.lt_trans hab hbc)
    · exact Or.inl (hbc ▸ hab)
    · exact Or.inl (hab ▸ hbc)
    · exact Or.inr ⟨hab.trans hbc, String.lt_trans htab htbc⟩
  connected := by
    intro a b hab hba
    have hrank : a.rank = b.rank :=
      OrderedKey.connected (fun h => hab (Or.inl h)) (fun h => hba (Or.inl h))
    have htext : a.text = b.text :=
      OrderedKey.connected (fun h => hab (Or.inr ⟨hrank, h⟩))
        (fun h => hba (Or.inr ⟨hrank.symm, h⟩))
    exact part_ext hrank htext

instance {κ : Type} [DecidableEq κ] [LT κ] [OrderedKey κ] : OrderedKey (List κ) where
  irrefl as := by
    induction as with
    | nil => exact List.not_lt_nil _
    | cons a as ih =>
      rw [List.cons_lt_cons_iff]
      rintro (h | ⟨_, h⟩)
      · exact irrefl a h
      · exact ih h
  trans := by
    intro as
    induction as with
    | nil =>
      intro bs cs hab hbc
      cases cs with
      | nil => exact absurd hbc (List.not_lt_nil _)
      | cons c cs => exact List.nil_lt_cons c cs
    | cons a as ih =>
      intro bs cs hab hbc
      cases bs with
      | nil => exact absurd hab (List.not_lt_nil _)
      | cons b bs =>
        cases cs with
        | nil => exact absurd hbc (List.not_lt_nil _)
        | cons c cs =>
          rw [List.cons_lt_cons_iff] at hab hbc ⊢
          -- The first place where two of the three lists differ decides.
          rcases hab with hab | ⟨rfl, hab⟩ <;> rcases hbc with hbc | ⟨rfl, hbc⟩
          · exact Or.inl (trans hab hbc)
          · exact Or.inl hab
          · exact Or.inl hbc
          · exact Or.inr ⟨rfl, ih hab hbc⟩
  connected := by
    intro as
    induction as with
    | nil =>
      intro bs hab hba
      cases bs with
      | nil => rfl
      | cons b bs => exact absurd (List.nil_lt_cons b bs) hab
    | cons a as ih =>
      intro bs hab hba
      cases bs with
      | nil => exact absurd (List.nil_lt_cons a as) hba
      | cons b bs =>
        rw [List.cons_lt_cons_iff] at hab hba
        have head : a = b := connected (fun h => hab (Or.inl h)) (fun h => hba (Or.inl h))
        subst head
        rw [ih (fun h => hab (Or.inr ⟨rfl, h⟩)) (fun h => hba (Or.inr ⟨rfl, h⟩))]

end OrderedKey

namespace Bindings

variable {κ ν μ : Type}

/-! ## 2. Ascending keys -/

/-- The keys ascend. -/
def Sorted [LT κ] (m : Bindings κ ν) : Prop := m.Pairwise fun a b => a.1 < b.1

theorem sorted_nil [LT κ] : Sorted ([] : Bindings κ ν) := List.Pairwise.nil

theorem Sorted.tail [LT κ] {e : κ × ν} {m : Bindings κ ν} (h : Sorted (e :: m)) : Sorted m :=
  List.Pairwise.of_cons h

theorem Sorted.head_lt [LT κ] {e : κ × ν} {m : Bindings κ ν} (h : Sorted (e :: m)) :
    ∀ x ∈ m, e.1 < x.1 := (List.pairwise_cons.mp h).1

theorem Sorted.filter [LT κ] {m : Bindings κ ν} (h : Sorted m) (p : κ × ν → Bool) :
    Sorted (m.filter p) := List.Pairwise.filter p h

theorem Sorted.mapValues [LT κ] {m : Bindings κ ν} (h : Sorted m) (f : κ × ν → μ) :
    Sorted (m.map fun e => (e.1, f e)) := by
  rw [Sorted, List.pairwise_map]
  exact h

section Lookup

variable [DecidableEq κ]

/-- A key that no entry has is not bound. -/
theorem get?_eq_none {m : Bindings κ ν} {k : κ} (h : ∀ x ∈ m, x.1 ≠ k) : get? m k = none := by
  induction m with
  | nil => rfl
  | cons e rest ih =>
    obtain ⟨a, v⟩ := e
    have hne : ¬ k = a := fun hka => h (a, v) List.mem_cons_self hka.symm
    rw [get?, if_neg hne]
    exact ih fun x hx => h x (List.mem_cons_of_mem _ hx)

/-- What is found is there. -/
theorem mem_of_get? {m : Bindings κ ν} {k : κ} {v : ν} (h : get? m k = some v) : (k, v) ∈ m := by
  induction m with
  | nil => simp at h
  | cons e rest ih =>
    obtain ⟨a, w⟩ := e
    rw [get?] at h
    split at h
    · rename_i hka
      rw [hka, ← Option.some.inj h]
      exact List.mem_cons_self
    · exact List.mem_cons_of_mem _ (ih h)

/-- The keys are what is bound. -/
theorem mem_keys_iff {m : Bindings κ ν} {k : κ} : k ∈ keys m ↔ (get? m k).isSome = true := by
  induction m with
  | nil => simp [keys]
  | cons e rest ih =>
    obtain ⟨a, v⟩ := e
    rw [keys, List.map_cons, List.mem_cons, get?]
    split
    · rename_i hka
      simp [hka]
    · rename_i hka
      simp only [hka, false_or]
      exact ih

/-- Replacing values by images of the entries commutes with looking up. -/
theorem get?_mapEntries (m : Bindings κ ν) (f : κ × ν → μ) (k : κ) :
    get? (m.map fun e => (e.1, f e)) k = (get? m k).map fun v => f (k, v) := by
  induction m with
  | nil => rfl
  | cons e rest ih =>
    obtain ⟨a, v⟩ := e
    rw [List.map_cons, get?, get?]
    by_cases hka : k = a
    · rw [if_pos hka, if_pos hka, hka]
      rfl
    · rw [if_neg hka, if_neg hka, ih]

variable [LT κ] [OrderedKey κ]

/-- **In ascending bindings what is there is found.** -/
theorem Sorted.get?_of_mem {m : Bindings κ ν} (hs : Sorted m) {k : κ} {v : ν} (h : (k, v) ∈ m) :
    get? m k = some v := by
  induction m with
  | nil => simp at h
  | cons e rest ih =>
    obtain ⟨a, w⟩ := e
    rcases List.mem_cons.mp h with heq | hrest
    · rw [(Prod.mk.inj heq).1, (Prod.mk.inj heq).2, get?, if_pos rfl]
    · have hne : ¬ k = a := (OrderedKey.ne_of_lt (hs.head_lt _ hrest)).symm
      rw [get?, if_neg hne]
      exact ih hs.tail hrest

/-- The first key is the least one, so it cannot be found further down. -/
theorem Sorted.get?_tail {a : κ} {v : ν} {m : Bindings κ ν} (hs : Sorted ((a, v) :: m)) :
    get? m a = none :=
  get?_eq_none fun x hx hxa => OrderedKey.ne_of_lt (hs.head_lt x hx) hxa.symm

/-- Two lists that each bind the other's first key begin with the same one: each
key is found in the other list, and the one that is not in front there would
have to lie above it. -/
theorem Sorted.head_eq {a b : κ} {v : ν} {w : μ} {m : Bindings κ ν} {n : Bindings κ μ}
    (hm : Sorted ((a, v) :: m)) (hn : Sorted ((b, w) :: n))
    (ha : (get? ((b, w) :: n) a).isSome = true) (hb : (get? ((a, v) :: m) b).isSome = true) :
    a = b := by
  by_cases hab : a = b
  · exact hab
  · rw [get?, if_neg hab] at ha
    rw [get?, if_neg (Ne.symm hab)] at hb
    obtain ⟨x, hx⟩ := Option.isSome_iff_exists.mp ha
    obtain ⟨y, hy⟩ := Option.isSome_iff_exists.mp hb
    have hba : b < a := hn.head_lt _ (mem_of_get? hx)
    have hab' : a < b := hm.head_lt _ (mem_of_get? hy)
    exact absurd (OrderedKey.trans hba hab') (OrderedKey.irrefl b)

/-- **Ascending bindings are known by their lookups.** -/
theorem Sorted.ext {m n : Bindings κ ν} (hm : Sorted m) (hn : Sorted n)
    (h : ∀ k, get? m k = get? n k) : m = n := by
  induction m generalizing n with
  | nil =>
    cases n with
    | nil => rfl
    | cons e n =>
      obtain ⟨b, w⟩ := e
      have hb := h b
      rw [get?, get?, if_pos rfl] at hb
      exact absurd hb (Option.some_ne_none w).symm
  | cons e m ih =>
    obtain ⟨a, v⟩ := e
    cases n with
    | nil =>
      have ha := h a
      rw [get?, get?, if_pos rfl] at ha
      exact absurd ha (Option.some_ne_none v)
    | cons e n =>
      obtain ⟨b, w⟩ := e
      have ha := h a
      have hb := h b
      have hab : a = b := by
        refine hm.head_eq hn ?_ ?_
        · rw [← ha, get?, if_pos rfl]
          rfl
        · rw [hb, get?, if_pos rfl]
          rfl
      subst hab
      rw [get?, if_pos rfl, get?, if_pos rfl] at ha
      have hrest : m = n := by
        refine ih hm.tail hn.tail fun k => ?_
        by_cases hka : k = a
        · rw [hka, hm.get?_tail, hn.get?_tail]
        · have hk := h k
          rwa [get?, get?, if_neg hka, if_neg hka] at hk
      rw [Option.some.inj ha, hrest]

/-- Looking up among the entries of a kind. -/
theorem Sorted.get?_filter {m : Bindings κ ν} (hs : Sorted m) (p : κ × ν → Bool) (k : κ) :
    get? (m.filter p) k = (get? m k).filter fun v => p (k, v) := by
  induction m with
  | nil => rfl
  | cons e rest ih =>
    obtain ⟨a, v⟩ := e
    by_cases hka : k = a
    · subst hka
      -- The key cannot be found further down, so its entry is found here or not at all.
      rw [get?, if_pos rfl, List.filter_cons]
      split
      · rename_i hp
        rw [get?, if_pos rfl, Option.filter_some, if_pos hp]
      · rename_i hp
        rw [ih hs.tail, hs.get?_tail, Option.filter_some, if_neg hp]
        rfl
    · rw [List.filter_cons, get?, if_neg hka]
      split
      · rw [get?, if_neg hka, ih hs.tail]
      · exact ih hs.tail

/-! ## 3. Operations keep the order -/

variable [DecidableLT κ]

omit [OrderedKey κ] in
/-- An inserted entry is the new one or was there. -/
theorem mem_insert {m : Bindings κ ν} {k : κ} {v : ν} {x : κ × ν} (h : x ∈ insert m k v) :
    x = (k, v) ∨ x ∈ m := by
  induction m with
  | nil => exact Or.inl (List.mem_singleton.mp h)
  | cons e rest ih =>
    obtain ⟨a, b⟩ := e
    rw [insert] at h
    split at h
    · rename_i hka
      rcases List.mem_cons.mp h with hx | hx
      · exact Or.inl (by rw [hx, hka])
      · exact Or.inr (List.mem_cons_of_mem _ hx)
    · split at h
      · exact (List.mem_cons.mp h).imp_right id
      · rcases List.mem_cons.mp h with hx | hx
        · exact Or.inr (by rw [hx]; exact List.mem_cons_self)
        · exact (ih hx).imp_right (List.mem_cons_of_mem _)

theorem Sorted.insert {m : Bindings κ ν} (hs : Sorted m) (k : κ) (v : ν) :
    Sorted (Bindings.insert m k v) := by
  induction m with
  | nil => exact List.pairwise_singleton _ _
  | cons e rest ih =>
    obtain ⟨a, b⟩ := e
    rw [Bindings.insert]
    split
    · exact List.pairwise_cons.mpr ⟨hs.head_lt, hs.tail⟩
    · rename_i hka
      split
      · rename_i hlt
        refine List.pairwise_cons.mpr ⟨fun x hx => ?_, hs⟩
        rcases List.mem_cons.mp hx with rfl | hx
        · exact hlt
        · exact OrderedKey.trans hlt (hs.head_lt x hx)
      · rename_i hlt
        refine List.pairwise_cons.mpr ⟨fun x hx => ?_, ih hs.tail⟩
        rcases mem_insert hx with rfl | hx
        · -- Neither equal to the key nor above it, so below it.
          by_cases hak : a < k
          · exact hak
          · exact absurd (OrderedKey.connected hlt hak) hka
        · exact hs.head_lt x hx

omit [OrderedKey κ] [DecidableLT κ] in
theorem Sorted.erase {m : Bindings κ ν} (hs : Sorted m) (k : κ) : Sorted (Bindings.erase m k) :=
  hs.filter _

theorem sorted_ofList (pairs : List (κ × ν)) : Sorted (ofList pairs) := by
  suffices h : ∀ m : Bindings κ ν, Sorted m →
      Sorted (pairs.foldl (fun m entry => Bindings.insert m entry.1 entry.2) m) from h [] sorted_nil
  induction pairs with
  | nil => exact fun m hm => hm
  | cons e rest ih => exact fun m hm => ih _ (hm.insert e.1 e.2)

omit [OrderedKey κ] in
/-- What a list of pairs is bound to, pair by pair: every entry is one of the pairs, and
every key of a pair is bound. -/
theorem mem_ofList (pairs : List (κ × ν)) :
    (∀ x ∈ ofList pairs, x ∈ pairs) ∧ ∀ x ∈ pairs, x.1 ∈ keys (ofList pairs) := by
  suffices h : ∀ m : Bindings κ ν,
      (∀ x ∈ pairs.foldl (fun m entry => Bindings.insert m entry.1 entry.2) m, x ∈ m ∨ x ∈ pairs) ∧
        ∀ k, k ∈ keys m ∨ k ∈ pairs.map Prod.fst →
          k ∈ keys (pairs.foldl (fun m entry => Bindings.insert m entry.1 entry.2) m) by
    refine ⟨fun x hx => ?_, fun x hx => (h []).2 x.1 (Or.inr (List.mem_map_of_mem hx))⟩
    exact ((h []).1 x hx).resolve_left List.not_mem_nil
  induction pairs with
  | nil =>
    intro m
    exact ⟨fun x hx => Or.inl hx, fun k hk => hk.resolve_right List.not_mem_nil⟩
  | cons e rest ih =>
    intro m
    obtain ⟨hfrom, hkeys⟩ := ih (Bindings.insert m e.1 e.2)
    have hinserted : ∀ k, k = e.1 ∨ k ∈ keys m → k ∈ keys (Bindings.insert m e.1 e.2) := by
      intro k hk
      rw [mem_keys_iff, get?_insert]
      split
      · rfl
      · exact mem_keys_iff.mp (hk.resolve_left ‹_›)
    refine ⟨fun x hx => ?_, fun k hk => hkeys k ?_⟩
    · rcases hfrom x hx with hx | hx
      · rcases mem_insert hx with rfl | hx
        · exact Or.inr List.mem_cons_self
        · exact Or.inl hx
      · exact Or.inr (List.mem_cons_of_mem _ hx)
    · rcases hk with hk | hk
      · exact Or.inl (hinserted k (Or.inr hk))
      · rcases List.mem_cons.mp hk with rfl | hk
        · exact Or.inl (hinserted e.1 (Or.inl rfl))
        · exact Or.inr hk

omit [OrderedKey κ] in
/-- **The keys of pairs** are those that are bound. -/
theorem mem_keys_ofList {pairs : List (κ × ν)} {k : κ} :
    k ∈ keys (ofList pairs) ↔ k ∈ pairs.map Prod.fst := by
  obtain ⟨hfrom, hkeys⟩ := mem_ofList pairs
  constructor
  · intro hk
    obtain ⟨x, hx, rfl⟩ := List.mem_map.mp hk
    exact List.mem_map_of_mem (hfrom x hx)
  · intro hk
    obtain ⟨x, hx, rfl⟩ := List.mem_map.mp hk
    exact hkeys x hx

omit [OrderedKey κ] in
theorem mem_keys_insertNew {m : Bindings κ ν} {k k' : κ} {v : ν} :
    k' ∈ keys (insertNew m k v) ↔ k' = k ∨ k' ∈ keys m := by
  rw [insertNew]
  by_cases hk : binds m k = true
  · rw [if_pos hk]
    have hmem : k ∈ keys m := mem_keys_iff.mpr hk
    exact ⟨Or.inr, fun h => h.elim (fun heq => heq ▸ hmem) id⟩
  · rw [if_neg hk, mem_keys_iff, mem_keys_iff, get?_insert]
    by_cases hk' : k' = k
    · simp [hk']
    · simp [hk']

omit [OrderedKey κ] in
/-- **The keys of a union.** -/
theorem mem_keys_union {m n : Bindings κ ν} {k : κ} :
    k ∈ keys (union m n) ↔ k ∈ keys m ∨ k ∈ keys n := by
  rw [union]
  induction n generalizing m with
  | nil => simp [keys]
  | cons e rest ih =>
    rw [List.foldl_cons, ih, mem_keys_insertNew, keys, keys, keys, List.map_cons, List.mem_cons,
      or_assoc, or_left_comm]

omit [DecidableEq κ] [DecidableLT κ] in
/-- Ascending bindings have each key once. -/
theorem Sorted.nodup_keys {m : Bindings κ ν} (hs : Sorted m) : (m.map Prod.fst).Nodup :=
  List.pairwise_map.mpr (hs.imp fun hlt => OrderedKey.ne_of_lt hlt)

/-- A key above all others comes last. -/
theorem insert_last {m : Bindings κ ν} {k : κ}
    (h : ∀ x ∈ m, x.1 < k) (v : ν) : Bindings.insert m k v = m ++ [(k, v)] := by
  induction m with
  | nil => rfl
  | cons e rest ih =>
    obtain ⟨a, b⟩ := e
    have hlt : a < k := h (a, b) List.mem_cons_self
    have hne : ¬ k = a := (OrderedKey.ne_of_lt hlt).symm
    have hnot : ¬ k < a := fun hgt => OrderedKey.irrefl k (OrderedKey.trans hgt hlt)
    rw [Bindings.insert, if_neg hne, if_neg hnot, ih fun x hx => h x (List.mem_cons_of_mem _ hx)]
    rfl

/-- Ascending pairs are bound in their order. -/
theorem Sorted.ofList {m : Bindings κ ν} (hs : Sorted m) : Bindings.ofList m = m := by
  suffices h : ∀ before : Bindings κ ν, Sorted (before ++ m) →
      m.foldl (fun m entry => Bindings.insert m entry.1 entry.2) before = before ++ m from h [] hs
  clear hs
  induction m with
  | nil => exact fun before _ => (List.append_nil before).symm
  | cons e m ih =>
    intro before hsorted
    have hbelow : ∀ x ∈ before, x.1 < e.1 := fun x hx =>
      (List.pairwise_append.mp hsorted).2.2 x hx e List.mem_cons_self
    rw [List.foldl_cons, insert_last hbelow, ih]
    · rw [List.append_assoc, List.singleton_append]
    · rwa [List.append_assoc, List.singleton_append]

end Lookup

end Bindings

/-! ## 4. Sets of paths -/

/-- Paths of different locations all come out of the set of them, each once. -/
theorem Paths.ofList_spec {ps : List Path}
    (hapart : ∀ p ∈ ps, ∀ q ∈ ps, p.location = q.location → p = q) :
    (Paths.ofList ps).toList.Nodup ∧ ∀ p, p ∈ (Paths.ofList ps).toList ↔ p ∈ ps := by
  obtain ⟨hfrom, hkeys⟩ := Bindings.mem_ofList (ps.map fun p => (p.location, p))
  have hentry : ∀ e ∈ Paths.ofList ps, e.1 = e.2.location ∧ e.2 ∈ ps := by
    intro e he
    obtain ⟨p, hp, rfl⟩ := List.mem_map.mp (hfrom e he)
    exact ⟨rfl, hp⟩
  refine ⟨?_, fun p => ⟨fun hp => ?_, fun hp => ?_⟩⟩
  · have hsorted : Bindings.Sorted (Paths.ofList ps) := Bindings.sorted_ofList _
    refine List.pairwise_map.mpr (hsorted.imp_of_mem fun {a b} ha hb hlt heq => ?_)
    refine OrderedKey.ne_of_lt hlt ?_
    rw [(hentry a ha).1, (hentry b hb).1, heq]
  · obtain ⟨e, he, rfl⟩ := List.mem_map.mp hp
    exact (hentry e he).2
  · obtain ⟨e, he, hlocation⟩ := List.mem_map.mp (hkeys _ (List.mem_map_of_mem hp))
    refine List.mem_map.mpr ⟨e, he, ?_⟩
    exact hapart _ (hentry e he).2 _ hp ((hentry e he).1.symm.trans hlocation)

end ScopedState
