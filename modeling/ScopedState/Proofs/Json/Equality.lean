/-
`Proofs/Json/Equality.lean` -- equal values.

`same` is an equivalence. It is not identity: the two zeros are equal doubles,
so two values may be the same and still be written differently. Of two objects
with ascending keys it says just that every key is bound to equal values.

Each law is a recursion in three parts, as `same` itself is.
-/
import ScopedState.Proofs.Bindings
import ScopedState.Json.Value
set_option autoImplicit false

namespace ScopedState

/-! ## 1. Doubles -/

namespace Binary64

theorem same_iff (x y : Binary64) :
    x.same y = true ↔ x.significand = y.significand ∧
      (x.significand = 0 ∨ (x.negative = y.negative ∧ x.exponent = y.exponent)) := by
  simp only [same, Bool.and_eq_true, Bool.or_eq_true, decide_eq_true_eq]

theorem same_refl (x : Binary64) : x.same x = true :=
  (same_iff x x).mpr ⟨rfl, Or.inr ⟨rfl, rfl⟩⟩

theorem same_symm {x y : Binary64} (h : x.same y = true) : y.same x = true := by
  rw [same_iff] at h ⊢
  obtain ⟨hs, hz | ⟨hn, he⟩⟩ := h
  · exact ⟨hs.symm, Or.inl (hs ▸ hz)⟩
  · exact ⟨hs.symm, Or.inr ⟨hn.symm, he.symm⟩⟩

theorem same_trans {x y z : Binary64} (hxy : x.same y = true) (hyz : y.same z = true) :
    x.same z = true := by
  rw [same_iff] at hxy hyz ⊢
  obtain ⟨hs, hxy⟩ := hxy
  obtain ⟨hs', hyz⟩ := hyz
  refine ⟨hs.trans hs', ?_⟩
  rcases hxy with hz | ⟨hn, he⟩
  · exact Or.inl hz
  · rcases hyz with hz | ⟨hn', he'⟩
    · exact Or.inl (hs ▸ hz)
    · exact Or.inr ⟨hn.trans hn', he.trans he'⟩

end Binary64

namespace Json

/-! ## 2. Equality is an equivalence -/

mutual

theorem same_refl : ∀ v : Json, same v v = true
  | null => rfl
  | bool b => by rw [same, beq_self_eq_true]
  | integer n => by rw [same, beq_self_eq_true]
  | float x => by rw [same, Binary64.same_refl]
  | string s => by rw [same, beq_self_eq_true]
  | array vs => by rw [same, sameItems_refl vs]
  | object fs => by rw [same, sameFields_refl fs]

theorem sameItems_refl : ∀ vs : List Json, sameItems vs vs = true
  | [] => rfl
  | v :: vs => by rw [sameItems, same_refl v, sameItems_refl vs]; rfl

theorem sameFields_refl : ∀ fs : List (String × Json), sameFields fs fs = true
  | [] => rfl
  | (k, v) :: fs => by
    rw [sameFields, same_refl v, sameFields_refl fs, beq_self_eq_true]
    rfl

end

mutual

theorem same_symm : ∀ v w : Json, same v w = true → same w v = true
  | null, w, h => by cases w <;> simp_all [same]
  | bool _, w, h => by cases w <;> simp_all [same]
  | integer _, w, h => by cases w <;> simp_all [same]
  | float x, w, h => by
    cases w with
    | float y =>
      rw [same] at h ⊢
      exact Binary64.same_symm h
    | _ => simp [same] at h
  | string _, w, h => by cases w <;> simp_all [same]
  | array vs, w, h => by
    cases w with
    | array ws =>
      rw [same] at h ⊢
      exact sameItems_symm vs ws h
    | _ => simp [same] at h
  | object fs, w, h => by
    cases w with
    | object gs =>
      rw [same] at h ⊢
      exact sameFields_symm fs gs h
    | _ => simp [same] at h

theorem sameItems_symm : ∀ vs ws : List Json, sameItems vs ws = true → sameItems ws vs = true
  | [], ws, h => by cases ws <;> simp_all [sameItems]
  | v :: vs, ws, h => by
    cases ws with
    | nil => simp [sameItems] at h
    | cons w ws =>
      rw [sameItems, Bool.and_eq_true] at h ⊢
      exact ⟨same_symm v w h.1, sameItems_symm vs ws h.2⟩

theorem sameFields_symm : ∀ fs gs : List (String × Json),
    sameFields fs gs = true → sameFields gs fs = true
  | [], gs, h => by cases gs <;> simp_all [sameFields]
  | (k, v) :: fs, gs, h => by
    cases gs with
    | nil => simp [sameFields] at h
    | cons g gs =>
      obtain ⟨l, w⟩ := g
      rw [sameFields, Bool.and_eq_true, Bool.and_eq_true, beq_iff_eq] at h ⊢
      exact ⟨⟨h.1.1.symm, same_symm v w h.1.2⟩, sameFields_symm fs gs h.2⟩

end

mutual

theorem same_trans : ∀ u v w : Json, same u v = true → same v w = true → same u w = true
  -- A value is only equal to one of its own kind, so all other kinds drop out.
  | null, v, w, h, h' => by
    cases v with
    | null => exact h'
    | _ => simp [same] at h
  | bool a, v, w, h, h' => by
    cases v with
    | bool b =>
      rw [same, beq_iff_eq] at h
      rwa [h]
    | _ => simp [same] at h
  | integer a, v, w, h, h' => by
    cases v with
    | integer b =>
      rw [same, beq_iff_eq] at h
      rwa [h]
    | _ => simp [same] at h
  | float x, v, w, h, h' => by
    cases v with
    | float y =>
      cases w with
      | float z =>
        rw [same] at h h' ⊢
        exact Binary64.same_trans h h'
      | _ => simp [same] at h'
    | _ => simp [same] at h
  | string a, v, w, h, h' => by
    cases v with
    | string b =>
      rw [same, beq_iff_eq] at h
      rwa [h]
    | _ => simp [same] at h
  | array us, v, w, h, h' => by
    cases v with
    | array vs =>
      cases w with
      | array ws =>
        rw [same] at h h' ⊢
        exact sameItems_trans us vs ws h h'
      | _ => simp [same] at h'
    | _ => simp [same] at h
  | object fs, v, w, h, h' => by
    cases v with
    | object gs =>
      cases w with
      | object hs =>
        rw [same] at h h' ⊢
        exact sameFields_trans fs gs hs h h'
      | _ => simp [same] at h'
    | _ => simp [same] at h

theorem sameItems_trans : ∀ us vs ws : List Json,
    sameItems us vs = true → sameItems vs ws = true → sameItems us ws = true
  | [], vs, ws, h, h' => by cases vs <;> simp_all [sameItems]
  | u :: us, vs, ws, h, h' => by
    cases vs with
    | nil => simp [sameItems] at h
    | cons v vs =>
      cases ws with
      | nil => simp [sameItems] at h'
      | cons w ws =>
        rw [sameItems, Bool.and_eq_true] at h h' ⊢
        exact ⟨same_trans u v w h.1 h'.1, sameItems_trans us vs ws h.2 h'.2⟩

theorem sameFields_trans : ∀ fs gs hs : List (String × Json),
    sameFields fs gs = true → sameFields gs hs = true → sameFields fs hs = true
  | [], gs, hs, h, h' => by cases gs <;> simp_all [sameFields]
  | (k, u) :: fs, gs, hs, h, h' => by
    cases gs with
    | nil => simp [sameFields] at h
    | cons g gs =>
      cases hs with
      | nil => simp [sameFields] at h'
      | cons e hs =>
        obtain ⟨l, v⟩ := g
        obtain ⟨m, w⟩ := e
        rw [sameFields, Bool.and_eq_true, Bool.and_eq_true, beq_iff_eq] at h h' ⊢
        exact ⟨⟨h.1.1.trans h'.1.1, same_trans u v w h.1.2 h'.1.2⟩,
          sameFields_trans fs gs hs h.2 h'.2⟩

end

/-! ## 3. Optional values -/

theorem sameOption_refl (o : Option Json) : sameOption o o = true := by
  cases o with
  | none => rfl
  | some v => exact same_refl v

theorem sameOption_symm {o p : Option Json} (h : sameOption o p = true) :
    sameOption p o = true := by
  cases o with
  | none => cases p <;> simp_all [sameOption]
  | some v =>
    cases p with
    | none => simp [sameOption] at h
    | some w => exact same_symm v w h

theorem sameOption_trans {o p q : Option Json} (h : sameOption o p = true)
    (h' : sameOption p q = true) : sameOption o q = true := by
  cases o with
  | none => cases p <;> simp_all [sameOption]
  | some u =>
    cases p with
    | none => simp [sameOption] at h
    | some v =>
      cases q with
      | none => simp [sameOption] at h'
      | some w => exact same_trans u v w h h'

/-- What a value is equal to is there. -/
theorem isSome_of_sameOption {v : Json} {o : Option Json} (h : sameOption (some v) o = true) :
    o.isSome = true := by
  cases o with
  | none => simp [sameOption] at h
  | some w => rfl

/-! ## 4. Objects with ascending keys -/

/-- **Two objects are equal when every key is bound to equal values.** -/
theorem sameFields_iff {d e : Bindings String Json} (hd : d.Sorted) (he : e.Sorted) :
    sameFields d e = true ↔
      ∀ k, sameOption (Bindings.get? d k) (Bindings.get? e k) = true := by
  induction d generalizing e with
  | nil =>
    cases e with
    | nil => exact ⟨fun _ _ => rfl, fun _ => rfl⟩
    | cons f e =>
      obtain ⟨l, w⟩ := f
      refine ⟨fun h => by simp [sameFields] at h, fun h => ?_⟩
      have hl := h l
      rw [Bindings.get?, Bindings.get?, if_pos rfl] at hl
      simp [sameOption] at hl
  | cons f d ih =>
    obtain ⟨k, v⟩ := f
    cases e with
    | nil =>
      refine ⟨fun h => by simp [sameFields] at h, fun h => ?_⟩
      have hk := h k
      rw [Bindings.get?, Bindings.get?, if_pos rfl] at hk
      simp [sameOption] at hk
    | cons f e =>
      obtain ⟨l, w⟩ := f
      rw [sameFields, Bool.and_eq_true, Bool.and_eq_true, beq_iff_eq, ih hd.tail he.tail]
      constructor
      · rintro ⟨⟨rfl, hvw⟩, hrest⟩ n
        rw [Bindings.get?, Bindings.get?]
        by_cases hn : n = k
        · rw [if_pos hn, if_pos hn]
          exact hvw
        · rw [if_neg hn, if_neg hn]
          exact hrest n
      · intro h
        have hk := h k
        have hl := sameOption_symm (h l)
        have hkl : k = l := by
          refine hd.head_eq he (isSome_of_sameOption (v := v) ?_) (isSome_of_sameOption (v := w) ?_)
          · rwa [Bindings.get?, if_pos rfl] at hk
          · rwa [Bindings.get?, if_pos rfl] at hl
        subst hkl
        rw [Bindings.get?, if_pos rfl, Bindings.get?, if_pos rfl] at hk
        refine ⟨⟨rfl, hk⟩, fun n => ?_⟩
        by_cases hn : n = k
        · rw [hn, hd.get?_tail, he.get?_tail]
          rfl
        · have hn' := h n
          rwa [Bindings.get?, Bindings.get?, if_neg hn, if_neg hn] at hn'

end Json

end ScopedState
