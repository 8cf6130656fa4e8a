/-
`Proofs/Storage/Decoded.lean` -- a stored unit decodes to the document it was encoded
from.

Two things keep a value from coming back as it was. A double may lose its last
place, and a container may nest deeper than the reader goes. The first is a matter
of what the value is made of, whatever its depth (`Whole`); the second is a matter of
its depth alone. They are kept apart here, because only reading back has to do
with both: that a text belongs to one value is a fact about the layout, and holds
beyond the depth to which the text can be read. It is shown by reading both values
with a reader that goes as deep as the deeper one.
-/
import ScopedState.Proofs.Storage.Names
set_option autoImplicit false

namespace ScopedState

open Bindings (Sorted)

namespace Json

/-! ## 1. Whole values -/

mutual

/-- **A whole value**: it has no doubles, its whole numbers are of 64 bits, signed or
not, and the keys of its objects ascend. -/
def Whole : Json → Prop
  | integer n => leastWord ≤ n ∧ n ≤ Literal.wordLimit
  | float _ => False
  | array items => WholeItems items
  | object fields => Sorted fields ∧ WholeFields fields
  | null => True
  | bool _ => True
  | string _ => True

/-- `Whole` of the items of an array. -/
def WholeItems : List Json → Prop
  | [] => True
  | v :: vs => Whole v ∧ WholeItems vs

/-- `Whole` of the fields of an object. -/
def WholeFields : List (String × Json) → Prop
  | [] => True
  | (_, v) :: fs => Whole v ∧ WholeFields fs

end

mutual

/-- Whether a value is whole can be computed. -/
def decWhole : (v : Json) → Decidable v.Whole
  | integer n => inferInstanceAs (Decidable (leastWord ≤ n ∧ n ≤ Literal.wordLimit))
  | float _ => inferInstanceAs (Decidable False)
  | array items => decWholeItems items
  | object fields =>
    haveI := decWholeFields fields
    haveI : Decidable (Sorted fields) := inferInstanceAs (Decidable (List.Pairwise _ fields))
    inferInstanceAs (Decidable (Sorted fields ∧ WholeFields fields))
  | null => inferInstanceAs (Decidable True)
  | bool _ => inferInstanceAs (Decidable True)
  | string _ => inferInstanceAs (Decidable True)

/-- The same of items. -/
def decWholeItems : (vs : List Json) → Decidable (WholeItems vs)
  | [] => inferInstanceAs (Decidable True)
  | v :: vs =>
    haveI := decWhole v
    haveI := decWholeItems vs
    inferInstanceAs (Decidable (Whole v ∧ WholeItems vs))

/-- The same of fields. -/
def decWholeFields : (fs : List (String × Json)) → Decidable (WholeFields fs)
  | [] => inferInstanceAs (Decidable True)
  | (_, v) :: fs =>
    haveI := decWhole v
    haveI := decWholeFields fs
    inferInstanceAs (Decidable (Whole v ∧ WholeFields fs))

end

instance : DecidablePred Whole := decWhole

mutual

/-- **What is read as itself is what is whole and not too deep.** -/
theorem storable_iff : ∀ (v : Json) (d : Nat), v.Storable d ↔ v.Whole ∧ v.depth ≤ d
  | null, d => by simp [Storable, Whole, depth]
  | bool _, d => by simp [Storable, Whole, depth]
  | integer _, d => by simp [Storable, Whole, depth]
  | float _, d => by simp [Storable, Whole]
  | string _, d => by simp [Storable, Whole, depth]
  | array items, d => by
    rw [Storable, Whole, depth, storableItems_iff items (d - 1)]
    constructor
    · rintro ⟨hpos, hitems, hdepth⟩
      exact ⟨hitems, by omega⟩
    · rintro ⟨hitems, hdepth⟩
      exact ⟨by omega, hitems, by omega⟩
  | object fields, d => by
    rw [Storable, Whole, depth, storableFields_iff fields (d - 1)]
    constructor
    · rintro ⟨hpos, hsorted, hfields, hdepth⟩
      exact ⟨⟨hsorted, hfields⟩, by omega⟩
    · rintro ⟨⟨hsorted, hfields⟩, hdepth⟩
      exact ⟨by omega, hsorted, hfields, by omega⟩

theorem storableItems_iff : ∀ (vs : List Json) (d : Nat),
    StorableItems vs d ↔ WholeItems vs ∧ depthItems vs ≤ d
  | [], d => by simp [StorableItems, WholeItems, depthItems]
  | v :: vs, d => by
    rw [StorableItems, WholeItems, depthItems, storable_iff v d, storableItems_iff vs d, max_le_iff]
    exact and_and_and_comm

theorem storableFields_iff : ∀ (fs : List (String × Json)) (d : Nat),
    StorableFields fs d ↔ WholeFields fs ∧ depthFields fs ≤ d
  | [], d => by simp [StorableFields, WholeFields, depthFields]
  | (_, v) :: fs, d => by
    rw [StorableFields, WholeFields, depthFields, storable_iff v d, storableFields_iff fs d,
      max_le_iff]
    exact and_and_and_comm

end

variable {v w : Json} {k : Nat}

/-- A whole value is read as itself by every reader that goes as deep as it does. -/
theorem Whole.readsAs (h : v.Whole) {d : Nat} (hd : v.depth ≤ d) (k : Nat) : ReadsAs d k v v :=
  readsAs_self v d k ((storable_iff v d).mpr ⟨h, hd⟩)

/-- **Whole values have different texts**, at whatever step they stand. -/
theorem Whole.eq_of_pretty_eq (hv : v.Whole) (hw : w.Whole) (h : pretty k v = pretty k w) :
    v = w := by
  -- One reader for both, so that the text is read as both.
  have hreadv : ReadsAs (max v.depth w.depth) k v v := hv.readsAs (le_max_left _ _) k
  have hreadw : ReadsAs (max v.depth w.depth) k w w := hw.readsAs (le_max_right _ _) k
  have hread : ReadsAs (max v.depth w.depth) k v w := by
    intro rest hrest
    rw [h]
    exact hreadw rest hrest
  exact hreadv.unique hread

end Json

namespace Document

variable {d e : Document}

/-! ## 2. Documents -/

/-- The text of a document determines the text of its object. -/
theorem pretty_eq_of_serialize_eq (h : d.serialize = e.serialize) :
    Json.pretty 0 (.object d) = Json.pretty 0 (.object e) := by
  have htext : Json.toStored (.object d) = Json.toStored (.object e) := Utf8.encode_injective h
  exact List.append_cancel_right htext

/-- **A document decodes to what was encoded** if it is whole, exactly to the depth that
the reader goes, and whole documents of any depth have different bytes. -/
theorem parse_serialize_iff (hd : (Json.object d).Whole) (unit : Path) :
    (parse unit d.serialize = .ok d ↔ (Json.object d).depth ≤ Json.depthLimit) ∧
      ∀ e : Document, (Json.object e).Whole → e.serialize = d.serialize → e = d := by
  refine ⟨⟨fun hparse => ?_, fun hdepth => ?_⟩, fun e he htext => ?_⟩
  · have hshallow := (within_of_parse hparse).2
    have hentries : ∀ f ∈ d, f.2.depth ≤ entryDepth := fun f hf =>
      hshallow f.1 f.2 (hd.1.get?_of_mem hf)
    exact Nat.succ_le_succ ((Json.depthFields_le_iff d).mpr hentries)
  · exact parse_of_readsAs (hd.readsAs hdepth 0) unit
  · have hobject := he.eq_of_pretty_eq hd (pretty_eq_of_serialize_eq htext)
    exact Json.object.inj hobject

/-- Names and values with quotes, backslashes, controls and characters beyond ASCII, the
least and the greatest numbers, and containers with nothing in them. -/
def awkward : Document :=
  [("", .array []),
    ("\"\\\n\t\x00\x1f", .object [("a", .integer (-9223372036854775808)), ("b", .object [])]),
    ("/\x7f\u00e9\u6f22", .array [.integer 18446744073709551615, .null,
      .array [.object [("", .bool true), ("\\u0000", .string "\r\x08\x0c\u2028")]]])]

/-- It is read back, and nothing else is written like it. -/
theorem parse_awkward : (Json.object awkward).Whole ∧
    (Json.object awkward).depth ≤ Json.depthLimit ∧
    parse ⟨"/u.json"⟩ awkward.serialize = .ok awkward ∧
    ∀ e : Document, (Json.object e).Whole → e.serialize = awkward.serialize → e = awkward := by
  have hwhole : (Json.object awkward).Whole := by decide +kernel
  have hdepth : (Json.object awkward).depth ≤ Json.depthLimit := by decide +kernel
  obtain ⟨hparse, hunique⟩ := parse_serialize_iff hwhole ⟨"/u.json"⟩
  exact ⟨hwhole, hdepth, hparse.mpr hdepth, hunique⟩

end Document

end ScopedState
