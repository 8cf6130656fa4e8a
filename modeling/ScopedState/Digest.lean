/-
`Digest.lean` -- content digests.

A storage remembers the digest of the bytes it last loaded or wrote, and takes
equal digests to mean equal bytes. Which digest that is does not matter to
anything built on it, so the library is written over any type of digests that
can be computed from bytes and compared. The one used on disk is
`Blake3.Hash`; the bytes themselves are the digest that never confuses two
contents.
-/
import ScopedState.Text.Utf8
set_option autoImplicit false

namespace ScopedState

/-- Digests of type `δ` can be computed from bytes. -/
class Digest (δ : Type) where
  ofBytes : Bytes → δ

/-- The digest that keeps everything. -/
instance : Digest Bytes := ⟨id⟩

namespace Digest

/-- **Faithful digests.** No two contents share a digest. -/
def Faithful (δ : Type) [Digest δ] : Prop :=
  ∀ a b : Bytes, (ofBytes a : δ) = ofBytes b → a = b

/-- Keeping everything is faithful. -/
theorem faithful_bytes : Faithful Bytes := fun _ _ h => h

end Digest

end ScopedState
