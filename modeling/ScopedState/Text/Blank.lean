/-
`Text/Blank.lean` -- which characters count as blank.

Two classes are in use. A storage unit made of ASCII blanks alone is an empty
document; the class there is space, tab, line feed, form feed and carriage
return, as bytes. A name or a directory typed by a person is blank when
nothing but Unicode white space is in it; the class there is the `White_Space`
property, 25 characters in all.
-/
import ScopedState.Text.Ranges
import ScopedState.Text.Utf8
set_option autoImplicit false

namespace ScopedState.Blank

/-- The ASCII blanks, as bytes: space, tab, line feed, form feed, return. -/
def isBlankByte (b : UInt8) : Bool :=
  b == 0x20 || b == 0x09 || b == 0x0A || b == 0x0C || b == 0x0D

/-- Whether a unit holds no content at all. -/
def isBlankContent (bytes : Bytes) : Bool := bytes.all isBlankByte

/-- The `White_Space` property. -/
def whiteSpace : Ranges :=
  [(0x09, 0x0D), (0x20, 0x20), (0x85, 0x85), (0xA0, 0xA0), (0x1680, 0x1680),
   (0x2000, 0x200A), (0x2028, 0x2029), (0x202F, 0x202F), (0x205F, 0x205F),
   (0x3000, 0x3000)]

/-- Whether `c` is white space. -/
def isWhiteSpace (c : Char) : Bool := whiteSpace.holds c.toNat

/-- Whether a text is empty once white space is trimmed off its ends: it is so
exactly when it is white space throughout. -/
def isBlankText (text : String) : Bool := text.toList.all isWhiteSpace

/-- The property has 25 members, and its ranges rise. -/
example : whiteSpace.size = 25 ∧ whiteSpace.rises 0 := by decide +kernel

end ScopedState.Blank
