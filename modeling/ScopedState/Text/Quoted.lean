/-
`Text/Quoted.lean` -- text between quotes, so that every character of it can
be seen.

A quote and a backslash are written behind a backslash, and so are the line
feed, the return, the tab and the zero character, each by a letter or digit of
its own. Any other character that would leave no mark of its own is written as
its number in base 16: controls and signs of format, blanks other than the
space, marks that are drawn into the character before them, what is ignored by
default, what is for private use, and numbers that no character has.
-/
import ScopedState.Text.Blank
import ScopedState.Text.Marks
import ScopedState.Text.Unassigned
set_option autoImplicit false

namespace ScopedState.Quoted

/-- The characters for private use, which have no look of their own. -/
def privateUse : Ranges :=
  [(0xE000, 0xF8FF), (0xF0000, 0xFFFFD), (0x100000, 0x10FFFD)]

/-- Controls and signs of format, the general categories `Cc` and `Cf`. -/
def controls : Ranges :=
  [(0x0, 0x1F), (0x7F, 0x9F), (0xAD, 0xAD), (0x600, 0x605), (0x61C, 0x61C), (0x6DD, 0x6DD),
   (0x70F, 0x70F), (0x890, 0x891), (0x8E2, 0x8E2), (0x180E, 0x180E), (0x200B, 0x200F),
   (0x202A, 0x202E), (0x2060, 0x2064), (0x2066, 0x206F), (0xFEFF, 0xFEFF), (0xFFF9, 0xFFFB),
   (0x110BD, 0x110BD), (0x110CD, 0x110CD), (0x13430, 0x1343F), (0x1BCA0, 0x1BCA3),
   (0x1D173, 0x1D17A), (0xE0001, 0xE0001), (0xE0020, 0xE007F)]

/-- Whether a character can be told by its look. -/
def isVisible (c : Char) : Bool :=
  c = ' ' || !(controls.holds c.toNat || Blank.isWhiteSpace c || Marks.extending.holds c.toNat
    || Marks.ignorable.holds c.toNat || privateUse.holds c.toNat || unassigned.holds c.toNat)

/-- A character by its number. -/
def numbered (c : Char) : List Char :=
  ['\\', 'u', '\x7b'] ++ Nat.toDigits 16 c.toNat ++ ['\x7d']

/-- A character as it is written between quotes. -/
def escape (c : Char) : List Char :=
  if c = '"' then ['\\', '"']
  else if c = '\\' then ['\\', '\\']
  else if c = '\n' then ['\\', 'n']
  else if c = '\r' then ['\\', 'r']
  else if c = '\t' then ['\\', 't']
  else if c = '\x00' then ['\\', '0']
  else if isVisible c then [c]
  else numbered c

/-- A text between quotes. -/
def quote (text : String) : String :=
  String.ofList ('"' :: text.toList.flatMap escape ++ ['"'])

end ScopedState.Quoted
