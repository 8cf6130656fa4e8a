/-
`Text/Utf8.lean` -- bytes, and text as bytes.

A stored unit is a list of bytes; what is parsed out of it is text. The step
between the two is the UTF-8 encoding form: a scalar value below `0x80` is one
byte, below `0x800` two, below `0x10000` three, and otherwise four, each lead
byte announcing how many continuation bytes follow.

`encode` writes the form and `decode` reads it. `decode` is strict: a
continuation byte out of place, a form longer than it need be, a surrogate and
a value above `0x10FFFF` are all refused, so no two byte strings decode to one
text.
-/
set_option autoImplicit false

namespace ScopedState

/-- The content of a unit. -/
abbrev Bytes := List UInt8

namespace Utf8

/-! ## 1. Writing -/

/-- The continuation byte that carries the low six bits of `n`. -/
def tail (n : Nat) : UInt8 := UInt8.ofNat (0x80 + n % 64)

/-- The bytes of one scalar value. -/
def encodeChar (c : Char) : Bytes :=
  let n := c.toNat
  if n < 0x80 then [UInt8.ofNat n]
  else if n < 0x800 then [UInt8.ofNat (0xC0 + n / 64), tail n]
  else if n < 0x10000 then [UInt8.ofNat (0xE0 + n / 4096), tail (n / 64), tail n]
  else [UInt8.ofNat (0xF0 + n / 262144), tail (n / 4096), tail (n / 64), tail n]

/-- The bytes of a text, scalar value by scalar value. -/
def encode (text : List Char) : Bytes := text.flatMap encodeChar

/-! ## 2. Reading -/

/-- Whether `b` may only continue a form: the two high bits are `10`. -/
def isTail (b : UInt8) : Bool := 0x80 ≤ b && b < 0xC0

/-- The six bits a continuation byte carries. -/
def payload (b : UInt8) : Nat := b.toNat % 64

/-- Whether `n` needs a form of `width` bytes and is a scalar value. -/
def fits (width n : Nat) : Bool :=
  match width with
  | 2 => 0x80 ≤ n && n < 0x800
  | 3 => 0x800 ≤ n && n < 0x10000 && !(0xD800 ≤ n && n < 0xE000)
  | 4 => 0x10000 ≤ n && n < 0x110000
  | _ => false

/-- The scalar values of a byte string, or nothing when some byte does not
belong to a shortest form. -/
def decode : Bytes → Option (List Char)
  | [] => some []
  | a :: rest =>
    if a < 0x80 then (decode rest).map (Char.ofNat a.toNat :: ·)
    else match rest with
      | [] => none
      | b :: rest =>
        if !isTail b then none
        else if 0xC0 ≤ a && a < 0xE0 then
          let n := a.toNat % 32 * 64 + payload b
          if fits 2 n then (decode rest).map (Char.ofNat n :: ·) else none
        else match rest with
          | [] => none
          | c :: rest =>
            if !isTail c then none
            else if 0xE0 ≤ a && a < 0xF0 then
              let n := a.toNat % 16 * 4096 + payload b * 64 + payload c
              if fits 3 n then (decode rest).map (Char.ofNat n :: ·) else none
            else match rest with
              | [] => none
              | d :: rest =>
                if isTail d && 0xF0 ≤ a && a < 0xF8 then
                  let n := a.toNat % 8 * 262144 + payload b * 4096 + payload c * 64 + payload d
                  if fits 4 n then (decode rest).map (Char.ofNat n :: ·) else none
                else none

/-- The bytes of a string. -/
def ofString (text : String) : Bytes := encode text.toList

/-- The string that the bytes are the encoding of, if they are one. -/
def toString? (bytes : Bytes) : Option String := (decode bytes).map String.ofList

end Utf8

end ScopedState
