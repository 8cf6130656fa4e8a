/-
`Json/Writer.lean` -- writing a JSON text.

Two layouts: the compact one on a single line, and the pretty one with two
spaces of indentation and an item to a line. They share their scalars. A
string escapes the quote, the backslash and the control characters below the
space, and nothing else. A double is written with the fewest digits that read
back: positional between `1e-5` and `1e16`, always with a fraction, and with
an exponent outside of that range.
-/
import ScopedState.Json.Value
import ScopedState.Decimal.Shortest
set_option autoImplicit false

namespace ScopedState.Json

/-! ## 1. Scalars -/

/-- The hexadecimal digit of a number below sixteen. -/
def hexDigit (n : Nat) : Char :=
  if n < 10 then Char.ofNat (48 + n) else Char.ofNat (87 + n)

/-- The characters that stand for `c` inside quotes. -/
def escape (c : Char) : List Char :=
  if c = '"' then ['\\', '"']
  else if c = '\\' then ['\\', '\\']
  else if c = '\x08' then ['\\', 'b']
  else if c = '\x0c' then ['\\', 'f']
  else if c = '\n' then ['\\', 'n']
  else if c = '\r' then ['\\', 'r']
  else if c = '\t' then ['\\', 't']
  else if c < ' ' then ['\\', 'u', '0', '0', hexDigit (c.toNat / 16), hexDigit (c.toNat % 16)]
  else [c]

/-- A string in quotes. -/
def quote (text : String) : List Char := '"' :: text.toList.flatMap escape ++ ['"']

/-- The decimal digits of a natural number. -/
def natDigits (n : Nat) : List Char := Nat.toDigits 10 n

/-- A whole number. -/
def writeInteger (n : Int) : List Char :=
  if n < 0 then '-' :: natDigits n.natAbs else natDigits n.natAbs

/-- The digits of a decimal with its point `point` places behind the first of
them. -/
def placePoint (digits : List Char) (point : Int) : List Char :=
  let count : Int := digits.length
  if count ≤ point && point ≤ 16 then
    digits ++ List.replicate (point - count).toNat '0' ++ ['.', '0']
  else if 0 < point && point ≤ 16 then
    digits.take point.toNat ++ '.' :: digits.drop point.toNat
  else if -5 < point && point ≤ 0 then
    '0' :: '.' :: List.replicate (-point).toNat '0' ++ digits
  else
    let mantissa := match digits with
      | [] => []
      | [d] => [d]
      | d :: rest => d :: '.' :: rest
    let e := point - 1
    mantissa ++ 'e' :: (if e < 0 then '-' else '+') :: natDigits e.natAbs

/-- A double. -/
def writeFloat (x : Binary64) : List Char :=
  let sign := if x.negative then ['-'] else []
  if x.significand = 0 then sign ++ ['0', '.', '0']
  else
    let d := Shortest.of x
    let digits := natDigits d.digits
    sign ++ placePoint digits (digits.length + d.exponent)

/-- A value that is not a container. -/
def writeScalar : Json → List Char
  | null => ['n', 'u', 'l', 'l']
  | bool true => ['t', 'r', 'u', 'e']
  | bool false => ['f', 'a', 'l', 's', 'e']
  | integer n => writeInteger n
  | float x => writeFloat x
  | string text => quote text
  | array _ => []
  | object _ => []

/-! ## 2. The compact layout -/

mutual

/-- A value on one line. -/
def compact : Json → List Char
  | array items => '[' :: compactItems items
  | object fields => '{' :: compactFields fields
  | null => writeScalar null
  | bool b => writeScalar (bool b)
  | integer n => writeScalar (integer n)
  | float x => writeScalar (float x)
  | string text => writeScalar (string text)

/-- The items of an array, with the closing bracket. -/
def compactItems : List Json → List Char
  | [] => [']']
  | [v] => compact v ++ [']']
  | v :: w :: vs => compact v ++ ',' :: compactItems (w :: vs)

/-- The fields of an object, with the closing brace. -/
def compactFields : List (String × Json) → List Char
  | [] => ['}']
  | [(k, v)] => quote k ++ ':' :: compact v ++ ['}']
  | (k, v) :: f :: fs => quote k ++ ':' :: compact v ++ ',' :: compactFields (f :: fs)

end

/-! ## 3. The pretty layout -/

/-- A line break, and the indentation of the next line. -/
def newLine (depth : Nat) : List Char := '\n' :: List.replicate (2 * depth) ' '

mutual

/-- A value whose own line is indented by `depth` steps. -/
def pretty (depth : Nat) : Json → List Char
  | array [] => ['[', ']']
  | array (v :: vs) => '[' :: prettyItems depth (v :: vs)
  | object [] => ['{', '}']
  | object (f :: fs) => '{' :: prettyFields depth (f :: fs)
  | null => writeScalar null
  | bool b => writeScalar (bool b)
  | integer n => writeScalar (integer n)
  | float x => writeScalar (float x)
  | string text => writeScalar (string text)

/-- The items of an array, each on its line, with the closing bracket. -/
def prettyItems (depth : Nat) : List Json → List Char
  | [] => newLine depth ++ [']']
  | [v] => newLine (depth + 1) ++ pretty (depth + 1) v ++ newLine depth ++ [']']
  | v :: w :: vs =>
    newLine (depth + 1) ++ pretty (depth + 1) v ++ ',' :: prettyItems depth (w :: vs)

/-- The fields of an object, each on its line, with the closing brace. -/
def prettyFields (depth : Nat) : List (String × Json) → List Char
  | [] => newLine depth ++ ['}']
  | [(k, v)] =>
    newLine (depth + 1) ++ quote k ++ ':' :: ' ' :: pretty (depth + 1) v ++ newLine depth ++ ['}']
  | (k, v) :: f :: fs =>
    newLine (depth + 1) ++ quote k ++ ':' :: ' ' :: pretty (depth + 1) v
      ++ ',' :: prettyFields depth (f :: fs)

end

/-- The compact text of a value. -/
def toCompact (v : Json) : String := String.ofList (compact v)

/-- The pretty text of a value. -/
def toPretty (v : Json) : String := String.ofList (pretty 0 v)

/-- The bytes of a value in the pretty layout, with a line break at the end. -/
def toStored (v : Json) : List Char := pretty 0 v ++ ['\n']

/-- From `1e16` on a double is written with an exponent. -/
example : writeFloat (Binary64.ofNat (Nat.pow 10 16)) = ['1', 'e', '+', '1', '6'] := by decide +kernel

end ScopedState.Json
