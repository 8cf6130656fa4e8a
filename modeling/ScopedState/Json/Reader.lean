/-
`Json/Reader.lean` -- reading a JSON text.

The reader is strict: one value, blanks of four kinds around it and nothing
else; no comments, no comma before a closing bracket, no escapes but the eight
short ones and `\u` with four digits, surrogates only in pairs. Of two fields
with one key the last counts. Containers may nest as deep as the caller's
budget allows and no deeper.

The recursion is on that budget. A value of depth `d + 1` reads its items with
the reader of depth `d`, and the loop over the items of one container is
bounded by the length of what is left of the text, since every item takes at
least one character.
-/
import ScopedState.Json.Number
import ScopedState.Text.Utf8
set_option autoImplicit false

namespace ScopedState.Json

/-- Why a text is not a JSON value. -/
inductive Fault where
  | notText
  | incomplete
  | unexpected (c : Char)
  | badString
  | badNumber
  | outOfRange
  | tooDeep
  | trailing
  | notAnObject
  deriving DecidableEq, Repr

/-- The fault as a reader of the text is told it. -/
def Fault.message : Fault → String
  | notText => "not JSON, the bytes are not UTF-8"
  | incomplete => "not JSON, the text ends too early"
  | unexpected c => "not JSON, unexpected character " ++ String.singleton c
  | badString => "not JSON, malformed string"
  | badNumber => "not JSON, malformed number"
  | outOfRange => "not JSON, number out of range"
  | tooDeep => "not JSON, nested too deep"
  | trailing => "not JSON, text after the value"
  | notAnObject => "not JSON, an object is expected"

/-- A step of the reader: a result and the text that is left. -/
abbrev Scan (α : Type) := List Char → Except Fault (α × List Char)

/-! ## 1. Blanks and words -/

/-- The blanks between tokens. -/
def isBlank (c : Char) : Bool := c = ' ' || c = '\t' || c = '\n' || c = '\r'

/-- The text from its first character that is not a blank. -/
def skipBlanks (text : List Char) : List Char := text.dropWhile isBlank

/-- The fault of a text that goes on wrongly. -/
def faultAt : List Char → Fault
  | [] => .incomplete
  | c :: _ => .unexpected c

/-- What follows `word`, if the text starts with it. -/
def afterWord : List Char → List Char → Option (List Char)
  | [], text => some text
  | _ :: _, [] => none
  | w :: ws, c :: text => if w = c then afterWord ws text else none

/-! ## 2. Strings -/

/-- The value of a hexadecimal digit. -/
def hexDigit? (c : Char) : Option Nat :=
  if '0' ≤ c && c ≤ '9' then some (c.toNat - 48)
  else if 'a' ≤ c && c ≤ 'f' then some (c.toNat - 87)
  else if 'A' ≤ c && c ≤ 'F' then some (c.toNat - 55)
  else none

/-- The unit that four hexadecimal digits name. -/
def hexUnit? (a b c d : Char) : Option Nat := do
  let a ← hexDigit? a
  let b ← hexDigit? b
  let c ← hexDigit? c
  let d ← hexDigit? d
  return ((a * 16 + b) * 16 + c) * 16 + d

/-- The character of a short escape. -/
def shortEscape? (c : Char) : Option Char :=
  if c = '"' then some '"'
  else if c = '\\' then some '\\'
  else if c = '/' then some '/'
  else if c = 'b' then some '\x08'
  else if c = 'f' then some '\x0c'
  else if c = 'n' then some '\n'
  else if c = 'r' then some '\r'
  else if c = 't' then some '\t'
  else none

/-- The character that two surrogates name together. -/
def joinSurrogates (high low : Nat) : Char :=
  Char.ofNat (0x10000 + (high - 0xD800) * 0x400 + (low - 0xDC00))

/-- The characters of a string, from behind its opening quote; `seen` holds
those read so far, the last one first. -/
def readString (seen : List Char) : Scan String
  | [] => .error .incomplete
  | '"' :: rest => .ok (String.ofList seen.reverse, rest)
  | '\\' :: 'u' :: a :: b :: c :: d :: rest =>
    match hexUnit? a b c d with
    | none => .error .badString
    | some unit =>
      if unit < 0xD800 || 0xDFFF < unit then readString (Char.ofNat unit :: seen) rest
      else if 0xDBFF < unit then .error .badString
      else match rest with
        | '\\' :: 'u' :: a :: b :: c :: d :: rest =>
          match hexUnit? a b c d with
          | none => .error .badString
          | some low =>
            if low < 0xDC00 || 0xDFFF < low then .error .badString
            else readString (joinSurrogates unit low :: seen) rest
        | _ => .error .badString
  | '\\' :: c :: rest =>
    match shortEscape? c with
    | none => .error .badString
    | some e => readString (e :: seen) rest
  | c :: rest => if c < ' ' || c = '\\' then .error .badString else readString (c :: seen) rest

/-! ## 3. Numbers -/

/-- The digits in front of a text, and the text behind them. -/
def takeDigits (text : List Char) : List Nat × List Char :=
  ((text.takeWhile Char.isDigit).map fun c => c.toNat - 48, text.dropWhile Char.isDigit)

/-- The fraction behind a whole part. -/
def readFraction : Scan (Option (List Nat))
  | '.' :: rest =>
    match takeDigits rest with
    | ([], _) => .error .badNumber
    | (digits, rest) => .ok (some digits, rest)
  | rest => .ok (none, rest)

/-- The sign in front of an exponent: whether it is a minus. -/
def readSign : List Char → Bool × List Char
  | '-' :: rest => (true, rest)
  | '+' :: rest => (false, rest)
  | rest => (false, rest)

/-- The exponent at the end of a number. -/
def readExponent : Scan (Option (Bool × List Nat))
  | c :: rest =>
    if c = 'e' || c = 'E' then
      let (down, rest) := readSign rest
      match takeDigits rest with
      | ([], _) => .error .badNumber
      | (digits, rest) => .ok (some (down, digits), rest)
    else .ok (none, c :: rest)
  | [] => .ok (none, [])

/-- A number, from its first digit. -/
def readNumber (negative : Bool) : Scan Json := fun text => do
  let (whole, rest) := takeDigits text
  if whole = [] || (whole.head? = some 0 && whole ≠ [0]) then throw .badNumber
  let (fraction, rest) ← readFraction rest
  let (exponent, rest) ← readExponent rest
  match Literal.value? ⟨negative, whole, fraction, exponent⟩ with
  | some v => return (v, rest)
  | none => throw .outOfRange

/-! ## 4. Containers

The two loops take the reader of an item as an argument, and a bound on the
number of items. -/

/-- The items of an array, from the first one; `seen` holds those read so far,
the last one first. -/
def readItems (item : Scan Json) : Nat → List Json → Scan Json
  | 0, _, text => .error (faultAt text)
  | fuel + 1, seen, text =>
    match item text with
    | .error e => .error e
    | .ok (v, rest) =>
      match skipBlanks rest with
      | ',' :: rest => readItems item fuel (v :: seen) rest
      | ']' :: rest => .ok (.array (v :: seen).reverse, rest)
      | rest => .error (faultAt rest)

/-- A key with the colon behind it. -/
def readKey : Scan String := fun text =>
  match skipBlanks text with
  | '"' :: rest =>
    match readString [] rest with
    | .error e => .error e
    | .ok (key, rest) =>
      match skipBlanks rest with
      | ':' :: rest => .ok (key, rest)
      | rest => .error (faultAt rest)
  | rest => .error (faultAt rest)

/-- The fields of an object, from the first one; `seen` binds those read so
far. -/
def readFields (item : Scan Json) : Nat → Bindings String Json → Scan Json
  | 0, _, text => .error (faultAt text)
  | fuel + 1, seen, text =>
    match readKey text with
    | .error e => .error e
    | .ok (key, rest) =>
      match item rest with
      | .error e => .error e
      | .ok (v, rest) =>
        match skipBlanks rest with
        | ',' :: rest => readFields item fuel (Bindings.insert seen key v) rest
        | '}' :: rest => .ok (.object (Bindings.insert seen key v), rest)
        | rest => .error (faultAt rest)

/-! ## 5. Values and texts -/

/-- A value that is not a container. -/
def readScalar : Scan Json := fun text =>
  match text with
  | '"' :: rest => (readString [] rest).map fun r => (.string r.1, r.2)
  | '-' :: rest => readNumber true rest
  | c :: rest =>
    if c.isDigit then readNumber false (c :: rest)
    else match afterWord ['n', 'u', 'l', 'l'] text with
      | some rest => .ok (.null, rest)
      | none =>
        match afterWord ['t', 'r', 'u', 'e'] text with
        | some rest => .ok (.bool true, rest)
        | none =>
          match afterWord ['f', 'a', 'l', 's', 'e'] text with
          | some rest => .ok (.bool false, rest)
          | none => .error (.unexpected c)
  | [] => .error .incomplete

/-- A value whose containers nest at most `depth` deep. -/
def readValue : Nat → Scan Json
  | 0, text =>
    match skipBlanks text with
    | '[' :: _ => .error .tooDeep
    | '{' :: _ => .error .tooDeep
    | text => readScalar text
  | depth + 1, text =>
    match skipBlanks text with
    | '[' :: rest =>
      match skipBlanks rest with
      | ']' :: rest => .ok (.array [], rest)
      | rest => readItems (readValue depth) rest.length [] rest
    | '{' :: rest =>
      match skipBlanks rest with
      | '}' :: rest => .ok (.object [], rest)
      | rest => readFields (readValue depth) rest.length [] rest
    | text => readScalar text

/-- How deep the containers of a stored value may nest. -/
def depthLimit : Nat := 127

/-- **Read a text** whose containers nest at most `depth` deep. -/
def readWithin (depth : Nat) (text : List Char) : Except Fault Json :=
  match readValue depth text with
  | .error e => .error e
  | .ok (v, rest) => if (skipBlanks rest).isEmpty then .ok v else .error .trailing

/-- Read a text as a stored value. -/
def read (text : List Char) : Except Fault Json := readWithin depthLimit text

/-- Read bytes as a stored value. -/
def ofBytes (bytes : Bytes) : Except Fault Json :=
  match Utf8.decode bytes with
  | none => .error .notText
  | some text => read text

/-- Read bytes as an object, given by its bindings. -/
def objectOfBytes (bytes : Bytes) : Except Fault (Bindings String Json) :=
  match ofBytes bytes with
  | .error e => .error e
  | .ok (.object fields) => .ok fields
  | .ok _ => .error .notAnObject

end ScopedState.Json
