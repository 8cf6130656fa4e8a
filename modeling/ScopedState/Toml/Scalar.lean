/-
`Toml/Scalar.lean` -- TOML values that are written without quotes.

Such a value is a run of letters, digits and a few signs. It is a truth value,
a whole number in one of four bases, a number with a fraction or an exponent,
one of the words `inf` and `nan`, or a date, a time or both. Underscores may
stand between two digits; a decimal whole part has no leading zero.
-/
import ScopedState.Decimal.Binary64
import ScopedState.Toml.Value
set_option autoImplicit false

namespace ScopedState.Toml

/-! ## 1. Digits -/

/-- The value of a digit in bases up to sixteen. -/
def digit? (base : Nat) (c : Char) : Option Nat :=
  let value :=
    if '0' ≤ c && c ≤ '9' then some (c.toNat - 48)
    else if 'a' ≤ c && c ≤ 'f' then some (c.toNat - 87)
    else if 'A' ≤ c && c ≤ 'F' then some (c.toNat - 55)
    else none
  value.bind fun n => if n < base then some n else none

/-- Digits with single underscores between them, at least one digit. -/
def digits? (base : Nat) : List Char → Option (List Nat)
  | [] => none
  | [c] => (digit? base c).map ([·])
  | '_' :: _ => none
  | c :: '_' :: rest => do
    let d ← digit? base c
    let ds ← digits? base rest
    return d :: ds
  | c :: rest => do
    let d ← digit? base c
    let ds ← digits? base rest
    return d :: ds

/-- The number that digits stand for. -/
def ofDigits (base : Nat) (digits : List Nat) : Nat :=
  digits.foldl (fun n d => n * base + d) 0

/-- The digits of a decimal whole part: no leading zero. -/
def whole? (text : List Char) : Option (List Nat) :=
  match digits? 10 text with
  | some [0] => some [0]
  | some (0 :: _) => none
  | other => other

/-- A sign in front, and what follows it. -/
def sign (text : List Char) : Bool × List Char :=
  match text with
  | '-' :: rest => (true, rest)
  | '+' :: rest => (false, rest)
  | rest => (false, rest)

/-! ## 2. Numbers -/

/-- A whole number. Only decimal ones have a sign. -/
def integer? (text : List Char) : Option Int :=
  match text with
  | '0' :: 'x' :: rest => (digits? 16 rest).map fun ds => (ofDigits 16 ds : Int)
  | '0' :: 'o' :: rest => (digits? 8 rest).map fun ds => (ofDigits 8 ds : Int)
  | '0' :: 'b' :: rest => (digits? 2 rest).map fun ds => (ofDigits 2 ds : Int)
  | text =>
    let (negative, rest) := sign text
    (whole? rest).map fun ds => if negative then -(ofDigits 10 ds : Int) else ofDigits 10 ds

/-- Whether `n * 10^e` rounds to a finite double. Far outside of the range
the number of digits tells. -/
def isFinite (n : Nat) (count : Nat) (e : Int) : Bool :=
  if n = 0 then true
  else if e < -400 - (count : Int) then true
  else if 400 < e then false
  else if 0 ≤ e then (Binary64.ofRatio? false (n * Nat.pow 10 e.toNat) 1).isSome
  else (Binary64.ofRatio? false n (Nat.pow 10 (-e).toNat)).isSome

/-- An exponent: behind the letter, a sign and digits. -/
def exponent? (text : List Char) : Option Int :=
  let (negative, rest) := sign text
  (digits? 10 rest).map fun ds => if negative then -(ofDigits 10 ds : Int) else ofDigits 10 ds

/-- A number with a fraction or an exponent or both: whether it is finite. -/
def float? (text : List Char) : Option Bool :=
  let (_, rest) := sign text
  if rest = ['i', 'n', 'f'] || rest = ['n', 'a', 'n'] then some true
  else
    let isMark (c : Char) : Bool := c = 'e' || c = 'E'
    let mantissa := rest.takeWhile fun c => !isMark c
    let tail := rest.dropWhile fun c => !isMark c
    let front := mantissa.takeWhile (· ≠ '.')
    let back := mantissa.dropWhile (· ≠ '.')
    if back.isEmpty && tail.isEmpty then none
    else do
      let whole ← whole? front
      let fraction ← if back.isEmpty then some [] else digits? 10 (back.drop 1)
      let e ← if tail.isEmpty then some 0 else exponent? (tail.drop 1)
      let digits := whole ++ fraction
      return isFinite (ofDigits 10 digits) digits.length (e - fraction.length)

/-! ## 3. Dates and times -/

/-- A decimal number of exactly `count` digits in front of a text. -/
def fixed? (count : Nat) (text : List Char) : Option (Nat × List Char) :=
  let front := text.take count
  if front.length = count && front.all Char.isDigit then
    some (front.foldl (fun n c => n * 10 + (c.toNat - 48)) 0, text.drop count)
  else none

/-- What follows a character that has to be there. -/
def expect (c : Char) : List Char → Option (List Char)
  | [] => none
  | d :: rest => if d = c then some rest else none

/-- Whether a year is a leap year. -/
def isLeap (year : Nat) : Bool := year % 4 = 0 && (year % 100 ≠ 0 || year % 400 = 0)

/-- The number of days of a month. -/
def daysIn (year month : Nat) : Nat :=
  if month = 2 then (if isLeap year then 29 else 28)
  else if month = 4 || month = 6 || month = 9 || month = 11 then 30
  else 31

/-- What follows a date. -/
def afterDate (text : List Char) : Option (List Char) := do
  let (year, rest) ← fixed? 4 text
  let rest ← expect '-' rest
  let (month, rest) ← fixed? 2 rest
  let rest ← expect '-' rest
  let (day, rest) ← fixed? 2 rest
  if 1 ≤ month && month ≤ 12 && 1 ≤ day && day ≤ daysIn year month then some rest else none

/-- What follows the seconds of a time and their fraction. -/
def afterSeconds (text : List Char) : Option (List Char) := do
  let (second, rest) ← fixed? 2 text
  if 60 < second then none
  else match rest with
    | '.' :: rest =>
      if (rest.takeWhile Char.isDigit).isEmpty then none else some (rest.dropWhile Char.isDigit)
    | rest => some rest

/-- What follows a time of the day, which may be told to the minute or to the
second. -/
def afterTime (text : List Char) : Option (List Char) := do
  let (hour, rest) ← fixed? 2 text
  let rest ← expect ':' rest
  let (minute, rest) ← fixed? 2 rest
  if 23 < hour || 59 < minute then none
  else match rest with
    | ':' :: rest => afterSeconds rest
    | rest => some rest

/-- Whether a text is nothing or an offset from universal time. -/
def isOffset (text : List Char) : Bool :=
  match text with
  | [] => true
  | [c] => c = 'Z' || c = 'z'
  | c :: rest =>
    (c = '+' || c = '-') &&
      match (do
        let (hour, rest) ← fixed? 2 rest
        let rest ← expect ':' rest
        let (minute, rest) ← fixed? 2 rest
        return (hour ≤ 23 && minute ≤ 59 && rest.isEmpty) : Option Bool) with
      | some ok => ok
      | none => false

/-- Whether a text is a date, a time or both. -/
def isMoment (text : List Char) : Bool :=
  match afterDate text with
  | some [] => true
  | some (c :: rest) =>
    (c = 'T' || c = 't' || c = ' ') &&
      match afterTime rest with
      | some rest => isOffset rest
      | none => false
  | none => afterTime text = some []

/-! ## 4. Scalars -/

/-- **The value of a run of characters** outside of quotes. -/
def scalar? (text : List Char) : Option Toml :=
  if text = ['t', 'r', 'u', 'e'] then some (.bool true)
  else if text = ['f', 'a', 'l', 's', 'e'] then some (.bool false)
  else match integer? text with
    | some n => some (.integer n)
    | none =>
      match float? text with
      | some inRange => some (.float inRange)
      | none => if isMoment text then some .moment else none

/-- Whether a character may be part of such a run. -/
def isScalarChar (c : Char) : Bool :=
  c.isAlphanum || c = '+' || c = '-' || c = '_' || c = '.' || c = ':'

/-- The run in front of a text. A date may have a blank between its day and its
time. -/
def takeScalar (text : List Char) : List Char × List Char :=
  let front := text.takeWhile isScalarChar
  let rest := text.dropWhile isScalarChar
  match rest with
  | ' ' :: more =>
    if afterDate front = some [] && more.head?.any Char.isDigit then
      (front ++ ' ' :: more.takeWhile isScalarChar, more.dropWhile isScalarChar)
    else (front, rest)
  | _ => (front, rest)

end ScopedState.Toml
