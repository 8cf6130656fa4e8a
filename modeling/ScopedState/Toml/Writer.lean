/-
`Toml/Writer.lean` -- writing TOML strings and whole numbers.

There are four ways to quote a string, and the plainest one that needs no
escapes is taken: double quotes, single quotes, three double quotes, three
single quotes. A control character other than a tab, or a text that none of
the four can hold as it is, is written with escapes in double quotes, three of
them if it has a line break.
-/
import ScopedState.Text.Utf8
set_option autoImplicit false

namespace ScopedState.Toml

/-- The length of the longest run of a character. -/
def longestRun (c : Char) (run best : Nat) : List Char → Nat
  | [] => max run best
  | d :: rest => if d = c then longestRun c (run + 1) best rest else longestRun c 0 (max run best) rest

/-- Whether a text has a control character that is neither a tab nor a line
break. -/
def needsEscapes (text : List Char) : Bool :=
  text.any fun c => (c < ' ' && c ≠ '\t' && c ≠ '\n') || c = '\x7f'

/-- The hexadecimal digit of a number below sixteen, in capitals. -/
def capitalDigit (n : Nat) : Char :=
  if n < 10 then Char.ofNat (48 + n) else Char.ofNat (55 + n)

/-- The escape of a character, if it needs one in double quotes. A line break
needs none between three of them. -/
def escape? (many : Bool) (c : Char) : Option (List Char) :=
  if c = '\x08' then some ['\\', 'b']
  else if c = '\t' then some ['\\', 't']
  else if c = '\n' then (if many then none else some ['\\', 'n'])
  else if c = '\x0c' then some ['\\', 'f']
  else if c = '\r' then some ['\\', 'r']
  else if c = '\\' then some ['\\', '\\']
  else if c < ' ' || c = '\x7f' then
    some ['\\', 'u', '0', '0', capitalDigit (c.toNat / 16), capitalDigit (c.toNat % 16)]
  else none

/-- The inside of double quotes. Between three of them, up to two quotes in a
row stand for themselves; `run` counts those just written. -/
def escapeAll (many : Bool) (run : Nat) : List Char → List Char
  | [] => []
  | c :: rest =>
    if c = '"' then
      if run < (if many then 2 else 0) then '"' :: escapeAll many (run + 1) rest
      else '\\' :: '"' :: escapeAll many 0 rest
    else match escape? many c with
      | some e => e ++ escapeAll many 0 rest
      | none => c :: escapeAll many 0 rest

/-- Three quotes around a text, with a line break behind the first three if the
text has one. -/
def around (quote : Char) (text : List Char) (inside : List Char) : List Char :=
  let three := [quote, quote, quote]
  three ++ (if text.contains '\n' then ['\n'] else []) ++ inside ++ three

/-- **A string in quotes.** -/
def quote (s : String) : List Char :=
  let text := s.toList
  let singles := longestRun '\'' 0 0 text
  let doubles := longestRun '"' 0 0 text
  let broken := text.contains '\n'
  let slashes := text.contains '\\'
  let controls := needsEscapes text
  if !controls && !slashes && doubles = 0 && !broken then
    '"' :: escapeAll false 0 text ++ ['"']
  else if !controls && singles = 0 && !broken then '\'' :: text ++ ['\'']
  else if !controls && !slashes && doubles ≤ 2 then around '"' text (escapeAll true 0 text)
  else if !controls && singles ≤ 2 then around '\'' text text
  else if broken then around '"' text (escapeAll true 0 text)
  else '"' :: escapeAll false 0 text ++ ['"']

/-- A line that binds a key to a written value. -/
def line (key : String) (value : List Char) : List Char :=
  key.toList ++ [' ', '=', ' '] ++ value ++ ['\n']

/-- A truth value. -/
def writeBool (b : Bool) : List Char := (if b then "true" else "false").toList

/-- The greatest whole number that can be written. -/
def greatest : Nat := Nat.pow 2 63 - 1

/-- A whole number, if it is not too great. -/
def writeNat? (n : Nat) : Option (List Char) :=
  if n ≤ greatest then some (Nat.toDigits 10 n) else none

end ScopedState.Toml
