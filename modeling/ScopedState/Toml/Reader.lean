/-
`Toml/Reader.lean` -- reading a TOML document.

A document is a sequence of lines: headers, which open a table, and keys with
values, which go into the table opened last. Values nest by arrays and inline
tables, to a bounded depth; the recursion is on that bound, as for JSON, and
the loops over items and lines are bounded by the length of the text.
-/
import ScopedState.Text.Utf8
import ScopedState.Toml.Scalar
set_option autoImplicit false

namespace ScopedState.Toml

/-- Why a text is not a document, or a document not what was asked for. -/
inductive Fault where
  | malformed
  | redefined
  | tooDeep
  | longKey
  | missing (key : String)
  | mistyped
  deriving DecidableEq, Repr

/-- The fault as a reader of the text is told it. -/
def Fault.message : Fault → String
  | malformed => "TOML parse error: malformed document"
  | redefined => "TOML parse error: duplicate key"
  | tooDeep => "TOML parse error: values nested too deep"
  | longKey => "recursion limit\n"
  | missing key => "TOML parse error: missing field " ++ key
  | mistyped => "TOML parse error: invalid type"

/-- A step of the reader: a result and the text that is left. -/
abbrev Scan (α : Type) := List Char → Except Fault (α × List Char)

/-! ## 1. Between values -/

/-- Blanks inside a line. -/
def isSpace (c : Char) : Bool := c = ' ' || c = '\t'

/-- The text from its first character that is no blank. -/
def skipSpace (text : List Char) : List Char := text.dropWhile isSpace

/-- Characters that stand nowhere but in escapes, the tab apart. -/
def isControl (c : Char) : Bool := (c < ' ' && c ≠ '\t') || c = '\x7f'

/-- The text from the line break at the end of a comment. -/
def skipComment : List Char → Except Fault (List Char)
  | [] => .ok []
  | '\n' :: rest => .ok ('\n' :: rest)
  | '\r' :: '\n' :: rest => .ok ('\n' :: rest)
  | c :: rest => if isControl c then .error .malformed else skipComment rest

/-- The text behind the end of a line: blanks, a comment and the break. -/
def endLine (text : List Char) : Except Fault (List Char) :=
  let finish : List Char → Except Fault (List Char)
    | [] => .ok []
    | '\n' :: rest => .ok rest
    | '\r' :: '\n' :: rest => .ok rest
    | _ => .error .malformed
  match skipSpace text with
  | '#' :: rest => (skipComment rest).bind finish
  | rest => finish rest

/-- The text behind blanks, line breaks and comments. -/
def skipGap (comment : Bool) : List Char → Except Fault (List Char)
  | [] => .ok []
  | '\n' :: rest => skipGap false rest
  | '\r' :: '\n' :: rest => skipGap false rest
  | c :: rest =>
    if comment then (if isControl c then .error .malformed else skipGap true rest)
    else if isSpace c then skipGap false rest
    else if c = '#' then skipGap true rest
    else .ok (c :: rest)

/-! ## 2. Strings -/

/-- The scalar value that hexadecimal digits name. -/
def hexScalar? (text : List Char) : Option Char :=
  match text.mapM (digit? 16) with
  | none => none
  | some ds =>
    let n := ofDigits 16 ds
    if n < 0xD800 || (0xDFFF < n && n < 0x110000) then some (Char.ofNat n) else none

/-- The character of a short escape. -/
def shortEscape? (c : Char) : Option Char :=
  if c = 'b' then some '\x08'
  else if c = 't' then some '\t'
  else if c = 'n' then some '\n'
  else if c = 'f' then some '\x0c'
  else if c = 'r' then some '\r'
  else if c = 'e' then some '\x1b'
  else if c = '"' then some '"'
  else if c = '\\' then some '\\'
  else none

/-- How far the text behind a backslash at the end of a line is skipped. -/
inductive Trim where
  /-- It is not. -/
  | off
  /-- The line break has to come first. -/
  | line
  /-- Blanks and line breaks are. -/
  | gap
  deriving DecidableEq

/-- A string in double quotes, from behind its opening. `many` tells that it
has three of them and may span lines; `seen` holds its characters so far, the
last one first. -/
def readBasic (many : Bool) (trim : Trim) (seen : List Char) : Scan String
  | [] => .error .malformed
  | '\\' :: 'x' :: a :: b :: rest =>
    if trim = .line then .error .malformed
    else match hexScalar? [a, b] with
      | some e => readBasic many .off (e :: seen) rest
      | none => .error .malformed
  | '\\' :: 'u' :: a :: b :: c :: d :: rest =>
    if trim = .line then .error .malformed
    else match hexScalar? [a, b, c, d] with
      | some e => readBasic many .off (e :: seen) rest
      | none => .error .malformed
  | '\\' :: 'U' :: a :: b :: c :: d :: e :: f :: g :: h :: rest =>
    if trim = .line then .error .malformed
    else match hexScalar? [a, b, c, d, e, f, g, h] with
      | some e => readBasic many .off (e :: seen) rest
      | none => .error .malformed
  | '\\' :: c :: rest =>
    if trim = .line then .error .malformed
    else match shortEscape? c with
      | some e => readBasic many .off (e :: seen) rest
      | none =>
        if many && isSpace c then readBasic many .line seen rest
        else if many && (c = '\n' || (c = '\r' && rest.head? = some '\n')) then
          readBasic many .gap seen rest
        else .error .malformed
  | '\r' :: '\n' :: rest =>
    if !many then .error .malformed
    else if trim = .off then readBasic many .off ('\n' :: '\r' :: seen) rest
    else readBasic many .gap seen rest
  | c :: rest =>
    if c = '\n' then
      if !many then .error .malformed
      else if trim = .off then readBasic many .off ('\n' :: seen) rest
      else readBasic many .gap seen rest
    else if isControl c then .error .malformed
    else if trim ≠ .off && isSpace c then readBasic many trim seen rest
    else if trim = .line then .error .malformed
    else if c = '"' then
      if !many then .ok (String.ofList seen.reverse, rest)
      else match rest with
        | '"' :: '"' :: '"' :: '"' :: rest => .ok (String.ofList ('"' :: '"' :: seen).reverse, rest)
        | '"' :: '"' :: '"' :: rest => .ok (String.ofList ('"' :: seen).reverse, rest)
        | '"' :: '"' :: rest => .ok (String.ofList seen.reverse, rest)
        | rest => readBasic many .off ('"' :: seen) rest
    else readBasic many .off (c :: seen) rest

/-- A string in single quotes, from behind its opening. -/
def readLiteral (many : Bool) (seen : List Char) : Scan String
  | [] => .error .malformed
  | '\r' :: '\n' :: rest =>
    if many then readLiteral many ('\n' :: '\r' :: seen) rest else .error .malformed
  | c :: rest =>
    if c = '\n' then
      if many then readLiteral many ('\n' :: seen) rest else .error .malformed
    else if isControl c then .error .malformed
    else if c = '\'' then
      if !many then .ok (String.ofList seen.reverse, rest)
      else match rest with
        | '\'' :: '\'' :: '\'' :: '\'' :: rest =>
          .ok (String.ofList ('\'' :: '\'' :: seen).reverse, rest)
        | '\'' :: '\'' :: '\'' :: rest => .ok (String.ofList ('\'' :: seen).reverse, rest)
        | '\'' :: '\'' :: rest => .ok (String.ofList seen.reverse, rest)
        | rest => readLiteral many ('\'' :: seen) rest
    else readLiteral many (c :: seen) rest

/-- The text behind a line break right at the start of a string. -/
def dropBreak : List Char → List Char
  | '\n' :: rest => rest
  | '\r' :: '\n' :: rest => rest
  | rest => rest

/-- A string of any kind, if the text starts with one. -/
def readString? (text : List Char) : Option (Except Fault (String × List Char)) :=
  match text with
  | '"' :: '"' :: '"' :: rest => some (readBasic true .off [] (dropBreak rest))
  | '"' :: rest => some (readBasic false .off [] rest)
  | '\'' :: '\'' :: '\'' :: rest => some (readLiteral true [] (dropBreak rest))
  | '\'' :: rest => some (readLiteral false [] rest)
  | _ => none

/-! ## 3. Keys -/

/-- Whether a key without quotes may have a character. -/
def isBare (c : Char) : Bool := c.isAlphanum || c = '_' || c = '-'

/-- One part of a key. -/
def readPart (text : List Char) : Except Fault (String × List Char) :=
  match text with
  | '"' :: '"' :: '"' :: _ => .error .malformed
  | '\'' :: '\'' :: '\'' :: _ => .error .malformed
  | '"' :: rest => readBasic false .off [] rest
  | '\'' :: rest => readLiteral false [] rest
  | text =>
    let front := text.takeWhile isBare
    if front.isEmpty then .error .malformed
    else .ok (String.ofList front, text.dropWhile isBare)

/-- How many parts a key has at most. -/
def keyLimit : Nat := 80

/-- A dotted key: its path and its last part. `path` holds the parts so far,
the last one first. -/
def readKey : Nat → List String → Scan (List String × String)
  | 0, _, _ => .error .malformed
  | fuel + 1, path, text =>
    match readPart (skipSpace text) with
    | .error e => .error e
    | .ok (part, rest) =>
      match skipSpace rest with
      | '.' :: rest => readKey fuel (part :: path) rest
      | rest =>
        if path.length < keyLimit then .ok ((path.reverse, part), rest) else .error .longKey

/-! ## 4. Values -/

/-- The items of an array, from behind its bracket or a comma; `seen` holds
those read so far, the last one first. -/
def readItems (item : Scan Toml) : Nat → List Toml → Scan Toml
  | 0, _, _ => .error .malformed
  | fuel + 1, seen, text =>
    match skipGap false text with
    | .error e => .error e
    | .ok (']' :: rest) => .ok (.array seen.reverse, rest)
    | .ok text =>
      match item text with
      | .error e => .error e
      | .ok (v, rest) =>
        match skipGap false rest with
        | .error e => .error e
        | .ok (',' :: rest) => readItems item fuel (v :: seen) rest
        | .ok (']' :: rest) => .ok (.array (v :: seen).reverse, rest)
        | .ok _ => .error .malformed

/-- A key, the sign behind it and a value. `gap` passes over what may stand on
both sides of the sign. -/
def readPair (gap : List Char → Except Fault (List Char)) (item : Scan Toml) :
    Scan (List String × String × Toml) := fun text => do
  let ((path, key), rest) ← readKey text.length [] text
  match ← gap rest with
  | '=' :: rest =>
    let (v, rest) ← item (← gap rest)
    return ((path, key, v), rest)
  | _ => .error .malformed

/-- The fields of an inline table, from behind its brace or a comma. A comma
may follow the last one, and a line may end anywhere but inside of a key. -/
def readFields (item : Scan Toml) : Nat → Fields → Scan Toml
  | 0, _, _ => .error .malformed
  | fuel + 1, fields, text =>
    match skipGap false text with
    | .error e => .error e
    | .ok ('}' :: rest) => .ok (.table .inline fields, rest)
    | .ok text =>
      match readPair (skipGap false) item text with
      | .error e => .error e
      | .ok ((path, key, v), rest) =>
        match bindPath path key v .header fields with
        | none => .error .redefined
        | some (_, fields) =>
          match skipGap false rest with
          | .error e => .error e
          | .ok (',' :: rest) => readFields item fuel fields rest
          | .ok ('}' :: rest) => .ok (.table .inline fields, rest)
          | .ok _ => .error .malformed

/-- A value that is neither an array nor a table. -/
def readScalar : Scan Toml := fun text =>
  match readString? text with
  | some (.error e) => .error e
  | some (.ok (s, rest)) => .ok (.string s, rest)
  | none =>
    let (front, rest) := takeScalar text
    match scalar? front with
    | some v => .ok (v, rest)
    | none => .error .malformed

/-- A value whose arrays and inline tables nest at most `depth` deep. -/
def readValue : Nat → Scan Toml
  | 0, text =>
    match text with
    | '[' :: _ => .error .tooDeep
    | '{' :: _ => .error .tooDeep
    | text => readScalar text
  | depth + 1, text =>
    match text with
    | '[' :: rest => readItems (readValue depth) (rest.length + 1) [] rest
    | '{' :: rest => readFields (readValue depth) (rest.length + 1) [] rest
    | text => readScalar text

/-- How deep values may nest. -/
def depthLimit : Nat := 80

/-! ## 5. Documents -/

/-- What has been read of a document: its fields, and where the table opened
last is. -/
structure Progress where
  fields : Fields := []
  place : List String := []

/-- Apply an edit at a place of the document. -/
def Progress.edit (p : Progress) (place : List String) (change : Edit) :
    Except Fault Fields :=
  match within false change place .header p.fields with
  | none => .error .redefined
  | some (_, fields) => .ok fields

/-- A header from behind its brackets: `close` is what ends it. -/
def readHeader (close : List Char) (text : List Char) :
    Except Fault (List String × String × List Char) :=
  match readKey text.length [] text with
  | .error e => .error e
  | .ok ((path, key), rest) =>
    if close.isPrefixOf rest then .ok (path, key, rest.drop close.length) else .error .malformed

/-- One line of a document that is not blank. -/
def readLine (p : Progress) (text : List Char) : Except Fault (Progress × List Char) :=
  match text with
  | '[' :: '[' :: rest => do
    let (path, key, rest) ← readHeader [']', ']'] rest
    let fields ← p.edit path (openItem key)
    return (⟨fields, path ++ [key]⟩, rest)
  | '[' :: rest => do
    let (path, key, rest) ← readHeader [']'] rest
    let fields ← p.edit path (openTable key)
    return (⟨fields, path ++ [key]⟩, rest)
  | text => do
    let ((path, key, v), rest) ← readPair (fun rest => .ok (skipSpace rest)) (readValue depthLimit) text
    let fields ← p.edit p.place (bindPath path key v)
    return ({ p with fields }, rest)

/-- The lines of a document. -/
def readLines : Nat → Progress → List Char → Except Fault Fields
  | 0, p, text => if text.isEmpty then .ok p.fields else .error .malformed
  | fuel + 1, p, text =>
    match skipGap false text with
    | .error e => .error e
    | .ok [] => .ok p.fields
    | .ok text =>
      match readLine p text with
      | .error e => .error e
      | .ok (p, rest) =>
        match endLine rest with
        | .error e => .error e
        | .ok rest => readLines fuel p rest

/-- **Read a document.** A byte order mark at its start is passed over. -/
def read (text : List Char) : Except Fault Fields :=
  match text with
  | '\ufeff' :: rest => readLines (rest.length + 1) {} rest
  | text => readLines (text.length + 1) {} text

end ScopedState.Toml
