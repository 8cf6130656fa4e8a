/-
`Report.lean` -- what the command line prints.

A table is drawn with box characters around its cells. Every column is as wide
as the widest line in it, with a blank on either side; a cell of several lines
takes as many lines of its row, and a row with fewer cells than the widest row
is filled up with empty ones. The header is set off by a double line, and the
rows from each other by a dashed one.
-/
import ScopedState.Json.Writer
import ScopedState.Text.Width
set_option autoImplicit false

namespace ScopedState.Report

/-! ## 1. Short forms of values -/

/-- The compact text of a value, cut to at most `max` characters. A text that
is cut ends in an ellipsis, which counts, and which stays when `max` is zero. -/
def preview (v : Json) (max : Nat) : String :=
  let text := v.compact
  if text.length ≤ max then String.ofList text
  else String.ofList (text.take (max - 1) ++ ['…'])

/-! ## 2. Tables -/

/-- Cut a text at its line breaks. -/
def lines : List Char → List (List Char)
  | [] => [[]]
  | c :: rest =>
    if c = '\n' then [] :: lines rest
    else match lines rest with
      | [] => [[c]]
      | line :: others => (c :: line) :: others

/-- A cell: its lines. -/
abbrev Cell := List (List Char)

/-- The columns that a cell takes. -/
def Cell.width (cell : Cell) : Nat := (cell.map Width.ofText).foldl max 0

/-- A line between rows, from the character of its left end, the one of the
line, the one of its crossings and the one of its right end. -/
def rule (left line cross right : Char) (widths : List Nat) : List Char :=
  left :: ([cross].intercalate (widths.map fun w => List.replicate (w + 2) line)) ++ [right]

/-- A text filled up to a number of columns, with a blank on either side. -/
def padded (width : Nat) (text : List Char) : List Char :=
  ' ' :: text ++ List.replicate (width - Width.ofText text + 1) ' '

/-- One line of a row. -/
def rowLine (widths : List Nat) (texts : List (List Char)) : List Char :=
  '│' :: (['┆'].intercalate (widths.zipWith padded texts)) ++ ['│']

/-- The lines of a row, which are as many as its tallest cell has. -/
def rowLines (widths : List Nat) (row : List Cell) : List (List Char) :=
  let height := (row.map List.length).foldl max 0
  (List.range height).map fun i =>
    rowLine widths ((List.range widths.length).map fun j => (row.getD j []).getD i [])

/-- The width of a column: that of its widest cell, but at least one. -/
def columnWidth (rows : List (List Cell)) (column : Nat) : Nat :=
  (rows.map fun row => Cell.width (row.getD column [])).foldl max 1

/-- Lists with a separator between one and the next. -/
def separated {α : Type} (separator : α) : List (List α) → List α
  | [] => []
  | [only] => only
  | first :: next :: rest => first ++ separator :: separated separator (next :: rest)

/-- **A table**, as one text without a line break at its end. -/
def table (headers : List String) (rows : List (List String)) : String :=
  let header : List Cell := headers.map fun h => lines h.toList
  let rows : List (List Cell) := rows.map fun row => row.map fun cell => lines cell.toList
  let count := ((header :: rows).map List.length).foldl max 0
  let widths := (List.range count).map (columnWidth (header :: rows))
  let fill (row : List Cell) : List Cell := row ++ List.replicate (count - row.length) [[]]
  let body := separated (rule '├' '╌' '┼' '┤' widths)
    (rows.map fun row => rowLines widths (fill row))
  let all := [rule '┌' '─' '┬' '┐' widths] ++ rowLines widths (fill header)
    ++ [rule '╞' '═' '╪' '╡' widths] ++ body ++ [rule '└' '─' '┴' '┘' widths]
  String.ofList (['\n'].intercalate all)

/-! ## 3. Lines -/

/-- What a line of output is about. -/
inductive Mark where
  | done
  | failed
  | warning
  | note
  deriving DecidableEq, Repr

/-- The sign in front of a line. -/
def Mark.symbol : Mark → String
  | done => "✓"
  | failed => "✗"
  | warning => "!"
  | note => "•"

/-- A line with a mark. -/
def marked (mark : Mark) (text : String) : String := mark.symbol ++ " " ++ text ++ "\n"

/-- A title, with an empty line in front. -/
def title (text : String) : String := "\n" ++ text ++ "\n"

/-- A named value. -/
def labelled (key value : String) : String := "  " ++ key ++ ": " ++ value ++ "\n"

end ScopedState.Report
