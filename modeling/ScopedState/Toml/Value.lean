/-
`Toml/Value.lean` -- TOML values, and how a document puts tables together.

A table may be written in several places of a document: a header opens it,
dotted keys and the headers of its subtables make it on the way. What may be
added to it later depends on how it came about, so a table carries its origin.
An array made by headers in double brackets is kept apart from an array
written as a value, because only the former can be added to.

`within` follows a path of keys to a table, making tables that are missing,
and applies an edit there. Everything a document does to its root is such an
edit, and an edit that the rules forbid gives nothing.
-/
import ScopedState.Bindings
set_option autoImplicit false

namespace ScopedState

/-- How a table came about. -/
inductive Toml.Origin where
  /-- By its own header, or as the root of the document. -/
  | header
  /-- On the way to a table below it. -/
  | implied
  /-- By a dotted key. -/
  | dotted
  /-- As a value in braces. It is complete. -/
  | inline
  deriving DecidableEq, Repr, Inhabited

/-- A TOML value. -/
inductive Toml where
  | string (text : String)
  | integer (value : Int)
  /-- A number with a fraction or an exponent; all that is kept of it is
  whether it is in the range of a double. -/
  | float (inRange : Bool)
  | bool (value : Bool)
  /-- A date, a time or both. -/
  | moment
  | array (items : List Toml)
  /-- The tables of headers in double brackets, the last one first. -/
  | tables (items : List Toml)
  | table (origin : Toml.Origin) (fields : List (String × Toml))
  deriving Repr, Inhabited

namespace Toml

/-- The fields of a table. -/
abbrev Fields := Bindings String Toml

/-- An edit of a table, which may be forbidden. -/
abbrev Edit := Origin → Fields → Option (Origin × Fields)

/-! ## 1. Following a path -/

/-- Apply an edit to the table at the end of a path. With `dotted`, the path is
that of a dotted key, which does not enter tables that have a header. -/
def within (dotted : Bool) (edit : Edit) : List String → Edit
  | [], origin, fields => edit origin fields
  | key :: path, origin, fields =>
    match Bindings.get? fields key with
    | none =>
      let start := if dotted then Origin.dotted else .implied
      (within dotted edit path start []).map fun t =>
        (origin, Bindings.insert fields key (.table t.1 t.2))
    | some (.table .inline _) => none
    | some (.table below inner) =>
      if dotted && below = .header then none
      else (within dotted edit path below inner).map fun t =>
        (origin, Bindings.insert fields key (.table t.1 t.2))
    | some (.tables (.table below inner :: others)) =>
      (within dotted edit path below inner).map fun t =>
        (origin, Bindings.insert fields key (.tables (.table t.1 t.2 :: others)))
    | some _ => none

/-! ## 2. Edits -/

/-- Bind a key that is not bound yet. A table of dotted keys takes further
dotted keys only, and any other table no key at the end of a dotted one unless
that has made it. -/
def bind (dotted : Bool) (key : String) (v : Toml) : Edit := fun origin fields =>
  if (origin == .dotted) != dotted || Bindings.binds fields key then none
  else some (origin, Bindings.insert fields key v)

/-- Open the table of a header: a new one, or one that was only implied. -/
def openTable (key : String) : Edit := fun origin fields =>
  match Bindings.get? fields key with
  | none => some (origin, Bindings.insert fields key (.table .header []))
  | some (.table .implied inner) =>
    some (origin, Bindings.insert fields key (.table .header inner))
  | some _ => none

/-- Open a table of a header in double brackets. -/
def openItem (key : String) : Edit := fun origin fields =>
  match Bindings.get? fields key with
  | none => some (origin, Bindings.insert fields key (.tables [.table .header []]))
  | some (.tables items) =>
    some (origin, Bindings.insert fields key (.tables (.table .header [] :: items)))
  | some _ => none

/-- Bind the value of a dotted key, given by its path and its last part. -/
def bindPath (path : List String) (key : String) (v : Toml) : Edit :=
  within true (bind (!path.isEmpty) key v) path

/-! ## 3. Values that can be passed over

A key that nobody asks for is passed over, but its value has to be one that
could be had: whole numbers within 128 bits, and doubles that are finite. -/

mutual

/-- Whether every number of a value is in range. -/
def isSound : Toml → Bool
  | integer n => -Nat.pow 2 127 ≤ n && n < Nat.pow 2 128
  | float inRange => inRange
  | array items => areSound items
  | tables items => areSound items
  | table _ fields => fieldsAreSound fields
  | string _ => true
  | bool _ => true
  | moment => true

/-- `isSound` for the items of an array. -/
def areSound : List Toml → Bool
  | [] => true
  | v :: vs => v.isSound && areSound vs

/-- `isSound` for the fields of a table. -/
def fieldsAreSound : List (String × Toml) → Bool
  | [] => true
  | (_, v) :: vs => v.isSound && fieldsAreSound vs

end

end Toml

end ScopedState
