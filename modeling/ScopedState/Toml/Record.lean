/-
`Toml/Record.lean` -- reading TOML values as records with known fields.

A record is written as a table; fields that nobody knows are passed over, as
long as their values could be had. It may also be written as an array with the
fields in their order, where fields at the end may be left out. A date counts
as a record none of whose fields is known.
-/
import ScopedState.Toml.Reader
set_option autoImplicit false

namespace ScopedState.Toml

/-- The values of known fields, each of them if it is there. -/
abbrev Record := Bindings String Toml

namespace Record

/-- The record of a table. -/
def ofFields (known : List String) (fields : Fields) : Except Fault Record :=
  let unknown := fields.filter fun entry => !known.contains entry.1
  if fieldsAreSound unknown then .ok (fields.filter fun entry => known.contains entry.1)
  else .error .mistyped

/-- The record of a value with the given fields, in their order. -/
def ofValue (known : List String) : Toml → Except Fault Record
  | .table _ fields => ofFields known fields
  | .array items => .ok (known.zip items)
  | .tables items => .ok (known.zip items.reverse)
  | .moment => .ok []
  | _ => .error .mistyped

/-- A field that has to be there, read with `f`. -/
def required {α : Type} (r : Record) (key : String) (f : Toml → Except Fault α) :
    Except Fault α :=
  match Bindings.get? r key with
  | some v => f v
  | none => .error (.missing key)

/-- A field that may be missing, read with `f`. -/
def optional {α : Type} (r : Record) (key : String) (default : α) (f : Toml → Except Fault α) :
    Except Fault α :=
  match Bindings.get? r key with
  | some v => f v
  | none => .ok default

end Record

/-- A value that is a string. -/
def asString : Toml → Except Fault String
  | .string s => .ok s
  | _ => .error .mistyped

/-- A value that is a truth value. -/
def asBool : Toml → Except Fault Bool
  | .bool b => .ok b
  | _ => .error .mistyped

/-- A value that is an unsigned 64-bit number. -/
def asNat : Toml → Except Fault Nat
  | .integer n => if 0 ≤ n && n < Nat.pow 2 64 then .ok n.toNat else .error .mistyped
  | _ => .error .mistyped

/-- A value that is an array of whatever `f` reads. -/
def asList {α : Type} (f : Toml → Except Fault α) : Toml → Except Fault (List α)
  | .array items => items.mapM f
  | .tables items => items.reverse.mapM f
  | _ => .error .mistyped

end ScopedState.Toml
