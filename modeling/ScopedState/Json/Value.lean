/-
`Json/Value.lean` -- JSON values.

A component's state is any JSON value, so this is the one dynamic type of the
library. Numbers come in two kinds that never compare equal: whole numbers,
which are exact, and doubles. An object binds keys to values in key order, so
two objects with the same bindings are the same list.

Every traversal below is a structural recursion in three parts, one for a
value, one for the items of an array and one for the fields of an object.
-/
import ScopedState.Bindings
import ScopedState.Decimal.Binary64
set_option autoImplicit false

namespace ScopedState

/-- A JSON value. -/
inductive Json where
  | null
  | bool (value : Bool)
  | integer (value : Int)
  | float (value : Binary64)
  | string (text : String)
  | array (items : List Json)
  | object (fields : List (String × Json))
  deriving Repr, Inhabited

namespace Json

/-! ## 1. Equality

Values are compared as the numbers, texts and bindings they are. The one place
where this is coarser than identity is a zero: `0.0` and `-0.0` are equal. -/

mutual

/-- Whether two values are equal. -/
def same : Json → Json → Bool
  | null, null => true
  | bool a, bool b => a == b
  | integer a, integer b => a == b
  | float a, float b => a.same b
  | string a, string b => a == b
  | array as, array bs => sameItems as bs
  | object as, object bs => sameFields as bs
  | _, _ => false

/-- Whether two arrays hold equal values in the same places. -/
def sameItems : List Json → List Json → Bool
  | [], [] => true
  | a :: as, b :: bs => same a b && sameItems as bs
  | _, _ => false

/-- Whether two objects bind the same keys to equal values. -/
def sameFields : List (String × Json) → List (String × Json) → Bool
  | [], [] => true
  | (k, a) :: as, (l, b) :: bs => k == l && same a b && sameFields as bs
  | _, _ => false

end

/-- Whether two optional values are both absent or both there and equal. -/
def sameOption : Option Json → Option Json → Bool
  | none, none => true
  | some a, some b => same a b
  | _, _ => false

/-! ## 2. Strings inside a value -/

mutual

/-- Replace every string of a value by its image. Keys are not strings of the
value and stay. -/
def mapStrings (f : String → String) : Json → Json
  | string text => string (f text)
  | array items => array (mapStringsItems f items)
  | object fields => object (mapStringsFields f fields)
  | null => null
  | bool b => bool b
  | integer n => integer n
  | float x => float x

/-- `mapStrings` on the items of an array. -/
def mapStringsItems (f : String → String) : List Json → List Json
  | [] => []
  | v :: vs => mapStrings f v :: mapStringsItems f vs

/-- `mapStrings` on the fields of an object. -/
def mapStringsFields (f : String → String) : List (String × Json) → List (String × Json)
  | [] => []
  | (k, v) :: vs => (k, mapStrings f v) :: mapStringsFields f vs

end

mutual

/-- Every string of a value, from the front. -/
def strings : Json → List String
  | string text => [text]
  | array items => stringsOfItems items
  | object fields => stringsOfFields fields
  | null => []
  | bool _ => []
  | integer _ => []
  | float _ => []

/-- `strings` of the items of an array. -/
def stringsOfItems : List Json → List String
  | [] => []
  | v :: vs => strings v ++ stringsOfItems vs

/-- `strings` of the fields of an object. -/
def stringsOfFields : List (String × Json) → List String
  | [] => []
  | (_, v) :: vs => strings v ++ stringsOfFields vs

end

/-! ## 3. Fields -/

/-- The value of a field of an object. -/
def field? (v : Json) (key : String) : Option Json :=
  match v with
  | object fields => Bindings.get? fields key
  | _ => none

/-- The object with the given fields; of two fields with one key the last
counts. -/
def ofFields (fields : List (String × Json)) : Json := object (Bindings.ofList fields)

end Json

end ScopedState
