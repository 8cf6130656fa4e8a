/-
`Component.lean` -- a named piece of state.

A component holds a JSON value or nothing. It may have a default, which comes
back when its storage holds nothing for it. It may refuse to be reloaded while
it is in use, and it may fail to give its state, in which case its scope cannot
be staged.
-/
import ScopedState.Failure
import ScopedState.Json.Value
set_option autoImplicit false

namespace ScopedState

/-- A component whose whole state is one JSON value. -/
structure Component where
  name : String
  value : Option Json := none
  default? : Option Json := none
  reloadable : Bool := true
  /-- Whether asking for the state fails. -/
  failing : Bool := false
  /-- How often a state was handed to the component. -/
  loads : Nat := 0
  deriving Repr, Inhabited

namespace Component

/-- A component that starts from a default. -/
def withDefault (c : Component) (v : Json) : Component :=
  { c with value := some v, default? := some v }

/-- Replace the value. -/
def set (c : Component) (v : Json) : Component := { c with value := some v }

/-- Leave the component with nothing to persist. -/
def clear (c : Component) : Component := { c with value := none }

/-- The state to persist, if there is one. -/
def state (c : Component) : Except Failure (Option Json) :=
  if c.failing then .error (.internal (c.name ++ " has no state")) else .ok c.value

/-- Hand over what the storage holds; without anything the default comes back. -/
def load (c : Component) (stored : Option Json) : Component :=
  { c with value := stored <|> c.default?, loads := c.loads + 1 }

end Component

end ScopedState
