/-
`Scope.lean` -- scopes, and the trees they form.

A scope maps component names to storages. It has its own path variables, it
draws its storages from a pool, and it may have a registry, which lists the
scopes below it in order. A registry stands for itself and is only referred to
by the scope; the tree below a scope is read off the registries whenever it is
needed.
-/
import ScopedState.Macros
import ScopedState.Pool
import ScopedState.Change
set_option autoImplicit false

namespace ScopedState

/-- The number of a pool. -/
abbrev PoolId := Nat

/-- The number of a registry. -/
abbrev RegistryId := Nat

/-- Where a component of a scope is kept. -/
structure Entry where
  component : ComponentId
  storage : StorageId
  deriving DecidableEq, Repr, Inhabited

/-- One scope: a project or a module. -/
structure Scope where
  name : String
  substitutor : Option Substitutor := none
  components : Bindings String Entry := []
  /-- The units of the scope, each under the text it was first mapped by. -/
  storages : Bindings Location (Path × StorageId) := []
  pool : PoolId
  registry : Option RegistryId := none
  deriving Repr, Inhabited

namespace Scope

/-- The names of the components, in order. -/
def names (s : Scope) : List String := Bindings.keys s.components

/-- The units of the scope, under the texts they were first mapped by. -/
def units (s : Scope) : List Path := (Bindings.values s.storages).map Prod.fst

/-- Whether the scope maps a unit. -/
def maps (s : Scope) (unit : Path) : Bool := Bindings.binds s.storages unit.location

/-- Whether the scope holds a storage. -/
def holds (s : Scope) (id : StorageId) : Bool :=
  (Bindings.values s.storages).any fun held => held.2 = id

end Scope

/-- A scope with the trees of the scopes below it. -/
inductive ScopeTree where
  | node (scope : ScopeId) (children : List ScopeTree)
  deriving Repr, Inhabited

namespace ScopeTree

/-- The scope at the top. -/
def scope : ScopeTree → ScopeId
  | node scope _ => scope

mutual

/-- The scopes of a tree, each before those below it. -/
def scopes : ScopeTree → List ScopeId
  | node scope children => scope :: scopesOfAll children

/-- The scopes of a list of trees. -/
def scopesOfAll : List ScopeTree → List ScopeId
  | [] => []
  | t :: ts => t.scopes ++ scopesOfAll ts

end

end ScopeTree

end ScopedState
