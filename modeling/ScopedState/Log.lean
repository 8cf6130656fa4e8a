/-
`Log.lean` -- what a run tells about itself, and who wants to know.

A run leaves events, each from one part of the program and of one level. A
filter says which of them are recorded. It is a list of directives, each for
the parts whose names start with its target; of those that fit a part the one
with the longest target counts, and of two with one target the later one.
-/
import ScopedState.Bindings
set_option autoImplicit false

namespace ScopedState.Log

/-! ## 1. Events -/

/-- How much an event matters. -/
inductive Level where
  | error
  | warn
  | info
  | debug
  | trace
  deriving DecidableEq, Repr, Inhabited

namespace Level

/-- The place of a level, from the one that matters most. -/
def rank : Level → Nat
  | error => 1
  | warn => 2
  | info => 3
  | debug => 4
  | trace => 5

/-- The name of a level. -/
def name : Level → String
  | error => "error"
  | warn => "warn"
  | info => "info"
  | debug => "debug"
  | trace => "trace"

/-- The levels. -/
def all : List Level := [error, warn, info, debug, trace]

/-- The level of a name, in letters of any case. -/
def ofName? (name : String) : Option Level :=
  all.find? fun level => level.name = name.map Char.toLower

end Level

/-- The parts of the program that events come from. -/
inductive Source where
  | project
  | store
  | session
  | storage
  | substitutor
  | registry
  | files
  | watcher
  deriving DecidableEq, Repr, Inhabited

/-- The name by which a directive finds a part. -/
def Source.name : Source → String
  | project => "scopestore_cli::project"
  | store => "scopestore_store::store"
  | session => "scopestore_store::session"
  | storage => "scopestore_store::storage"
  | substitutor => "scopestore_store::substitutor"
  | registry => "scopestore_store::registry"
  | files => "scopestore_vfs::backing"
  | watcher => "scopestore_vfs::watcher"

/-- An event. -/
structure Event where
  level : Level
  source : Source
  message : String
  deriving DecidableEq, Repr, Inhabited

/-- An event as a line of a log file. -/
def Event.line (e : Event) : String :=
  e.level.name.map Char.toUpper ++ " " ++ e.source.name ++ ": " ++ e.message ++ "\n"

/-- The events that there are under a condition. -/
def when (condition : Bool) (events : List Event) : List Event :=
  if condition then events else []

/-! ## 2. Filters -/

/-- What is wanted of some parts: the events up to a level, or none. -/
structure Directive where
  /-- What the names of the parts start with; empty for all parts. -/
  target : String := ""
  level : Option Level
  /-- Whether it is about stretches of a run only, of which there are none. -/
  stretches : Bool := false
  deriving DecidableEq, Repr, Inhabited

/-- Directives, the ones given first in front. -/
abbrev Filter := List Directive

namespace Filter

/-- Whether a directive is about a part. -/
def concerns (d : Directive) (source : Source) : Bool :=
  !d.stretches && d.target.toList.isPrefixOf source.name.toList

/-- The directive that counts for a part. -/
def directiveFor? (f : Filter) (source : Source) : Option Directive :=
  (f.filter fun d => concerns d source).foldl (fun best d =>
    match best with
    | none => some d
    | some b => if b.target.length ≤ d.target.length then some d else some b) none

/-- **Whether an event is recorded.** -/
def admits (f : Filter) (e : Event) : Bool :=
  ((f.directiveFor? e.source).bind Directive.level).any fun level => e.level.rank ≤ level.rank

/-- The filter that wants the events of the program up to a level, and of
anything else up to another one. -/
def upTo (level other : Level) : Filter :=
  [{ target := "scopestore", level := some level }, { level := some other }]

/-! ## 3. Filters as text -/

/-- The number that decimal digits stand for. -/
def number? (text : List Char) : Option Nat :=
  if text.isEmpty || !text.all Char.isDigit then none
  else some (text.foldl (fun n c => n * 10 + (c.toNat - 48)) 0)

/-- A level by its name or number, with `off` and 0 for no events at all. -/
def level? (text : List Char) : Option (Option Level) :=
  match number? (if text.head? = some '+' then text.drop 1 else text) with
  | some 0 => some none
  | some n => (Level.all.find? fun level => level.rank = n).map some
  | none =>
    if text.map Char.toLower = ['o', 'f', 'f'] then some none
    else (Level.ofName? (String.ofList text)).map some

/-- The level behind an equals sign; all events where it is missing. -/
def wanted? (text : List Char) : Option (Option Level) :=
  match text with
  | [] => some (some .trace)
  | '=' :: [] => some (some .trace)
  | '=' :: level => level? level
  | _ => none

/-- What follows the description of a stretch, from behind its bracket: a
name, and perhaps a field in braces. -/
def behindStretch? (text : List Char) : Option (List Char) :=
  let rest := text.dropWhile fun c => c ≠ ']' && c ≠ '\x7b'
  match rest with
  | ']' :: rest => some rest
  | _ :: field =>
    match field.takeWhile (· ≠ '\x7d'), field.dropWhile (· ≠ '\x7d') with
    | _ :: _, _ :: ']' :: rest => some rest
    | _, _ => none
  | [] => none

/-- Whether a directive may start with a character. -/
def startsDirective (c : Char) : Bool :=
  c.isAlphanum || 0x80 ≤ c.toNat || c = '-' || c = ':' || c = '_' || c = '['

/-- A directive: a level for all parts, a target with all its events, or a
target and a level. -/
def directive? (text : List Char) : Option Directive :=
  if !text.head?.any startsDirective then none
  else
    let front := text.takeWhile fun c => c ≠ '=' && c ≠ '['
    let target := String.ofList front
    match text.dropWhile fun c => c ≠ '=' && c ≠ '[' with
    | [] =>
      match level? front with
      | some level => some { level }
      | none => some { target, level := some .trace }
    | '[' :: rest =>
      ((behindStretch? rest).bind wanted?).map fun level => { target, level, stretches := true }
    | rest => (wanted? rest).map fun level => { target, level }

/-- Cut a text at its commas. -/
def pieces : List Char → List (List Char)
  | [] => [[]]
  | c :: rest =>
    if c = ',' then [] :: pieces rest
    else match pieces rest with
      | [] => [[c]]
      | piece :: others => (c :: piece) :: others

/-- **Read a filter.** Without any directive only errors are wanted. One
directive that makes no sense spoils them all. -/
def read? (text : String) : Option Filter :=
  let written := (pieces text.toList).filter fun piece => !piece.isEmpty
  if written.isEmpty then some [{ level := some .error }] else written.mapM directive?

/-- The variable of the environment that holds a filter. -/
def variableName : String := "RUST_LOG"

/-- The filter of a run: all but the finest events if it is to be verbose,
else what the environment asks for, else what the settings say. -/
def choose (verbose : Bool) (env : Bindings String String) (level : String) : Filter :=
  if verbose then upTo .debug .info
  else ((Bindings.get? env variableName).bind read?).getD
    (upTo ((Level.ofName? level).getD .info) .warn)

end Filter

end ScopedState.Log
