/-
`Manifest.lean` -- what a project consists of.

A project directory holds a manifest, a TOML file with the name of the project
and its modules, each with a name and a directory. Modules are told apart by
name, and their directories are relative to that of the project.
-/
import ScopedState.Disk
import ScopedState.Failure
import ScopedState.Text.Blank
import ScopedState.Toml.Record
set_option autoImplicit false

namespace ScopedState

/-- A module of a project. -/
structure ModuleEntry where
  name : String
  dir : Path
  deriving DecidableEq, Repr, Inhabited

/-- A project: its name and its modules. -/
structure Manifest where
  name : String
  modules : List ModuleEntry := []
  deriving DecidableEq, Repr, Inhabited

namespace Manifest

/-- The name of the manifest file. -/
def fileName : String := "scopestore.toml"

/-- What is wrong with a manifest, or with what it is read from. -/
inductive Fault where
  | noName
  | namelessModule (index : Nat)
  | absoluteModule (name : String)
  | repeatedModule (name : String)
  | unreadable (file : Path) (e : OsError)
  | unparsable (file : Path) (e : Toml.Fault)
  deriving DecidableEq, Repr

/-- The text of a fault. -/
def Fault.message : Fault → String
  | noName => "Project name must not be empty"
  | namelessModule index => "Module #" ++ toString index ++ " has an empty name"
  | absoluteModule name => "Module '" ++ name ++ "' dir must be relative to the project root"
  | repeatedModule name => "Module '" ++ name ++ "' is declared twice"
  | unreadable file e => "Failed to read " ++ file.text ++ ": " ++ e.message
  | unparsable file e => "Failed to parse " ++ file.text ++ ": " ++ e.message

/-- A fault as a failure. -/
def Fault.failure (fault : Fault) : Failure := .config fault.message

/-! ## 1. Validation -/

/-- What is wrong with a module, given the modules before it. -/
def moduleFault? (before : List ModuleEntry) (m : ModuleEntry) : Option Fault :=
  if Blank.isBlankText m.name then some (.namelessModule before.length)
  else if m.dir.isAbsolute then some (.absoluteModule m.name)
  else if before.any fun other => other.name = m.name then some (.repeatedModule m.name)
  else none

/-- What is wrong with the first module that something is wrong with. -/
def modulesFault? (before : List ModuleEntry) : List ModuleEntry → Option Fault
  | [] => none
  | m :: rest =>
    match moduleFault? before m with
    | some fault => some fault
    | none => modulesFault? (before ++ [m]) rest

/-- **What is wrong with a manifest**, if anything is. -/
def fault? (m : Manifest) : Option Fault :=
  if Blank.isBlankText m.name then some .noName else modulesFault? [] m.modules

/-- Validate a manifest. -/
def validate (m : Manifest) : Except Fault Unit :=
  match m.fault? with
  | some fault => .error fault
  | none => .ok ()

/-! ## 2. Reading -/

/-- Read a module entry. -/
def readModule (v : Toml) : Except Toml.Fault ModuleEntry := do
  let r ← Toml.Record.ofValue ["name", "dir"] v
  let name ← r.required "name" Toml.asString
  let dir ← r.required "dir" Toml.asString
  return { name, dir := ⟨dir⟩ }

/-- **The manifest of a document.** -/
def ofFields (fields : Toml.Fields) : Except Toml.Fault Manifest := do
  let r ← Toml.Record.ofFields ["name", "modules"] fields
  let name ← r.required "name" Toml.asString
  let modules ← r.optional "modules" [] (Toml.asList readModule)
  return { name, modules }

/-- Read a manifest from a text. -/
def ofText (text : List Char) : Except Toml.Fault Manifest :=
  match Toml.read text with
  | .error fault => .error fault
  | .ok fields => ofFields fields

/-- **Load** the manifest of a project directory. -/
def load (d : Disk) (root : Path) : Except Fault Manifest :=
  let file := root.join ⟨fileName⟩
  match d.readText file with
  | .error e => .error (.unreadable file e)
  | .ok text =>
    match ofText text with
    | .error fault => .error (.unparsable file fault)
    | .ok m =>
      match m.validate with
      | .error fault => .error fault
      | .ok () => .ok m

end Manifest

end ScopedState
