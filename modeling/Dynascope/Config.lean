import Dynascope.Text.Join
import Dynascope.Toml.Document

/-! # Settings

The settings of the shell and the limits of evaluation, read from a TOML document. Whatever the
document does not mention keeps its default, and what it mentions besides is passed over.
-/

set_option autoImplicit false

namespace Dynascope

/-- Settings of the interactive shell. -/
structure ShellSettings where
  prompt : String := "esolang> "
  /-- whether lines are remembered from one session to the next -/
  history : Bool := true
  /-- where they are remembered; a relative path starts at the home directory -/
  historyFile : String := ".esolang_history"
deriving DecidableEq, Repr

/-- All settings. -/
structure Config where
  shell : ShellSettings := {}
  /-- how many calls may be active -/
  maxCallDepth : Nat := 10000
deriving Repr

/-! ## Paths -/

/-- Whether a path starts at the root. -/
def isAbsolutePath (path : String) : Bool :=
  path.toList.head? == some '/'

/-- A path seen from a directory. -/
def joinPath (directory path : String) : String :=
  if isAbsolutePath path then path else directory ++ "/" ++ path

/-- The characters of a path between its slashes. -/
def splitPath : List Char → List (List Char)
  | [] => [[]]
  | c :: cs =>
    if c = '/' then [] :: splitPath cs
    else match splitPath cs with
      | [] => [[c]]
      | part :: rest => (c :: part) :: rest

/-- The steps of a path. Empty steps do not count, and neither do single dots except at the very
start. -/
def pathSteps (path : String) : List String :=
  match (splitPath path.toList).map String.ofList with
  | [] => []
  | first :: rest =>
    let kept := rest.filter fun step => step ≠ "" ∧ step ≠ "."
    if first = "" then kept else first :: kept

/-- Whether two paths have the same start and the same steps. -/
def samePath (a b : String) : Bool :=
  isAbsolutePath a == isAbsolutePath b && pathSteps a == pathSteps b

/-- Where lines are remembered, if they are. -/
def ShellSettings.historyPath? (settings : ShellSettings) (home : String) : Option String :=
  if settings.history then some (joinPath home settings.historyFile) else none

/-- Whether all settings have their defaults. -/
def Config.isDefault (config : Config) : Bool :=
  config.shell.prompt == ({} : ShellSettings).prompt
    && config.shell.history == ({} : ShellSettings).history
    && samePath config.shell.historyFile ({} : ShellSettings).historyFile
    && config.maxCallDepth == ({} : Config).maxCallDepth

/-! ## Reading -/

/-- What a settings record gives for its keys: a table by name, an array by position. A date is a
record without any of the keys. -/
def Toml.Value.entries? (keys : List String) : Toml.Value → Option (List (Option Toml.Value))
  | .table _ fields => some (keys.map (Toml.Table.get? fields))
  | .array items => some ((List.range keys.length).map (items[·]?))
  | .tables elements =>
    some ((List.range keys.length).map fun i => elements[i]?.map (.table .header))
  | .datetime => some (keys.map fun _ => none)
  | _ => none

/-- A setting that keeps its default if it is not given. -/
def setting? {α : Type} (fallback : α) (read? : Toml.Value → Option α) :
    Option Toml.Value → Option α
  | none => some fallback
  | some value => read? value

/-- A string. -/
def Toml.Value.string? : Toml.Value → Option String
  | .string s => some s
  | _ => none

/-- A truth value. -/
def Toml.Value.boolean? : Toml.Value → Option Bool
  | .boolean b => some b
  | _ => none

/-- An integer that is not negative. -/
def Toml.Value.count? : Toml.Value → Option Nat
  | .integer n => if n < 0 then none else some n.toInt.toNat
  | _ => none

/-- The settings of the shell. -/
def ShellSettings.ofToml? (value : Toml.Value) : Option ShellSettings :=
  let default : ShellSettings := {}
  match value.entries? ["prompt", "history", "history_file"] with
  | some [prompt, history, historyFile] => do
    return {
      prompt := ← setting? default.prompt Toml.Value.string? prompt
      history := ← setting? default.history Toml.Value.boolean? history
      historyFile := ← setting? default.historyFile Toml.Value.string? historyFile }
  | _ => none

/-- The limit on active calls. -/
def maxCallDepthOfToml? (value : Toml.Value) : Option Nat :=
  match value.entries? ["max_call_depth"] with
  | some [limit] => setting? ({} : Config).maxCallDepth Toml.Value.count? limit
  | _ => none

/-- The settings that a document describes. -/
def Config.ofToml? (text : String) : Option Config := do
  let table ← Toml.read? text
  return {
    shell := ← setting? {} ShellSettings.ofToml? (table.get? "repl")
    maxCallDepth :=
      ← setting? ({} : Config).maxCallDepth maxCallDepthOfToml? (table.get? "interpreter") }

end Dynascope
