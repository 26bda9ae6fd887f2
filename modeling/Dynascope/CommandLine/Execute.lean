import Dynascope.CommandLine.Help
import Dynascope.Config
import Dynascope.Minify
import Dynascope.Rpn
import Dynascope.Shell
import Dynascope.TermJson

/-! # What the command line does

`execute` carries out a request, given the files that it may read and the text on the standard
input, and says what is written to the two output streams and the exit status: zero for success,
one for a failure, two for arguments that ask for nothing.
-/

set_option autoImplicit false

namespace Dynascope.CommandLine

/-! ## Files -/

/-- Why a file cannot be read. -/
inductive ReadFailure where
  | missing
  | isDirectory
  | notDirectory
  | notText
deriving DecidableEq, Repr

/-- What is wrong with a file. -/
def ReadFailure.message : ReadFailure → String
  | .missing => "No such file or directory (os error 2)"
  | .isDirectory => "Is a directory (os error 21)"
  | .notDirectory => "Not a directory (os error 20)"
  | .notText => "stream did not contain valid UTF-8"

/-- The files that can be read, by their paths. -/
abbrev Files : Type := String → Except ReadFailure String

/-- The steps of a path without single dots. -/
def plainSteps (path : String) : List String :=
  (pathSteps path).filter (· ≠ ".")

/-- The files with the given names and texts in the working directory. -/
def Files.ofList (entries : List (String × String)) : Files := fun path =>
  let steps := plainSteps path
  match entries.find? fun entry => plainSteps entry.1 == steps with
  | some (_, text) =>
    if path.toList.getLast? == some '/' then .error .notDirectory else .ok text
  | none =>
    if path = "" then .error .missing
    else if entries.any fun entry => (plainSteps entry.1).isPrefixOf steps then
      .error .notDirectory
    else if entries.any fun entry => steps.isPrefixOf (plainSteps entry.1) then
      .error .isDirectory
    else if steps.isEmpty then .error .isDirectory
    else .error .missing

/-- The file with the settings that is read if none is named. -/
def defaultConfigFile : String :=
  "esolang.toml"

/-- The settings and the lines that report where they come from. A file that is named must
exist; the default one need not. -/
def loadConfig (v : Verbosity) (files : Files) (named : Option String) :
    Except String (Config × List String) :=
  let load := fun path => match files path with
    | .error why => .error ("cannot read " ++ path ++ ": " ++ why.message)
    | .ok text =>
      match Config.ofToml? text with
      | none => .error ("invalid config " ++ path ++ ": TOML parse error")
      | some config => .ok (config, v.debugLine ("esolang::config: loaded config path=" ++ path))
  match named with
  | some path => load path
  | none =>
    match files defaultConfigFile with
    | .error .notText => load defaultConfigFile
    | .error _ => .ok ({}, [])
    | .ok _ => load defaultConfigFile

/-! ## Commands -/

/-- What was written, and the exit status. -/
structure Result where
  status : Nat
  reply : Reply
deriving DecidableEq, Repr

/-- A success that writes a text. -/
def Result.success (out : String) : Result :=
  ⟨0, { out }⟩

/-- A failure, reported on the error stream. -/
def Result.failure (message : String) : Result :=
  ⟨1, { err := "Error: " ++ message ++ "\n" }⟩

/-- A result after something else was written. -/
def Result.after (result : Result) (reply : Reply) : Result :=
  { result with reply := reply.append result.reply }

/-- The result of evaluating a source text as the only input of a session. `refuse` reports a
text that is no program. -/
def evaluateOnce (fuel : Nat) (v : Verbosity) (maxCallDepth : Nat) (source : String)
    (refuse : CompileError → Result) : Result :=
  let (outcome, s) := (Session.start (some maxCallDepth) none).evaluate fuel source
  let result := match outcome with
    | .value value => Result.success (if value.isNone then "" else value.text ++ "\n")
    | .failure (.compile e) => refuse e
    | .failure e => Result.failure e.text
    | .outOfFuel => Result.failure "the evaluation did not end"
  result.after (s.deliver v 0).1

/-- The report on a source file that is no program: a title, and then the place. -/
def reportFile (file : String) (e : CompileError) : Result :=
  ⟨1, { err := "Error: " ++ e.stage.title ++ " error\n" ++ file ++ ":" ++ e.span.text ++ ": "
    ++ e.message ++ "\n" }⟩

/-- Runs something on the program of a source text. -/
def onProgram (source : String) (use : Program → Result) : Result :=
  match parseSource source with
  | .error e => Result.failure e.text
  | .ok program => use program

/-- Carries out a command with its operand. -/
def Action.perform (fuel : Nat) (v : Verbosity) (config : Config) (files : Files)
    (input : String) (operand : String) : Action → Result
  | .shell =>
    let (begun, s) := Shell.start v config.maxCallDepth
    (Result.success "").after
      ((begun.append { out := Text.unlines bannerLines }).append
        (Shell.feedAll fuel v s (Text.linesOf input)))
  | .run =>
    match files operand with
    | .error why => Result.failure ("IO error: " ++ why.message)
    | .ok source => evaluateOnce fuel v config.maxCallDepth source (reportFile operand)
  | .eval =>
    evaluateOnce fuel v config.maxCallDepth operand fun e => Result.failure e.text
  | .parse =>
    match files operand with
    | .error why => Result.failure why.message
    | .ok source => onProgram source fun program =>
      Result.success (program.toJson.pretty ++ "\n")
  | .tokens =>
    match files operand with
    | .error why => Result.failure why.message
    | .ok source =>
      match tokenize source with
      | .error e => Result.failure e.text
      | .ok lexemes => Result.success (Text.unlines (lexemes.map Lexeme.listing))
  | .minify => onProgram operand fun program => Result.success (program.minify ++ "\n")
  | .rpn => onProgram operand fun program =>
    match program.toRpn with
    | .error e => Result.failure e.message
    | .ok text => Result.success (text ++ "\n")
  | .evalRpn =>
    match Dynascope.evalRpn operand with
    | .error e => Result.failure e.message
    | .ok n => Result.success (toString n ++ "\n")

/-- Carries out a request. The settings are read before anything else is done. -/
def execute (fuel : Nat) (files : Files) (input : String) : Request → Result
  | .misuse => ⟨2, { err := "error: unexpected arguments\n\nUsage: esolang [OPTIONS] [COMMAND]\n" }⟩
  | .version => Result.success versionText
  | .help command => Result.success (helpText command)
  | .helpOnHelp => Result.success helpOnHelpText
  | .invoke options command operand =>
    let v := Verbosity.ofCount options.verbose
    match loadConfig v files options.config with
    | .error message => Result.failure message
    | .ok (config, report) =>
      (command.perform fuel v config files input operand).after { err := Text.unlines report }

/-- The files that a request reads. -/
def Request.files : Request → List String
  | .invoke options command operand =>
    options.config.getD defaultConfigFile
      :: (if command.operand = .file then [operand] else [])
  | _ => []

end Dynascope.CommandLine
