/-! # Arguments of the command line

`Request.ofArgs` says what a list of arguments asks for. The options for verbosity and settings
may stand before the command or after it; what is given after it counts. Two dashes end the
options. Where a command takes an expression, an argument with a dash in front is the expression
unless it is made of known options only.
-/

set_option autoImplicit false

namespace Dynascope.CommandLine

/-- The commands. -/
inductive Action where
  | shell
  | run
  | eval
  | parse
  | tokens
  | minify
  | rpn
  | evalRpn
deriving DecidableEq, Repr

namespace Action

/-- All commands, in the order of the help text. -/
def all : List Action :=
  [shell, run, eval, parse, tokens, minify, rpn, evalRpn]

/-- The word for a command. -/
def word : Action → String
  | shell => "repl"
  | run => "run"
  | eval => "eval"
  | parse => "parse"
  | tokens => "tokens"
  | minify => "minify"
  | rpn => "rpn"
  | evalRpn => "eval-rpn"

/-- The command with a word. -/
def ofWord? (word : String) : Option Action :=
  all.find? fun command => command.word == word

/-- What a command takes. -/
inductive Operand where
  | nothing
  | file
  | expression
deriving DecidableEq, Repr

/-- What a command takes. -/
def operand : Action → Operand
  | shell => .nothing
  | run | parse | tokens => .file
  | eval | minify | rpn | evalRpn => .expression

end Action

/-- The options that have been given before or after the command. -/
structure Options where
  /-- how often verbosity was asked for -/
  verbose : Nat := 0
  /-- the file with the settings -/
  config : Option String := none
deriving DecidableEq, Repr

/-- Options before the command with those after it: the later ones count. -/
def Options.override (before after : Options) : Options :=
  ⟨if after.verbose = 0 then before.verbose else after.verbose, after.config.or before.config⟩

/-- What a list of arguments asks for. -/
inductive Request where
  | invoke (options : Options) (command : Action) (operand : String)
  | help (command : Option Action)
  | helpOnHelp
  | version
  | misuse
deriving DecidableEq, Repr

/-- An argument by its looks. -/
inductive Shape where
  /-- two dashes alone -/
  | escape
  /-- two dashes and a name, perhaps with a value after an equals sign -/
  | long (name : String) (value : Option String)
  /-- a dash and letters -/
  | short (letters : List Char)
  | plain
deriving DecidableEq, Repr

/-- How an argument looks. -/
def Shape.of (arg : String) : Shape :=
  match arg.toList with
  | ['-', '-'] => .escape
  | '-' :: '-' :: rest =>
    let name := rest.takeWhile (· ≠ '=')
    .long (String.ofList name)
      (if name.length < rest.length then some (String.ofList (rest.drop (name.length + 1)))
        else none)
  | '-' :: c :: rest => .short (c :: rest)
  | _ => .plain

/-- What letters after a dash ask for, in order: more verbosity, help, or the version where that
is known. Help and version end the reading. -/
def readLetters (knowsVersion : Bool) (help : Request) (options : Options) :
    List Char → Except Request Options
  | [] => .ok options
  | c :: rest =>
    if c = 'v' then
      readLetters knowsVersion help { options with verbose := options.verbose + 1 } rest
    else if c = 'h' then .error help
    else if c = 'V' ∧ knowsVersion then .error .version
    else .error .misuse

/-- Adds the file with the settings, which can be given only once and needs a name. -/
def Options.addConfig? (options : Options) (file : String) : Option Options :=
  if options.config.isSome ∨ file = "" then none else some { options with config := some file }

/-- Whether an argument can be the value of an option. -/
def isValue (arg : String) : Bool :=
  Shape.of arg == .plain

/-- A command's operand: a file needs a name. -/
def operandRequest (options : Options) (command : Action) (operand : Option String) : Request :=
  match command.operand, operand with
  | .nothing, none => .invoke options command ""
  | .file, some file => if file = "" then .misuse else .invoke options command file
  | .expression, some text => .invoke options command text
  | _, _ => .misuse

/-- Whether a command can take an argument with a dash as its operand. -/
def takesDash (command : Action) (operand : Option String) : Bool :=
  command.operand == .expression && operand.isNone

/-- Whether a command can take one more operand. -/
def takesMore (command : Action) (operand : Option String) : Bool :=
  command.operand != .nothing && operand.isNone

/-- Reads the arguments after two dashes: nothing but an operand. -/
def readRest (options : Options) (command : Action) (operand : Option String) :
    List String → Request
  | [] => operandRequest options command operand
  | arg :: rest =>
    if takesMore command operand then readRest options command (some arg) rest else .misuse

/-- Reads the arguments after a command. `before` are the options before it. -/
def readCommand (before : Options) (command : Action) (options : Options)
    (operand : Option String) : List String → Request
  | [] => operandRequest (before.override options) command operand
  | arg :: rest =>
    match Shape.of arg with
    | .escape => readRest (before.override options) command operand rest
    | .long "verbose" none =>
      readCommand before command { options with verbose := options.verbose + 1 } operand rest
    | .long "help" none => .help (some command)
    | .long "config" (some file) =>
      match options.addConfig? file with
      | some options => readCommand before command options operand rest
      | none => .misuse
    | .long "config" none =>
      match rest with
      | file :: rest =>
        if isValue file then
          match options.addConfig? file with
          | some options => readCommand before command options operand rest
          | none => .misuse
        else .misuse
      | [] => .misuse
    | .long "verbose" (some _) => .misuse
    | .long "help" (some _) => .misuse
    | .long _ _ =>
      if takesDash command operand then readCommand before command options (some arg) rest
      else .misuse
    | .short letters =>
      if takesDash command operand && letters.any (fun c => c != 'v' && c != 'h') then
        readCommand before command options (some arg) rest
      else match readLetters false (.help (some command)) options letters with
        | .ok options => readCommand before command options operand rest
        | .error request => request
    | .plain =>
      if takesMore command operand then readCommand before command options (some arg) rest
      else .misuse

/-- Reads the arguments after the word `help`: at most one command. -/
def readHelp : List String → Request
  | [] => .help none
  | [word] =>
    if word = "help" then .helpOnHelp
    else match Action.ofWord? word with
      | some command => .help (some command)
      | none => .misuse
  | _ => .misuse

/-- Reads the arguments up to a command, and those after it. -/
def readArgs (options : Options) : List String → Request
  | [] => .invoke options .shell ""
  | arg :: rest =>
    if arg = "help" then readHelp rest
    else match Action.ofWord? arg with
      | some command => readCommand options command {} none rest
      | none =>
        match Shape.of arg with
        | .escape => if rest.isEmpty then .invoke options .shell "" else .misuse
        | .long "verbose" none => readArgs { options with verbose := options.verbose + 1 } rest
        | .long "help" none => .help none
        | .long "version" none => .version
        | .long "config" (some file) =>
          match options.addConfig? file with
          | some options => readArgs options rest
          | none => .misuse
        | .long "config" none =>
          match rest with
          | file :: rest =>
            if isValue file then
              match options.addConfig? file with
              | some options => readArgs options rest
              | none => .misuse
            else .misuse
          | [] => .misuse
        | .short letters =>
          match readLetters true (.help none) options letters with
          | .ok options => readArgs options rest
          | .error request => request
        | _ => .misuse

/-- What a list of arguments asks for. -/
def Request.ofArgs (args : List String) : Request :=
  readArgs {} args

end Dynascope.CommandLine
