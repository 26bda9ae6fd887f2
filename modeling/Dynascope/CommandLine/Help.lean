import Dynascope.CommandLine.Arguments
import Dynascope.Text.Join

/-! # Help texts of the command line -/

set_option autoImplicit false

namespace Dynascope.CommandLine

/-- What a command does. -/
def Action.summary : Action → String
  | .shell => "Start the interactive session (default)"
  | .run => "Evaluate a source file as one unit"
  | .eval => "Evaluate an expression given on the command line"
  | .parse => "Parse and dump AST as JSON (debug)"
  | .tokens => "Tokenize and dump tokens (debug)"
  | .minify => "Print an expression without whitespace or redundant parentheses"
  | .rpn => "Convert an arithmetic expression to Reverse Polish Notation"
  | .evalRpn => "Evaluate a space-separated RPN expression"

/-- The usage of a command's operand, and the lines that explain it. -/
def Action.operandHelp : Action → String × List String
  | .shell => ("", [])
  | .run => (" <FILE>", ["Arguments:", "  <FILE>  Source file to run", ""])
  | .parse => (" <FILE>", ["Arguments:", "  <FILE>  Source file to parse", ""])
  | .tokens => (" <FILE>", ["Arguments:", "  <FILE>  Source file to tokenize", ""])
  | .eval | .minify | .rpn | .evalRpn => (" <EXPR>", ["Arguments:", "  <EXPR>  ", ""])

/-- The options that every command knows. -/
def optionLines : List String :=
  ["Options:",
    "  -v, --verbose...       Increase log verbosity (-v debug, -vv trace)",
    "      --config <CONFIG>  Configuration file (defaults to ./esolang.toml when present)",
    "  -h, --help             Print help"]

/-- A word with blanks after it up to a width. -/
def padRight (width : Nat) (word : String) : String :=
  word ++ String.ofList (List.replicate (width - word.length) ' ')

/-- The line of a command in the list of all. -/
def Action.line (command : Action) : String :=
  "  " ++ padRight 10 command.word ++ command.summary

/-- The help text on a command, or on all of them. -/
def helpText : Option Action → String
  | some command =>
    Text.unlines <|
      [command.summary, "",
        "Usage: esolang " ++ command.word ++ " [OPTIONS]" ++ command.operandHelp.1, ""]
      ++ command.operandHelp.2 ++ optionLines
  | none =>
    Text.unlines <|
      ["Tree-walking interpreter for a tiny expression language", "",
        "Usage: esolang [OPTIONS] [COMMAND]", "", "Commands:"]
      ++ Action.all.map Action.line
      ++ ["  " ++ padRight 10 "help" ++ "Print this message or the help of the given subcommand(s)",
        ""]
      ++ optionLines ++ ["  -V, --version          Print version"]

/-- The help text on the word `help`. -/
def helpOnHelpText : String :=
  Text.unlines
    ["Print this message or the help of the given subcommand(s)", "",
      "Usage: esolang help [COMMAND]", "", "Commands:"]
    ++ Text.unlines (Action.all.map Action.line)
    ++ Text.unlines
      ["  " ++ padRight 10 "help" ++ "Print this message or the help of the given subcommand(s)"]

/-- The line that names the program and its version. -/
def versionText : String :=
  "esolang 0.1.0\n"

end Dynascope.CommandLine
