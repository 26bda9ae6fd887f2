import Dynascope.Token

/-! # Why a text is not a program

The causes are a character that starts no token, a literal that no integer has, a token that
cannot continue any program, and an end before the program is complete. `CompileError.message`
words them, `CompileError.text` adds the stage and the place, and `CompileError.line` puts that
on one line.
-/

set_option autoImplicit false

namespace Dynascope

/-- Why a text is not a program, and where. The last two carry the kinds of token that could
have stood at that place. -/
inductive CompileError where
  | unexpectedCharacter (char : Char) (span : Span)
  | literalOutOfRange (digits : String) (span : Span)
  | unexpectedToken (lexeme : Lexeme) (expected : List Token)
  | unexpectedEnd (position : Nat) (expected : List Token)
deriving DecidableEq, Repr

/-- The stage at which a text is refused. -/
inductive Stage where
  | lexer
  | parser
deriving DecidableEq, Repr

/-- What the stage is called in messages. -/
def Stage.title : Stage → String
  | .lexer => "Lexer"
  | .parser => "Syntax"

namespace CompileError

/-- The stage that finds the error. -/
def stage : CompileError → Stage
  | unexpectedCharacter .. | literalOutOfRange .. => .lexer
  | unexpectedToken .. | unexpectedEnd .. => .parser

/-- The place of the error. The end of a text counts as one byte after its last token. -/
def span : CompileError → Span
  | unexpectedCharacter _ span | literalOutOfRange _ span => span
  | unexpectedToken lexeme _ => lexeme.span
  | unexpectedEnd position _ => ⟨position, position + 1⟩

/-- Names in quotes, with commas between and `or` before the last. -/
def alternatives : List String → String
  | [] => ""
  | [last] => "\"" ++ last ++ "\""
  | [first, last] => "\"" ++ first ++ "\" or \"" ++ last ++ "\""
  | first :: rest => "\"" ++ first ++ "\", " ++ alternatives rest

/-- The second line of an error about a token: what could have stood there. -/
def expectation (expected : List Token) : String :=
  if expected.isEmpty then ""
  else "\nExpected one of " ++ alternatives (expected.map Token.kindName)

/-- What is wrong, without the place. -/
def message : CompileError → String
  | unexpectedCharacter char _ =>
    "unexpected character: " ++ Text.quote (String.singleton char)
  | literalOutOfRange digits _ => "integer literal out of range: " ++ digits
  | unexpectedToken lexeme expected =>
    "Unrecognized token \x60" ++ lexeme.token.text ++ "\x60 found at "
      ++ toString lexeme.span.start ++ ":" ++ toString lexeme.span.stop ++ expectation expected
  | unexpectedEnd position expected =>
    "Unrecognized EOF found at " ++ toString position ++ expectation expected

/-- The stage, the place and what is wrong. -/
def text (e : CompileError) : String :=
  e.stage.title ++ " error at " ++ e.span.text ++ ": " ++ e.message

/-- The same on one line. -/
def line (e : CompileError) : String :=
  e.text.map fun c => if c = '\n' then ' ' else c

end CompileError

end Dynascope
