import Dynascope.Arith
import Dynascope.Span
import Dynascope.Text.Quoted

/-! # Tokens

The words and marks of a source text. `Token.text` is a token's canonical spelling and
`Token.label` its name in a listing of tokens. A `Terminal` is a kind of token as the grammar
sees it: all integers are one kind, and so are all names.
-/

set_option autoImplicit false

namespace Dynascope

/-- A word or mark of a source text. A literal has no sign of its own. -/
inductive Token where
  | kwIf
  | kwElse
  | kwWhile
  | kwFor
  | kwIn
  | kwRange
  | kwLambda
  | int (value : Int64)
  | ident (name : String)
  | plus
  | minus
  | star
  | slash
  | eqEq
  | notEq
  | lt
  | gt
  | ltEq
  | gtEq
  | assign
  | lparen
  | rparen
  | lbrace
  | rbrace
  | comma
  | semi
  | colon
deriving DecidableEq, Repr

/-- A token with the bytes that it was read from. -/
structure Lexeme where
  token : Token
  span : Span
deriving DecidableEq, Repr

namespace Token

/-- The spelling of a token; a literal is written in canonical decimal. -/
def text : Token → String
  | kwIf => "if"
  | kwElse => "else"
  | kwWhile => "while"
  | kwFor => "for"
  | kwIn => "in"
  | kwRange => "range"
  | kwLambda => "lambda"
  | int n => toString n
  | ident name => name
  | plus => "+"
  | minus => "-"
  | star => "*"
  | slash => "/"
  | eqEq => "=="
  | notEq => "!="
  | lt => "<"
  | gt => ">"
  | ltEq => "<="
  | gtEq => ">="
  | assign => "="
  | lparen => "("
  | rparen => ")"
  | lbrace => "\x7b"
  | rbrace => "\x7d"
  | comma => ","
  | semi => ";"
  | colon => ":"

/-- The name of a token in a listing, with the value of a literal and the quoted name of an
identifier. -/
def label : Token → String
  | kwIf => "If"
  | kwElse => "Else"
  | kwWhile => "While"
  | kwFor => "For"
  | kwIn => "In"
  | kwRange => "Range"
  | kwLambda => "Lambda"
  | int n => "IntLit(" ++ toString n ++ ")"
  | ident name => "Ident(" ++ Text.quote name ++ ")"
  | plus => "Plus"
  | minus => "Minus"
  | star => "Star"
  | slash => "Slash"
  | eqEq => "EqEq"
  | notEq => "NotEq"
  | lt => "Lt"
  | gt => "Gt"
  | ltEq => "LtEq"
  | gtEq => "GtEq"
  | assign => "Eq"
  | lparen => "LParen"
  | rparen => "RParen"
  | lbrace => "LBrace"
  | rbrace => "RBrace"
  | comma => "Comma"
  | semi => "Semi"
  | colon => "Colon"

/-- The words that cannot be names. -/
def keyword? (word : String) : Option Token :=
  match word with
  | "if" => some kwIf
  | "else" => some kwElse
  | "while" => some kwWhile
  | "for" => some kwFor
  | "in" => some kwIn
  | "range" => some kwRange
  | "lambda" => some kwLambda
  | _ => none

end Token

/-- One line of a token listing. -/
def Lexeme.listing (lexeme : Lexeme) : String :=
  lexeme.token.label ++ " @ " ++ lexeme.span.text

/-- The kinds of token that the grammar tells apart, each by a token of the kind: every integer
by `0`, every name by `x`. The order is that of the lists in error messages. -/
def Token.kinds : List Token :=
  [.kwIf, .kwElse, .kwWhile, .kwFor, .kwIn, .kwRange, .kwLambda, .int 0, .ident "x", .plus,
    .minus, .star, .slash, .eqEq, .notEq, .lt, .gt, .ltEq, .gtEq, .assign, .lparen, .rparen,
    .lbrace, .rbrace, .comma, .semi, .colon]

/-- The name of a token's kind: its spelling, or the class that it belongs to. -/
def Token.kindName : Token → String
  | .int _ => "int"
  | .ident _ => "ident"
  | token => token.text

end Dynascope
