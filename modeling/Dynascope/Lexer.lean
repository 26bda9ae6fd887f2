import Dynascope.CompileError

/-! # From characters to tokens

`tokenize` cuts a source text into tokens. Blanks (space, tab, line feed, carriage return) and
comments (from `#` to the end of the line) stand between tokens and are dropped. Every token is
the longest that starts at its place: a run of digits, a run of name characters, a comparison
mark of two characters before one of one. The first place where no token starts ends the
reading with an error.
-/

set_option autoImplicit false

namespace Dynascope.Lexer

/-- The characters that may stand between tokens. -/
def isGap (c : Char) : Bool :=
  c == ' ' || c == '\t' || c == '\n' || c == '\r'

/-- The characters that start a name. -/
def isNameStart (c : Char) : Bool :=
  c == '_' || ('a' ≤ c && c ≤ 'z') || ('A' ≤ c && c ≤ 'Z')

/-- The characters that go on a name. -/
def isNameChar (c : Char) : Bool :=
  isNameStart c || Text.isDigit c

/-- The marks of two characters. -/
def doubleMark? : Char → Char → Option Token
  | '=', '=' => some .eqEq
  | '!', '=' => some .notEq
  | '<', '=' => some .ltEq
  | '>', '=' => some .gtEq
  | _, _ => none

/-- The marks of one character. -/
def singleMark? : Char → Option Token
  | '+' => some .plus
  | '-' => some .minus
  | '*' => some .star
  | '/' => some .slash
  | '<' => some .lt
  | '>' => some .gt
  | '=' => some .assign
  | '(' => some .lparen
  | ')' => some .rparen
  | '{' => some .lbrace
  | '}' => some .rbrace
  | ',' => some .comma
  | ';' => some .semi
  | ':' => some .colon
  | _ => none

/-- The number of bytes of a list of characters. -/
def byteLength (cs : List Char) : Nat :=
  cs.foldl (fun n c => n + c.utf8Size) 0

/-- The token of a word: a keyword, or else a name. -/
def wordToken (word : String) : Token :=
  (Token.keyword? word).getD (.ident word)

/-- The token of a run of digits, if an integer has its value. -/
def literal? (digits : List Char) : Option Token :=
  (Text.readInt64 digits).map .int

/-- Why no token starts at a character. -/
inductive Fault where
  | character (char : Char)
  | literal (digits : List Char)
deriving DecidableEq, Repr

/-- The bytes of a fault. -/
def Fault.length : Fault → Nat
  | character char => char.utf8Size
  | literal digits => byteLength digits

/-- A fault at a place of the source. -/
def Fault.at (fault : Fault) (position : Nat) : CompileError :=
  let span : Span := ⟨position, position + fault.length⟩
  match fault with
  | character char => .unexpectedCharacter char span
  | literal digits => .literalOutOfRange (String.ofList digits) span

/-- The longest token that starts with `c` in the text `c :: rest`, with the number of
characters of `rest` that belong to it. -/
def readToken (c : Char) (rest : List Char) : Except Fault (Token × Nat) :=
  if Text.isDigit c then
    let digits := rest.takeWhile Text.isDigit
    match literal? (c :: digits) with
    | some token => .ok (token, digits.length)
    | none => .error (.literal (c :: digits))
  else if isNameStart c then
    let name := rest.takeWhile isNameChar
    .ok (wordToken (String.ofList (c :: name)), name.length)
  else match rest.head?.bind (doubleMark? c) with
    | some token => .ok (token, 1)
    | none => match singleMark? c with
      | some token => .ok (token, 0)
      | none => .error (.character c)

/-- Reads the tokens of a text whose first character stands at byte `position` of the source. -/
def scan (position : Nat) : List Char → Except CompileError (List Lexeme)
  | [] => .ok []
  | c :: rest =>
    if isGap c then scan (position + c.utf8Size) rest
    else if c = '#' then
      scan (position + byteLength (c :: rest.takeWhile (· ≠ '\n'))) (rest.dropWhile (· ≠ '\n'))
    else
      match readToken c rest with
      | .error fault => .error (fault.at position)
      | .ok (token, more) =>
        let stop := position + byteLength (c :: rest.take more)
        match scan stop (rest.drop more) with
        | .error e => .error e
        | .ok lexemes => .ok (⟨token, ⟨position, stop⟩⟩ :: lexemes)
termination_by cs => cs.length
decreasing_by
  · simp
  · exact Nat.lt_succ_of_le (List.dropWhile_suffix _).length_le
  · simp only [List.length_drop, List.length_cons]; omega

end Dynascope.Lexer

namespace Dynascope

/-- The tokens of a source text, or the first place where none starts. -/
def tokenize (source : String) : Except CompileError (List Lexeme) :=
  Lexer.scan 0 source.toList

end Dynascope
