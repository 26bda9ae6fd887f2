import Dynascope.Toml.Number
import Dynascope.Toml.Quoted
import Dynascope.Toml.Table

/-! # TOML documents

`Toml.read?` reads a whole document as a table. A document is a list of lines, each with a table
header, a key and a value, or nothing, and perhaps a comment.
-/

set_option autoImplicit false

namespace Dynascope.Toml

/-- The greatest number of parts of a key, and of arrays and tables in braces around a value. -/
def maxDepth : Nat := 79

/-- A text without the blanks at the start of its line. -/
def skipBlanks (cs : List Char) : List Char :=
  cs.dropWhile isBlankChar

/-- A text without the blanks, comments and line breaks before the next part of an array. -/
def skipLines (inComment : Bool) : List Char → Option (List Char)
  | [] => if inComment then none else some []
  | '\r' :: '\n' :: rest => skipLines false rest
  | c :: rest =>
    if c = '\n' then skipLines false rest
    else if inComment then if isPlain c then skipLines true rest else none
    else if c = '#' then skipLines true rest
    else if isBlankChar c then skipLines false rest
    else some (c :: rest)

/-- What follows the end of the line at the start of a text, where only blanks and a comment may
stand before it. -/
def endLine? (cs : List Char) : Option (List Char) :=
  let afterBlanks := skipBlanks cs
  let atEnd := match afterBlanks with
    | '#' :: comment => comment.dropWhile isPlain
    | other => other
  match atEnd with
  | [] => some []
  | '\n' :: rest => some rest
  | '\r' :: '\n' :: rest => some rest
  | _ => none

/-! ## Keys -/

/-- The characters of a key without quotes. -/
def isKeyChar (c : Char) : Bool :=
  ('a' ≤ c && c ≤ 'z') || ('A' ≤ c && c ≤ 'Z') || Text.isDigit c || c == '_' || c == '-'

/-- One part of a key, and the text after it. -/
def readKeyPart? (cs : List Char) : Option (String × List Char) :=
  match cs.takeWhile isKeyChar with
  | [] => (readQuotedKey? cs).map fun (chars, after) => (String.ofList chars, after)
  | chars => some (String.ofList chars, cs.drop chars.length)

/-- The parts of a key of at most a given number of parts, and the text after it. Blanks may
stand around the dots and the key. -/
def readKeyParts? : Nat → List Char → Option (List String × List Char)
  | 0, _ => none
  | most + 1, cs => do
    let (part, after) ← readKeyPart? (skipBlanks cs)
    match skipBlanks after with
    | '.' :: rest => (readKeyParts? most rest).map fun (parts, after) => (part :: parts, after)
    | after => some ([part], after)

/-- A key, and the text after it. -/
def readKey? (cs : List Char) : Option (Key × List Char) := do
  let (parts, after) ← readKeyParts? maxDepth cs
  return (⟨parts.dropLast, ← parts.getLast?⟩, after)

/-! ## Values -/

/-- The characters of a word that is a number, a date or a truth value. -/
def isWordChar (c : Char) : Bool :=
  isKeyChar c || c == '+' || c == '.' || c == ':'

/-- The word at the start of a text, and the text after it. A date goes on after one space with a
time of day, if a digit follows. -/
def splitWord (cs : List Char) : List Char × List Char :=
  let word := cs.takeWhile isWordChar
  let after := cs.drop word.length
  match after with
  | ' ' :: d :: rest =>
    if isDate word && Text.isDigit d then
      let time := (d :: rest).takeWhile isWordChar
      (word ++ ' ' :: time, (d :: rest).drop time.length)
    else (word, after)
  | _ => (word, after)

/-- The value of a scalar. -/
def Scalar.toValue : Scalar → Value
  | .integer n => .integer n
  | .float => .float
  | .boolean b => .boolean b
  | .datetime => .datetime

/-- The items of an array up to and with its closing bracket, and the text after it. A comma may
stand after the last item. -/
def readItems? (value? : List Char → Option (Value × List Char)) :
    Nat → List Char → Option (List Value × List Char)
  | 0, _ => none
  | fuel + 1, cs => do
    match ← skipLines false cs with
    | ']' :: after => some ([], after)
    | cs =>
      let (item, after) ← value? cs
      match ← skipLines false after with
      | ']' :: after => some ([item], after)
      | ',' :: rest =>
        (readItems? value? fuel rest).map fun (items, after) => (item :: items, after)
      | _ => none

/-- A key and its value, and the text after them. -/
def readPair? (value? : List Char → Option (Value × List Char)) (cs : List Char) :
    Option ((Key × Value) × List Char) := do
  let (key, after) ← readKey? cs
  match after with
  | '=' :: rest =>
    let (value, after) ← value? (skipBlanks rest)
    some ((key, value), after)
  | _ => none

/-- The pairs of a table in braces up to and with its closing brace, and the text after it. The
table stays on one line, and no comma stands after its last pair. -/
def readPairs? (value? : List Char → Option (Value × List Char)) :
    Nat → List Char → Option (List (Key × Value) × List Char)
  | 0, _ => none
  | fuel + 1, cs => do
    let (pair, after) ← readPair? value? cs
    match skipBlanks after with
    | '}' :: after => some ([pair], after)
    | ',' :: rest =>
      (readPairs? value? fuel rest).map fun (pairs, after) => (pair :: pairs, after)
    | _ => none

/-- A value with at most a given number of arrays and tables in braces around one another, and
the text after it. -/
def readValue? : Nat → List Char → Option (Value × List Char)
  | depth, cs =>
    match cs with
    | '"' :: _ | '\'' :: _ =>
      (readString? cs).map fun (chars, after) => (.string (String.ofList chars), after)
    | '[' :: rest =>
      match depth with
      | 0 => none
      | depth + 1 =>
        (readItems? (readValue? depth) cs.length rest).map fun (items, after) =>
          (.array items, after)
    | '{' :: rest =>
      match depth with
      | 0 => none
      | depth + 1 =>
        match skipBlanks rest with
        | '}' :: after => some (.table .braces [], after)
        | rest => do
          let (pairs, after) ← readPairs? (readValue? depth) cs.length rest
          return (.table .braces (← Table.insertAll? pairs []), after)
    | cs => do
      let (word, after) := splitWord cs
      return ((← readScalarWord? word).toValue, after)

/-! ## Lines -/

/-- What a line of a document says. -/
inductive Line where
  | header (key : Key)
  | element (key : Key)
  | pair (key : Key) (value : Value)
deriving Repr

/-- A line that is not empty, and the text after it. -/
def readLine? (cs : List Char) : Option (Line × List Char) :=
  match cs with
  | '[' :: '[' :: rest => do
    let (key, after) ← readKey? rest
    match after with
    | ']' :: ']' :: after => some (.element key, after)
    | _ => none
  | '[' :: rest => do
    let (key, after) ← readKey? rest
    match after with
    | ']' :: after => some (.header key, after)
    | _ => none
  | cs => do
    let ((key, value), after) ← readPair? (readValue? maxDepth) cs
    return (.pair key value, after)

/-- Whether a line holds nothing but a comment. -/
def isEmptyLine : List Char → Bool
  | [] => true
  | c :: _ => c == '#' || c == '\n' || c == '\r'

/-- The lines of a document that are not empty. -/
def readLinesOf? : Nat → List Char → Option (List Line)
  | 0, _ => none
  | fuel + 1, cs =>
    let start := skipBlanks cs
    if start.isEmpty then some []
    else if isEmptyLine start then (endLine? start).bind (readLinesOf? fuel)
    else do
      let (line, after) ← readLine? start
      return line :: (← readLinesOf? fuel (← endLine? after))

/-- The pairs up to the next header, and the lines from there on. -/
def splitPairs : List Line → List (Key × Value) × List Line
  | .pair key value :: rest =>
    let (pairs, more) := splitPairs rest
    ((key, value) :: pairs, more)
  | lines => ([], lines)

theorem splitPairs_length (lines : List Line) : (splitPairs lines).2.length ≤ lines.length := by
  fun_induction splitPairs lines with
  | case1 key value rest pairs more h ih =>
    simp only [h] at ih
    exact Nat.le_succ_of_le ih
  | case2 => exact Nat.le_refl _

/-- A table with the headers and pairs of some lines added. -/
def addSections? (table : Table) : List Line → Option Table
  | [] => some table
  | .pair _ _ :: _ => none
  | .header key :: rest => do
    addSections? (← table.open? key (splitPairs rest).1) (splitPairs rest).2
  | .element key :: rest => do
    addSections? (← table.append? key (splitPairs rest).1) (splitPairs rest).2
termination_by lines => lines.length
decreasing_by all_goals exact Nat.lt_succ_of_le (splitPairs_length _)

/-- The table that some lines describe. -/
def assemble? (lines : List Line) : Option Table := do
  addSections? (← Table.insertAll? (splitPairs lines).1 []) (splitPairs lines).2

/-- A text without the mark that some editors put before it. -/
def skipMark : List Char → List Char
  | '\uFEFF' :: rest => rest
  | cs => cs

/-- The table that a document describes. -/
def read? (text : String) : Option Table := do
  let cs := skipMark text.toList
  assemble? (← readLinesOf? (cs.length + 1) cs)

end Dynascope.Toml
