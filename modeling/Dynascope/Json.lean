import Dynascope.Text.Quoted
import Dynascope.Text.Decimal

/-! # JSON texts

`Json` is the data of a JSON text. `Json.compact` writes it without blanks, `Json.pretty` with
one item or field to a line, and `Json.read?` reads a whole text. Object fields keep their order
and their repetitions. A number is an integer if it is written as one; any other number is kept
as it is written.
-/

set_option autoImplicit false

namespace Dynascope

/-- The data of a JSON text. -/
inductive Json where
  | null
  | bool (b : Bool)
  | integer (n : Int)
  | decimal (text : String)
  | string (s : String)
  | array (items : List Json)
  | object (fields : List (String × Json))
deriving Repr, Inhabited

namespace Json

/-! ## Writing -/

/-- A hexadecimal digit. -/
def hexDigit (n : Nat) : Char :=
  (Nat.digitChar n)

/-- The written form of one character of a string: quotes, backslashes and controls are escaped,
five controls by a letter and the others by their number. -/
def escapeChar (c : Char) : List Char :=
  if c = '"' then ['\\', '"']
  else if c = '\\' then ['\\', '\\']
  else if c = '\x08' then ['\\', 'b']
  else if c = '\x0c' then ['\\', 'f']
  else if c = '\n' then ['\\', 'n']
  else if c = '\r' then ['\\', 'r']
  else if c = '\t' then ['\\', 't']
  else if c.toNat < 0x20 then
    ['\\', 'u', '0', '0', hexDigit (c.toNat / 16), hexDigit (c.toNat % 16)]
  else [c]

/-- A string in double quotes. -/
def quoted (s : String) : List Char :=
  '"' :: (s.toList.flatMap escapeChar ++ ['"'])

mutual

/-- A JSON text without blanks, with `rest` after it. -/
def compactOnto : Json → List Char → List Char
  | null, rest => "null".toList ++ rest
  | bool true, rest => "true".toList ++ rest
  | bool false, rest => "false".toList ++ rest
  | integer n, rest => (toString n).toList ++ rest
  | decimal text, rest => text.toList ++ rest
  | string s, rest => quoted s ++ rest
  | array items, rest => '[' :: compactItems items rest
  | object fields, rest => '{' :: compactFields fields rest

/-- The items of an array up to the closing bracket, with `rest` after it. -/
def compactItems : List Json → List Char → List Char
  | [], rest => ']' :: rest
  | [last], rest => last.compactOnto (']' :: rest)
  | item :: items, rest => item.compactOnto (',' :: compactItems items rest)

/-- The fields of an object up to the closing brace, with `rest` after it. -/
def compactFields : List (String × Json) → List Char → List Char
  | [], rest => '}' :: rest
  | [(key, last)], rest => quoted key ++ ':' :: last.compactOnto ('}' :: rest)
  | (key, value) :: fields, rest =>
    quoted key ++ ':' :: value.compactOnto (',' :: compactFields fields rest)

end

/-- A JSON text without blanks. -/
def compact (json : Json) : String :=
  String.ofList (json.compactOnto [])

/-- A new line at a depth of nesting, with two spaces for each level. -/
def newline (depth : Nat) : List Char :=
  '\n' :: List.replicate (2 * depth) ' '

mutual

/-- A JSON text with one item or field to a line, with `rest` after it; empty arrays and objects
stay on one line. -/
def prettyOnto (depth : Nat) : Json → List Char → List Char
  | array [], rest => '[' :: ']' :: rest
  | array items, rest => '[' :: (newline (depth + 1) ++ prettyItems depth items rest)
  | object [], rest => '{' :: '}' :: rest
  | object fields, rest => '{' :: (newline (depth + 1) ++ prettyFields depth fields rest)
  | null, rest => "null".toList ++ rest
  | bool true, rest => "true".toList ++ rest
  | bool false, rest => "false".toList ++ rest
  | integer n, rest => (toString n).toList ++ rest
  | decimal text, rest => text.toList ++ rest
  | string s, rest => quoted s ++ rest

/-- The items of an array up to the closing bracket, with `rest` after it. -/
def prettyItems (depth : Nat) : List Json → List Char → List Char
  | [], rest => newline depth ++ ']' :: rest
  | [last], rest => last.prettyOnto (depth + 1) (newline depth ++ ']' :: rest)
  | item :: items, rest =>
    item.prettyOnto (depth + 1) (',' :: (newline (depth + 1) ++ prettyItems depth items rest))

/-- The fields of an object up to the closing brace, with `rest` after it. -/
def prettyFields (depth : Nat) : List (String × Json) → List Char → List Char
  | [], rest => newline depth ++ '}' :: rest
  | [(key, last)], rest =>
    quoted key ++ ':' :: ' ' :: last.prettyOnto (depth + 1) (newline depth ++ '}' :: rest)
  | (key, value) :: fields, rest =>
    quoted key ++ ':' :: ' ' :: value.prettyOnto (depth + 1)
      (',' :: (newline (depth + 1) ++ prettyFields depth fields rest))

end

/-- A JSON text with one item or field to a line. -/
def pretty (json : Json) : String :=
  String.ofList (json.prettyOnto 0 [])

/-! ## Reading -/

/-- The characters that may stand between the parts of a text. -/
def isSpace (c : Char) : Bool :=
  c == ' ' || c == '\n' || c == '\t' || c == '\r'

/-- A text without the blanks before its first part. -/
def skip (cs : List Char) : List Char :=
  cs.dropWhile isSpace

/-- The value of a hexadecimal digit of either case. -/
def hexValue? (c : Char) : Option Nat :=
  if '0' ≤ c ∧ c ≤ '9' then some (c.toNat - '0'.toNat)
  else if 'a' ≤ c ∧ c ≤ 'f' then some (c.toNat - 'a'.toNat + 10)
  else if 'A' ≤ c ∧ c ≤ 'F' then some (c.toNat - 'A'.toNat + 10)
  else none

/-- The value of the four hexadecimal digits at the start of a text. -/
def fourDigits? : List Char → Option Nat
  | a :: b :: c :: d :: _ => do
    return ((← hexValue? a) * 16 + (← hexValue? b)) * 256
      + ((← hexValue? c) * 16 + (← hexValue? d))
  | _ => none

/-- The character that a backslash and `u` before `cs` stand for, with the number of characters
of `cs` that it takes. A high surrogate needs a low one after it, and the reverse. -/
def readUnicode? (cs : List Char) : Option (Char × Nat) := do
  let unit ← fourDigits? cs
  if 0xD800 ≤ unit ∧ unit < 0xDC00 then
    match cs.drop 4 with
    | '\\' :: 'u' :: rest =>
      let low ← fourDigits? rest
      if 0xDC00 ≤ low ∧ low < 0xE000 then
        some (Char.ofNat (0x10000 + (unit - 0xD800) * 0x400 + (low - 0xDC00)), 10)
      else none
    | _ => none
  else if 0xDC00 ≤ unit ∧ unit < 0xE000 then none
  else some (Char.ofNat unit, 4)

/-- The character that `c` before `rest` stands for in a string, with the number of characters
of `rest` that it takes. -/
def readChar? (c : Char) (rest : List Char) : Option (Char × Nat) :=
  if c = '\\' then
    match rest with
    | '"' :: _ => some ('"', 1)
    | '\\' :: _ => some ('\\', 1)
    | '/' :: _ => some ('/', 1)
    | 'b' :: _ => some ('\x08', 1)
    | 'f' :: _ => some ('\x0c', 1)
    | 'n' :: _ => some ('\n', 1)
    | 'r' :: _ => some ('\r', 1)
    | 't' :: _ => some ('\t', 1)
    | 'u' :: digits => (readUnicode? digits).map fun (char, taken) => (char, taken + 1)
    | _ => none
  else if c.toNat < 0x20 then none
  else some (c, 0)

/-- The rest of a string after its opening quote, and the text after it. -/
def readString? : List Char → Option (List Char × List Char)
  | [] => none
  | c :: rest =>
    if c = '"' then some ([], rest)
    else match readChar? c rest with
      | none => none
      | some (char, taken) =>
        match readString? (rest.drop taken) with
        | none => none
        | some (chars, after) => some (char :: chars, after)
termination_by cs => cs.length
decreasing_by simp only [List.length_drop, List.length_cons]; omega

/-- One or more digits at the start of a text, and the text after them. -/
def readDigits? (cs : List Char) : Option (List Char × List Char) :=
  match cs.takeWhile Text.isDigit with
  | [] => none
  | digits => some (digits, cs.dropWhile Text.isDigit)

/-- The whole part of a number, without leading zeros, and the text after it. -/
def readWhole? (cs : List Char) : Option (List Char × List Char) :=
  match cs with
  | '0' :: rest =>
    match rest with
    | d :: _ => if Text.isDigit d then none else some (['0'], rest)
    | [] => some (['0'], rest)
  | cs => readDigits? cs

/-- The fraction of a number, if there is one, and the text after it. -/
def readFraction? (cs : List Char) : Option (List Char × List Char) :=
  match cs with
  | '.' :: rest => (readDigits? rest).map fun (digits, after) => ('.' :: digits, after)
  | cs => some ([], cs)

/-- The exponent of a number, if there is one, and the text after it. -/
def readExponent? (cs : List Char) : Option (List Char × List Char) :=
  match cs with
  | e :: rest =>
    if e = 'e' ∨ e = 'E' then
      match rest with
      | s :: digits =>
        if s = '+' ∨ s = '-' then
          (readDigits? digits).map fun (digits, after) => (e :: s :: digits, after)
        else (readDigits? rest).map fun (digits, after) => (e :: digits, after)
      | [] => none
    else some ([], cs)
  | [] => some ([], [])

/-- The number with a whole part and what follows it. Minus zero is not written as an integer. -/
def number (negative : Bool) (whole more : List Char) : Json :=
  let n := Text.digitsValue whole
  if more ≠ [] ∨ (negative ∧ n = 0) then
    decimal (String.ofList ((if negative then ['-'] else []) ++ whole ++ more))
  else integer (if negative then -(Int.ofNat n) else Int.ofNat n)

/-- A number at the start of a text, and the text after it. -/
def readNumber? (cs : List Char) : Option (Json × List Char) := do
  let (negative, cs) := match cs with
    | '-' :: rest => (true, rest)
    | cs => (false, cs)
  let (whole, cs) ← readWhole? cs
  let (fraction, cs) ← readFraction? cs
  let (exponent, cs) ← readExponent? cs
  return (number negative whole (fraction ++ exponent), cs)

mutual

/-- A value at the start of a text, and the text after it. -/
def readValue? : Nat → List Char → Option (Json × List Char)
  | 0, _ => none
  | fuel + 1, cs =>
    match skip cs with
    | 'n' :: 'u' :: 'l' :: 'l' :: rest => some (null, rest)
    | 't' :: 'r' :: 'u' :: 'e' :: rest => some (bool true, rest)
    | 'f' :: 'a' :: 'l' :: 's' :: 'e' :: rest => some (bool false, rest)
    | '"' :: rest => (readString? rest).map fun (chars, after) =>
      (string (String.ofList chars), after)
    | '[' :: rest =>
      match skip rest with
      | ']' :: after => some (array [], after)
      | _ => (readItems? fuel rest).map fun (items, after) => (array items, after)
    | '{' :: rest =>
      match skip rest with
      | '}' :: after => some (object [], after)
      | _ => (readFields? fuel rest).map fun (fields, after) => (object fields, after)
    | cs => readNumber? cs

/-- The items of an array up to and with its closing bracket, and the text after it. -/
def readItems? : Nat → List Char → Option (List Json × List Char)
  | 0, _ => none
  | fuel + 1, cs => do
    let (item, cs) ← readValue? fuel cs
    match skip cs with
    | ',' :: rest => (readItems? fuel rest).map fun (items, after) => (item :: items, after)
    | ']' :: after => some ([item], after)
    | _ => none

/-- The fields of an object up to and with its closing brace, and the text after it. -/
def readFields? : Nat → List Char → Option (List (String × Json) × List Char)
  | 0, _ => none
  | fuel + 1, cs =>
    match skip cs with
    | '"' :: rest => do
      let (key, cs) ← readString? rest
      match skip cs with
      | ':' :: rest =>
        let (value, cs) ← readValue? fuel rest
        let field := (String.ofList key, value)
        match skip cs with
        | ',' :: rest =>
          (readFields? fuel rest).map fun (fields, after) => (field :: fields, after)
        | '}' :: after => some ([field], after)
        | _ => none
      | _ => none
    | _ => none

end

/-- The data of a whole text. Every level of nesting and every item takes a character, so the
length of the text bounds the depth of the reading. -/
def read? (text : String) : Option Json := do
  let cs := text.toList
  let (json, rest) ← readValue? (2 * cs.length + 2) cs
  if (skip rest).isEmpty then some json else none

end Json

end Dynascope
