/-! # TOML strings

Strings in double quotes have escapes, strings in single quotes have none. Three quotes in place
of one let a string run over several lines; a line feed right after them is no part of it, and a
line break counts as one line feed however it is written.
-/

set_option autoImplicit false

namespace Dynascope.Toml

/-- The characters that may stand as they are in a string or comment: all but the controls, of
which only the tab may. -/
def isPlain (c : Char) : Bool :=
  c == '\t' || (0x20 ≤ c.toNat && c.toNat ≠ 0x7F)

/-- The characters of a blank within a line. -/
def isBlankChar (c : Char) : Bool :=
  c == ' ' || c == '\t'

/-- The value of a hexadecimal digit of either case. -/
def hexValue? (c : Char) : Option Nat :=
  if '0' ≤ c ∧ c ≤ '9' then some (c.toNat - '0'.toNat)
  else if 'a' ≤ c ∧ c ≤ 'f' then some (c.toNat - 'a'.toNat + 10)
  else if 'A' ≤ c ∧ c ≤ 'F' then some (c.toNat - 'A'.toNat + 10)
  else none

/-- The character with a number of exactly `digits` hexadecimal digits at the start of a text. -/
def scalar? (digits : Nat) (cs : List Char) : Option Char :=
  let written := cs.take digits
  if written.length = digits then
    match written.foldlM (fun n c => (hexValue? c).map (16 * n + ·)) 0 with
    | some n => if n.isValidChar then some (Char.ofNat n) else none
    | none => none
  else none

/-- The character that a backslash before `cs` stands for, with the number of characters of `cs`
that it takes. -/
def readEscape? : List Char → Option (Char × Nat)
  | 'b' :: _ => some ('\x08', 1)
  | 't' :: _ => some ('\t', 1)
  | 'n' :: _ => some ('\n', 1)
  | 'f' :: _ => some ('\x0c', 1)
  | 'r' :: _ => some ('\r', 1)
  | '"' :: _ => some ('"', 1)
  | '\\' :: _ => some ('\\', 1)
  | 'u' :: cs => (scalar? 4 cs).map fun c => (c, 5)
  | 'U' :: cs => (scalar? 8 cs).map fun c => (c, 9)
  | _ => none

/-- How many characters the line break at the start of a text has; none if there is none. -/
def lineBreak : List Char → Nat
  | '\n' :: _ => 1
  | '\r' :: '\n' :: _ => 2
  | _ => 0

/-- How many characters of a text are blanks and line breaks before anything else. -/
def blankLines : List Char → Nat
  | '\r' :: '\n' :: rest => blankLines rest + 2
  | c :: rest => if isBlankChar c || c == '\n' then blankLines rest + 1 else 0
  | [] => 0

/-- How many characters of a text after a backslash belong to the line end that it hides, with
the blanks and empty lines after it; none if the backslash does not stand at the end of a line. -/
def hiddenLineEnd (cs : List Char) : Nat :=
  let blanks := (cs.takeWhile isBlankChar).length
  if lineBreak (cs.drop blanks) = 0 then 0 else blankLines cs

/-- The rest of a string on one line after its opening quote, and the text after it. -/
def readLineString? (quote : Char) (escapes : Bool) : List Char → Option (List Char × List Char)
  | [] => none
  | c :: rest =>
    if c = quote then some ([], rest)
    else if escapes && c == '\\' then
      match readEscape? rest with
      | none => none
      | some (char, taken) =>
        match readLineString? quote escapes (rest.drop taken) with
        | none => none
        | some (chars, after) => some (char :: chars, after)
    else if isPlain c then
      match readLineString? quote escapes rest with
      | none => none
      | some (chars, after) => some (c :: chars, after)
    else none
termination_by cs => cs.length
decreasing_by
  · simp only [List.length_drop, List.length_cons]; omega
  · simp

/-- What the characters `c` before `rest` stand for in a string of several lines, with the number
of characters of `rest` that they take. -/
def readPart? (escapes : Bool) (c : Char) (rest : List Char) : Option (List Char × Nat) :=
  if escapes && c == '\\' then
    match hiddenLineEnd rest with
    | 0 => (readEscape? rest).map fun (char, taken) => ([char], taken)
    | taken => some ([], taken)
  else if c = '\n' then some (['\n'], 0)
  else if c = '\r' then
    match rest with
    | '\n' :: _ => some (['\n'], 1)
    | _ => none
  else if isPlain c then some ([c], 0)
  else none

/-- The rest of a string of several lines after its opening quotes, and the text after it. Up to
two quotes in a row are part of it; of three to five the last three close it. -/
def readLines? (quote : Char) (escapes : Bool) : List Char → Option (List Char × List Char)
  | [] => none
  | c :: rest =>
    let more := (rest.takeWhile (· = quote)).length
    if c = quote ∧ 2 ≤ more then
      if more ≤ 4 then some (List.replicate (more - 2) quote, rest.drop more) else none
    else match readPart? escapes c rest with
      | none => none
      | some (part, taken) =>
        match readLines? quote escapes (rest.drop taken) with
        | none => none
        | some (chars, after) => some (part ++ chars, after)
termination_by cs => cs.length
decreasing_by simp only [List.length_drop, List.length_cons]; omega

/-- A string at the start of a text, and the text after it. -/
def readString? : List Char → Option (List Char × List Char)
  | '"' :: '"' :: '"' :: rest => readLines? '"' true (rest.drop (lineBreak rest))
  | '\'' :: '\'' :: '\'' :: rest => readLines? '\'' false (rest.drop (lineBreak rest))
  | '"' :: rest => readLineString? '"' true rest
  | '\'' :: rest => readLineString? '\'' false rest
  | _ => none

/-- A key in quotes at the start of a text, and the text after it. A key stays on one line. -/
def readQuotedKey? : List Char → Option (List Char × List Char)
  | '"' :: rest => readLineString? '"' true rest
  | '\'' :: rest => readLineString? '\'' false rest
  | _ => none

end Dynascope.Toml
