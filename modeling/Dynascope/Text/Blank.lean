/-! # Blank characters

`isBlank` is Unicode's White_Space property. `trim` drops the blanks at both ends of a text and
`words` cuts a text at every run of blanks; an empty word is never produced.
-/

set_option autoImplicit false

namespace Dynascope.Text

/-- White space: tab to carriage return, the space, and the wide and no-break spaces, line and
paragraph separators that Unicode counts as white space. -/
def isBlank (c : Char) : Bool :=
  let n := c.toNat
  (0x09 ≤ n && n ≤ 0x0D) || n == 0x20 || n == 0x85 || n == 0xA0 || n == 0x1680
    || (0x2000 ≤ n && n ≤ 0x200A) || n == 0x2028 || n == 0x2029 || n == 0x202F || n == 0x205F
    || n == 0x3000

/-- The characters from the first that is not blank to the last that is not blank. -/
def trimChars (cs : List Char) : List Char :=
  ((cs.dropWhile isBlank).reverse.dropWhile isBlank).reverse

/-- A text without the blanks at its two ends. -/
def trim (s : String) : String :=
  String.ofList (trimChars s.toList)

/-- The maximal runs of characters that are not blank, in order. -/
def wordsOf : List Char → List (List Char)
  | [] => []
  | c :: cs =>
    if isBlank c then wordsOf cs
    else match cs, wordsOf cs with
      | d :: _, w :: ws => if isBlank d then [c] :: w :: ws else (c :: w) :: ws
      | _, ws => [c] :: ws

/-- The words of a text: what is left when it is cut at every run of blanks. -/
def words (s : String) : List String :=
  (wordsOf s.toList).map String.ofList

end Dynascope.Text
