import Dynascope.Text.Decimal

/-! # TOML numbers and dates

A number or a date is one word; `readScalarWord?` says what a word denotes. Underscores may stand
between two digits. Integers are decimal with an optional sign, or hexadecimal, octal or binary
without one, and have to fit 64 bits.
-/

set_option autoImplicit false

namespace Dynascope.Toml

/-- What a word that is no string denotes. -/
inductive Scalar where
  | integer (n : Int64)
  | float
  | boolean (b : Bool)
  | datetime
deriving DecidableEq, Repr

/-- The digits of a run with single underscores between digits, if there is at least one. -/
def digitsOf? (isDigit : Char → Bool) : List Char → Option (List Char)
  | [] => none
  | [d] => if isDigit d then some [d] else none
  | d :: '_' :: rest => if isDigit d then (digitsOf? isDigit rest).map (d :: ·) else none
  | d :: rest => if isDigit d then (digitsOf? isDigit rest).map (d :: ·) else none

/-- The value of a digit in a base up to sixteen. -/
def digitValue (c : Char) : Nat :=
  if Text.isDigit c then c.toNat - '0'.toNat
  else if 'a' ≤ c ∧ c ≤ 'f' then c.toNat - 'a'.toNat + 10
  else c.toNat - 'A'.toNat + 10

/-- The digits of a base up to sixteen. -/
def isDigitOf (base : Nat) (c : Char) : Bool :=
  (Text.isDigit c || ('a' ≤ c && c ≤ 'f') || ('A' ≤ c && c ≤ 'F')) && digitValue c < base

/-- An integer in a base, without a sign. -/
def basedInteger? (base : Nat) (cs : List Char) : Option Int64 := do
  let digits ← digitsOf? (isDigitOf base) cs
  Text.word? (Int.ofNat (digits.foldl (fun n c => base * n + digitValue c) 0))

/-- A sign, if there is one, and the text after it. -/
def splitSign : List Char → Bool × List Char
  | '-' :: rest => (true, rest)
  | '+' :: rest => (false, rest)
  | cs => (false, cs)

/-- The digits of a decimal integer without a sign, which has no leading zero. -/
def wholeDigits? (cs : List Char) : Option (List Char) :=
  match cs with
  | '0' :: _ :: _ => none
  | cs => digitsOf? Text.isDigit cs

/-- An integer. -/
def integer? (cs : List Char) : Option Int64 :=
  match cs with
  | '0' :: 'x' :: rest => basedInteger? 16 rest
  | '0' :: 'o' :: rest => basedInteger? 8 rest
  | '0' :: 'b' :: rest => basedInteger? 2 rest
  | cs => do
    let (negative, rest) := splitSign cs
    let n := Text.digitsValue (← wholeDigits? rest)
    Text.word? (if negative then -(Int.ofNat n) else Int.ofNat n)

/-- Whether a positive number `mantissa * 10 ^ exponent` is too large for a 64-bit float, that
is, rounds to infinity. -/
def overflowsFloat (mantissa : Nat) (exponent : Int) : Bool :=
  let digits : Int := Int.ofNat (Nat.toDigits 10 mantissa).length
  let bound := Nat.pow 2 1024 - Nat.pow 2 970
  if mantissa = 0 ∨ digits + exponent < 300 then false
  else if 320 < digits + exponent then true
  else if 0 ≤ exponent then decide (bound ≤ mantissa * Nat.pow 10 exponent.toNat)
  else decide (bound * Nat.pow 10 (-exponent).toNat ≤ mantissa)

/-- The exponent of a float after its `e`. -/
def exponent? (cs : List Char) : Option Int := do
  let (negative, rest) := splitSign cs
  let n := Text.digitsValue (← digitsOf? Text.isDigit rest)
  return if negative then -(Int.ofNat n) else Int.ofNat n

/-- Whether a word is a float: a decimal integer with a fraction, an exponent or both, or
infinity, or not a number. A positive number must not be too large. -/
def isFloat (cs : List Char) : Bool :=
  let (negative, rest) := splitSign cs
  if rest == "inf".toList || rest == "nan".toList then true
  else
    let mark := fun c => c == 'e' || c == 'E'
    let number := rest.takeWhile fun c => !mark c
    let whole := number.takeWhile (· ≠ '.')
    let afterWhole := number.drop whole.length
    let afterNumber := rest.drop number.length
    let fraction := match afterWhole with
      | [] => some []
      | _ :: digits => digitsOf? Text.isDigit digits
    let exponent := match afterNumber with
      | [] => some 0
      | _ :: digits => exponent? digits
    match wholeDigits? whole, fraction, exponent with
    | some w, some f, some e =>
      !(afterWhole.isEmpty && afterNumber.isEmpty)
        && (negative || !overflowsFloat (Text.digitsValue (w ++ f)) (e - Int.ofNat f.length))
    | _, _, _ => false

/-! ## Dates -/

/-- The value of two digits. -/
def twoDigits? (a b : Char) : Option Nat :=
  if Text.isDigit a ∧ Text.isDigit b then some (Text.digitsValue [a, b]) else none

/-- The number of days of a month. -/
def daysOf (year month : Nat) : Nat :=
  if month = 2 then
    if (year % 4 = 0 ∧ year % 100 ≠ 0) ∨ year % 400 = 0 then 29 else 28
  else if month = 4 ∨ month = 6 ∨ month = 9 ∨ month = 11 then 30
  else 31

/-- Whether a text is a date. -/
def isDate : List Char → Bool
  | [a, b, c, d, '-', e, f, '-', g, h] =>
    match twoDigits? a b, twoDigits? c d, twoDigits? e f, twoDigits? g h with
    | some century, some year, some month, some day =>
      decide (1 ≤ month ∧ month ≤ 12 ∧ 1 ≤ day ∧ day ≤ daysOf (100 * century + year) month)
    | _, _, _, _ => false
  | _ => false

/-- A number of two digits up to a bound. -/
def upTo (bound : Nat) (a b : Char) : Bool :=
  (twoDigits? a b).any (· ≤ bound)

/-- What follows the time of day at the start of a text. -/
def afterTime? : List Char → Option (List Char)
  | a :: b :: ':' :: c :: d :: ':' :: e :: f :: rest =>
    if upTo 23 a b && upTo 59 c d && upTo 60 e f then
      match rest with
      | '.' :: more =>
        if (more.takeWhile Text.isDigit).isEmpty then none else some (more.dropWhile Text.isDigit)
      | rest => some rest
    else none
  | _ => none

/-- Whether a text is an offset from universal time, or nothing. -/
def isOffset : List Char → Bool
  | [] | ['Z'] | ['z'] => true
  | [s, a, b, ':', c, d] => (s == '+' || s == '-') && upTo 23 a b && upTo 59 c d
  | _ => false

/-- Whether a text is a time of day, perhaps with an offset. -/
def isTimeWithOffset (cs : List Char) : Bool :=
  (afterTime? cs).any isOffset

/-- Whether a text is a date, a time of day, or a date and a time. -/
def isDatetime (cs : List Char) : Bool :=
  isDate cs || afterTime? cs == some []
    || (isDate (cs.take 10) && match cs.drop 10 with
      | t :: time => (t == 'T' || t == 't' || t == ' ') && isTimeWithOffset time
      | [] => false)

/-- What a word denotes. -/
def readScalarWord? (cs : List Char) : Option Scalar :=
  if cs == "true".toList then some (.boolean true)
  else if cs == "false".toList then some (.boolean false)
  else if isDatetime cs then some .datetime
  else if isFloat cs then some .float
  else (integer? cs).map .integer

end Dynascope.Toml
