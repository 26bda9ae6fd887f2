/-! # Decimal integers

Reading and range-checking of signed 64-bit integers. `readNat` reads a run of ASCII digits,
`readInt64` an optionally signed one, and `word?` is the 64-bit integer with a given exact value
where there is one. A number is written by its canonical decimal digits (`toString`).
-/

set_option autoImplicit false

namespace Dynascope.Text

/-- An ASCII decimal digit. -/
def isDigit (c : Char) : Bool :=
  '0' ≤ c && c ≤ '9'

/-- The number that a run of digits denotes, most significant digit first. -/
def digitsValue (cs : List Char) : Nat :=
  cs.foldl (fun n c => 10 * n + (c.toNat - '0'.toNat)) 0

/-- The number that a text of one or more ASCII digits denotes. -/
def readNat (cs : List Char) : Option Nat :=
  if cs ≠ [] ∧ cs.all isDigit then some (digitsValue cs) else none

/-- The signed 64-bit integer whose exact value is `n`, if `n` is in range. -/
def word? (n : Int) : Option Int64 :=
  if -9223372036854775808 ≤ n ∧ n ≤ 9223372036854775807 then some (Int64.ofInt n) else none

/-- The signed 64-bit integer that a text denotes: an optional sign before ASCII digits, whose
exact value is in range. -/
def readInt64 : List Char → Option Int64
  | '-' :: cs => do word? (-(Int.ofNat (← readNat cs)))
  | '+' :: cs => do word? (Int.ofNat (← readNat cs))
  | cs => do word? (Int.ofNat (← readNat cs))

end Dynascope.Text
