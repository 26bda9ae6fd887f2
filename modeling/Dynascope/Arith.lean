import Dynascope.Text.Decimal

/-! # Checked 64-bit arithmetic

The four operators compute the exact value on signed 64-bit integers or say why there is none:
a zero divisor, or a value out of range. Division rounds toward negative infinity, so
`floorDiv? (-7) 2 = some (-4)`. The six relations compare by value.
-/

set_option autoImplicit false

namespace Dynascope

/-- The arithmetic operators. -/
inductive ArithOp where
  | add
  | sub
  | mul
  | div
deriving DecidableEq, Repr

/-- How an operator is written. -/
def ArithOp.symbol : ArithOp → String
  | .add => "+"
  | .sub => "-"
  | .mul => "*"
  | .div => "/"

/-- Products bind tighter than sums. -/
def ArithOp.precedence : ArithOp → Nat
  | .add | .sub => 1
  | .mul | .div => 2

/-- The relations that a comparison can test. -/
inductive CmpOp where
  | gt
  | lt
  | ge
  | le
  | eq
  | ne
deriving DecidableEq, Repr

/-- How a relation is written. -/
def CmpOp.symbol : CmpOp → String
  | .gt => ">"
  | .lt => "<"
  | .ge => ">="
  | .le => "<="
  | .eq => "=="
  | .ne => "!="

/-- Whether a relation holds between two integers. -/
def CmpOp.holds (op : CmpOp) (left right : Int64) : Bool :=
  match op with
  | .gt => decide (right < left)
  | .lt => decide (left < right)
  | .ge => decide (right ≤ left)
  | .le => decide (left ≤ right)
  | .eq => left == right
  | .ne => left != right

/-- Why an arithmetic operation has no value. -/
inductive ArithFault where
  | divisionByZero
  | overflow (op : ArithOp) (left right : Int64)
deriving DecidableEq, Repr

/-- One line that names the fault and, for an overflow, the operation. -/
def ArithFault.message : ArithFault → String
  | .divisionByZero => "division by zero"
  | .overflow op left right =>
    "integer overflow: " ++ toString left ++ " " ++ op.symbol ++ " " ++ toString right

/-- Division rounding toward negative infinity: the truncated quotient, one less when the
division leaves a remainder and the signs differ. There is no quotient by zero, and the one of
the least integer by minus one is out of range. -/
def floorDiv? (left right : Int64) : Option Int64 :=
  if right = 0 ∨ (left = Int64.minValue ∧ right = -1) then none
  else
    let quotient := left / right
    if left % right ≠ 0 ∧ (decide (left < 0) != decide (right < 0)) then some (quotient - 1)
    else some quotient

/-- The value of an operation, where it has one. -/
def ArithOp.value? (op : ArithOp) (left right : Int64) : Option Int64 :=
  match op with
  | .add => Text.word? (left.toInt + right.toInt)
  | .sub => Text.word? (left.toInt - right.toInt)
  | .mul => Text.word? (left.toInt * right.toInt)
  | .div => floorDiv? left right

/-- Applies an operator. A zero divisor is reported before anything else. -/
def ArithOp.apply (op : ArithOp) (left right : Int64) : Except ArithFault Int64 :=
  if op = .div ∧ right = 0 then .error .divisionByZero
  else match op.value? left right with
    | some n => .ok n
    | none => .error (.overflow op left right)

end Dynascope
