import Dynascope.Term
import Dynascope.Text.Blank
import Dynascope.Text.Join
import Dynascope.Text.Quoted

/-! # Reverse Polish notation

`Program.toRpn` writes a program that is one arithmetic expression with every operator after its
two operands, and `evalRpn` computes the value of such a text on a stack, left operand first.
-/

set_option autoImplicit false

namespace Dynascope

/-- Why a program has no form in reverse Polish notation. -/
inductive RpnRefusal where
  | notSingle (statements : Nat)
  | notArithmetic (construct : String)
deriving DecidableEq, Repr

/-- What is wrong, on one line. -/
def RpnRefusal.message : RpnRefusal → String
  | .notSingle n => "expected a single expression, found " ++ toString n ++ " statements"
  | .notArithmetic construct =>
    construct ++ " is not arithmetic; only numbers, parentheses and + - * / convert to RPN"

/-- What an expression is called in a message. -/
def Term.construct : Term → String
  | .number .. => "number"
  | .paren .. => "parenthesized expression"
  | .arith .. => "arithmetic"
  | .compare .. => "comparison"
  | .assign .. => "assignment"
  | .var .. => "variable"
  | .block .. => "block"
  | .branch .. => "if"
  | .whileLoop .. => "while loop"
  | .forLoop .. => "for loop"
  | .lambda .. => "lambda"
  | .call .. => "function call"

/-- A word of a text in reverse Polish notation. -/
inductive RpnItem where
  | number (n : Int64)
  | operator (op : ArithOp)
deriving DecidableEq, Repr

/-- How an item is written. -/
def RpnItem.text : RpnItem → String
  | .number n => toString n
  | .operator op => op.symbol

/-- The items of an arithmetic expression, every operator after its two operands. -/
def Term.postorder : Term → Except RpnRefusal (List RpnItem)
  | .number _ n => .ok [.number n]
  | .paren _ inner => inner.postorder
  | .arith _ op left right =>
    match left.postorder with
    | .error e => .error e
    | .ok first =>
      match right.postorder with
      | .error e => .error e
      | .ok second => .ok (first ++ second ++ [.operator op])
  | term => .error (.notArithmetic term.construct)

/-- A program in reverse Polish notation, if it is one arithmetic expression. -/
def Program.toRpn (program : Program) : Except RpnRefusal String :=
  match program.statements with
  | [term] => term.postorder.map fun items => Text.joinWith " " (items.map RpnItem.text)
  | statements => .error (.notSingle statements.length)

/-- Why a text in reverse Polish notation has no value. -/
inductive RpnError where
  | invalidToken (word : String)
  | stackUnderflow (op : ArithOp)
  | leftover (values : Nat)
  | empty
  | fault (fault : ArithFault)
deriving DecidableEq, Repr

/-- What is wrong, on one line. -/
def RpnError.message : RpnError → String
  | .invalidToken word => "invalid RPN token: " ++ Text.quote word
  | .stackUnderflow op => "operator " ++ op.symbol ++ " needs two operands"
  | .leftover n => "RPN expression leaves " ++ toString n ++ " values on the stack"
  | .empty => "empty RPN expression"
  | .fault why => "Runtime error: " ++ why.message

/-- The item that a word spells: one of the four operators, or a number with an optional sign. -/
def RpnItem.ofWord? (word : String) : Option RpnItem :=
  match word with
  | "+" => some (.operator .add)
  | "-" => some (.operator .sub)
  | "*" => some (.operator .mul)
  | "/" => some (.operator .div)
  | word => (Text.readInt64 word.toList).map .number

/-- The stack after one more item. An operator takes its right operand first. -/
def RpnItem.push (item : RpnItem) (stack : List Int64) : Except RpnError (List Int64) :=
  match item, stack with
  | .number n, stack => .ok (n :: stack)
  | .operator op, right :: left :: stack =>
    match op.apply left right with
    | .ok n => .ok (n :: stack)
    | .error fault => .error (.fault fault)
  | .operator op, _ => .error (.stackUnderflow op)

/-- The stack after some words. The first word that is no item or cannot be applied ends the
reading. -/
def pushWords (stack : List Int64) : List String → Except RpnError (List Int64)
  | [] => .ok stack
  | word :: rest =>
    match RpnItem.ofWord? word with
    | none => .error (.invalidToken word)
    | some item =>
      match item.push stack with
      | .error e => .error e
      | .ok stack => pushWords stack rest

/-- The value of a text in reverse Polish notation. -/
def evalRpn (text : String) : Except RpnError Int64 :=
  match pushWords [] (Text.words text) with
  | .error e => .error e
  | .ok [] => .error .empty
  | .ok [n] => .ok n
  | .ok stack => .error (.leftover stack.length)

end Dynascope
