import Dynascope.Term
import Dynascope.Text.Join

/-! # The shortest way to write a program

`Program.minify` writes a program without blanks between tokens, except where two words would
run together, and with only the parentheses that its meaning depends on: those of the source
are dropped, and an operand is put in parentheses where the grammar or the grouping needs it.
An operand on the right of an operator of the same precedence keeps its grouping unless the two
operators can be read from left to right with the same value: `a+(b+c)`, `a+(b-c)`, `a*(b*c)`.
-/

set_option autoImplicit false

namespace Dynascope

/-- A term without the parentheses around it. -/
def Term.unparen : Term → Term
  | .paren _ inner => inner.unparen
  | term => term

/-- Numbers, names and calls, which are operands wherever they stand. -/
def Term.isAtom : Term → Bool
  | .number .. | .var .. | .call .. => true
  | _ => false

/-- The side of an operator on which an operand stands. -/
inductive Side where
  | left
  | right
deriving DecidableEq, Repr

/-- Whether operations `parent` and, on the right of it, `child` of the same precedence have the
same value when they are read from left to right. -/
def ArithOp.regroups (parent child : ArithOp) : Bool :=
  parent == .add || (parent == .mul && child == .mul)

/-- Whether a term without parentheses around it needs them as an operand of `parent`. -/
def Term.needsParens (term : Term) (parent : ArithOp) (side : Side) : Bool :=
  match term with
  | .arith _ child .. =>
    decide (child.precedence < parent.precedence)
      || (side == .right && child.precedence == parent.precedence && !parent.regroups child)
  | term => !term.isAtom

/-- Whether a term without parentheses around it needs them as a side of a comparison. -/
def Term.needsParensInComparison : Term → Bool
  | .arith .. => false
  | term => !term.isAtom

/-- Whether a term without parentheses around it needs them as the condition of a loop. -/
def Term.needsParensInWhile : Term → Bool
  | .compare .. => false
  | term => term.needsParensInComparison

/-- A text in parentheses, if they are needed. -/
def parenthesize (needed : Bool) (text : String) : String :=
  if needed then "(" ++ text ++ ")" else text

/-- Statements with semicolons between them, in braces. -/
def bracedBody (statements : List String) : String :=
  "\x7b" ++ Text.joinWith ";" statements ++ "\x7d"

mutual

/-- The shortest way to write an expression. -/
def Term.minify : Term → String
  | .number _ n => toString n
  | .paren _ inner => inner.minify
  | .arith _ op left right =>
    parenthesize (left.unparen.needsParens op .left) left.minify ++ op.symbol
      ++ parenthesize (right.unparen.needsParens op .right) right.minify
  | .compare _ op left right =>
    parenthesize left.unparen.needsParensInComparison left.minify ++ op.symbol
      ++ parenthesize right.unparen.needsParensInComparison right.minify
  | .assign _ name value => name ++ "=" ++ value.minify
  | .var _ name => name
  | .block _ body => bracedBody (minifyAll body)
  | .branch _ cond _ thenBody orElse =>
    "if(" ++ cond.minify ++ "):" ++ bracedBody (minifyAll thenBody) ++ "else " ++ orElse.minify
  | .whileLoop _ cond _ body =>
    "while " ++ parenthesize cond.unparen.needsParensInWhile cond.minify
      ++ bracedBody (minifyAll body)
  | .forLoop _ name none limit _ body =>
    "for " ++ name ++ " in range(" ++ limit.minify ++ ")" ++ bracedBody (minifyAll body)
  | .forLoop _ name (some first) limit _ body =>
    "for " ++ name ++ " in range(" ++ first.minify ++ "," ++ limit.minify ++ ")"
      ++ bracedBody (minifyAll body)
  | .lambda _ params body =>
    (if params.isEmpty then "lambda:" else "lambda " ++ Text.joinWith "," params ++ ":")
      ++ body.minify
  | .call _ name args => name ++ "(" ++ Text.joinWith "," (minifyAll args) ++ ")"

/-- The shortest way to write each of several expressions. -/
def minifyAll : List Term → List String
  | [] => []
  | term :: rest => term.minify :: minifyAll rest

end

/-- The shortest way to write a program. -/
def Program.minify (program : Program) : String :=
  Text.joinWith ";" (minifyAll program.statements)

end Dynascope
