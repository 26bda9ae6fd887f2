import Dynascope.Arith
import Dynascope.Span

/-! # Programs as trees

A program is a list of statements, and every statement is an expression: blocks, branches and
loops have values too. Each node carries the span of the source text that it was read from;
`Term.span` is that of the whole node. Parentheses of the source are kept as nodes.
-/

set_option autoImplicit false

namespace Dynascope

/-- An expression. A branch, a loop and their blocks have spans of their own for the block. -/
inductive Term where
  | number (span : Span) (value : Int64)
  | paren (span : Span) (inner : Term)
  | arith (span : Span) (op : ArithOp) (left right : Term)
  | compare (span : Span) (op : CmpOp) (left right : Term)
  | assign (span : Span) (name : String) (value : Term)
  | var (span : Span) (name : String)
  | block (span : Span) (body : List Term)
  | branch (span : Span) (cond : Term) (thenSpan : Span) (thenBody : List Term) (orElse : Term)
  | whileLoop (span : Span) (cond : Term) (bodySpan : Span) (body : List Term)
  | forLoop (span : Span) (name : String) (first : Option Term) (limit : Term)
      (bodySpan : Span) (body : List Term)
  | lambda (span : Span) (params : List String) (body : Term)
  | call (span : Span) (name : String) (args : List Term)
deriving Repr, Inhabited

/-- The part of the source that an expression was read from. -/
def Term.span : Term → Span
  | .number span _ | .paren span _ | .arith span .. | .compare span .. | .assign span ..
  | .var span _ | .block span _ | .branch span .. | .whileLoop span .. | .forLoop span ..
  | .lambda span .. | .call span .. => span

/-- A program: what one source text holds. -/
structure Program where
  statements : List Term
deriving Repr, Inhabited

end Dynascope
