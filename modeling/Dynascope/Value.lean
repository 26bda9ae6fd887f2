import Dynascope.Term
import Dynascope.Text.Join

/-! # Values

A program computes integers, closures, built-ins and the absence of a value. There are no
booleans: a relation that holds is the integer zero, one that fails is one. A closure keeps its
parameters and body but no bindings, and an identity by which it is compared.
-/

set_option autoImplicit false

namespace Dynascope

/-- The functions that every session starts with. -/
inductive Builtin where
  | print
  | stack
  | prime
deriving DecidableEq, Repr

/-- The name that a built-in is bound to. -/
def Builtin.name : Builtin → String
  | .print => "print"
  | .stack => "stack"
  | .prime => "prime"

/-- A function made by a lambda. No two lambdas that are evaluated in a session have the same
`id`. -/
structure Closure where
  id : Nat
  params : List String
  body : Term
deriving Repr, Inhabited

/-- What an expression can evaluate to. -/
inductive Value where
  | int (n : Int64)
  | closure (closure : Closure)
  | builtin (builtin : Builtin)
  | none
deriving Repr, Inhabited

/-- The kinds of value that error messages tell apart. -/
inductive ValueKind where
  | int
  | function
  | builtin
  | none
deriving DecidableEq, Repr

/-- The name of a kind. -/
def ValueKind.name : ValueKind → String
  | .int => "int"
  | .function => "function"
  | .builtin => "builtin"
  | .none => "None"

namespace Value

/-- The kind of a value. -/
def kind : Value → ValueKind
  | int _ => .int
  | closure _ => .function
  | builtin _ => .builtin
  | none => .none

/-- The text of a value. A closure shows its parameters. -/
def text : Value → String
  | int n => toString n
  | closure c =>
    if c.params.isEmpty then "<lambda>" else "<lambda " ++ Text.joinWith ", " c.params ++ ">"
  | builtin b => "<builtin " ++ b.name ++ ">"
  | none => "None"

/-- Whether a value is the absence of one. -/
def isNone : Value → Bool
  | none => true
  | _ => false

/-- The integer that a value is, if it is one. -/
def int? : Value → Option Int64
  | int n => some n
  | _ => Option.none

/-- The value of a relation: zero where it holds, one where it fails. -/
def ofRelation (holds : Bool) : Value :=
  int (if holds then 0 else 1)

/-- Equality of values: integers by value, closures by identity, built-ins by name. -/
def same : Value → Value → Bool
  | int m, int n => m == n
  | closure c, closure d => c.id == d.id
  | builtin b, builtin c => b == c
  | none, none => true
  | _, _ => false

end Value

end Dynascope
