import Dynascope.Value

/-! # Why an evaluation fails

Each cause keeps what its message names; `RuntimeError.message` words it on one line, if the
names in it are on one line.
-/

set_option autoImplicit false

namespace Dynascope

/-- What an operation needs where it found a value that is no integer. -/
inductive Demand where
  | operand
  | condition
deriving DecidableEq, Repr

/-- What a demand is called in messages. -/
def Demand.name : Demand → String
  | .operand => "int"
  | .condition => "int condition"

/-- Why an evaluation fails. -/
inductive RuntimeError where
  | undefinedVariable (name : String)
  | arityMismatch (name : String) (expected got : Nat)
  | fault (fault : ArithFault)
  | emptyRange (first limit : Int64)
  | loopNeverExecuted
  | notCallable (name : String) (found : ValueKind)
  | typeMismatch (demand : Demand) (found : ValueKind)
  | callDepthExceeded (limit : Nat)
  | sinkFull
deriving DecidableEq, Repr

/-- What is wrong. -/
def RuntimeError.message : RuntimeError → String
  | undefinedVariable name => "undefined variable: " ++ name
  | arityMismatch name expected got =>
    "function " ++ name ++ " expects " ++ toString expected ++ " argument(s), got "
      ++ toString got
  | fault why => why.message
  | emptyRange first limit =>
    "for loop over empty range(" ++ toString first ++ ", " ++ toString limit ++ ")"
  | loopNeverExecuted => "while loop body never executed"
  | notCallable name found => name ++ " is not a function (found " ++ found.name ++ ")"
  | typeMismatch demand found =>
    "type error: expected " ++ demand.name ++ ", got " ++ found.name
  | callDepthExceeded limit => "stack overflow: call depth exceeded " ++ toString limit
  | sinkFull => "IO error: sink full"

/-- The line that reports the failure. -/
def RuntimeError.text (e : RuntimeError) : String :=
  "Runtime error: " ++ e.message

namespace Value

/-- The integer that a value is; anything else is a type error. -/
def toInt (v : Value) : Except RuntimeError Int64 :=
  match v with
  | int n => .ok n
  | other => .error (.typeMismatch .operand other.kind)

/-- Whether a value counts as true: zero does, every other integer does not, and nothing else
is a condition. -/
def isTrue (v : Value) : Except RuntimeError Bool :=
  match v with
  | int n => .ok (n == 0)
  | other => .error (.typeMismatch .condition other.kind)

end Value

end Dynascope
