import Dynascope.Eval

/-! # Evaluation with other primitives

All that an evaluation does to the frames, apart from opening and closing them, is to look up, to
define and to assign names, and the built-in `stack` writes them. An evaluator can be given another
`stack` and another assignment, for instance ones that end without an answer: then it ends where
evaluation does without them. With the ones of the language it is evaluation
(`Program.runBy_standard`).
-/

set_option autoImplicit false

namespace Dynascope

/-- The steps of evaluation that can be replaced. -/
structure Primitives where
  /-- a call of the built-in `stack` without arguments -/
  stack : Run Value
  assign : String → Value → Run Unit

namespace Primitives

/-- The steps as the language has them. -/
def standard : Primitives where
  stack := Builtin.stack.call []
  assign name value := Run.update (·.assign name value)

/-- A call of `stack` has no answer. -/
def withoutStack : Primitives :=
  { standard with stack := Run.outOfFuel }

/-- An assignment has no answer if it is barred. -/
def barring (bars : Scope → String → Prop) [∀ scope, DecidablePred (bars scope)] : Primitives :=
  { standard with
    assign := fun name value s =>
      if bars s.scope name then (.outOfFuel, s) else standard.assign name value s }

end Primitives

section

variable (P : Primitives)

/-- A built-in called with arguments. -/
def Builtin.callBy (b : Builtin) (args : List Value) : Run Value :=
  match b, args with
  | .stack, [] => P.stack
  | b, args => b.call args

/-- A value called under a name. -/
def Value.callBy (eval : Term → Run Value) (name : String) (callee : Value) (args : List Value) :
    Run Value :=
  match callee with
  | .builtin b => b.callBy P args
  | other => other.call eval name args

/-- One construct, given how its parts are evaluated and how many rounds a `while` may have. -/
def Term.stepBy (fuel : Nat) (eval : Term → Run Value) : Term → Run Value
  | .assign _ name value => do
    let v ← eval value
    P.assign name v
    pure v
  | .call _ name args => do
    let callee ← Run.ofExcept (← Run.read (·.scope.lookup name))
    let values ← evalArgs eval args
    callee.callBy P eval name values
  | other => other.evalWith fuel eval

/-- The value of an expression, for a given amount of fuel. -/
def Term.evalBy : Nat → Term → Run Value
  | 0, _ => Run.outOfFuel
  | fuel + 1, term => term.stepBy P fuel (Term.evalBy fuel)

/-- The statements of a program in the innermost frame. -/
def Program.runBy (fuel : Nat) (program : Program) : Run Value :=
  evalAll (Term.evalBy P fuel) .none program.statements

/-- How a program ends in a session with these primitives, and what it leaves behind. -/
def Program.EndsBy (p : Program) (s : Session) (r : Outcome RuntimeError Value × Session) : Prop :=
  r.1 ≠ .outOfFuel ∧ ∃ fuel, p.runBy P fuel s = r

end

/-! ## The primitives of the language -/

theorem Builtin.callBy_standard (b : Builtin) (args : List Value) :
    b.callBy .standard args = b.call args := by
  cases b with
  | stack => cases args <;> rfl
  | print | prime => rfl

theorem Value.callBy_standard (eval : Term → Run Value) (name : String) (callee : Value)
    (args : List Value) : callee.callBy .standard eval name args = callee.call eval name args := by
  cases callee with
  | builtin b => exact b.callBy_standard args
  | int | closure | none => rfl

theorem Term.stepBy_standard (fuel : Nat) (eval : Term → Run Value) (t : Term) :
    t.stepBy .standard fuel eval = t.evalWith fuel eval := by
  cases t with
  | call span name args => simp only [stepBy, evalWith, Value.callBy_standard]
  | _ => rfl

theorem Term.evalBy_standard (fuel : Nat) : Term.evalBy .standard fuel = Term.eval fuel := by
  induction fuel with
  | zero => rfl
  | succ fuel ih =>
    funext t
    rw [evalBy, ih, stepBy_standard, eval]

/-- With the primitives of the language, this is evaluation. -/
theorem Program.runBy_standard (fuel : Nat) (p : Program) :
    p.runBy .standard fuel = p.run fuel := by
  rw [runBy, Term.evalBy_standard, run]

end Dynascope
