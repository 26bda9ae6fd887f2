import Dynascope.Parser
import Dynascope.Primality
import Dynascope.Run

/-! # Evaluation

Operands, arguments and bounds are evaluated from left to right, and each is checked before the
next one is evaluated. A block, the loop variable of a range and the parameters of a call have
frames of their own. Scope is dynamic: the body of a closure sees every frame that is alive when
it is called.

`Term.evalWith` evaluates one construct, given how its parts are evaluated; `Term.eval` closes
the recursion with fuel, of which every level of nesting and every round of a `while` takes one.
More fuel never changes an answer.
-/

set_option autoImplicit false

namespace Dynascope

/-! ## Sequences and loops -/

/-- Statements in order; the value is that of the last one, or else `last`. -/
@[specialize] def evalAll (eval : Term → Run Value) (last : Value) : List Term → Run Value
  | [] => pure last
  | term :: rest => do
    let v ← eval term
    evalAll eval v rest

/-- Arguments in order. -/
@[specialize] def evalArgs (eval : Term → Run Value) : List Term → Run (List Value)
  | [] => pure []
  | term :: rest => do
    let v ← eval term
    let vs ← evalArgs eval rest
    pure (v :: vs)

/-- A block: its statements in a frame of their own. -/
@[inline] def evalBlock (eval : Term → Run Value) (body : List Term) : Run Value :=
  (evalAll eval .none body).inFrame

/-- The rounds of a loop while its condition holds, at most `fuel` of them. The value is that of
the last round; a loop without any round fails. -/
@[specialize] def whileRounds (cond : Run Bool) (body : Run Value) :
    Nat → Option Value → Run Value
  | 0, _ => Run.outOfFuel
  | fuel + 1, last => do
    if ← cond then
      let v ← body
      whileRounds cond body fuel (some v)
    else match last with
      | some v => pure v
      | none => Run.fail .loopNeverExecuted

/-- The next `count` rounds of a loop over a range, the first with `i` bound to `name`. -/
@[specialize] def forRounds (name : String) (body : Run Value) :
    Nat → Int64 → Value → Run Value
  | 0, _, last => pure last
  | count + 1, i, _ => do
    Run.update (·.define name (.int i))
    let v ← body
    forRounds name body count (i + 1) v

/-! ## Calls -/

/-- The same computation on a stack of its own when the number of active calls is a multiple of
two hundred, so that deep recursion of a program takes no deep native stack. -/
@[inline] def Run.onOwnStack (r : Run Value) : Run Value :=
  fun s =>
    if s.callDepth % 200 = 0 then (Task.spawn (fun _ => r s) .dedicated).get else r s

/-- Binds parameters to arguments in order; a repeated parameter keeps the last. -/
def bindParams (params : List String) (args : List Value) (s : Session) : Session :=
  (params.zip args).foldl (fun s (name, value) => s.define name value) s

/-- Whether a session allows no further call, and then the limit that forbids it. -/
def Session.exceeded? (s : Session) : Option Nat :=
  s.maxCallDepth.filter (· ≤ s.callDepth)

/-- A closure called under a name. The number of arguments is checked before the number of
active calls. -/
@[inline] def Closure.call (eval : Term → Run Value) (name : String) (c : Closure)
    (args : List Value) : Run Value := do
  if c.params.length ≠ args.length then
    Run.fail (.arityMismatch name c.params.length args.length)
  else match ← Run.read (·.exceeded?) with
    | some limit => Run.fail (.callDepthExceeded limit)
    | none =>
      Run.update fun s => s.note (.called name args.length s.callDepth)
      Run.inCall <| Run.onOwnStack <| Run.inFrame do
        Run.update (bindParams c.params args)
        eval c.body

/-- A built-in called with arguments: `print` writes its argument and returns it, `stack` writes
the scope stack, `prime` tests its argument for primality. -/
def Builtin.call (b : Builtin) (args : List Value) : Run Value :=
  match b, args with
  | .print, [value] => do
    Run.writeLine value.text
    pure value
  | .stack, [] => do
    Run.writeLine (← Run.read (·.scope.text))
    pure .none
  | .prime, [value] => do
    let n ← Run.ofExcept value.toInt
    pure (.ofRelation (isPrime n))
  | .print, args => Run.fail (.arityMismatch Builtin.print.name 1 args.length)
  | .stack, args => Run.fail (.arityMismatch Builtin.stack.name 0 args.length)
  | .prime, args => Run.fail (.arityMismatch Builtin.prime.name 1 args.length)

/-- A value called under a name. -/
@[inline] def Value.call (eval : Term → Run Value) (name : String) (callee : Value)
    (args : List Value) : Run Value :=
  match callee with
  | .closure c => c.call eval name args
  | .builtin b => b.call args
  | other => Run.fail (.notCallable name other.kind)

/-! ## Expressions -/

/-- An expression that has to be an integer. -/
@[inline] def evalInt (eval : Term → Run Value) (term : Term) : Run Int64 := do
  Run.ofExcept (← eval term).toInt

/-- The first bound of a range; it is zero if it is not given. -/
@[inline] def evalFirst (eval : Term → Run Value) (first : Option Term) : Run Int64 :=
  match first with
  | none => pure 0
  | some term => evalInt eval term

/-- One construct, given how its parts are evaluated and how many rounds a `while` may have. -/
@[inline] def Term.evalWith (fuel : Nat) (eval : Term → Run Value) : Term → Run Value
  | .number _ n => pure (.int n)
  | .paren _ inner => eval inner
  | .arith _ op left right => do
    let m ← evalInt eval left
    let n ← evalInt eval right
    match op.apply m n with
    | .ok k => pure (.int k)
    | .error fault => Run.fail (.fault fault)
  | .compare _ op left right => do
    let m ← evalInt eval left
    let n ← evalInt eval right
    pure (.ofRelation (op.holds m n))
  | .assign _ name value => do
    let v ← eval value
    Run.update (·.assign name v)
    pure v
  | .var _ name => do
    Run.ofExcept (← Run.read (·.scope.lookup name))
  | .block _ body => evalBlock eval body
  | .branch _ cond _ thenBody orElse => do
    if ← Run.ofExcept (← eval cond).isTrue then evalBlock eval thenBody else eval orElse
  | .whileLoop _ cond _ body =>
    whileRounds (do Run.ofExcept (← eval cond).isTrue) (evalBlock eval body) fuel none
  | .forLoop _ name first limit _ body => do
    let a ← evalFirst eval first
    let b ← evalInt eval limit
    if b ≤ a then Run.fail (.emptyRange a b)
    else Run.inFrame (forRounds name (evalBlock eval body) (b.toInt - a.toInt).toNat a .none)
  | .lambda _ params body => do
    let id ← Run.freshClosure
    pure (.closure ⟨id, params, body⟩)
  | .call _ name args => do
    let callee ← Run.ofExcept (← Run.read (·.scope.lookup name))
    let values ← evalArgs eval args
    callee.call eval name values

/-- The value of an expression, for a given amount of fuel. -/
def Term.eval : Nat → Term → Run Value
  | 0, _ => Run.outOfFuel
  | fuel + 1, term => term.evalWith fuel (Term.eval fuel)

/-! ## Programs and inputs -/

/-- The statements of a program in the innermost frame; the value is that of the last one. -/
def Program.run (fuel : Nat) (program : Program) : Run Value :=
  evalAll (Term.eval fuel) .none program.statements

/-- Why an input has no value. -/
inductive EvalError where
  | compile (e : CompileError)
  | runtime (e : RuntimeError)
deriving DecidableEq, Repr

/-- The report of an error; that of a text that is no program may have two lines. -/
def EvalError.text : EvalError → String
  | compile e => e.text
  | runtime e => e.text

/-- The report of an error on one line. -/
def EvalError.line : EvalError → String
  | compile e => e.line
  | runtime e => e.text

/-- Evaluates a source text as one input. -/
def Session.evaluate (fuel : Nat) (source : String) (s : Session) :
    Outcome EvalError Value × Session :=
  match parseSource source with
  | .error e => (.failure (.compile e), s)
  | .ok program =>
    match program.run fuel (s.note (.started program.statements.length)) with
    | (.value v, s) => (.value v, s)
    | (.failure e, s) => (.failure (.runtime e), s)
    | (.outOfFuel, s) => (.outOfFuel, s)

end Dynascope
