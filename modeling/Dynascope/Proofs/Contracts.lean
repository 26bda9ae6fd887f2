import Dynascope.Proofs.Comparison
import Dynascope.Proofs.Erasure

/-! # Contracts

A `Contract` is a property of single computations, together with a property of their values, that
goes through the steps of evaluation. What it says of the evaluation of the parts of a term it then
says of the evaluation of the term (`Contract.evalWith`), and so of every term and program that it
admits, whatever the fuel: `Contract.eval`, `Contract.run`. It may admit some terms only, some
closures only, and errors that tell of some names only.
-/

set_option autoImplicit false

namespace Dynascope

variable {α β : Type}

/-- The name that an error tells of. -/
def RuntimeError.name? : RuntimeError → Option String
  | .undefinedVariable name | .arityMismatch name _ _ | .notCallable name _ => some name
  | _ => none

theorem RuntimeError.name?_of_toInt {v : Value} {e : RuntimeError} (h : v.toInt = .error e) :
    e.name? = none := by
  cases v <;> cases h <;> rfl

theorem RuntimeError.name?_of_isTrue {v : Value} {e : RuntimeError} (h : v.isTrue = .error e) :
    e.name? = none := by
  cases v <;> cases h <;> rfl

/-- A value that, if it is a closure, is one with a property. -/
def Value.Admitted (P : Closure → Prop) : Value → Prop
  | .closure c => P c
  | _ => True

/-- A property of computations, for each property of their values, that goes through the steps of
evaluation. -/
structure Contract where
  /-- The computation keeps the contract, and its values have the property. -/
  Keeps {α : Type} : (α → Prop) → Run α → Prop
  /-- The same of a computation in a frame that was opened for it. -/
  Own {α : Type} : (α → Prop) → Run α → Prop
  terms : Term → Prop
  closures : Closure → Prop
  /-- The names that can be looked up and that errors tell of. -/
  names : String → Prop
  children {t u : Term} : terms t → u ∈ t.children → terms u
  mentioned {t : Term} {x : String} : terms t → x ∈ t.mentioned? → names x
  builtins (b : Builtin) : names b.name
  made {span : Span} {params : List String} {body : Term} (id : Nat) :
    terms (.lambda span params body) → closures ⟨id, params, body⟩
  called {c : Closure} : closures c → terms c.body
  ret {α : Type} {V : α → Prop} {a : α} : V a → Keeps V (pure a)
  fail {α : Type} {V : α → Prop} {e : RuntimeError} :
    (∀ x ∈ e.name?, names x) → Keeps V (Run.fail e)
  outOfFuel : Keeps (Value.Admitted closures) Run.outOfFuel
  bind {α β : Type} {V : α → Prop} {W : β → Prop} {m : Run α} {next : α → Run β} :
    Keeps V m → (∀ a, V a → Keeps W (next a)) → Keeps W (m >>= next)
  own {α : Type} {V : α → Prop} {m : Run α} : Keeps V m → Own V m
  ownBind {α β : Type} {V : α → Prop} {W : β → Prop} {m : Run α} {next : α → Run β} :
    Own V m → (∀ a, V a → Own W (next a)) → Own W (m >>= next)
  inFrame {α : Type} {V : α → Prop} {m : Run α} : Own V m → Keeps V m.inFrame
  asCall {V : Value → Prop} (name : String) (args : Nat) {m : Run Value} :
    Keeps V m → Keeps V (m.asCall name args)
  lookup {name : String} : names name → Keeps (Value.Admitted closures) (Run.lookup name)
  define (name : String) {v : Value} : v.Admitted closures →
    Own (fun _ => True) (Run.update (·.define name v))
  assign {span : Span} {name : String} {value : Term} {v : Value} :
    terms (.assign span name value) → v.Admitted closures →
    Keeps (fun _ => True) (Run.update (·.assign name v))
  freshClosure : Keeps (fun _ => True) Run.freshClosure
  scopeText : Keeps (fun _ => True) (Run.read (·.scope.text))
  writeLine (text : String) : Keeps (fun _ => True) (Run.writeLine text)

namespace Contract

variable (C : Contract)

/-- Values whose closures the contract admits. -/
abbrev Admits : Value → Prop :=
  Value.Admitted C.closures

variable {C}

theorem failNameless {V : α → Prop} {e : RuntimeError} (h : e.name? = none) :
    C.Keeps V (Run.fail e) :=
  C.fail (by simp [h])

theorem ofExcept {r : Except RuntimeError α} (h : ∀ e, r = .error e → e.name? = none) :
    C.Keeps (fun _ => True) (Run.ofExcept r) := by
  cases r with
  | ok a => exact C.ret trivial
  | error e => exact failNameless (h e rfl)

theorem lookupThen {V : α → Prop} {name : String} (hx : C.names name) {next : Value → Run α}
    (hn : ∀ v, C.Admits v → C.Keeps V (next v)) :
    C.Keeps V (do next (← Run.ofExcept (← Run.read (·.scope.lookup name)))) := by
  have h := C.bind (C.lookup hx) hn
  simpa only [Run.lookup, bind_assoc] using h

theorem whileRounds {cond : Run Bool} {body : Run Value} (hc : C.Keeps (fun _ => True) cond)
    (hb : C.Keeps C.Admits body) (fuel : Nat) {last : Option Value}
    (hl : ∀ v ∈ last, C.Admits v) : C.Keeps C.Admits (whileRounds cond body fuel last) := by
  induction fuel generalizing last with
  | zero => exact C.outOfFuel
  | succ fuel ih =>
    refine C.bind hc fun c _ => ?_
    cases c with
    | true => exact C.bind hb fun v hv => ih fun w hw => Option.some.inj hw ▸ hv
    | false =>
      cases last with
      | none => exact failNameless rfl
      | some v => exact C.ret (hl v rfl)

theorem forRounds {body : Run Value} (hb : C.Keeps C.Admits body) (name : String) (count : Nat)
    (i : Int64) {v : Value} (hv : C.Admits v) :
    C.Own C.Admits (forRounds name body count i v) := by
  induction count generalizing i v with
  | zero => exact C.own (C.ret hv)
  | succ count ih =>
    have hi : C.Admits (.int i) := trivial
    exact C.ownBind (C.define name hi) fun _ _ => C.ownBind (C.own hb) fun _ hv => ih _ hv

theorem bindParams (params : List String) {vs : List Value} (hv : ∀ v ∈ vs, C.Admits v) :
    C.Own (fun _ => True) (Run.update (bindParams params vs)) := by
  induction params generalizing vs with
  | nil => exact C.own (C.ret trivial)
  | cons p ps ih =>
    cases vs with
    | nil => exact C.own (C.ret trivial)
    | cons v vs =>
      obtain ⟨hv, hvs⟩ := List.forall_mem_cons.1 hv
      exact C.ownBind (C.define p hv) fun _ _ => ih hvs

theorem arityMismatch {V : α → Prop} (b : Builtin) (expected got : Nat) :
    C.Keeps V (Run.fail (.arityMismatch b.name expected got)) :=
  C.fail fun _ hx => Option.some.inj hx ▸ C.builtins b

theorem callBuiltin (b : Builtin) {vs : List Value} (hv : ∀ v ∈ vs, C.Admits v) :
    C.Keeps C.Admits (b.call vs) := by
  unfold Builtin.call
  split
  · exact C.bind (C.writeLine _) fun _ _ => C.ret (hv _ (.head _))
  · exact C.bind C.scopeText fun _ _ => C.bind (C.writeLine _) fun _ _ => C.ret trivial
  · exact C.bind (ofExcept fun _ => RuntimeError.name?_of_toInt) fun _ _ => C.ret trivial
  all_goals exact arityMismatch _ _ _

section

variable {ev : Term → Run Value}

theorem evalInt {t : Term} (h : C.Keeps C.Admits (ev t)) :
    C.Keeps (fun _ => True) (evalInt ev t) :=
  C.bind h fun _ _ => ofExcept fun _ => RuntimeError.name?_of_toInt

theorem isTrue {t : Term} (h : C.Keeps C.Admits (ev t)) :
    C.Keeps (fun _ => True) (do Run.ofExcept (← ev t).isTrue) :=
  C.bind h fun _ _ => ofExcept fun _ => RuntimeError.name?_of_isTrue

theorem evalFirst {first : Option Term} (h : ∀ t ∈ first.toList, C.Keeps C.Admits (ev t)) :
    C.Keeps (fun _ => True) (evalFirst ev first) := by
  cases first with
  | none => exact C.ret trivial
  | some t => exact evalInt (h t (.head _))

theorem evalAll {ts : List Term} (h : ∀ t ∈ ts, C.Keeps C.Admits (ev t)) {v : Value}
    (hv : C.Admits v) : C.Keeps C.Admits (evalAll ev v ts) := by
  induction ts generalizing v with
  | nil => exact C.ret hv
  | cons t ts ih =>
    obtain ⟨ht, hts⟩ := List.forall_mem_cons.1 h
    exact C.bind ht fun _ hv => ih hts hv

theorem evalBlock {ts : List Term} (h : ∀ t ∈ ts, C.Keeps C.Admits (ev t)) :
    C.Keeps C.Admits (evalBlock ev ts) :=
  C.inFrame (C.own (evalAll h trivial))

theorem evalArgs {ts : List Term} (h : ∀ t ∈ ts, C.Keeps C.Admits (ev t)) :
    C.Keeps (fun vs => ∀ v ∈ vs, C.Admits v) (evalArgs ev ts) := by
  induction ts with
  | nil => exact C.ret (by simp)
  | cons t ts ih =>
    obtain ⟨ht, hts⟩ := List.forall_mem_cons.1 h
    refine C.bind ht fun v hv => C.bind (ih hts) fun vs hvs => C.ret ?_
    exact List.forall_mem_cons.2 ⟨hv, hvs⟩

variable (h : ∀ t, C.terms t → C.Keeps C.Admits (ev t))
include h

theorem callValue {name : String} (hx : C.names name) {v : Value} (hv : C.Admits v)
    {vs : List Value} (hvs : ∀ v ∈ vs, C.Admits v) : C.Keeps C.Admits (v.call ev name vs) := by
  have hfail {e : RuntimeError} (he : e.name? = some name) : C.Keeps C.Admits (Run.fail e) :=
    C.fail fun x hm => by
      rw [he] at hm
      exact Option.some.inj hm ▸ hx
  cases v with
  | int | none => exact hfail rfl
  | builtin b => exact callBuiltin b hvs
  | closure c =>
    simp only [Value.call, Closure.call_eq]
    split
    · exact hfail rfl
    · refine C.asCall _ _ (C.inFrame ?_)
      exact C.ownBind (bindParams _ hvs) fun _ _ => C.own (h _ (C.called hv))

/-- Where the evaluation of the parts of terms and of the bodies of closures keeps a contract, the
evaluation of a term that it admits does. -/
theorem evalWith (fuel : Nat) {t : Term} (ht : C.terms t) :
    C.Keeps C.Admits (t.evalWith fuel ev) := by
  have parts : ∀ u ∈ t.children, C.Keeps C.Admits (ev u) := fun u hu => h u (C.children ht hu)
  cases t with
  | number span n => exact C.ret trivial
  | paren span inner => exact parts inner (.head _)
  | arith span op left right =>
    refine C.bind (evalInt (parts left (by simp [Term.children]))) fun m _ => ?_
    refine C.bind (evalInt (parts right (by simp [Term.children]))) fun n _ => ?_
    cases op.apply m n with
    | ok k => exact C.ret trivial
    | error fault => exact failNameless rfl
  | compare span op left right =>
    refine C.bind (evalInt (parts left (by simp [Term.children]))) fun m _ => ?_
    refine C.bind (evalInt (parts right (by simp [Term.children]))) fun n _ => C.ret trivial
  | assign span name value =>
    refine C.bind (parts value (.head _)) fun v hv => ?_
    exact C.bind (C.assign ht hv) fun _ _ => C.ret hv
  | var span name => exact C.lookup (C.mentioned ht rfl)
  | block span body => exact evalBlock parts
  | branch span cond thenSpan thenBody orElse =>
    refine C.bind (parts cond (.head _)) fun v _ => ?_
    refine C.bind (ofExcept fun _ => RuntimeError.name?_of_isTrue) fun b _ => ?_
    cases b with
    | true => exact evalBlock fun u hu => parts u (by simp [Term.children, hu])
    | false => exact parts orElse (by simp [Term.children])
  | whileLoop span cond bodySpan body =>
    refine whileRounds (isTrue (parts cond (.head _))) ?_ fuel (by simp)
    exact evalBlock fun u hu => parts u (.tail _ hu)
  | forLoop span name first limit bodySpan body =>
    refine C.bind (evalFirst fun u hu => parts u (by simp_all [Term.children])) fun a _ => ?_
    refine C.bind (evalInt (parts limit (by simp [Term.children]))) fun b _ => ?_
    split
    · exact failNameless rfl
    · refine C.inFrame (forRounds (evalBlock fun u hu => ?_) name _ a trivial)
      exact parts u (by simp [Term.children, hu])
  | lambda span params body =>
    exact C.bind C.freshClosure fun id _ => C.ret (C.made id ht)
  | call span name args =>
    refine lookupThen (C.mentioned ht rfl) fun v hv => ?_
    exact C.bind (evalArgs parts) fun vs hvs => callValue h (C.mentioned ht rfl) hv hvs

end

/-- **Evaluation keeps a contract**, of every term that it admits. -/
theorem eval (fuel : Nat) {t : Term} (ht : C.terms t) : C.Keeps C.Admits (t.eval fuel) := by
  induction fuel generalizing t with
  | zero => exact C.outOfFuel
  | succ fuel ih => exact evalWith (fun _ => ih) fuel ht

theorem run (fuel : Nat) {p : Program} (hp : ∀ t ∈ p.statements, C.terms t) :
    C.Keeps C.Admits (p.run fuel) :=
  evalAll (fun t ht => eval fuel (hp t ht)) trivial

end Contract

end Dynascope
