import Mathlib.Data.List.Forall2
import Dynascope.Proofs.Primitives

/-! # Comparing evaluators

Two evaluators can be compared in several ways: by the answers they give with more fuel, by the
frames they keep, by how far a limit lets them go. Each way is a relation between computations
that goes through the steps of which evaluation consists: sequence, bindings, frames, calls,
output. Such a relation is a `Comparison`, and where it holds between the evaluations of the parts
of terms, it holds between those of the terms: `Comparison.evalWith`.

A `Correspondence` asks for less: it need not go through the primitives of an evaluator, nor through
look-ups of all names, and through definitions only in a frame that was opened for them. It goes
through terms if it goes through the primitives and these terms mention no other names
(`Correspondence.stepBy`).

The second of the two computations may be a family, of which the members differ in fuel.
-/

set_option autoImplicit false

namespace Dynascope

variable {α β γ δ : Type}

/-- How a computation ended, and the session that it left behind. -/
abbrev Result (α : Type) : Type :=
  Outcome RuntimeError α × Session

/-! ## Sequences of computations -/

section

variable {m : Run α} {next : α → Run β} {s s' : Session}

theorem bind_of_value {a : α} (h : m s = (.value a, s')) : (m >>= next) s = next a s' := by
  show Run.andThen m next s = _
  rw [Run.andThen, h]

theorem bind_of_failure {e : RuntimeError} (h : m s = (.failure e, s')) :
    (m >>= next) s = (.failure e, s') := by
  show Run.andThen m next s = _
  rw [Run.andThen, h]

theorem bind_of_outOfFuel (h : m s = (.outOfFuel, s')) : (m >>= next) s = (.outOfFuel, s') := by
  show Run.andThen m next s = _
  rw [Run.andThen, h]

theorem outOfFuel_bind (h : (m s).1 = .outOfFuel) : ((m >>= next) s).1 = .outOfFuel := by
  rcases hm : m s with ⟨o, t⟩
  rw [hm] at h
  cases h
  rw [bind_of_outOfFuel hm]

theorem run_bind_assoc (m : Run α) (n : α → Run β) (l : β → Run γ) :
    m >>= n >>= l = m >>= fun a => n a >>= l := by
  funext s
  rcases hm : m s with ⟨o, s'⟩
  cases o with
  | value a =>
    rw [bind_of_value hm]
    rcases hn : n a s' with ⟨o, t⟩
    cases o with
    | value b => rw [bind_of_value ((bind_of_value hm).trans hn), bind_of_value hn]
    | failure e => rw [bind_of_failure ((bind_of_value hm).trans hn), bind_of_failure hn]
    | outOfFuel => rw [bind_of_outOfFuel ((bind_of_value hm).trans hn), bind_of_outOfFuel hn]
  | failure e => rw [bind_of_failure hm, bind_of_failure (bind_of_failure hm)]
  | outOfFuel => rw [bind_of_outOfFuel hm, bind_of_outOfFuel (bind_of_outOfFuel hm)]

theorem run_id_map (m : Run α) : id <$> m = m := by
  funext s
  show (m >>= fun a => pure a) s = m s
  rcases hm : m s with ⟨o, s'⟩
  cases o with
  | value a => rw [bind_of_value hm]; rfl
  | failure e => rw [bind_of_failure hm]
  | outOfFuel => rw [bind_of_outOfFuel hm]

end

instance : LawfulMonad Run :=
  .mk' Run run_id_map (fun _ _ => rfl) run_bind_assoc

theorem onOwnStack_eq (r : Run Value) : r.onOwnStack = r := by
  funext s
  unfold Run.onOwnStack
  split <;> rfl

/-- The value of a name, or the error that it has none. -/
def Run.lookup (name : String) : Run Value := do
  Run.ofExcept (← Run.read (·.scope.lookup name))

/-- A computation as one more active call, if the limit allows one. -/
def Run.asCall (name : String) (args : Nat) (r : Run Value) : Run Value := do
  match ← Run.read (·.exceeded?) with
  | some limit => Run.fail (.callDepthExceeded limit)
  | none =>
    Run.update fun s => s.note (.called name args s.callDepth)
    r.inCall

section

variable (name : String) (args : Nat) (m : Run Value) {s : Session}

theorem asCall_of_room (h : s.exceeded? = none) :
    m.asCall name args s = m.inCall (s.note (.called name args s.callDepth)) := by
  have hr : Run.read (·.exceeded?) s = (.value none, s) := by rw [Run.read, h]
  exact bind_of_value hr

theorem asCall_of_exceeded {limit : Nat} (h : s.exceeded? = some limit) :
    m.asCall name args s = (.failure (.callDepthExceeded limit), s) := by
  have hr : Run.read (·.exceeded?) s = (.value (some limit), s) := by rw [Run.read, h]
  exact bind_of_value hr

end

theorem lookup_session (name : String) (s : Session) : (Run.lookup name s).2 = s := by
  show (Run.ofExcept (s.scope.lookup name) s).2 = s
  cases s.scope.lookup name <;> rfl

theorem writeLine_session (text : String) (s : Session) :
    (Run.writeLine text s).2 = (s.write (text ++ "\n")).1 := by
  unfold Run.writeLine
  obtain ⟨t, _ | _⟩ := s.write (text ++ "\n") <;> rfl

theorem Closure.call_eq (ev : Term → Run Value) (name : String) (c : Closure) (args : List Value) :
    c.call ev name args =
      if c.params.length ≠ args.length then
        Run.fail (.arityMismatch name c.params.length args.length)
      else
        Run.asCall name args.length
          (Run.inFrame (do Run.update (bindParams c.params args); ev c.body)) := by
  unfold Closure.call
  simp only [onOwnStack_eq]
  rfl

/-! ## Related values and terms -/

/-- The same way to end, with related values. -/
inductive Outcome.Related {ε : Type} (V : α → β → Prop) : Outcome ε α → Outcome ε β → Prop
  | value {a : α} {b : β} : V a b → Related V (.value a) (.value b)
  | failure (e : ε) : Related V (.failure e) (.failure e)
  | outOfFuel : Related V .outOfFuel .outOfFuel

theorem Outcome.Related.refl {ε : Type} {V : α → α → Prop} (hV : ∀ a, V a a) (o : Outcome ε α) :
    o.Related V o := by
  cases o with
  | value a => exact .value (hV a)
  | failure e => exact .failure e
  | outOfFuel => exact .outOfFuel

theorem Outcome.Related.imp {ε : Type} {V W : α → β → Prop} (hVW : ∀ a b, V a b → W a b)
    {o : Outcome ε α} {o' : Outcome ε β} (h : o.Related V o') : o.Related W o' := by
  cases h with
  | value hv => exact .value (hVW _ _ hv)
  | failure e => exact .failure e
  | outOfFuel => exact .outOfFuel

theorem Outcome.Related.outOfFuel_iff {ε : Type} {V : α → β → Prop} {o : Outcome ε α}
    {o' : Outcome ε β} (h : o.Related V o') : o = .outOfFuel ↔ o' = .outOfFuel := by
  cases h <;> simp

theorem Outcome.Related.eq {ε : Type} {o o' : Outcome ε α} (h : o.Related Eq o') : o = o' := by
  cases h with
  | value h => rw [h]
  | _ => rfl

/-- Equal values, except for the identities and the bodies of closures. -/
inductive Value.Related (ids : Nat → Nat → Prop) (bodies : Term → Term → Prop) :
    Value → Value → Prop
  | int (n : Int64) : Related ids bodies (.int n) (.int n)
  | builtin (b : Builtin) : Related ids bodies (.builtin b) (.builtin b)
  | none : Related ids bodies .none .none
  | closure {id id' : Nat} {params : List String} {body body' : Term} :
      ids id id' → bodies body body' →
      Related ids bodies (.closure ⟨id, params, body⟩) (.closure ⟨id', params, body'⟩)

theorem Value.Related.refl (v : Value) : v.Related Eq Eq v := by
  cases v with
  | int n => exact .int n
  | closure c => exact .closure rfl rfl
  | builtin b => exact .builtin b
  | none => exact .none

theorem Value.Related.eq {v w : Value} (h : v.Related Eq Eq w) : v = w := by
  cases h with
  | closure hid hb => rw [hid, hb]
  | _ => rfl

theorem Value.related_eq : Value.Related Eq Eq = Eq := by
  funext v w
  exact propext ⟨Related.eq, fun h => h ▸ .refl v⟩

/-- Functions applied to the identity and to the body of a closure. -/
def Value.mapClosure (i : Nat → Nat) (f : Term → Term) : Value → Value
  | .closure c => .closure ⟨i c.id, c.params, f c.body⟩
  | v => v

/-- Values are related by functions if these make them equal. -/
theorem Value.related_iff_mapClosure (i : Nat → Nat) (f : Term → Term) {v w : Value} :
    v.Related (fun a b => i a = i b) (fun t u => f t = f u) w ↔
      v.mapClosure i f = w.mapClosure i f := by
  constructor
  · rintro (_ | _ | _ | ⟨hi, hf⟩)
    · rfl
    · rfl
    · rfl
    · simp only [mapClosure, hi, hf]
  · intro h
    cases v with
    | closure c =>
      cases w with
      | closure d =>
        obtain ⟨id, params, body⟩ := c
        obtain ⟨id', params', body'⟩ := d
        obtain ⟨hi, rfl, hf⟩ := Closure.mk.inj (Value.closure.inj h)
        exact .closure hi hf
      | _ => cases h
    | int n =>
      cases w <;> cases h
      exact .int n
    | builtin b =>
      cases w <;> cases h
      exact .builtin b
    | none =>
      cases w <;> cases h
      exact .none

namespace Value.Related

variable {ids : Nat → Nat → Prop} {bodies : Term → Term → Prop} {v w : Value}
variable (h : v.Related ids bodies w)
include h

theorem toInt : v.toInt = w.toInt := by
  cases h <;> rfl

theorem isTrue : v.isTrue = w.isTrue := by
  cases h <;> rfl

theorem text : v.text = w.text := by
  cases h <;> rfl

end Value.Related

/-- The same construct, with related parts. -/
inductive Term.PartsRelated (R : Term → Term → Prop) : Term → Term → Prop
  | number {span span' : Span} (n : Int64) : PartsRelated R (.number span n) (.number span' n)
  | paren {span span' : Span} {t t' : Term} : R t t' →
      PartsRelated R (.paren span t) (.paren span' t')
  | arith {span span' : Span} (op : ArithOp) {l l' r r' : Term} : R l l' → R r r' →
      PartsRelated R (.arith span op l r) (.arith span' op l' r')
  | compare {span span' : Span} (op : CmpOp) {l l' r r' : Term} : R l l' → R r r' →
      PartsRelated R (.compare span op l r) (.compare span' op l' r')
  | assign {span span' : Span} (name : String) {v v' : Term} : R v v' →
      PartsRelated R (.assign span name v) (.assign span' name v')
  | var {span span' : Span} (name : String) : PartsRelated R (.var span name) (.var span' name)
  | block {span span' : Span} {body body' : List Term} : List.Forall₂ R body body' →
      PartsRelated R (.block span body) (.block span' body')
  | branch {span span' thenSpan thenSpan' : Span} {c c' e e' : Term} {body body' : List Term} :
      R c c' → List.Forall₂ R body body' → R e e' →
      PartsRelated R (.branch span c thenSpan body e) (.branch span' c' thenSpan' body' e')
  | whileLoop {span span' bodySpan bodySpan' : Span} {c c' : Term} {body body' : List Term} :
      R c c' → List.Forall₂ R body body' →
      PartsRelated R (.whileLoop span c bodySpan body) (.whileLoop span' c' bodySpan' body')
  | forLoop {span span' bodySpan bodySpan' : Span} (name : String) {first first' : Option Term}
      {limit limit' : Term} {body body' : List Term} :
      Option.Rel R first first' → R limit limit' → List.Forall₂ R body body' →
      PartsRelated R (.forLoop span name first limit bodySpan body)
        (.forLoop span' name first' limit' bodySpan' body')
  | lambda {span span' : Span} (params : List String) {body body' : Term} : R body body' →
      PartsRelated R (.lambda span params body) (.lambda span' params body')
  | call {span span' : Span} (name : String) {args args' : List Term} :
      List.Forall₂ R args args' → PartsRelated R (.call span name args) (.call span' name args')

theorem Term.PartsRelated.of_refl {R : Term → Term → Prop} (h : ∀ t, R t t) (t : Term) :
    t.PartsRelated R t := by
  have hs : ∀ ts, List.Forall₂ R ts ts := fun ts => List.forall₂_same.2 fun t _ => h t
  cases t with
  | number span n => exact .number n
  | paren span inner => exact .paren (h _)
  | arith span op l r => exact .arith op (h _) (h _)
  | compare span op l r => exact .compare op (h _) (h _)
  | assign span name value => exact .assign name (h _)
  | var span name => exact .var name
  | block span body => exact .block (hs _)
  | branch span cond thenSpan body orElse => exact .branch (h _) (hs _) (h _)
  | whileLoop span cond bodySpan body => exact .whileLoop (h _) (hs _)
  | forLoop span name first limit bodySpan body =>
    refine .forLoop name ?_ (h _) (hs _)
    cases first with
    | none => exact .none
    | some t => exact .some (h t)
  | lambda span params body => exact .lambda params (h _)
  | call span name args => exact .call name (hs _)

/-- The name that a term looks up or assigns, apart from its parts. -/
def Term.mentioned? : Term → Option String
  | .assign _ name _ | .var _ name | .call _ name _ => some name
  | _ => none

/-! ## Correspondences -/

/-- A relation between computations and families of computations, for each relation between their
values, that goes through the steps of evaluation other than its primitives. Closures are compared
by `ids` and `bodies`. -/
structure Correspondence (ι : Type) where
  /-- The first computation and those of the family are related, and so are their values. -/
  Rel {α β : Type} : (α → β → Prop) → Run α → (ι → Run β) → Prop
  /-- The same of computations in a frame that was opened for them. -/
  Own {α β : Type} : (α → β → Prop) → Run α → (ι → Run β) → Prop
  ids : Nat → Nat → Prop
  bodies : Term → Term → Prop
  /-- The names that can be looked up. -/
  names : String → Prop
  ret {α β : Type} {V : α → β → Prop} {a : α} {b : β} : V a b → Rel V (pure a) fun _ => pure b
  fail {α β : Type} {V : α → β → Prop} (e : RuntimeError) :
    Rel V (Run.fail e) fun _ => Run.fail e
  bind {α β γ δ : Type} {V : α → β → Prop} {W : γ → δ → Prop} {m : Run α} {M : ι → Run β}
    {next : α → Run γ} {Next : ι → β → Run δ} :
    Rel V m M → (∀ a b, V a b → Rel W (next a) fun k => Next k b) →
    Rel W (m >>= next) fun k => M k >>= Next k
  own {α β : Type} {V : α → β → Prop} {m : Run α} {M : ι → Run β} : Rel V m M → Own V m M
  ownBind {α β γ δ : Type} {V : α → β → Prop} {W : γ → δ → Prop} {m : Run α} {M : ι → Run β}
    {next : α → Run γ} {Next : ι → β → Run δ} :
    Own V m M → (∀ a b, V a b → Own W (next a) fun k => Next k b) →
    Own W (m >>= next) fun k => M k >>= Next k
  inFrame {α β : Type} {V : α → β → Prop} {m : Run α} {M : ι → Run β} :
    Own V m M → Rel V m.inFrame fun k => (M k).inFrame
  asCall {V : Value → Value → Prop} (name : String) (args : Nat) {m : Run Value}
    {M : ι → Run Value} :
    Rel V m M → Rel V (m.asCall name args) fun k => (M k).asCall name args
  lookup (name : String) : names name →
    Rel (Value.Related ids bodies) (Run.lookup name) fun _ => Run.lookup name
  define (name : String) {v w : Value} : v.Related ids bodies w →
    Own (fun _ _ => True) (Run.update (·.define name v)) fun _ => Run.update (·.define name w)
  freshClosure : Rel ids Run.freshClosure fun _ => Run.freshClosure
  writeLine (text : String) :
    Rel (fun _ _ => True) (Run.writeLine text) fun _ => Run.writeLine text

namespace Correspondence

variable {ι : Type} (C : Correspondence ι)

/-- Values that the correspondence takes for equal. -/
abbrev Same : Value → Value → Prop :=
  Value.Related C.ids C.bodies

/-- Where the correspondence takes two terms for equal, it holds between their evaluations. -/
def Follows (ev : Term → Run Value) (EV : ι → Term → Run Value) : Prop :=
  ∀ t u, C.bodies t u → C.Rel C.Same (ev t) fun k => EV k u

/-- The correspondence goes through loops, of which one has `fuel` rounds. -/
def Rounds (fuel : Nat) (rounds : ι → Nat) : Prop :=
  ∀ {cond : Run Bool} {Cond : ι → Run Bool} {body : Run Value} {Body : ι → Run Value}
    {last last' : Option Value}, C.Rel Eq cond Cond → C.Rel C.Same body Body →
    Option.Rel C.Same last last' →
    C.Rel C.Same (whileRounds cond body fuel last)
      fun k => whileRounds (Cond k) (Body k) (rounds k) last'

/-- The correspondence goes through primitives. -/
structure Handles (P Q : Primitives) : Prop where
  stack : C.Rel C.Same P.stack fun _ => Q.stack
  assign (name : String) {v w : Value} : C.names name → C.Same v w →
    C.Rel (fun _ _ => True) (P.assign name v) fun _ => Q.assign name w

variable {C}

theorem ofExcept (r : Except RuntimeError α) :
    C.Rel Eq (Run.ofExcept r) fun _ => Run.ofExcept r := by
  cases r with
  | ok a => exact C.ret rfl
  | error e => exact C.fail e

theorem lookupThen {V : α → β → Prop} {name : String} (hx : C.names name)
    {next : Value → Run α} {Next : ι → Value → Run β}
    (hn : ∀ v w, C.Same v w → C.Rel V (next v) fun k => Next k w) :
    C.Rel V (do next (← Run.ofExcept (← Run.read (·.scope.lookup name))))
      fun k => (do Next k (← Run.ofExcept (← Run.read (·.scope.lookup name)))) := by
  have h := C.bind (C.lookup name hx) hn
  simpa only [Run.lookup, bind_assoc] using h

theorem Rounds.succ {fuel : Nat} {rounds : ι → Nat} (h : C.Rounds fuel rounds) :
    C.Rounds (fuel + 1) fun k => rounds k + 1 := by
  intro cond Cond body Body last last' hc hb hl
  refine C.bind hc fun c c' hcc => ?_
  subst hcc
  cases c with
  | true => exact C.bind hb fun v w hv => h hc hb (.some hv)
  | false =>
    cases hl with
    | none => exact C.fail _
    | some hv => exact C.ret hv

/-- Loops with the same number of rounds. -/
theorem Rounds.const (h : C.Rel C.Same Run.outOfFuel fun _ => Run.outOfFuel) (fuel : Nat) :
    C.Rounds fuel fun _ => fuel := by
  induction fuel with
  | zero => exact fun _ _ _ => h
  | succ fuel ih => exact ih.succ

theorem forRounds {body : Run Value} {Body : ι → Run Value} (hb : C.Rel C.Same body Body)
    (name : String) (count : Nat) (i : Int64) {v w : Value} (hv : C.Same v w) :
    C.Own C.Same (forRounds name body count i v)
      fun k => Dynascope.forRounds name (Body k) count i w := by
  induction count generalizing i v w with
  | zero => exact C.own (C.ret hv)
  | succ count ih =>
    exact C.ownBind (C.define name (.int i)) fun _ _ _ =>
      C.ownBind (C.own hb) fun v w hv => ih _ hv

theorem bindParams (params : List String) {vs ws : List Value} (hv : List.Forall₂ C.Same vs ws) :
    C.Own (fun _ _ => True) (Run.update (bindParams params vs))
      fun _ => Run.update (Dynascope.bindParams params ws) := by
  induction params generalizing vs ws with
  | nil => exact C.own (C.ret trivial)
  | cons p ps ih =>
    cases hv with
    | nil => exact C.own (C.ret trivial)
    | cons hv hvs => exact C.ownBind (C.define p hv) fun _ _ _ => ih hvs

theorem callBuiltin {P Q : Primitives} (hP : C.Handles P Q) (b : Builtin) {vs ws : List Value}
    (hv : List.Forall₂ C.Same vs ws) : C.Rel C.Same (b.callBy P vs) fun _ => b.callBy Q ws := by
  cases hv with
  | nil =>
    cases b with
    | stack => exact hP.stack
    | print | prime => exact C.fail _
  | @cons v w vs ws hv hvs =>
    cases hvs with
    | nil =>
      cases b with
      | print =>
        show C.Rel C.Same (do Run.writeLine v.text; pure v)
          fun _ => (do Run.writeLine w.text; pure w)
        rw [hv.text]
        exact C.bind (C.writeLine _) fun _ _ _ => C.ret hv
      | stack => exact C.fail _
      | prime =>
        show C.Rel C.Same (do pure (Value.ofRelation (isPrime (← Run.ofExcept v.toInt))))
          fun _ => (do pure (Value.ofRelation (isPrime (← Run.ofExcept w.toInt))))
        rw [hv.toInt]
        refine C.bind (ofExcept _) fun m n hn => ?_
        subst hn
        exact C.ret (.int _)
    | @cons _ _ vs ws _ hvs =>
      have hl : vs.length = ws.length := hvs.length_eq
      cases b <;> simp only [Builtin.callBy, Builtin.call, List.length_cons, hl] <;>
        exact C.fail _

section

variable {ev : Term → Run Value} {EV : ι → Term → Run Value} (h : C.Follows ev EV)
include h

theorem evalInt {t u : Term} (e : C.bodies t u) :
    C.Rel Eq (evalInt ev t) fun k => Dynascope.evalInt (EV k) u :=
  C.bind (h t u e) fun _ _ hv => hv.toInt ▸ ofExcept _

theorem isTrue {t u : Term} (e : C.bodies t u) :
    C.Rel Eq (do Run.ofExcept (← ev t).isTrue) fun k => (do Run.ofExcept (← EV k u).isTrue) :=
  C.bind (h t u e) fun _ _ hv => hv.isTrue ▸ ofExcept _

theorem evalAll {ts us : List Term} (e : List.Forall₂ C.bodies ts us) {v w : Value}
    (hv : C.Same v w) : C.Rel C.Same (evalAll ev v ts) fun k => Dynascope.evalAll (EV k) w us := by
  induction e generalizing v w with
  | nil => exact C.ret hv
  | cons e _ ih => exact C.bind (h _ _ e) fun _ _ hv => ih hv

theorem evalArgs {ts us : List Term} (e : List.Forall₂ C.bodies ts us) :
    C.Rel (List.Forall₂ C.Same) (evalArgs ev ts) fun k => Dynascope.evalArgs (EV k) us := by
  induction e with
  | nil => exact C.ret .nil
  | cons e _ ih =>
    exact C.bind (h _ _ e) fun v w hv => C.bind ih fun vs ws hvs => C.ret (.cons hv hvs)

theorem evalBlock {ts us : List Term} (e : List.Forall₂ C.bodies ts us) :
    C.Rel C.Same (evalBlock ev ts) fun k => Dynascope.evalBlock (EV k) us :=
  C.inFrame (C.own (evalAll h e .none))

theorem callValue {P Q : Primitives} (hP : C.Handles P Q) (name : String) {v w : Value}
    (hvw : C.Same v w) {vs ws : List Value} (hv : List.Forall₂ C.Same vs ws) :
    C.Rel C.Same (v.callBy P ev name vs) fun k => w.callBy Q (EV k) name ws := by
  cases hvw with
  | int | none => exact C.fail _
  | builtin b => exact callBuiltin hP b hv
  | @closure id id' params body body' _ hb =>
    have hl : vs.length = ws.length := hv.length_eq
    simp only [Value.callBy, Value.call, Closure.call_eq, hl]
    split
    · exact C.fail _
    · exact C.asCall _ _ (C.inFrame
        (C.ownBind (bindParams params hv) fun _ _ _ => C.own (h _ _ hb)))

theorem evalFirst {first first' : Option Term} (e : Option.Rel C.bodies first first') :
    C.Rel Eq (evalFirst ev first) fun k => Dynascope.evalFirst (EV k) first' := by
  cases e with
  | none => exact C.ret rfl
  | some e => exact evalInt h e

/-- Where a correspondence holds between the evaluations of the parts of terms, it holds between
those of the terms, if it goes through the primitives and the terms mention its names only. -/
theorem stepBy {P Q : Primitives} (hP : C.Handles P Q) {fuel : Nat} {rounds : ι → Nat}
    (hr : C.Rounds fuel rounds) {t u : Term} (e : t.PartsRelated C.bodies u)
    (hx : ∀ x ∈ t.mentioned?, C.names x) :
    C.Rel C.Same (t.stepBy P fuel ev) fun k => u.stepBy Q (rounds k) (EV k) := by
  cases e with
  | number n => exact C.ret (.int n)
  | paren e => exact h _ _ e
  | arith op hl hr =>
    refine C.bind (evalInt h hl) fun a b hab => C.bind (evalInt h hr) fun c d hcd => ?_
    subst hab hcd
    cases op.apply a c with
    | ok n => exact C.ret (.int n)
    | error e => exact C.fail _
  | compare op hl hr =>
    refine C.bind (evalInt h hl) fun a b hab => C.bind (evalInt h hr) fun c d hcd => ?_
    subst hab hcd
    exact C.ret (.int _)
  | assign name hv =>
    exact C.bind (h _ _ hv) fun v w hvw =>
      C.bind (hP.assign name (hx name rfl) hvw) fun _ _ _ => C.ret hvw
  | var name => exact C.lookup name (hx name rfl)
  | block hb => exact evalBlock h hb
  | branch hc hb ho =>
    refine C.bind (h _ _ hc) fun v w hvw => ?_
    rw [hvw.isTrue]
    refine C.bind (ofExcept _) fun b b' hbb => ?_
    subst hbb
    cases b with
    | false => exact h _ _ ho
    | true => exact evalBlock h hb
  | whileLoop hc hb => exact hr (isTrue h hc) (evalBlock h hb) .none
  | forLoop name hf hl hb =>
    refine C.bind (evalFirst h hf) fun a b hab => C.bind (evalInt h hl) fun c d hcd => ?_
    subst hab hcd
    by_cases hlt : c ≤ a
    · simp only [if_pos hlt]
      exact C.fail _
    · simp only [if_neg hlt]
      exact C.inFrame (forRounds (evalBlock h hb) name _ a .none)
  | lambda params hb =>
    exact C.bind C.freshClosure fun id id' hid => C.ret (.closure hid hb)
  | call name ha =>
    refine lookupThen (hx name rfl) fun v w hvw => ?_
    exact C.bind (evalArgs h ha) fun vs ws hvs => callValue h hP name hvw hvs

end

/-! ### Runs with the same fuel -/

section

variable {P Q : Primitives} (hP : C.Handles P Q)
  (ho : C.Rel C.Same Run.outOfFuel fun _ => Run.outOfFuel)
  (hb : ∀ t u, C.bodies t u → t.PartsRelated C.bodies u ∧ ∀ x ∈ t.mentioned?, C.names x)
include hP ho hb

theorem follows (fuel : Nat) : C.Follows (Term.evalBy P fuel) fun _ => Term.evalBy Q fuel := by
  induction fuel with
  | zero => exact fun _ _ _ => ho
  | succ fuel ih =>
    intro t u e
    exact stepBy ih hP (Rounds.const ho fuel) (hb t u e).1 (hb t u e).2

/-- A correspondence holds between programs with corresponding statements, if corresponding terms
have corresponding parts and mention its names only. -/
theorem runBy (fuel : Nat) {p q : Program} (e : List.Forall₂ C.bodies p.statements q.statements) :
    C.Rel C.Same (p.runBy P fuel) fun _ => q.runBy Q fuel :=
  evalAll (follows hP ho hb fuel) e .none

end

end Correspondence

/-! ## Comparisons -/

/-- A relation between computations and families of computations, for each relation between their
values, that goes through the steps of evaluation. Closures are compared by `ids` and `bodies`. -/
structure Comparison (ι : Type) where
  /-- The first computation and those of the family are related, and so are their values. -/
  Rel {α β : Type} : (α → β → Prop) → Run α → (ι → Run β) → Prop
  ids : Nat → Nat → Prop
  bodies : Term → Term → Prop
  ret {α β : Type} {V : α → β → Prop} {a : α} {b : β} : V a b → Rel V (pure a) fun _ => pure b
  fail {α β : Type} {V : α → β → Prop} (e : RuntimeError) :
    Rel V (Run.fail e) fun _ => Run.fail e
  bind {α β γ δ : Type} {V : α → β → Prop} {W : γ → δ → Prop} {m : Run α} {M : ι → Run β}
    {next : α → Run γ} {Next : ι → β → Run δ} :
    Rel V m M → (∀ a b, V a b → Rel W (next a) fun k => Next k b) →
    Rel W (m >>= next) fun k => M k >>= Next k
  inFrame {α β : Type} {V : α → β → Prop} {m : Run α} {M : ι → Run β} :
    Rel V m M → Rel V m.inFrame fun k => (M k).inFrame
  asCall {V : Value → Value → Prop} (name : String) (args : Nat) {m : Run Value}
    {M : ι → Run Value} :
    Rel V m M → Rel V (m.asCall name args) fun k => (M k).asCall name args
  lookup (name : String) :
    Rel (Value.Related ids bodies) (Run.lookup name) fun _ => Run.lookup name
  define (name : String) {v w : Value} : v.Related ids bodies w →
    Rel (fun _ _ => True) (Run.update (·.define name v)) fun _ => Run.update (·.define name w)
  assign (name : String) {v w : Value} : v.Related ids bodies w →
    Rel (fun _ _ => True) (Run.update (·.assign name v)) fun _ => Run.update (·.assign name w)
  freshClosure : Rel ids Run.freshClosure fun _ => Run.freshClosure
  scopeText : Rel Eq (Run.read (·.scope.text)) fun _ => Run.read (·.scope.text)
  writeLine (text : String) :
    Rel (fun _ _ => True) (Run.writeLine text) fun _ => Run.writeLine text

namespace Comparison

variable {ι : Type} (C : Comparison ι)

/-- Values that the comparison takes for equal. -/
abbrev Same : Value → Value → Prop :=
  Value.Related C.ids C.bodies

/-- Where the comparison takes two terms for equal, it holds between their evaluations. -/
def Follows (ev : Term → Run Value) (EV : ι → Term → Run Value) : Prop :=
  ∀ t u, C.bodies t u → C.Rel C.Same (ev t) fun k => EV k u

/-- The comparison goes through loops, of which one has `fuel` rounds. -/
def Rounds (fuel : Nat) (rounds : ι → Nat) : Prop :=
  ∀ {cond : Run Bool} {Cond : ι → Run Bool} {body : Run Value} {Body : ι → Run Value}
    {last last' : Option Value}, C.Rel Eq cond Cond → C.Rel C.Same body Body →
    Option.Rel C.Same last last' →
    C.Rel C.Same (whileRounds cond body fuel last)
      fun k => whileRounds (Cond k) (Body k) (rounds k) last'

variable {C}

/-- A comparison is a correspondence that goes through the primitives of the language. -/
def toCorrespondence (C : Comparison ι) : Correspondence ι where
  Rel := C.Rel
  Own := C.Rel
  ids := C.ids
  bodies := C.bodies
  names _ := True
  ret := C.ret
  fail := C.fail
  bind := C.bind
  own := id
  ownBind := C.bind
  inFrame := C.inFrame
  asCall := C.asCall
  lookup name _ := C.lookup name
  define := C.define
  freshClosure := C.freshClosure
  writeLine := C.writeLine

theorem handles (C : Comparison ι) : C.toCorrespondence.Handles .standard .standard where
  stack := by
    refine C.bind C.scopeText fun text text' ht => ?_
    subst ht
    exact C.bind (C.writeLine _) fun _ _ _ => C.ret .none
  assign name _ _ _ hvw := C.assign name hvw

theorem Rounds.succ {fuel : Nat} {rounds : ι → Nat} (h : C.Rounds fuel rounds) :
    C.Rounds (fuel + 1) fun k => rounds k + 1 :=
  Correspondence.Rounds.succ (C := C.toCorrespondence) h

/-- Loops with the same number of rounds. -/
theorem Rounds.const (h : C.Rel C.Same Run.outOfFuel fun _ => Run.outOfFuel) (fuel : Nat) :
    C.Rounds fuel fun _ => fuel :=
  Correspondence.Rounds.const (C := C.toCorrespondence) h fuel

section

variable {ev : Term → Run Value} {EV : ι → Term → Run Value} (h : C.Follows ev EV)
include h

theorem evalInt {t u : Term} (e : C.bodies t u) :
    C.Rel Eq (evalInt ev t) fun k => Dynascope.evalInt (EV k) u :=
  Correspondence.evalInt (C := C.toCorrespondence) h e

theorem evalAll {ts us : List Term} (e : List.Forall₂ C.bodies ts us) {v w : Value}
    (hv : C.Same v w) : C.Rel C.Same (evalAll ev v ts) fun k => Dynascope.evalAll (EV k) w us :=
  Correspondence.evalAll (C := C.toCorrespondence) h e hv

/-- Where a comparison holds between the evaluations of the parts of terms, it holds between those
of the terms. -/
theorem evalWith {fuel : Nat} {rounds : ι → Nat} (hr : C.Rounds fuel rounds) {t u : Term}
    (e : t.PartsRelated C.bodies u) :
    C.Rel C.Same (t.evalWith fuel ev) fun k => u.evalWith (rounds k) (EV k) := by
  have h := Correspondence.stepBy (C := C.toCorrespondence) h C.handles hr e fun _ _ => trivial
  simp only [Term.stepBy_standard] at h
  exact h

end

/-! ## One evaluator in two sessions -/

section

variable {C : Comparison Unit} (hb : C.bodies = Eq)
  (ho : C.Rel C.Same Run.outOfFuel fun _ => Run.outOfFuel)
include hb ho

theorem follows_self (fuel : Nat) : C.Follows (Term.eval fuel) fun _ => Term.eval fuel := by
  induction fuel with
  | zero => exact fun _ _ _ => ho
  | succ fuel ih =>
    intro t u e
    rw [hb] at e
    subst e
    exact evalWith ih (Rounds.const ho fuel) (.of_refl (fun _ => hb ▸ rfl) t)

/-- Where a comparison takes a term for equal to itself only, it holds between a program and
itself. -/
theorem run_self (fuel : Nat) (p : Program) : C.Rel C.Same (p.run fuel) fun _ => p.run fuel :=
  evalAll (follows_self hb ho fuel) (List.forall₂_same.2 fun _ _ => hb ▸ rfl) .none

end

end Comparison

end Dynascope
