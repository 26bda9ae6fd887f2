import Dynascope.Proofs.ParserSound

/-! # Every program of the grammar is accepted, and no other

`Leads s ls s'`: over the tokens `ls`, the parser gets from `s` at least as far as `s'`, so that
every text that completes a program from `s'` completes the same program from `s` after `ls`.
`Derives.reads` says for each category over which states its phrases lead; for a whole program
that is `read?_of_derives`.

A derivation does not say which token comes after a phrase, but the state after the phrase does:
whatever a state after an expression goes on with ends the expression or is an operator
(`fill?_token`). So the state before an optional rest leads to the state without one.

Together with the other direction (`derives_of_parse`) the parser decides the grammar:
`parse_eq_ok_iff_derives`.
-/

set_option autoImplicit false

namespace Dynascope.Parser

open Grammar

/-! ## Completing a program -/

/-- The program that is complete after the tokens, if none of them is refused. -/
def State.read? (s : State) : List Lexeme → Option Program
  | [] => s.finish?
  | l :: rest => (s.step l).bind (·.read? rest)

theorem run_eq_ok_iff {s : State} {ls : List Lexeme} {p : Program} :
    (∃ s', s.run ls = .ok s' ∧ s'.finish? = some p) ↔ s.read? ls = some p := by
  induction ls generalizing s with
  | nil => simp [State.run, State.read?]
  | cons l rest ih =>
    rw [State.run, State.read?]
    cases s.step l with
    | none => simp
    | some next => simpa using ih

theorem parse_eq_ok_iff {ls : List Lexeme} {p : Program} :
    parse ls = .ok p ↔ State.initial.read? ls = some p := by
  rw [← run_eq_ok_iff, parse]
  cases State.initial.run ls with
  | error e => simp
  | ok s => cases h : s.finish? <;> simp [h]

/-- Over the tokens `ls`, the parser gets from `s` at least as far as `s'`. -/
def Leads (s : State) (ls : List Lexeme) (s' : State) : Prop :=
  ∀ rest p, s'.read? rest = some p → s.read? (ls ++ rest) = some p

namespace Leads

variable {s s₁ s₂ : State} {l : Lexeme} {xs ys : List Lexeme}

theorem refl (s : State) : Leads s [] s := fun _ _ h => h

theorem append (h₁ : Leads s xs s₁) (h₂ : Leads s₁ ys s₂) : Leads s (xs ++ ys) s₂ := by
  intro rest p h
  rw [List.append_assoc]
  exact h₁ _ _ (h₂ _ _ h)

theorem step (h : s.step l = some s₁) : Leads s [l] s₁ := by
  intro rest p hp
  simp [State.read?, h, hp]

theorem cons (h : s.step l = some s₁) (h₁ : Leads s₁ xs s₂) : Leads s (l :: xs) s₂ :=
  (step h).append h₁

theorem snoc (h : Leads s xs s₁) (h₁ : s₁.step l = some s₂) : Leads s (xs ++ [l]) s₂ :=
  h.append (step h₁)

theorem before (h₁ : Leads s [] s₁) (h₂ : Leads s₁ ys s₂) : Leads s ys s₂ := h₁.append h₂

theorem after (h₁ : Leads s xs s₁) (h₂ : Leads s₁ [] s₂) : Leads s xs s₂ := by
  simpa using h₁.append h₂

/-- A state leads to one that it can follow in every step. -/
theorem of_step (hf : ∀ p, s₁.finish? = some p → s.finish? = some p)
    (hs : ∀ l s₁', s₁.step l = some s₁' → ∃ s', s.step l = some s' ∧ Leads s' [] s₁') :
    Leads s [] s₁ := by
  intro rest p h
  cases rest with
  | nil => exact hf p h
  | cons l rest =>
    obtain ⟨s₁', h₁, h₂⟩ := Option.bind_eq_some_iff.1 h
    obtain ⟨s', hs', hl⟩ := hs l s₁' h₁
    simpa [State.read?, hs'] using hl rest p h₂

end Leads

/-! ## After an expression -/

/-- The tokens that can follow a whole expression. -/
theorem fill?_token {ctx : Context} {t : Term} {l : Lexeme} {s : State}
    (h : ctx.fill? t l = some s) :
    l.token = .semi ∨ l.token = .rbrace ∨ l.token = .rparen ∨ l.token = .comma ∨
      l.token = .lbrace := by
  induction ctx generalizing t with
  | value _ _ _ ih | lambdaBody _ _ _ ih | orElse _ _ _ _ _ ih => exact ih h
  | program | block | paren | args | ifCond | whileCond | firstBound | secondBound =>
    simp only [Context.fill?] at h
    split at h <;> simp_all

theorem fill?_not_operator {ctx : Context} {t : Term} {l : Lexeme} {s : State}
    (h : ctx.fill? t l = some s) : operator? l.token = none := by
  rcases fill?_token h with h | h | h | h | h <;> rw [h] <;> rfl

/-- What an operand can be followed by goes on a name as well. -/
theorem afterOperand?_token {ctx : Context} {pending : Pending} {t : Term} {l : Lexeme}
    {s : State} (h : afterOperand? ctx pending t l = some s) :
    l.token ≠ .assign ∧ l.token ≠ .lparen := by
  unfold afterOperand? at h
  split at h
  · rename_i op hop
    constructor <;> intro e <;> simp [e, operator?] at hop
  · rcases fill?_token h with h | h | h | h | h <;> simp [h]

theorem named_leads (ctx : Context) (pending : Pending) (assignable : Bool) (span : Span)
    (name : String) : Leads (.named ctx pending assignable span name) []
      (.operator ctx pending (.var span name)) := by
  refine .of_step (fun _ h => h) fun l s h => ⟨s, ?_, .refl s⟩
  obtain ⟨h₁, h₂⟩ := afterOperand?_token h
  simp only [State.step]
  split <;> simp_all [State.step]

/-- An operand with the operators that wait for it is the whole expression, where no operator
follows. -/
theorem operator_leads (ctx : Context) (pending : Pending) (t : Term) :
    Leads (.operator ctx pending t) [] (.complete ctx (pending.toComparison t)) := by
  refine .of_step (fun _ h => h) fun l s h => ⟨s, ?_, .refl s⟩
  rw [State.step, afterOperand?, fill?_not_operator h]
  exact h

/-! ## Before an expression -/

/-- A name that can be assigned to can be read as well. -/
theorem assignable_leads (ctx : Context) (span : Span) (name : String) :
    Leads (.named ctx {} true span name) [] (.named ctx {} false span name) := by
  refine .of_step (fun _ h => h) fun l s h => ⟨s, ?_, .refl s⟩
  simp only [State.step] at h ⊢
  split at h
  · contradiction
  · rename_i hl
    simpa [hl] using h
  · rename_i hl
    obtain ⟨h₁, -⟩ := afterOperand?_token h
    split <;> simp_all

theorem startOperand?_leads {ctx : Context} {l : Lexeme} {s : State}
    (h : startOperand? ctx {} false l = some s) :
    ∃ s', startExpression? ctx l = some s' ∧ Leads s' [] s := by
  simp only [startOperand?] at h
  split at h <;> cases h <;> simp_all [startExpression?, startOperand?, Leads.refl]
  exact assignable_leads ctx l.span _

theorem expression_leads (ctx : Context) : Leads (.expression ctx) [] (.operand ctx {}) :=
  .of_step (fun _ h => by cases h) fun _ _ h => startOperand?_leads h

theorem startExpression?_token {ctx : Context} {l : Lexeme} {s : State}
    (h : startExpression? ctx l = some s) :
    l.token ≠ .semi ∧ l.token ≠ .rbrace ∧ l.token ≠ .rparen := by
  refine ⟨?_, ?_, ?_⟩ <;> intro e <;> simp [startExpression?, startOperand?, e] at h

theorem statement_leads (ctx : Context) : Leads (.statement ctx) [] (.expression ctx) := by
  refine .of_step (fun _ h => by cases h) fun l s h => ⟨s, ?_, .refl s⟩
  obtain ⟨h₁, h₂, -⟩ := startExpression?_token h
  simp only [State.step, startStatement?]
  split <;> simp_all [State.step]

theorem argument_leads (ctx : Context) : Leads (.argument ctx) [] (.expression ctx) := by
  refine .of_step (fun _ h => by cases h) fun l s h => ⟨s, ?_, .refl s⟩
  obtain ⟨-, -, h₃⟩ := startExpression?_token h
  simp only [State.step, startArgument?]
  split <;> simp_all [State.step]

/-! ## Operators -/

/-- No token that goes on a product comes next. -/
def NoFactor (rest : List Lexeme) : Prop :=
  ∀ l ∈ rest.head?, ∀ op, operator? l.token ≠ some (.product op)

theorem noFactor_of_complete {ctx : Context} {t : Term} {rest : List Lexeme} {p : Program}
    (h : (State.complete ctx t).read? rest = some p) : NoFactor rest := by
  intro l hl op
  cases rest with
  | nil => cases hl
  | cons x rest =>
    cases Option.some.inj hl
    obtain ⟨s, hs, -⟩ := Option.bind_eq_some_iff.1 h
    simp [fill?_not_operator hs]

theorem noFactor_of_operator? {o : Lexeme} {rest : List Lexeme} {op : Operator}
    (h : operator? o.token = some op) (hp : ∀ op', op ≠ .product op') :
    NoFactor (o :: rest) := by
  intro l hl op' h'
  cases Option.some.inj hl
  rw [h] at h'
  exact hp op' (Option.some.inj h')

theorem operator?_of_sumOp {t : Token} {op : ArithOp} (h : SumOp t op) :
    operator? t = some (.sum op) := by cases h <;> rfl

theorem operator?_of_productOp {t : Token} {op : ArithOp} (h : ProductOp t op) :
    operator? t = some (.product op) := by cases h <;> rfl

theorem operator?_of_relation {t : Token} {op : CmpOp} (h : Relation t op) :
    operator? t = some (.comparison op) := by cases h <;> rfl

/-- An operand with a product pending is the product without one. -/
theorem product_leads (ctx : Context) (pending : Pending) (op : ArithOp) (left right : Term) :
    Leads (.operator ctx { pending with product := some (left, op) } right) []
      (.operator ctx { pending with product := none }
        (.arith (Pending.around left right) op left right)) := by
  refine .of_step (fun _ h => h) fun l s h => ⟨s, ?_, .refl s⟩
  rw [← h]
  simp only [State.step, afterOperand?]
  cases operator? l.token with
  | none => rfl
  | some o => cases o <;> rfl

/-- A product with a sum pending is the sum without one, where no factor follows. -/
theorem sum_leads {ctx : Context} {comparison : Option (Term × CmpOp)} {op : ArithOp}
    {left right : Term} {rest : List Lexeme} {p : Program} (hn : NoFactor rest)
    (h : (State.operator ctx ⟨comparison, none, none⟩
      (.arith (Pending.around left right) op left right)).read? rest = some p) :
    (State.operator ctx ⟨comparison, some (left, op), none⟩ right).read? rest = some p := by
  cases rest with
  | nil => exact h
  | cons l rest =>
    rw [← h]
    simp only [State.read?, State.step, afterOperand?]
    cases ho : operator? l.token with
    | none => rfl
    | some o =>
      cases o with
      | product op' => exact absurd ho (hn l rfl op')
      | sum | comparison => rfl

/-! ## Phrases -/

/-- The context of a sequence, given the statements before the place, the last first. -/
inductive IsSequence : (List Term → Context) → Prop
  | program : IsSequence .program
  | block (role : BlockRole) (start : Nat) (outer : Context) :
      IsSequence fun done => .block role start done outer

/-- Over which states the phrases of a category lead. -/
def Reads : (c : Category) → List Lexeme → c.Value → Prop
  | .program, ls, p => State.initial.read? ls = some p
  | .opened, ls, ts => ∀ k, IsSequence k →
      Leads (.statement (k [])) ls (.statement (k ts.reverse))
  | .closed, ls, ts => ∃ first last, ts = first ++ [last] ∧ ∀ k, IsSequence k →
      Leads (.statement (k [])) ls (.complete (k first.reverse) last)
  | .seq, ls, ts => (∀ k, IsSequence k →
        Leads (.statement (k [])) ls (.statement (k ts.reverse))) ∨
      ∃ first last, ts = first ++ [last] ∧ ∀ k, IsSequence k →
        Leads (.statement (k [])) ls (.complete (k first.reverse) last)
  | .block, ls, b => ∃ l rest, ls = l :: rest ∧ l.token = .lbrace ∧ ∀ role outer,
      Leads (.statement (.block role l.span.start [] outer)) rest
        (closeBlock role b.1 b.2 outer)
  | .expr, ls, t => ∀ ctx : Context, ctx.AnyExpr → Leads (.expression ctx) ls (.complete ctx t)
  | .inline, ls, t => ∀ ctx, Leads (.expression ctx) ls (.complete ctx t)
  | .range, ls, b => ∀ ctx start name,
      Leads (.forRange ctx start name) ls (.forBlock ctx start name b.1 b.2)
  | .comparison, ls, t => ∀ ctx, Leads (.operand ctx {}) ls (.complete ctx t)
  | .sum, ls, t => ∀ ctx comparison rest p, NoFactor rest →
      (State.operator ctx ⟨comparison, none, none⟩ t).read? rest = some p →
      (State.operand ctx ⟨comparison, none, none⟩).read? (ls ++ rest) = some p
  | .product, ls, t => ∀ ctx comparison sum,
      Leads (.operand ctx ⟨comparison, sum, none⟩) ls (.operator ctx ⟨comparison, sum, none⟩ t)
  | .atom, ls, t => ∀ ctx pending,
      Leads (.operand ctx pending) ls (.operator ctx pending t)
  | .items, ls, ts => ∀ start name pending outer,
      Leads (.argument (.args start name [] pending outer)) ls
        (.argument (.args start name ts.reverse pending outer))
  | .args, ls, ts => ∀ r, r.token = .rparen → ∀ start name pending outer,
      Leads (.argument (.args start name [] pending outer)) (ls ++ [r])
        (.operator outer pending (.call ⟨start, r.span.stop⟩ name ts))

section
variable {xs ys : List Lexeme} {left right : Term} {o : Lexeme}

theorem reads_productOp {op : ArithOp} (ho : ProductOp o.token op) (hl : Reads .product xs left)
    (hr : Reads .atom ys right) :
    Reads .product (xs ++ o :: ys) (.arith (Pending.around left right) op left right) := by
  intro ctx comparison sum
  have step : (State.operator ctx ⟨comparison, sum, none⟩ left).step o =
      some (.operand ctx ⟨comparison, sum, some (left, op)⟩) := by
    simp [State.step, afterOperand?, operator?_of_productOp ho, Pending.extend?,
      Pending.toProduct]
  have h := (hr ctx ⟨comparison, sum, some (left, op)⟩).after
    (product_leads ctx ⟨comparison, sum, none⟩ op left right)
  exact (hl ctx comparison sum).append (.cons step h)

theorem reads_sumOp {op : ArithOp} (ho : SumOp o.token op) (hl : Reads .sum xs left)
    (hr : Reads .product ys right) :
    Reads .sum (xs ++ o :: ys) (.arith (Pending.around left right) op left right) := by
  intro ctx comparison rest p hn h
  have step : (State.operator ctx ⟨comparison, none, none⟩ left).step o =
      some (.operand ctx ⟨comparison, some (left, op), none⟩) := by
    simp [State.step, afterOperand?, operator?_of_sumOp ho, Pending.extend?, Pending.toSum,
      Pending.toProduct]
  have h₁ := (hr ctx comparison (some (left, op))) rest p (sum_leads hn h)
  have h₂ := hl ctx comparison (o :: (ys ++ rest)) p
    (noFactor_of_operator? (operator?_of_sumOp ho) (by simp)) (Leads.step step _ _ h₁)
  simpa using h₂

theorem reads_compare {op : CmpOp} (ho : Relation o.token op) (hl : Reads .sum xs left)
    (hr : Reads .sum ys right) :
    Reads .comparison (xs ++ o :: ys)
      (.compare (Pending.around left right) op left right) := by
  intro ctx rest p h
  have step : (State.operator ctx {} left).step o =
      some (.operand ctx ⟨some (left, op), none, none⟩) := by
    simp [State.step, afterOperand?, operator?_of_relation ho, Pending.extend?, Pending.toSum,
      Pending.toProduct]
  have h₁ := hr ctx (some (left, op)) rest p (noFactor_of_complete h)
    (operator_leads ctx ⟨some (left, op), none, none⟩ right rest p h)
  have h₂ := hl ctx none (o :: (ys ++ rest)) p
    (noFactor_of_operator? (operator?_of_relation ho) (by simp)) (Leads.step step _ _ h₁)
  simpa using h₂

theorem reads_comparison {ls : List Lexeme} {t : Term} (h : Reads .sum ls t) :
    Reads .comparison ls t := by
  intro ctx rest p hp
  exact h ctx none rest p (noFactor_of_complete hp) (operator_leads ctx {} t rest p hp)

end

/-! ## Statements and blocks -/

theorem fill?_semi {k : List Term → Context} (hk : IsSequence k) {m : Lexeme}
    (hm : m.token = .semi) (done : List Term) (t : Term) :
    (State.complete (k done) t).step m = some (.statement (k (t :: done))) := by
  cases hk <;> simp [State.step, Context.fill?, hm]

theorem statement_semi {m : Lexeme} (hm : m.token = .semi) (ctx : Context) :
    (State.statement ctx).step m = some (.statement ctx) := by
  simp [State.step, startStatement?, hm]

theorem closeBlock_statement {k : List Term → Context} (hk : IsSequence k) (span : Span)
    (body done : List Term) :
    closeBlock .plain span body (k done) = .statement (k (.block span body :: done)) := by
  cases hk <;> rfl

theorem closeBlock_expr {ctx : Context} (h : ctx.AnyExpr) (span : Span) (body : List Term) :
    closeBlock .plain span body ctx = .complete ctx (.block span body) := by
  cases ctx <;> first | rfl | exact h.elim

theorem expression_lbrace {l : Lexeme} (hl : l.token = .lbrace) (ctx : Context) :
    (State.expression ctx).step l = some (.statement (.block .plain l.span.start [] ctx)) := by
  simp [State.step, startExpression?, hl]

theorem reads_openedBlock {xs ys : List Lexeme} {ts body : List Term} {span : Span}
    (hs : Reads .opened xs ts) (hb : Reads .block ys (span, body)) :
    Reads .opened (xs ++ ys) (ts ++ [.block span body]) := by
  obtain ⟨l, rest, rfl, hl, hb⟩ := hb
  intro k hk
  have h := hb .plain (k ts.reverse)
  rw [closeBlock_statement hk] at h
  rw [List.reverse_concat]
  refine (hs k hk).append (Leads.before (statement_leads _) ?_)
  exact .cons (expression_lbrace hl _) h

theorem reads_closed {xs ys : List Lexeme} {ts : List Term} {t : Term}
    (hs : Reads .opened xs ts) (ht : Reads .inline ys t) :
    Reads .closed (xs ++ ys) (ts ++ [t]) :=
  ⟨ts, t, rfl, fun k hk => (hs k hk).append ((statement_leads _).before (ht _))⟩

theorem reads_closedSemi {xs : List Lexeme} {ts : List Term} {m : Lexeme}
    (hs : Reads .closed xs ts) (hm : m.token = .semi) : Reads .opened (xs ++ [m]) ts := by
  obtain ⟨first, last, rfl, h⟩ := hs
  intro k hk
  rw [List.reverse_concat]
  exact (h k hk).snoc (fill?_semi hk hm _ _)

theorem reads_block {l r : Lexeme} {xs : List Lexeme} {ts : List Term}
    (hl : l.token = .lbrace) (hs : Reads .seq xs ts) (hr : r.token = .rbrace) :
    Reads .block (l :: (xs ++ [r])) (⟨l.span.start, r.span.stop⟩, ts) := by
  refine ⟨l, xs ++ [r], rfl, hl, fun role outer => ?_⟩
  have hk := IsSequence.block role l.span.start outer
  rcases hs with h | ⟨first, last, rfl, h⟩
  · exact (h _ hk).snoc (by simp [State.step, startStatement?, hr])
  · exact (h _ hk).snoc (by simp [State.step, Context.fill?, hr])

theorem reads_program {ls : List Lexeme} {ts : List Term} (h : Reads .seq ls ts) :
    Reads .program ls ⟨ts⟩ := by
  show State.initial.read? ls = _
  rcases h with h | ⟨first, last, rfl, h⟩
  · have := h _ .program [] ⟨ts⟩ (by simp [State.read?, State.finish?])
    rwa [List.append_nil] at this
  · have := h _ .program [] ⟨first ++ [last]⟩
      (by simp [State.read?, State.finish?, Context.finish?])
    rwa [List.append_nil] at this

/-! ## Names, bounds and arguments -/

theorem nameItems_lead {xs : List Lexeme} {names : List String} (h : NameItems xs names)
    (ctx : Context) (start : Nat) :
    Leads (.param ctx start []) xs (.param ctx start names.reverse) := by
  induction h with
  | nil => exact .refl _
  | @snoc xs names i c name _ hi hc ih =>
    rw [List.reverse_concat]
    have h₁ : (State.param ctx start names.reverse).step i =
        some (.paramEnd ctx start (name :: names.reverse)) := by simp [State.step, hi]
    exact ih.append (.cons h₁ (.step (by simp [State.step, hc])))

theorem names_lead {xs : List Lexeme} {names : List String} {c : Lexeme} (h : Names xs names)
    (hc : c.token = .colon) (ctx : Context) (start : Nat) :
    Leads (.param ctx start []) (xs ++ [c])
      (.expression (.lambdaBody start names.reverse ctx)) := by
  cases h with
  | items h => exact (nameItems_lead h ctx start).snoc (by simp [State.step, hc])
  | @last _ names i name h hi =>
    rw [List.reverse_concat]
    have h₁ : (State.param ctx start names.reverse).step i =
        some (.paramEnd ctx start (name :: names.reverse)) := by simp [State.step, hi]
    exact ((nameItems_lead h ctx start).snoc h₁).snoc (by simp [State.step, hc])

theorem reads_item {xs ys : List Lexeme} {ts : List Term} {t : Term} {c : Lexeme}
    (hs : Reads .items xs ts) (ht : Reads .expr ys t) (hc : c.token = .comma) :
    Reads .items (xs ++ (ys ++ [c])) (ts ++ [t]) := by
  intro start name pending outer
  rw [List.reverse_concat]
  refine (hs start name pending outer).append ((argument_leads _).before ?_)
  exact (ht (.args start name ts.reverse pending outer) trivial).snoc
    (by simp [State.step, Context.fill?, hc])

theorem reads_argsItems {xs : List Lexeme} {ts : List Term} (hs : Reads .items xs ts) :
    Reads .args xs ts := by
  intro r hr start name pending outer
  exact (hs start name pending outer).snoc (by simp [State.step, startArgument?, hr])

theorem reads_argsLast {xs ys : List Lexeme} {ts : List Term} {t : Term}
    (hs : Reads .items xs ts) (ht : Reads .expr ys t) : Reads .args (xs ++ ys) (ts ++ [t]) := by
  intro r hr start name pending outer
  have h := ht (.args start name ts.reverse pending outer) trivial
  exact ((hs start name pending outer).append ((argument_leads _).before h)).snoc
    (by simp [State.step, Context.fill?, hr])

theorem reads_rangeTo {k l r : Lexeme} {xs : List Lexeme} {limit : Term}
    (hk : k.token = .kwRange) (hl : l.token = .lparen) (ht : Reads .expr xs limit)
    (hr : r.token = .rparen) : Reads .range (k :: l :: (xs ++ [r])) (none, limit) := by
  intro ctx start name
  have h₁ : (State.forRange ctx start name).step k = some (.forOpen ctx start name) := by
    simp [State.step, hk]
  have h₂ : (State.forOpen ctx start name).step l =
      some (.expression (.firstBound start name ctx)) := by simp [State.step, hl]
  have h₃ := ht (.firstBound start name ctx) trivial
  exact .cons h₁ (.cons h₂ (h₃.snoc (by simp [State.step, Context.fill?, hr])))

theorem reads_rangeFromTo {k l c r : Lexeme} {xs ys : List Lexeme} {first limit : Term}
    (hk : k.token = .kwRange) (hl : l.token = .lparen) (ha : Reads .expr xs first)
    (hc : c.token = .comma) (hb : Reads .expr ys limit) (hr : r.token = .rparen) :
    Reads .range (k :: l :: (xs ++ c :: (ys ++ [r]))) (some first, limit) := by
  intro ctx start name
  have h₁ : (State.forRange ctx start name).step k = some (.forOpen ctx start name) := by
    simp [State.step, hk]
  have h₂ : (State.forOpen ctx start name).step l =
      some (.expression (.firstBound start name ctx)) := by simp [State.step, hl]
  have h₃ := ha (.firstBound start name ctx) trivial
  have h₄ : (State.complete (.firstBound start name ctx) first).step c =
      some (.expression (.secondBound start name first ctx)) := by
    simp [State.step, Context.fill?, hc]
  have h₅ := hb (.secondBound start name first ctx) trivial
  refine .cons h₁ (.cons h₂ (h₃.append (.cons h₄ (h₅.snoc ?_))))
  simp [State.step, Context.fill?, hr]

/-! ## Expressions that reach as far to the right as they can -/

theorem reads_assign {i e : Lexeme} {name : String} {vs : List Lexeme} {v : Term}
    (hi : i.token = .ident name) (he : e.token = .assign) (hv : Reads .expr vs v) :
    Reads .inline (i :: e :: vs) (.assign ⟨i.span.start, v.span.stop⟩ name v) := by
  intro ctx
  have h₁ : (State.expression ctx).step i = some (.named ctx {} true i.span name) := by
    simp [State.step, startExpression?, startOperand?, hi]
  have h₂ : (State.named ctx {} true i.span name).step e =
      some (.expression (.value i.span.start name ctx)) := by simp [State.step, he]
  refine .cons h₁ (.cons h₂ ((hv (.value i.span.start name ctx) trivial).after ?_))
  exact .of_step (fun _ h => h) fun l s h => ⟨s, h, .refl s⟩

theorem reads_lambda {k c : Lexeme} {ps bs : List Lexeme} {params : List String} {body : Term}
    (hk : k.token = .kwLambda) (hp : Names ps params) (hc : c.token = .colon)
    (hb : Reads .expr bs body) :
    Reads .inline (k :: (ps ++ c :: bs))
      (.lambda ⟨k.span.start, body.span.stop⟩ params body) := by
  intro ctx
  have h₁ : (State.expression ctx).step k = some (.param ctx k.span.start []) := by
    simp [State.step, startExpression?, hk]
  have h₂ := names_lead hp hc ctx k.span.start
  have h₃ := hb (.lambdaBody k.span.start params.reverse ctx) trivial
  have h := Leads.cons h₁ (h₂.append h₃)
  rw [List.append_assoc, List.singleton_append] at h
  refine h.after (.of_step (fun _ h => ?_) fun l s h => ⟨s, ?_, .refl s⟩)
  · simpa [State.finish?, Context.finish?] using h
  · simpa [State.step, Context.fill?] using h

theorem reads_branch {i l r c e : Lexeme} {cs bs es : List Lexeme} {cond orElse : Term}
    {span : Span} {body : List Term} (hi : i.token = .kwIf) (hl : l.token = .lparen)
    (hcond : Reads .expr cs cond) (hr : r.token = .rparen) (hc : c.token = .colon)
    (hb : Reads .block bs (span, body)) (he : e.token = .kwElse) (ho : Reads .expr es orElse) :
    Reads .inline (i :: l :: (cs ++ r :: c :: (bs ++ e :: es)))
      (.branch ⟨i.span.start, orElse.span.stop⟩ cond span body orElse) := by
  intro ctx
  obtain ⟨b, rest, rfl, hbr, hb⟩ := hb
  have h₁ : (State.expression ctx).step i = some (.ifOpen ctx i.span.start) := by
    simp [State.step, startExpression?, hi]
  have h₂ : (State.ifOpen ctx i.span.start).step l =
      some (.expression (.ifCond i.span.start ctx)) := by simp [State.step, hl]
  have h₃ : (State.complete (.ifCond i.span.start ctx) cond).step r =
      some (.ifColon ctx i.span.start cond) := by simp [State.step, Context.fill?, hr]
  have h₄ : (State.ifColon ctx i.span.start cond).step c =
      some (.thenOpen ctx i.span.start cond) := by simp [State.step, hc]
  have h₅ : (State.thenOpen ctx i.span.start cond).step b =
      some (.statement (.block (.thenBody i.span.start cond) b.span.start [] ctx)) := by
    simp [State.step, hbr]
  have h₆ : (State.elseWord ctx i.span.start cond span body).step e =
      some (.expression (.orElse i.span.start cond span body ctx)) := by simp [State.step, he]
  have h₇ := ho (.orElse i.span.start cond span body ctx) trivial
  have hcond := hcond (.ifCond i.span.start ctx) trivial
  refine .cons h₁ (.cons h₂ (hcond.append (.cons h₃ (.cons h₄ ?_))))
  refine .cons h₅ ((hb (.thenBody i.span.start cond) ctx).append (.cons h₆ (h₇.after ?_)))
  exact .of_step (fun _ h => h) fun l s h => ⟨s, h, .refl s⟩

theorem reads_whileLoop {w : Lexeme} {cs bs : List Lexeme} {cond : Term} {span : Span}
    {body : List Term} (hw : w.token = .kwWhile) (hc : Reads .comparison cs cond)
    (hb : Reads .block bs (span, body)) :
    Reads .inline (w :: (cs ++ bs)) (.whileLoop ⟨w.span.start, span.stop⟩ cond span body) := by
  intro ctx
  obtain ⟨l, rest, rfl, hl, hb⟩ := hb
  have h₁ : (State.expression ctx).step w =
      some (.operand (.whileCond w.span.start ctx) {}) := by
    simp [State.step, startExpression?, hw]
  have h₂ : (State.complete (.whileCond w.span.start ctx) cond).step l =
      some (.statement (.block (.whileBody w.span.start cond) l.span.start [] ctx)) := by
    simp [State.step, Context.fill?, hl]
  exact .cons h₁ ((hc _).append (.cons h₂ (hb (.whileBody w.span.start cond) ctx)))

theorem reads_forLoop {f x i : Lexeme} {name : String} {rs bs : List Lexeme}
    {first : Option Term} {limit : Term} {span : Span} {body : List Term}
    (hf : f.token = .kwFor) (hx : x.token = .ident name) (hi : i.token = .kwIn)
    (hr : Reads .range rs (first, limit)) (hb : Reads .block bs (span, body)) :
    Reads .inline (f :: x :: i :: (rs ++ bs))
      (.forLoop ⟨f.span.start, span.stop⟩ name first limit span body) := by
  intro ctx
  obtain ⟨l, rest, rfl, hl, hb⟩ := hb
  have h₁ : (State.expression ctx).step f = some (.forName ctx f.span.start) := by
    simp [State.step, startExpression?, hf]
  have h₂ : (State.forName ctx f.span.start).step x = some (.forIn ctx f.span.start name) := by
    simp [State.step, hx]
  have h₃ : (State.forIn ctx f.span.start name).step i =
      some (.forRange ctx f.span.start name) := by simp [State.step, hi]
  have h₄ : (State.forBlock ctx f.span.start name first limit).step l =
      some (.statement
        (.block (.forBody f.span.start name first limit) l.span.start [] ctx)) := by
    simp [State.step, hl]
  refine .cons h₁ (.cons h₂ (.cons h₃ ((hr ctx f.span.start name).append ?_)))
  exact .cons h₄ (hb (.forBody f.span.start name first limit) ctx)

/-! ## Operands in brackets -/

theorem reads_call {i l r : Lexeme} {name : String} {xs : List Lexeme} {ts : List Term}
    (hi : i.token = .ident name) (hl : l.token = .lparen) (ha : Reads .args xs ts)
    (hr : r.token = .rparen) :
    Reads .atom (i :: l :: (xs ++ [r])) (.call ⟨i.span.start, r.span.stop⟩ name ts) := by
  intro ctx pending
  have h₁ : (State.operand ctx pending).step i =
      some (.named ctx pending false i.span name) := by
    simp [State.step, startOperand?, hi]
  have h₂ : (State.named ctx pending false i.span name).step l =
      some (.argument (.args i.span.start name [] pending ctx)) := by simp [State.step, hl]
  exact .cons h₁ (.cons h₂ (ha r hr _ _ _ _))

theorem reads_paren {l r : Lexeme} {xs : List Lexeme} {t : Term} (hl : l.token = .lparen)
    (ht : Reads .expr xs t) (hr : r.token = .rparen) :
    Reads .atom (l :: (xs ++ [r])) (.paren ⟨l.span.start, r.span.stop⟩ t) := by
  intro ctx pending
  have h₁ : (State.operand ctx pending).step l =
      some (.expression (.paren l.span.start pending ctx)) := by
    simp [State.step, startOperand?, hl]
  exact .cons h₁ ((ht (.paren l.span.start pending ctx) trivial).snoc
    (by simp [State.step, Context.fill?, hr]))

theorem reads_var {i : Lexeme} {name : String} (hi : i.token = .ident name) :
    Reads .atom [i] (.var i.span name) := by
  intro ctx pending
  have h : (State.operand ctx pending).step i =
      some (.named ctx pending false i.span name) := by
    simp [State.step, startOperand?, hi]
  exact (Leads.step h).after (named_leads _ _ _ _ _)

theorem reads_negative {m n : Lexeme} {value : Int64} (hm : m.token = .minus)
    (hn : n.token = .int value) :
    Reads .atom [m, n] (.number ⟨m.span.start, n.span.stop⟩ (-value)) := by
  intro ctx pending
  have h₁ : (State.operand ctx pending).step m =
      some (.negated ctx pending m.span.start) := by simp [State.step, startOperand?, hm]
  exact .cons h₁ (.step (by simp [State.step, hn]))

/-! ## Every phrase -/

/-- Every phrase leads over the states of its category. -/
theorem reads_of_derives {c : Category} {ls : List Lexeme} {v : c.Value}
    (h : Derives c ls v) : Reads c ls v := by
  induction h with
  | program _ ih => exact reads_program ih
  | seqOpened _ ih => exact .inl ih
  | seqClosed _ ih => exact .inr ih
  | start => exact fun k _ => .refl _
  | openedSemi _ hm ih => exact fun k hk => (ih k hk).snoc (statement_semi hm _)
  | closedSemi _ hm ih => exact reads_closedSemi ih hm
  | openedBlock _ _ ih₁ ih₂ => exact reads_openedBlock ih₁ ih₂
  | closed _ _ ih₁ ih₂ => exact reads_closed ih₁ ih₂
  | @block l r xs ts hl _ hr ih =>
    rw [spanOf_suffix xs (spanned_singleton r) rfl]
    exact reads_block hl ih hr
  | exprBlock _ ih =>
    obtain ⟨l, rest, rfl, hl, hb⟩ := ih
    intro ctx hctx
    have h := hb .plain ctx
    rw [closeBlock_expr hctx] at h
    exact .cons (expression_lbrace hl ctx) h
  | exprInline _ ih => exact fun ctx _ => ih ctx
  | @assign i e name vs v hi he hv ih =>
    rw [spanOf_suffix [e] hv.spanned (by simp)]
    exact reads_assign hi he ih
  | @branch i l r c e cs bs es _ _ _ _ hi hl _ hr hc _ he ho ihc ihb iho =>
    rw [spanOf_suffix (l :: (cs ++ r :: c :: (bs ++ [e]))) ho.spanned (by simp)]
    exact reads_branch hi hl ihc hr hc ihb he iho
  | @whileLoop w cs bs _ _ _ hw _ hb ihc ihb =>
    rw [spanOf_suffix cs hb.spanned rfl]
    exact reads_whileLoop hw ihc ihb
  | @forLoop f x i _ rs bs _ _ _ _ hf hx hi _ hb ihr ihb =>
    rw [spanOf_suffix (x :: i :: rs) hb.spanned (by simp)]
    exact reads_forLoop hf hx hi ihr ihb
  | @lambda k c ps bs _ _ hk hp hc hb ih =>
    rw [spanOf_suffix (ps ++ [c]) hb.spanned (by simp)]
    exact reads_lambda hk hp hc ih
  | inline _ ih => exact fun ctx => (expression_leads ctx).before (ih ctx)
  | rangeTo hk hl _ hr ih => exact reads_rangeTo hk hl ih hr
  | rangeFromTo hk hl _ hc _ hr ih₁ ih₂ => exact reads_rangeFromTo hk hl ih₁ hc ih₂ hr
  | compare ha ho hb ih₁ ih₂ =>
    rw [spanOf_operator ha.spanned hb.spanned]
    exact reads_compare ho ih₁ ih₂
  | comparison _ ih => exact reads_comparison ih
  | sumOp ha ho hb ih₁ ih₂ =>
    rw [spanOf_operator ha.spanned hb.spanned]
    exact reads_sumOp ho ih₁ ih₂
  | sum _ ih => exact fun ctx comparison rest p _ hp => ih ctx comparison none rest p hp
  | productOp ha ho hb ih₁ ih₂ =>
    rw [spanOf_operator ha.spanned hb.spanned]
    exact reads_productOp ho ih₁ ih₂
  | product _ ih => exact fun ctx comparison sum => ih ctx ⟨comparison, sum, none⟩
  | @number n value hn =>
    intro ctx pending
    exact .step (by simp [State.step, startOperand?, hn, spanOf_singleton])
  | negative hm hn => exact reads_negative hm hn
  | var hi => exact reads_var hi
  | @call i l r _ xs _ hi hl _ hr ih =>
    rw [spanOf_suffix (l :: xs) (spanned_singleton r) (by simp)]
    exact reads_call hi hl ih hr
  | @paren l r xs t hl _ hr ih =>
    rw [spanOf_suffix xs (spanned_singleton r) rfl]
    exact reads_paren hl ih hr
  | noItems => exact fun _ _ _ _ => .refl _
  | item _ _ hc ih₁ ih₂ => exact reads_item ih₁ ih₂ hc
  | argsItems _ ih => exact reads_argsItems ih
  | argsLast _ _ ih₁ ih₂ => exact reads_argsLast ih₁ ih₂

/-- The parser accepts what the grammar derives. -/
theorem parse_eq_ok_of_derives {ls : List Lexeme} {p : Program} (h : Derives .program ls p) :
    parse ls = .ok p :=
  parse_eq_ok_iff.2 (reads_of_derives h)

/-- **The parser accepts exactly its grammar**, with the value that the rules give, and the
grammar gives no list of tokens two values. -/
theorem parse_eq_ok_iff_derives (ls : List Lexeme) :
    (∀ p, parse ls = .ok p ↔ Derives .program ls p) ∧ Subsingleton {p // Derives .program ls p} := by
  refine ⟨fun p => ⟨derives_of_parse, parse_eq_ok_of_derives⟩, ⟨fun ⟨p, hp⟩ ⟨q, hq⟩ => ?_⟩⟩
  have h := (parse_eq_ok_of_derives hp).symm.trans (parse_eq_ok_of_derives hq)
  cases h
  rfl

end Dynascope.Parser
