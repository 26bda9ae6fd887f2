import Dynascope.Minify

/-! # Terms up to layout

`Term.erase` forgets where a term stood and which parentheses it had. `Term.regroup` reads sums and
products from left to right where that is how they are written without parentheses: the left
operand of `a+(b-c)` or `a*(b*c)` moves to the start of the right one. The order of the operands
and their operators stays.
-/

set_option autoImplicit false

namespace Dynascope

/-! ## Induction -/

/-- Induction on terms, with the motive for every part, also for those in lists. -/
@[elab_as_elim, induction_eliminator]
theorem Term.induct {motive : Term → Prop}
    (number : ∀ span value, motive (.number span value))
    (paren : ∀ span inner, motive inner → motive (.paren span inner))
    (arith : ∀ span op left right, motive left → motive right →
      motive (.arith span op left right))
    (compare : ∀ span op left right, motive left → motive right →
      motive (.compare span op left right))
    (assign : ∀ span name value, motive value → motive (.assign span name value))
    (var : ∀ span name, motive (.var span name))
    (block : ∀ span body, (∀ t ∈ body, motive t) → motive (.block span body))
    (branch : ∀ span cond thenSpan thenBody orElse, motive cond → (∀ t ∈ thenBody, motive t) →
      motive orElse → motive (.branch span cond thenSpan thenBody orElse))
    (whileLoop : ∀ span cond bodySpan body, motive cond → (∀ t ∈ body, motive t) →
      motive (.whileLoop span cond bodySpan body))
    (forLoop : ∀ span name first limit bodySpan body, (∀ t ∈ first, motive t) → motive limit →
      (∀ t ∈ body, motive t) → motive (.forLoop span name first limit bodySpan body))
    (lambda : ∀ span params body, motive body → motive (.lambda span params body))
    (call : ∀ span name args, (∀ t ∈ args, motive t) → motive (.call span name args))
    (t : Term) : motive t :=
  @Term.rec motive (fun body => ∀ t ∈ body, motive t) (fun first => ∀ t ∈ first, motive t)
    number paren arith compare assign var block branch whileLoop forLoop lambda call
    (by simp) (fun _ _ head tail => List.forall_mem_cons.2 ⟨head, tail⟩)
    (by simp) (fun _ some => by simpa using some) t

/-! ## Names and literals -/

mutual

/-- The names that a term mentions: variables, targets, functions, parameters. -/
def Term.names : Term → List String
  | .number .. => []
  | .paren _ inner => inner.names
  | .arith _ _ left right | .compare _ _ left right => left.names ++ right.names
  | .assign _ name value => name :: value.names
  | .var _ name => [name]
  | .block _ body => namesAll body
  | .branch _ cond _ thenBody orElse => cond.names ++ namesAll thenBody ++ orElse.names
  | .whileLoop _ cond _ body => cond.names ++ namesAll body
  | .forLoop _ name none limit _ body => name :: limit.names ++ namesAll body
  | .forLoop _ name (some first) limit _ body =>
    name :: first.names ++ limit.names ++ namesAll body
  | .lambda _ params body => params ++ body.names
  | .call _ name args => name :: namesAll args

/-- The names that some terms mention. -/
def namesAll : List Term → List String
  | [] => []
  | term :: rest => term.names ++ namesAll rest

end

mutual

/-- The literals of a term. -/
def Term.literals : Term → List Int64
  | .number _ n => [n]
  | .paren _ inner => inner.literals
  | .arith _ _ left right | .compare _ _ left right => left.literals ++ right.literals
  | .assign _ _ value => value.literals
  | .var .. => []
  | .block _ body => literalsAll body
  | .branch _ cond _ thenBody orElse =>
    cond.literals ++ literalsAll thenBody ++ orElse.literals
  | .whileLoop _ cond _ body => cond.literals ++ literalsAll body
  | .forLoop _ _ none limit _ body => limit.literals ++ literalsAll body
  | .forLoop _ _ (some first) limit _ body =>
    first.literals ++ limit.literals ++ literalsAll body
  | .lambda _ _ body => body.literals
  | .call _ _ args => literalsAll args

/-- The literals of some terms. -/
def literalsAll : List Term → List Int64
  | [] => []
  | term :: rest => term.literals ++ literalsAll rest

end

/-- The names that a program mentions. -/
def Program.names (p : Program) : List String :=
  namesAll p.statements

/-- The literals of a program. -/
def Program.literals (p : Program) : List Int64 :=
  literalsAll p.statements

@[simp] theorem namesAll_eq (ts : List Term) : namesAll ts = ts.flatMap Term.names := by
  induction ts with
  | nil => rfl
  | cons t ts ih => rw [namesAll, ih, List.flatMap_cons]

@[simp] theorem literalsAll_eq (ts : List Term) : literalsAll ts = ts.flatMap Term.literals := by
  induction ts with
  | nil => rfl
  | cons t ts ih => rw [literalsAll, ih, List.flatMap_cons]

theorem Term.names_forLoop (span : Span) (name : String) (first : Option Term) (limit : Term)
    (bodySpan : Span) (body : List Term) :
    (Term.forLoop span name first limit bodySpan body).names =
      name :: (first.toList.flatMap names ++ limit.names ++ body.flatMap names) := by
  cases first <;> simp [names]

theorem Term.literals_forLoop (span : Span) (name : String) (first : Option Term) (limit : Term)
    (bodySpan : Span) (body : List Term) :
    (Term.forLoop span name first limit bodySpan body).literals =
      first.toList.flatMap literals ++ limit.literals ++ body.flatMap literals := by
  cases first <;> simp [literals]

/-- The terms right below a term. -/
def Term.children : Term → List Term
  | .number .. | .var .. => []
  | .paren _ inner => [inner]
  | .arith _ _ left right | .compare _ _ left right => [left, right]
  | .assign _ _ value => [value]
  | .block _ body => body
  | .branch _ cond _ thenBody orElse => cond :: (thenBody ++ [orElse])
  | .whileLoop _ cond _ body => cond :: body
  | .forLoop _ _ first limit _ body => first.toList ++ limit :: body
  | .lambda _ _ body => [body]
  | .call _ _ args => args

/-- A term mentions the names that the terms right below it mention. -/
theorem Term.names_child {t u : Term} (h : u ∈ t.children) : u.names ⊆ t.names := by
  intro x hx
  have hflat {ts : List Term} (hu : u ∈ ts) : x ∈ ts.flatMap names :=
    List.mem_flatMap.2 ⟨u, hu, hx⟩
  cases t with
  | number | var => cases h
  | forLoop =>
    rw [names_forLoop]
    simp only [children, List.mem_append, List.mem_cons] at h ⊢
    rcases h with h | rfl | h
    · exact .inr (.inl (.inl (hflat h)))
    · exact .inr (.inl (.inr hx))
    · exact .inr (.inr (hflat h))
  | branch =>
    simp only [children, names, namesAll_eq, List.mem_append, List.mem_cons, List.not_mem_nil,
      or_false] at h ⊢
    rcases h with rfl | h | rfl
    · exact .inl (.inl hx)
    · exact .inl (.inr (hflat h))
    · exact .inr hx
  | block | call | whileLoop | arith | compare | paren | assign | lambda =>
    simp only [children, names, namesAll_eq, List.mem_append, List.mem_cons, List.not_mem_nil,
      or_false] at h ⊢
    grind

@[simp] theorem minifyAll_eq (ts : List Term) : minifyAll ts = ts.map Term.minify := by
  induction ts with
  | nil => rfl
  | cons t ts ih => rw [minifyAll, ih, List.map_cons]

/-! ## Without spans and parentheses -/

mutual

/-- A term without its parentheses, and with the same span everywhere. -/
def Term.erase : Term → Term
  | .number _ n => .number default n
  | .paren _ inner => inner.erase
  | .arith _ op left right => .arith default op left.erase right.erase
  | .compare _ op left right => .compare default op left.erase right.erase
  | .assign _ name value => .assign default name value.erase
  | .var _ name => .var default name
  | .block _ body => .block default (eraseAll body)
  | .branch _ cond _ thenBody orElse =>
    .branch default cond.erase default (eraseAll thenBody) orElse.erase
  | .whileLoop _ cond _ body => .whileLoop default cond.erase default (eraseAll body)
  | .forLoop _ name none limit _ body =>
    .forLoop default name none limit.erase default (eraseAll body)
  | .forLoop _ name (some first) limit _ body =>
    .forLoop default name (some first.erase) limit.erase default (eraseAll body)
  | .lambda _ params body => .lambda default params body.erase
  | .call _ name args => .call default name (eraseAll args)

/-- Terms without parentheses and spans. -/
def eraseAll : List Term → List Term
  | [] => []
  | term :: rest => term.erase :: eraseAll rest

end

/-- A program without parentheses and spans. -/
def Program.erase (p : Program) : Program :=
  ⟨eraseAll p.statements⟩

@[simp] theorem eraseAll_eq (ts : List Term) : eraseAll ts = ts.map Term.erase := by
  induction ts with
  | nil => rfl
  | cons t ts ih => rw [eraseAll, ih, List.map_cons]

theorem Term.erase_forLoop (span : Span) (name : String) (first : Option Term) (limit : Term)
    (bodySpan : Span) (body : List Term) :
    (Term.forLoop span name first limit bodySpan body).erase =
      .forLoop default name (first.map erase) limit.erase default (body.map erase) := by
  cases first <;> simp [erase]

theorem Term.unparen_ne_paren (t : Term) (span : Span) (inner : Term) :
    t.unparen ≠ .paren span inner := by
  induction t with
  | paren _ _ ih => exact ih
  | _ => simp [unparen]

/-- Nothing is left to erase. -/
@[simp] theorem Term.erase_erase (t : Term) : t.erase.erase = t.erase := by
  induction t with
  | forLoop span name first limit bodySpan body hf hl hb =>
    rw [erase_forLoop, erase_forLoop]
    cases first <;> simp_all
  | _ => simp_all [erase]

/-! ## Read from left to right -/

/-- Whether the left operand of `parent` moves into a right operand with the operator `child`. -/
def ArithOp.movesInto : ArithOp → ArithOp → Bool
  | .add, .add | .add, .sub | .mul, .mul => true
  | _, _ => false

/-- Puts `left op` before the first operand of `right`, as far down on the left as operators have
the precedence of `op`. -/
def Term.attach (left : Term) (op : ArithOp) : Term → Term
  | .arith span child first last =>
    if child.precedence = op.precedence then .arith span child (left.attach op first) last
    else .arith default op left (.arith span child first last)
  | right => .arith default op left right

/-- The operation `left op right`, read from left to right if its right side allows that. -/
def Term.operate (op : ArithOp) (left right : Term) : Term :=
  match right with
  | .arith _ child _ _ =>
    if op.movesInto child then left.attach op right else .arith default op left right
  | _ => .arith default op left right

mutual

/-- A term with all sums and products in it read from left to right where they can be, those inside
first. -/
def Term.regroup : Term → Term
  | .number span n => .number span n
  | .paren span inner => .paren span inner.regroup
  | .arith _ op left right => Term.operate op left.regroup right.regroup
  | .compare span op left right => .compare span op left.regroup right.regroup
  | .assign span name value => .assign span name value.regroup
  | .var span name => .var span name
  | .block span body => .block span (regroupAll body)
  | .branch span cond thenSpan thenBody orElse =>
    .branch span cond.regroup thenSpan (regroupAll thenBody) orElse.regroup
  | .whileLoop span cond bodySpan body =>
    .whileLoop span cond.regroup bodySpan (regroupAll body)
  | .forLoop span name none limit bodySpan body =>
    .forLoop span name none limit.regroup bodySpan (regroupAll body)
  | .forLoop span name (some first) limit bodySpan body =>
    .forLoop span name (some first.regroup) limit.regroup bodySpan (regroupAll body)
  | .lambda span params body => .lambda span params body.regroup
  | .call span name args => .call span name (regroupAll args)

/-- Terms with sums and products read from left to right. -/
def regroupAll : List Term → List Term
  | [] => []
  | term :: rest => term.regroup :: regroupAll rest

end

/-- A program with sums and products read from left to right. -/
def Program.regroup (p : Program) : Program :=
  ⟨regroupAll p.statements⟩

@[simp] theorem regroupAll_eq (ts : List Term) : regroupAll ts = ts.map Term.regroup := by
  induction ts with
  | nil => rfl
  | cons t ts ih => rw [regroupAll, ih, List.map_cons]

theorem Term.regroup_forLoop (span : Span) (name : String) (first : Option Term) (limit : Term)
    (bodySpan : Span) (body : List Term) :
    (Term.forLoop span name first limit bodySpan body).regroup =
      .forLoop span name (first.map regroup) limit.regroup bodySpan (body.map regroup) := by
  cases first <;> simp [regroup]

/-! ## The outermost operator -/

/-- The outermost operator of a term, if it is an operation. -/
def Term.op? : Term → Option ArithOp
  | .arith _ op .. => some op
  | _ => none

/-- Operators that stand on the same side of every test for grouping. -/
def ArithOp.Akin (a b : ArithOp) : Prop :=
  a.precedence = b.precedence ∧ (a = .mul ↔ b = .mul)

theorem ArithOp.precedence_of_movesInto {op child : ArithOp} (h : op.movesInto child = true) :
    child.precedence = op.precedence := by
  cases op <;> cases child <;> simp_all [movesInto, precedence]

theorem ArithOp.Akin.movesInto {a b : ArithOp} (h : a.Akin b) (op : ArithOp) :
    op.movesInto a = op.movesInto b := by
  obtain ⟨h₁, h₂⟩ := h
  cases a <;> cases b <;> cases op <;> simp_all [ArithOp.movesInto, ArithOp.precedence]

theorem Term.op?_attach {left right : Term} {op child : ArithOp} (h : right.op? = some child)
    (hp : child.precedence = op.precedence) : (left.attach op right).op? = some child := by
  cases right <;> cases h
  simp [attach, hp, op?]

/-- Where nothing moves, `attach` and `operate` only put the operator between. -/
theorem Term.attach_eq {left right : Term} {op : ArithOp}
    (h : ∀ child ∈ right.op?, child.precedence ≠ op.precedence) :
    left.attach op right = .arith default op left right := by
  cases right with
  | arith span child first last => simp [attach, h child rfl]
  | _ => rfl

theorem Term.operate_of_moves {left right : Term} {op child : ArithOp}
    (hc : right.op? = some child) (h : op.movesInto child = true) :
    Term.operate op left right = left.attach op right := by
  cases right <;> cases hc
  simp [operate, h]

theorem Term.operate_eq {left right : Term} {op : ArithOp}
    (h : ∀ child ∈ right.op?, op.movesInto child = false) :
    Term.operate op left right = .arith default op left right := by
  cases right with
  | arith span child first last => simp [operate, h child rfl]
  | _ => rfl

/-- The outermost operator of an operation after regrouping: its own, or that of its right operand
where the left one moved into it. -/
theorem Term.op?_operate (op : ArithOp) (left right : Term) :
    ∃ b, (operate op left right).op? = some b ∧ op.Akin b := by
  cases hr : right.op? with
  | none => exact ⟨op, by rw [operate_eq (by simp [hr]), op?], rfl, Iff.rfl⟩
  | some child =>
    by_cases h : op.movesInto child = true
    · refine ⟨child, ?_, ?_⟩
      · rw [operate_of_moves hr h, op?_attach hr (ArithOp.precedence_of_movesInto h)]
      · cases op <;> cases child <;> simp_all [ArithOp.Akin, ArithOp.movesInto, ArithOp.precedence]
    · exact ⟨op, by rw [operate_eq (by simp [hr, h]), op?], rfl, Iff.rfl⟩

/-- What a term is read back as. -/
def Term.readBack (t : Term) : Term :=
  t.erase.regroup

theorem Term.map_readBack (ts : List Term) :
    ts.map readBack = ts.map (regroup ∘ erase) := rfl

theorem Term.exists_op?_readBack {t : Term} {a : ArithOp} (h : t.unparen.op? = some a) :
    ∃ b, t.readBack.op? = some b ∧ a.Akin b := by
  induction t with
  | paren span inner ih => exact ih h
  | arith span child left right =>
    cases h
    exact op?_operate _ _ _
  | _ => simp [unparen, op?] at h

theorem Term.exists_op?_of_readBack {t : Term} {b : ArithOp} (h : t.readBack.op? = some b) :
    ∃ a, t.unparen.op? = some a ∧ a.Akin b := by
  induction t with
  | paren span inner ih => exact ih h
  | arith span child left right =>
    obtain ⟨b', hb, hab⟩ := op?_operate child left.readBack right.readBack
    cases hb.symm.trans h
    exact ⟨child, rfl, hab⟩
  | forLoop span name first => cases first <;> cases h
  | _ => cases h

/-- Moving into an operation that was read from left to right. -/
theorem Term.attach_operate {op child : ArithOp} (h : child.precedence = op.precedence)
    (l first last : Term) :
    l.attach op (operate child first last) = operate child (l.attach op first) last := by
  have attach : ∀ last, child.precedence = op.precedence →
      l.attach op (first.attach child last) = (l.attach op first).attach child last := by
    intro last h
    induction last with
    | arith span c x y ihx =>
      by_cases hc : c.precedence = child.precedence
      · simp only [Term.attach, hc, if_true]
        rw [if_pos h, ihx]
      · have hc' : c.precedence ≠ op.precedence := h ▸ hc
        simp [Term.attach, hc', h]
    | _ => simp [Term.attach, h]
  cases hr : last.op? with
  | none =>
    rw [operate_eq (by simp [hr]), operate_eq (by simp [hr])]
    simp [Term.attach, h]
  | some c =>
    by_cases hc : child.movesInto c = true
    · rw [operate_of_moves hr hc, operate_of_moves hr hc, attach last h]
    · rw [operate_eq (by simp [hr, hc]), operate_eq (by simp [hr, hc])]
      simp [Term.attach, h]

/-! ## Regrouping and erasing -/

theorem Term.erase_ne_paren (t : Term) (span : Span) (inner : Term) : t.erase ≠ .paren span inner := by
  induction t with
  | paren _ _ ih => exact ih
  | forLoop _ _ first => cases first <;> simp [erase]
  | _ => simp [erase]

theorem Term.erase_attach {left right : Term} (op : ArithOp) (hl : left.erase = left)
    (hr : right.erase = right) : (left.attach op right).erase = left.attach op right := by
  induction right with
  | arith span child first last ih =>
    rw [erase, arith.injEq] at hr
    obtain ⟨rfl, -, hf, hl'⟩ := hr
    by_cases h : child.precedence = op.precedence
    · simp only [attach, h, if_true, erase, ih hf, hl']
    · simp only [attach, h, if_false, erase, hf, hl', hl]
  | _ => simp only [attach]; rw [erase, hl, hr]

theorem Term.erase_operate {left right : Term} (op : ArithOp) (hl : left.erase = left)
    (hr : right.erase = right) : (operate op left right).erase = operate op left right := by
  by_cases h : ∃ child ∈ right.op?, op.movesInto child = true
  · obtain ⟨child, hc, hm⟩ := h
    rw [operate_of_moves hc hm, erase_attach op hl hr]
  · have h : ∀ child ∈ right.op?, op.movesInto child = false := fun child hc =>
      Bool.eq_false_iff.2 fun hm => h ⟨child, hc, hm⟩
    rw [operate_eq h, erase, hl, hr]

/-- Regrouping makes no parentheses and no spans. -/
@[simp] theorem Term.erase_readBack (t : Term) : t.readBack.erase = t.readBack := by
  induction t with
  | paren span inner ih => exact ih
  | arith span op left right ihl ihr => exact erase_operate op ihl ihr
  | forLoop span name first limit bodySpan body hf hl hb =>
    simp only [readBack, erase_forLoop, regroup_forLoop] at *
    cases first <;> simp_all
  | _ => simp_all [readBack, erase, regroup]

end Dynascope
