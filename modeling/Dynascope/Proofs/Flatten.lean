import Dynascope.Proofs.Erasure
import Mathlib.Data.List.Induction

/-! # Regrouping that exact arithmetic allows

`Term.flatten` regroups like `Term.regroup`, but moves no factor to the left of a division. In exact
arithmetic that changes no value. The operands of an operation of which the flattened form is one
chain of operators, and these operators, are its `Term.chain` (`flatten_eq_chained`).

Where no factor of a term moves to the left of a division, the term and its regrouped form have the
same flattened form: `flatten_readBack`.
-/

set_option autoImplicit false

namespace Dynascope

/-! ## Nodes -/

mutual

/-- The term and all terms in it. -/
def Term.nodes : Term → List Term
  | t@(.number ..) => [t]
  | t@(.paren _ inner) => t :: inner.nodes
  | t@(.arith _ _ left right) | t@(.compare _ _ left right) => t :: (left.nodes ++ right.nodes)
  | t@(.assign _ _ value) => t :: value.nodes
  | t@(.var ..) => [t]
  | t@(.block _ body) => t :: nodesAll body
  | t@(.branch _ cond _ thenBody orElse) =>
    t :: (cond.nodes ++ nodesAll thenBody ++ orElse.nodes)
  | t@(.whileLoop _ cond _ body) => t :: (cond.nodes ++ nodesAll body)
  | t@(.forLoop _ _ none limit _ body) => t :: (limit.nodes ++ nodesAll body)
  | t@(.forLoop _ _ (some first) limit _ body) =>
    t :: (first.nodes ++ limit.nodes ++ nodesAll body)
  | t@(.lambda _ _ body) => t :: body.nodes
  | t@(.call _ _ args) => t :: nodesAll args

/-- All terms in some terms. -/
def nodesAll : List Term → List Term
  | [] => []
  | term :: rest => term.nodes ++ nodesAll rest

end

@[simp] theorem nodesAll_eq (ts : List Term) : nodesAll ts = ts.flatMap Term.nodes := by
  induction ts with
  | nil => rfl
  | cons t ts ih => rw [nodesAll, ih, List.flatMap_cons]

/-- Whether a product, read from left to right, divides by one of its operands after the first. -/
def Term.divides : Term → Bool
  | .paren _ inner => inner.divides
  | .arith _ .div _ _ => true
  | .arith _ .mul first _ => first.divides
  | _ => false

/-- Whether the left operand of a product moves to the left of a division. -/
def Term.movesQuotient : Term → Bool
  | .arith _ .mul _ right => right.unparen.op? == some .mul && right.divides
  | _ => false

/-! ## Flattening -/

/-- Whether a left operand can move into a right one without a change of the exact value. -/
def ArithOp.enters (op : ArithOp) (right : Term) : Bool :=
  right.op?.any op.movesInto && !right.divides

/-- The operation `left op right`, read from left to right if that keeps the exact value. -/
def Term.combine (op : ArithOp) (left right : Term) : Term :=
  if op.enters right then left.attach op right else .arith default op left right

mutual

/-- A term without spans and parentheses, read from left to right where that keeps exact values. -/
def Term.flatten : Term → Term
  | .number _ n => .number default n
  | .paren _ inner => inner.flatten
  | .arith _ op left right => Term.combine op left.flatten right.flatten
  | .compare _ op left right => .compare default op left.flatten right.flatten
  | .assign _ name value => .assign default name value.flatten
  | .var _ name => .var default name
  | .block _ body => .block default (flattenAll body)
  | .branch _ cond _ thenBody orElse =>
    .branch default cond.flatten default (flattenAll thenBody) orElse.flatten
  | .whileLoop _ cond _ body => .whileLoop default cond.flatten default (flattenAll body)
  | .forLoop _ name none limit _ body =>
    .forLoop default name none limit.flatten default (flattenAll body)
  | .forLoop _ name (some first) limit _ body =>
    .forLoop default name (some first.flatten) limit.flatten default (flattenAll body)
  | .lambda _ params body => .lambda default params body.flatten
  | .call _ name args => .call default name (flattenAll args)

/-- Terms flattened. -/
def flattenAll : List Term → List Term
  | [] => []
  | term :: rest => term.flatten :: flattenAll rest

end

@[simp] theorem flattenAll_eq (ts : List Term) : flattenAll ts = ts.map Term.flatten := by
  induction ts with
  | nil => rfl
  | cons t ts ih => rw [flattenAll, ih, List.map_cons]

theorem Term.flatten_forLoop (span : Span) (name : String) (first : Option Term) (limit : Term)
    (bodySpan : Span) (body : List Term) :
    (Term.forLoop span name first limit bodySpan body).flatten =
      .forLoop default name (first.map flatten) limit.flatten default (body.map flatten) := by
  cases first <;> simp [flatten]

@[simp] theorem Term.flatten_erase (t : Term) : t.erase.flatten = t.flatten := by
  induction t with
  | forLoop span name first limit bodySpan body hf hl hb =>
    rw [erase_forLoop, flatten_forLoop, flatten_forLoop]
    cases first <;> simp_all
  | _ => simp_all [erase, flatten]

theorem ArithOp.enters_iff {op : ArithOp} {right : Term} :
    op.enters right = true ↔
      (∃ child, right.op? = some child ∧ op.movesInto child = true) ∧ right.divides = false := by
  simp [enters, Option.any_eq_true]

theorem Term.op?_combine (op : ArithOp) (left right : Term) :
    ∃ b, (combine op left right).op? = some b ∧ op.Akin b := by
  unfold combine
  split
  · rename_i h
    obtain ⟨⟨child, hc, hm⟩, -⟩ := ArithOp.enters_iff.1 h
    rw [← operate_of_moves hc hm]
    exact op?_operate op left right
  · exact ⟨op, rfl, rfl, Iff.rfl⟩

theorem Term.exists_op?_flatten {t : Term} {a : ArithOp} (h : t.unparen.op? = some a) :
    ∃ b, t.flatten.op? = some b ∧ a.Akin b := by
  induction t with
  | paren span inner ih => exact ih h
  | arith span child left right =>
    cases h
    exact op?_combine _ _ _
  | _ => simp [unparen, op?] at h

theorem Term.exists_op?_of_flatten {t : Term} {b : ArithOp} (h : t.flatten.op? = some b) :
    ∃ a, t.unparen.op? = some a ∧ a.Akin b := by
  induction t with
  | paren span inner ih => exact ih h
  | arith span child left right =>
    obtain ⟨b', hb, hab⟩ := op?_combine child left.flatten right.flatten
    cases hb.symm.trans h
    exact ⟨child, rfl, hab⟩
  | forLoop span name first => cases first <;> cases h
  | _ => cases h

/-! ## Chains of operators -/

/-- Operands after a first one, each with the operator before it. -/
abbrev Chain : Type :=
  List (ArithOp × Term)

/-- The operation of a chain, read from left to right. -/
def Term.chained (first : Term) (rest : Chain) : Term :=
  rest.foldl (fun left x => .arith default x.1 left x.2) first

/-- The operands at one level of precedence, in order. -/
def Term.chain (p : Nat) : Term → Term × Chain
  | .paren _ inner => inner.chain p
  | .arith span op left right =>
    if op.precedence = p then
      ((left.chain p).1, (left.chain p).2 ++
        if op.enters right.flatten then (op, (right.chain p).1) :: (right.chain p).2
        else [(op, right)])
    else (.arith span op left right, [])
  | t => (t, [])

@[simp] theorem Term.chained_append (first : Term) (xs : Chain) (x : ArithOp × Term) :
    first.chained (xs ++ [x]) = .arith default x.1 (first.chained xs) x.2 := by
  simp [chained]

theorem Term.attach_chained {left first : Term} {op : ArithOp} {rest : Chain}
    (hr : ∀ x ∈ rest, x.1.precedence = op.precedence)
    (hf : ∀ child ∈ first.op?, child.precedence ≠ op.precedence) :
    left.attach op (first.chained rest) = left.chained ((op, first) :: rest) := by
  induction rest using List.reverseRecOn with
  | nil => exact attach_eq hf
  | append_singleton xs x ih =>
    have hx : x.1.precedence = op.precedence := hr x (by simp)
    rw [← List.cons_append, chained_append, chained_append, attach, if_pos hx,
      ih fun y hy => hr y (by simp [hy])]

theorem Term.chain_precedence (p : Nat) (t : Term) : ∀ x ∈ (t.chain p).2, x.1.precedence = p := by
  induction t with
  | paren span inner ih => exact ih
  | arith span op left right ihl ihr =>
    rw [chain]
    split
    · rename_i hp
      intro x hx
      rcases List.mem_append.1 hx with hx | hx
      · exact ihl x hx
      · split at hx
        · rcases List.mem_cons.1 hx with rfl | hx
          · exact hp
          · exact ihr x hx
        · cases List.mem_singleton.1 hx
          exact hp
    · simp
  | _ => simp [chain]

theorem Term.chain_first (p : Nat) (t : Term) :
    ∀ child ∈ (t.chain p).1.flatten.op?, child.precedence ≠ p := by
  induction t with
  | paren span inner ih => exact ih
  | arith span op left right ihl ihr =>
    rw [chain]
    split
    · exact ihl
    · rename_i hp
      intro child hc
      obtain ⟨a, ha, hab⟩ := exists_op?_of_flatten hc
      cases ha
      exact hab.1 ▸ hp
  | forLoop span name first => cases first <;> simp [chain, flatten, op?]
  | _ => simp [chain, flatten, op?]

/-- Operands flattened. -/
def Chain.flatten (xs : Chain) : Chain :=
  xs.map fun x => (x.1, x.2.flatten)

/-- **A flattened term is its chain of operands**, at any level of precedence. -/
theorem Term.flatten_eq_chained (p : Nat) (t : Term) :
    t.flatten = (t.chain p).1.flatten.chained (Chain.flatten (t.chain p).2) := by
  induction t with
  | paren span inner ih => exact ih
  | arith span op left right ihl ihr =>
    rw [chain]
    split
    · rename_i hp
      rw [flatten, combine]
      split
      · have hr : ∀ x ∈ Chain.flatten (right.chain p).2, x.1.precedence = op.precedence := by
          intro x hx
          obtain ⟨y, hy, rfl⟩ := List.mem_map.1 hx
          rw [hp]
          exact chain_precedence p right y hy
        rw [ihr, attach_chained hr (hp ▸ chain_first p right), ihl]
        simp [Chain.flatten, chained]
      · rw [ihl]
        simp [Chain.flatten, chained]
    · rfl
  | _ => rfl

/-- A chain can be read off its operation. -/
theorem Term.chained_injective {p : Nat} {first first' : Term} {xs xs' : Chain}
    (hf : ∀ child ∈ first.op?, child.precedence ≠ p)
    (hf' : ∀ child ∈ first'.op?, child.precedence ≠ p)
    (hx : ∀ x ∈ xs, x.1.precedence = p) (hx' : ∀ x ∈ xs', x.1.precedence = p)
    (h : first.chained xs = first'.chained xs') : first = first' ∧ xs = xs' := by
  induction xs using List.reverseRecOn generalizing xs' with
  | nil =>
    induction xs' using List.reverseRecOn with
    | nil => exact ⟨h, rfl⟩
    | append_singleton ys y =>
      rw [chained_append] at h
      exact absurd (hx' y (by simp)) (hf y.1 (by rw [show first = _ from h]; rfl))
  | append_singleton xs x ih =>
    induction xs' using List.reverseRecOn with
    | nil =>
      rw [chained_append] at h
      exact absurd (hx x (by simp)) (hf' x.1 (by rw [show first' = _ from h.symm]; rfl))
    | append_singleton ys y =>
      rw [chained_append, chained_append, arith.injEq] at h
      obtain ⟨-, h₁, h₂, h₃⟩ := h
      obtain ⟨e, es⟩ := ih (fun z hz => hx z (by simp [hz])) (fun z hz => hx' z (by simp [hz])) h₂
      exact ⟨e, by rw [es, Prod.ext h₁ h₃]⟩

/-- Terms with the same flattened form have the same operators between operands with the same
flattened forms. -/
theorem Term.chain_eq_of_flatten_eq (p : Nat) {t u : Term} (h : t.flatten = u.flatten) :
    (t.chain p).1.flatten = (u.chain p).1.flatten ∧
      Chain.flatten (t.chain p).2 = Chain.flatten (u.chain p).2 := by
  have precedence : ∀ t : Term, ∀ x ∈ Chain.flatten (t.chain p).2, x.1.precedence = p := by
    intro t x hx
    obtain ⟨y, hy, rfl⟩ := List.mem_map.1 hx
    exact chain_precedence p t y hy
  rw [flatten_eq_chained p t, flatten_eq_chained p u] at h
  exact chained_injective (chain_first p t) (chain_first p u) (precedence t) (precedence u) h

/-! ## Operators that a left operand moves past -/

theorem Term.divides_chained {first : Term} {xs : Chain} (hp : ∀ x ∈ xs, x.1.precedence = 2)
    (h : (first.chained xs).divides = false) : ∀ x ∈ xs, x.1 = .mul := by
  induction xs using List.reverseRecOn with
  | nil => simp
  | append_singleton xs x ih =>
    obtain ⟨op, t⟩ := x
    have hop : op.precedence = 2 := hp (op, t) (by simp)
    rw [chained_append] at h
    cases op with
    | add | sub => cases hop
    | div => cases h
    | mul =>
      intro y hy
      rcases List.mem_append.1 hy with hy | hy
      · exact ih (fun z hz => hp z (by simp [hz])) h y hy
      · cases List.mem_singleton.1 hy
        rfl

/-- A summand moves past sums and differences only, a factor past products only. -/
theorem ArithOp.movesInto_of_enters {op : ArithOp} {t : Term} (h : op.enters t.flatten = true) :
    ∀ x ∈ (t.chain op.precedence).2, op.movesInto x.1 = true := by
  obtain ⟨⟨child, hc, hm⟩, hd⟩ := enters_iff.1 h
  intro x hx
  have hp := Term.chain_precedence op.precedence t x hx
  obtain ⟨c, u⟩ := x
  cases op with
  | sub | div => cases child <;> cases hm
  | add => cases c <;> first | rfl | cases hp
  | mul =>
    rw [Term.flatten_eq_chained 2 t] at hd
    have hx' : (c, u.flatten) ∈ Chain.flatten (t.chain 2).2 := List.mem_map.2 ⟨(c, u), hx, rfl⟩
    have hall : ∀ y ∈ Chain.flatten (t.chain 2).2, y.1.precedence = 2 := by
      intro y hy
      obtain ⟨z, hz, rfl⟩ := List.mem_map.1 hy
      exact Term.chain_precedence 2 t z hz
    cases Term.divides_chained hall hd _ hx'
    rfl

/-! ## Regrouped terms flattened -/

theorem Term.divides_of_op? {t : Term} {c : ArithOp} (h : t.op? = some c)
    (hc : c.precedence ≠ 2) : t.divides = false := by
  cases t <;> cases h
  cases c <;> first | rfl | exact absurd rfl hc

theorem Term.divides_attach {left right : Term} (hr : right.divides = false) :
    (left.attach .mul right).divides = left.divides := by
  induction right with
  | arith span child first last ih =>
    cases child with
    | add | sub => rfl
    | mul => exact ih hr
    | div => cases hr
  | _ => rfl

/-- Flattening moves nothing to the left of a division. -/
@[simp] theorem Term.divides_flatten (t : Term) : t.flatten.divides = t.divides := by
  induction t with
  | paren span inner ih => exact ih
  | arith span op left right ihl ihr =>
    rw [flatten, combine]
    split
    · rename_i h
      obtain ⟨⟨child, hc, hm⟩, hd⟩ := ArithOp.enters_iff.1 h
      have hp := ArithOp.precedence_of_movesInto hm
      cases op with
      | sub | div => cases child <;> cases hm
      | add => exact divides_of_op? (op?_attach hc hp) (by rw [hp]; decide)
      | mul => exact (divides_attach hd).trans ihl
    · cases op <;> first | rfl | exact ihl
  | forLoop span name first => cases first <;> rfl
  | _ => rfl

/-- The left operand moves into a flattened right one as into any other. -/
theorem Term.attach_combine {op child : ArithOp} (h : child.precedence = op.precedence)
    (l first last : Term) :
    l.attach op (combine child first last) = combine child (l.attach op first) last := by
  unfold combine
  split
  · rename_i hc
    obtain ⟨⟨c, hc, hm⟩, -⟩ := ArithOp.enters_iff.1 hc
    rw [← operate_of_moves hc hm, attach_operate h, operate_of_moves hc hm]
  · simp [attach, h]

theorem Term.combine_eq_attach {op : ArithOp} {left right : Term}
    (h : ∀ c ∈ right.op?, c.precedence ≠ op.precedence) :
    combine op left right = left.attach op right := by
  have hn : ¬op.enters right = true := by
    intro he
    obtain ⟨⟨c, hc, hm⟩, -⟩ := ArithOp.enters_iff.1 he
    exact h c hc (ArithOp.precedence_of_movesInto hm)
  rw [combine, if_neg hn, attach_eq h]

theorem Term.unparen_of_erase {t : Term} (h : t.erase = t) : t.unparen = t := by
  cases t with
  | paren span inner => exact absurd h (erase_ne_paren _ span inner)
  | _ => rfl

theorem Term.flatten_attach {left right : Term} {op : ArithOp} (hr : right.erase = right) :
    (left.attach op right).flatten = left.flatten.attach op right.flatten := by
  have apart : (∀ c ∈ right.unparen.op?, c.precedence ≠ op.precedence) →
      (arith default op left right).flatten = left.flatten.attach op right.flatten := by
    intro h
    refine combine_eq_attach fun b hb => ?_
    obtain ⟨a, ha, hab⟩ := exists_op?_of_flatten hb
    exact hab.1 ▸ h a ha
  induction right with
  | paren span inner => exact absurd hr (erase_ne_paren _ span inner)
  | arith span child first last ih =>
    by_cases hp : child.precedence = op.precedence
    · rw [erase, arith.injEq] at hr
      have ih := ih hr.2.2.1 fun h => combine_eq_attach fun b hb => by
        obtain ⟨a, ha, hab⟩ := exists_op?_of_flatten hb
        exact hab.1 ▸ h a ha
      rw [attach, if_pos hp, flatten, ih, flatten, attach_combine hp]
    · rw [attach, if_neg hp]
      exact apart fun c hc => by cases hc; exact hp
  | _ => exact apart (by simp [unparen, op?])

theorem Term.flatten_operate {op : ArithOp} {left right : Term} (hr : right.erase = right)
    (hd : op = .mul → right.op? = some .mul → right.divides = false) :
    (operate op left right).flatten = combine op left.flatten right.flatten := by
  by_cases h : ∃ child, right.op? = some child ∧ op.movesInto child = true
  · obtain ⟨child, hc, hm⟩ := h
    obtain ⟨b, hb, hab⟩ := exists_op?_flatten ((unparen_of_erase hr).symm ▸ hc)
    have hp := ArithOp.precedence_of_movesInto hm
    have hd : right.flatten.divides = false := by
      cases op with
      | sub | div => cases child <;> cases hm
      | add => exact divides_of_op? hb (by rw [← hab.1, hp]; decide)
      | mul =>
        cases child with
        | mul => rw [divides_flatten, hd rfl hc]
        | _ => cases hm
    have he : op.enters right.flatten = true :=
      ArithOp.enters_iff.2 ⟨⟨b, hb, hab.movesInto op ▸ hm⟩, hd⟩
    rw [operate_of_moves hc hm, flatten_attach hr, combine, if_pos he]
  · rw [operate_eq fun c hc => Bool.eq_false_iff.2 fun hm => h ⟨c, hc, hm⟩, flatten]

theorem Term.map_flatten_readBack {ts : List Term}
    (ih : ∀ t ∈ ts, (∀ u ∈ t.nodes, u.movesQuotient = false) → t.readBack.flatten = t.flatten)
    (h : ∀ u ∈ nodesAll ts, u.movesQuotient = false) :
    ((ts.map erase).map regroup).map flatten = ts.map flatten := by
  rw [nodesAll_eq] at h
  simp only [List.map_map]
  refine List.map_congr_left fun t ht => ih t ht fun u hu => h u ?_
  exact List.mem_flatMap.2 ⟨t, ht, hu⟩

/-- **Regrouping is flattening where no factor moves to the left of a division.** -/
theorem Term.flatten_readBack {t : Term} (h : ∀ u ∈ t.nodes, u.movesQuotient = false) :
    t.readBack.flatten = t.flatten := by
  induction t with
  | number | var => rfl
  | paren span inner ih => exact ih fun u hu => h u (.tail _ hu)
  | arith span op left right ihl ihr =>
    have ihl := ihl fun u hu => h u (.tail _ (List.mem_append_left _ hu))
    have ihr := ihr fun u hu => h u (.tail _ (List.mem_append_right _ hu))
    have e : (arith span op left right).readBack = operate op left.readBack right.readBack := rfl
    rw [e, flatten_operate (erase_readBack right), ihl, ihr, flatten]
    rintro rfl hm
    obtain ⟨a, ha, hab⟩ := exists_op?_of_readBack hm
    cases hab.2.2 rfl
    have hq := h _ (.head _)
    rw [movesQuotient, ha] at hq
    rw [← divides_flatten, ihr, divides_flatten]
    simpa using hq
  | compare span op left right ihl ihr =>
    have ihl := ihl fun u hu => h u (.tail _ (List.mem_append_left _ hu))
    have ihr := ihr fun u hu => h u (.tail _ (List.mem_append_right _ hu))
    rw [flatten, ← ihl, ← ihr]
    rfl
  | assign span name value ih =>
    rw [flatten, ← ih fun u hu => h u (.tail _ hu)]
    rfl
  | lambda span params body ih =>
    rw [flatten, ← ih fun u hu => h u (.tail _ hu)]
    rfl
  | block span body ih =>
    have ih := map_flatten_readBack ih fun u hu => h u (.tail _ hu)
    simp only [readBack, erase, regroup, flatten, eraseAll_eq, regroupAll_eq, flattenAll_eq, ih]
  | branch span cond thenSpan thenBody orElse ihc ihb ihe =>
    rw [nodes, List.forall_mem_cons, List.forall_mem_append, List.forall_mem_append] at h
    obtain ⟨-, ⟨hc, hb⟩, he⟩ := h
    simp only [readBack, erase, regroup, flatten, eraseAll_eq, regroupAll_eq, flattenAll_eq,
      map_flatten_readBack ihb hb, ← ihc hc, ← ihe he]
  | whileLoop span cond bodySpan body ihc ihb =>
    rw [nodes, List.forall_mem_cons, List.forall_mem_append] at h
    obtain ⟨-, hc, hb⟩ := h
    simp only [readBack, erase, regroup, flatten, eraseAll_eq, regroupAll_eq, flattenAll_eq,
      map_flatten_readBack ihb hb, ← ihc hc]
  | forLoop span name first limit bodySpan body ihf ihl ihb =>
    cases first with
    | none =>
      rw [nodes, List.forall_mem_cons, List.forall_mem_append] at h
      obtain ⟨-, hl, hb⟩ := h
      simp only [readBack, erase, regroup, flatten, eraseAll_eq, regroupAll_eq, flattenAll_eq,
        map_flatten_readBack ihb hb, ← ihl hl]
    | some first =>
      rw [nodes, List.forall_mem_cons, List.forall_mem_append, List.forall_mem_append] at h
      obtain ⟨-, ⟨hf, hl⟩, hb⟩ := h
      simp only [readBack, erase, regroup, flatten, eraseAll_eq, regroupAll_eq, flattenAll_eq,
        map_flatten_readBack ihb hb, ← ihl hl, ← ihf first rfl hf]
  | call span name args ih =>
    have ih := map_flatten_readBack ih fun u hu => h u (.tail _ hu)
    simp only [readBack, erase, regroup, flatten, eraseAll_eq, regroupAll_eq, flattenAll_eq, ih]

end Dynascope
