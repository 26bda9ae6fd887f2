import Dynascope.Proofs.MinifiedRuns

/-! # Minified programs are minified to themselves

Where a term needs parentheses depends on how tight its outermost construct binds
(`Term.tightness`) and, on the right of a product, on whether it is a product itself. Both are the
same for a term, for the term without parentheses and spans, and for the term read from left to
right. So the pieces of all three are the same (`pieces_erase`, `pieces_readBack`), and a program
that is read back from its minified text is minified to the same text: `minify_minify`.
-/

set_option autoImplicit false

namespace Dynascope

open Grammar Spelling

/-! ## Where parentheses are needed -/

/-- How tight the outermost construct of a term binds: operands, products, sums, comparisons, all
else. Parentheses do not count. -/
def Term.tightness : Term → Nat
  | .number .. | .var .. | .call .. => 4
  | .paren _ inner => inner.tightness
  | .arith _ op .. => op.precedence + 1
  | .compare .. => 1
  | _ => 0

namespace Term

theorem needsParens_eq (t : Term) (op : ArithOp) (side : Side) :
    t.unparen.needsParens op side = (decide (t.tightness ≤ op.precedence) ||
      (side == .right && t.tightness == op.precedence + 1 &&
        !(op == .add || (op == .mul && t.unparen.op? == some .mul)))) := by
  induction t with
  | paren span inner ih => exact ih
  | arith span child => cases op <;> cases child <;> cases side <;> rfl
  | _ => cases op <;> cases side <;> rfl

theorem needsParensInComparison_eq (t : Term) :
    t.unparen.needsParensInComparison = decide (t.tightness < 2) := by
  induction t with
  | paren span inner ih => exact ih
  | arith span op => cases op <;> rfl
  | _ => rfl

theorem needsParensInWhile_eq (t : Term) :
    t.unparen.needsParensInWhile = decide (t.tightness < 1) := by
  induction t with
  | paren span inner ih => exact ih
  | arith span op => cases op <;> rfl
  | _ => rfl

theorem needsParens_congr {t u : Term} (ht : t.tightness = u.tightness)
    (hm : t.unparen.op? = some .mul ↔ u.unparen.op? = some .mul) (op : ArithOp) (side : Side) :
    t.unparen.needsParens op side = u.unparen.needsParens op side := by
  have hb : (t.unparen.op? == some .mul) = (u.unparen.op? == some .mul) := by
    rw [Bool.eq_iff_iff, beq_iff_eq, beq_iff_eq, hm]
  rw [needsParens_eq, needsParens_eq, ht, hb]

/-- An operation binds as tight as its operator. -/
theorem tightness_of_op? {t : Term} {op : ArithOp} (h : t.op? = some op) :
    t.tightness = op.precedence + 1 := by
  cases t <;> cases h
  rfl

/-- Terms replaced by others with the same pieces. -/
theorem map_pieces {f : Term → Term} {ts : List Term} (h : ∀ t ∈ ts, (f t).pieces = t.pieces) :
    (ts.map f).map pieces = ts.map pieces := by
  rw [List.map_map]
  exact List.map_congr_left h

/-! ## Without parentheses and spans -/

section

variable (t : Term)

@[simp] theorem unparen_erase : t.erase.unparen = t.erase :=
  unparen_of_erase (erase_erase t)

@[simp] theorem op?_erase : t.erase.op? = t.unparen.op? := by
  induction t with
  | paren span inner ih => exact ih
  | forLoop span name first => cases first <;> rfl
  | _ => rfl

@[simp] theorem tightness_erase : t.erase.tightness = t.tightness := by
  induction t with
  | paren span inner ih => exact ih
  | forLoop span name first => cases first <;> rfl
  | _ => rfl

@[simp] theorem needsParens_erase (op : ArithOp) (side : Side) :
    t.erase.needsParens op side = t.unparen.needsParens op side := by
  rw [← unparen_erase]
  exact needsParens_congr (tightness_erase t) (by simp) op side

@[simp] theorem needsParensInComparison_erase :
    t.erase.needsParensInComparison = t.unparen.needsParensInComparison := by
  rw [← unparen_erase, needsParensInComparison_eq, needsParensInComparison_eq, tightness_erase]

@[simp] theorem needsParensInWhile_erase :
    t.erase.needsParensInWhile = t.unparen.needsParensInWhile := by
  rw [← unparen_erase, needsParensInWhile_eq, needsParensInWhile_eq, tightness_erase]

/-- What a term is written with does not depend on its own parentheses and spans. -/
@[simp] theorem pieces_erase : t.erase.pieces = t.pieces := by
  induction t with
  | paren span inner ih => exact ih
  | block span body ih | call span name body ih => simp [erase, pieces, map_pieces ih]
  | branch span cond thenSpan body orElse ihc ihb ihe =>
    simp only [erase, eraseAll_eq, pieces, piecesAll_eq, map_pieces ihb, ihc, ihe]
  | whileLoop span cond bodySpan body ihc ihb =>
    simp [erase, pieces, map_pieces ihb, ihc]
  | forLoop span name first limit bodySpan body ihf ihl ihb =>
    cases first with
    | none => simp only [erase, eraseAll_eq, pieces, piecesAll_eq, map_pieces ihb, ihl]
    | some first =>
      simp only [erase, eraseAll_eq, pieces, piecesAll_eq, map_pieces ihb, ihl, ihf first rfl]
  | _ => simp_all [erase, pieces]

end

/-! ## Read from left to right -/

theorem unparen_of_op? {t : Term} {op : ArithOp} (h : t.op? = some op) : t.unparen = t := by
  cases t <;> cases h
  rfl

theorem exists_op?_attach (left right : Term) (op : ArithOp) :
    ∃ a, (left.attach op right).op? = some a ∧ a.precedence = op.precedence := by
  by_cases h : ∃ child ∈ right.op?, child.precedence = op.precedence
  · obtain ⟨child, hc, hp⟩ := h
    exact ⟨child, op?_attach hc hp, hp⟩
  · rw [attach_eq fun child hc hp => h ⟨child, hc, hp⟩]
    exact ⟨op, rfl, rfl⟩

/-- Next to an operator of another precedence the side does not matter. -/
theorem needsParens_apart {t : Term} {op : ArithOp}
    (h : ∀ child ∈ t.op?, child.precedence ≠ op.precedence) :
    t.needsParens op .right = t.needsParens op .left := by
  cases t with
  | arith span child =>
    have hne : (child.precedence == op.precedence) = false := beq_false_of_ne (h child rfl)
    simp [needsParens, hne]
  | _ => rfl

theorem pieces_attach_apart (left : Term) {right : Term} {op : ArithOp} (hr : right.erase = right)
    (h : ∀ child ∈ right.op?, child.precedence ≠ op.precedence) :
    (left.attach op right).pieces = enclose (left.unparen.needsParens op .left) left.pieces ++
      .token op.token :: enclose (right.needsParens op .left) right.pieces := by
  rw [attach_eq h, pieces, unparen_of_erase hr, needsParens_apart h]

/-- The operands of the right operation follow the left one as they stand. -/
theorem pieces_attach (left : Term) {right : Term} (op : ArithOp) (hr : right.erase = right) :
    (left.attach op right).pieces = enclose (left.unparen.needsParens op .left) left.pieces ++
      .token op.token :: enclose (right.needsParens op .left) right.pieces := by
  induction right with
  | arith span child first last ih =>
    by_cases hp : child.precedence = op.precedence
    · rw [erase, arith.injEq] at hr
      obtain ⟨-, -, hf, -⟩ := hr
      have ih := ih hf
      -- neither the operation in front nor the whole right one stands in parentheses
      obtain ⟨a, ha, hap⟩ := exists_op?_attach left first op
      have hin : (left.attach op first).unparen.needsParens child .left = false :=
        (needsParens_same (by rw [unparen_of_op? ha, ha]) (hap.trans hp.symm)).1
      have hout : (arith span child first last).needsParens op .left = false :=
        (needsParens_same (t := arith span child first last) rfl hp).1
      rw [attach, if_pos hp, pieces, hin, ih, hout, pieces, unparen_of_erase hf,
        needsParens_left hp]
      simp [enclose]
    · refine pieces_attach_apart left hr fun c hc => ?_
      cases hc
      exact hp
  | _ => exact pieces_attach_apart left hr (by simp [op?])

/-- An operation is written alike, whether it is read from left to right or not. -/
theorem pieces_operate (left : Term) {right : Term} (op : ArithOp) (hr : right.erase = right) :
    (operate op left right).pieces = (arith default op left right).pieces := by
  by_cases h : ∃ child, right.op? = some child ∧ op.movesInto child = true
  · obtain ⟨child, hc, hm⟩ := h
    have hu := unparen_of_erase hr
    have hn := needsParens_same (t := right) (by rw [hu, hc]) (ArithOp.precedence_of_movesInto hm)
    rw [operate_of_moves hc hm, pieces_attach left op hr, pieces, hn.2, hm, ← hu, hn.1]
    simp
  · rw [operate_eq fun c hc => Bool.eq_false_iff.2 fun hm => h ⟨c, hc, hm⟩]

section

variable (t : Term)

@[simp] theorem unparen_readBack : t.readBack.unparen = t.readBack :=
  unparen_of_erase (erase_readBack t)

theorem op?_readBack_eq_mul :
    t.readBack.op? = some .mul ↔ t.unparen.op? = some .mul := by
  refine ⟨fun h => ?_, fun h => ?_⟩
  · obtain ⟨a, ha, hab⟩ := exists_op?_of_readBack h
    rw [ha, hab.2.2 rfl]
  · obtain ⟨b, hb, hab⟩ := exists_op?_readBack h
    rw [hb, hab.2.1 rfl]

@[simp] theorem tightness_readBack : t.readBack.tightness = t.tightness := by
  induction t with
  | paren span inner ih => exact ih
  | arith span op left right =>
    obtain ⟨b, hb, h, -⟩ := op?_operate op left.readBack right.readBack
    exact (tightness_of_op? hb).trans (congrArg (· + 1) h.symm)
  | forLoop span name first => cases first <;> rfl
  | _ => rfl

@[simp] theorem needsParens_readBack (op : ArithOp) (side : Side) :
    t.readBack.needsParens op side = t.unparen.needsParens op side := by
  rw [← unparen_readBack]
  exact needsParens_congr (tightness_readBack t) (by simp [op?_readBack_eq_mul]) op side

@[simp] theorem needsParensInComparison_readBack :
    t.readBack.needsParensInComparison = t.unparen.needsParensInComparison := by
  rw [← unparen_readBack, needsParensInComparison_eq, needsParensInComparison_eq,
    tightness_readBack]

@[simp] theorem needsParensInWhile_readBack :
    t.readBack.needsParensInWhile = t.unparen.needsParensInWhile := by
  rw [← unparen_readBack, needsParensInWhile_eq, needsParensInWhile_eq, tightness_readBack]

/-- **A term is written like what it is read back as.** -/
theorem pieces_readBack : t.readBack.pieces = t.pieces := by
  induction t with
  | number | var => rfl
  | paren span inner ih => exact ih
  | arith span op left right ihl ihr =>
    have e : (arith span op left right).readBack = operate op left.readBack right.readBack := rfl
    rw [e, pieces_operate _ _ (erase_readBack right), pieces, pieces, ihl, ihr, unparen_readBack,
      unparen_readBack, needsParens_readBack, needsParens_readBack]
  | compare span op left right ihl ihr =>
    have e : (compare span op left right).readBack =
        compare default op left.readBack right.readBack := rfl
    rw [e, pieces, pieces, ihl, ihr, unparen_readBack, unparen_readBack,
      needsParensInComparison_readBack, needsParensInComparison_readBack]
  | assign span name value ih =>
    have e : (assign span name value).readBack = assign default name value.readBack := rfl
    rw [e, pieces, pieces, ih]
  | lambda span params body ih =>
    have e : (lambda span params body).readBack = lambda default params body.readBack := rfl
    rw [e, pieces, pieces, ih]
  | block span body ih =>
    have e : (block span body).readBack = block default (body.map readBack) := by
      simp [readBack, map_readBack, erase, regroup]
    simp only [e, pieces, piecesAll_eq, map_pieces ih]
  | branch span cond thenSpan body orElse ihc ihb ihe =>
    have e : (branch span cond thenSpan body orElse).readBack =
        branch default cond.readBack default (body.map readBack) orElse.readBack := by
      simp [readBack, map_readBack, erase, regroup]
    simp only [e, pieces, piecesAll_eq, map_pieces ihb, ihc, ihe]
  | whileLoop span cond bodySpan body ihc ihb =>
    have e : (whileLoop span cond bodySpan body).readBack =
        whileLoop default cond.readBack default (body.map readBack) := by
      simp [readBack, map_readBack, erase, regroup]
    simp only [e, pieces, piecesAll_eq, map_pieces ihb, ihc, unparen_readBack,
      needsParensInWhile_readBack]
  | forLoop span name first limit bodySpan body ihf ihl ihb =>
    have e : (forLoop span name first limit bodySpan body).readBack =
        forLoop default name (first.map readBack) limit.readBack default (body.map readBack) := by
      cases first <;> simp [readBack, map_readBack, erase, regroup]
    cases first with
    | none => simp only [e, Option.map, pieces, piecesAll_eq, map_pieces ihb, ihl]
    | some first =>
      simp only [e, Option.map, pieces, piecesAll_eq, map_pieces ihb, ihl, ihf first rfl]
  | call span name args ih =>
    have e : (call span name args).readBack = call default name (args.map readBack) := by
      simp [readBack, map_readBack, erase, regroup]
    simp only [e, pieces, piecesAll_eq, map_pieces ih]

end

end Term

/-! ## Programs -/

namespace Program

theorem pieces_eq_of_map_erase {p q : Program}
    (h : q.statements.map Term.erase = p.statements.map Term.readBack) : q.pieces = p.pieces := by
  have hq : q.statements.map Term.pieces = p.statements.map Term.pieces := by
    rw [← Term.map_pieces fun t _ => Term.pieces_erase t, h,
      Term.map_pieces fun t _ => Term.pieces_readBack t]
  rw [pieces, pieces, piecesAll_eq, piecesAll_eq, hq]

theorem writable {p : Program} (hn : ∀ name ∈ p.names, IsName name)
    (hl : ∀ n ∈ p.literals, n ≠ Int64.minValue) : ∀ t ∈ p.statements, t.Writable :=
  Term.writable_all.1 ⟨by simpa [names] using hn, by simpa [literals] using hl⟩

/-- The text of the pieces is the minified text. -/
theorem spell_pieces {p : Program} (h : ∀ t ∈ p.statements, t.Writable) :
    spell p.pieces = p.minify.toList := by
  rw [minify, pieces, minifyAll_eq, piecesAll_eq]
  exact spell_separated .semi fun t ht => Dynascope.spell_pieces (h t ht)

end Program

/-- **Minifying again changes nothing.** The program that is read back from a minified text, which
can have other groups and parentheses than the one that was minified, has this text again as its
minified text. -/
theorem minify_minify (p : Program) (hn : ∀ name ∈ p.names, IsName name)
    (hl : ∀ n ∈ p.literals, n ≠ Int64.minValue) :
    ∃ q, parseSource p.minify = .ok q ∧ q.minify = p.minify := by
  have hw := Program.writable hn hl
  obtain ⟨q, hq, e⟩ := exists_parseSource_minify hw
  refine ⟨q, hq, String.toList_injective ?_⟩
  have e : q.statements.map Term.erase = p.statements.map Term.readBack := by
    simpa [Program.erase, Program.regroup, Term.map_readBack] using e
  rw [← Program.spell_pieces hw, ← Program.spell_pieces (writable_of_parseSource hq),
    Program.pieces_eq_of_map_erase e]

/-- A difference on the right of a sum, which is read back as a difference of a sum. -/
theorem minify_minify_sum :
    ∃ q, parseSource "a+1-(b<2)" = .ok q ∧ q.minify = "a+1-(b<2)" := by
  have h := minify_minify ⟨[.arith default .add (.var default "a")
    (.arith default .sub (.number default 1)
      (.compare default .lt (.var default "b") (.number default 2)))]⟩ ?_ ?_
  · have e : Program.minify ⟨[.arith default .add (.var default "a")
      (.arith default .sub (.number default 1)
        (.compare default .lt (.var default "b") (.number default 2)))]⟩ = "a+1-(b<2)" := by
      decide
    rw [e] at h
    exact h
  · intro name h
    have : name = "a" ∨ name = "b" := by simpa [Program.names, Term.names] using h
    rcases this with rfl | rfl
    · exact ⟨⟨'a', [], rfl, rfl, rfl⟩, rfl⟩
    · exact ⟨⟨'b', [], rfl, rfl, rfl⟩, rfl⟩
  · intro n h
    have : n = 1 ∨ n = 2 := by simpa [Program.literals, Term.literals] using h
    rcases this with rfl | rfl <;> decide

end Dynascope
