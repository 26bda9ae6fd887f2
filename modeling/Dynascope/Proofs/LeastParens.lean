import Dynascope.Proofs.JoinedSources
import Dynascope.Proofs.LongestMatch
import Dynascope.Proofs.Reprinting

/-! # Minified programs have no parentheses to spare

A phrase has at least as many opening parentheses as its value is written with, and one more where
its value binds less tight than its category asks for: `Derives.parens_le`. So a source has at
least as many as the minified text of its program. A minified text that lost a pair of parentheses
has one fewer than the program needs, so it is no program, or a program that differs from the first
one by more than layout: `minify_parens`.
-/

set_option autoImplicit false

namespace Dynascope

open Grammar Lexer Spelling

/-! ## Parentheses among pieces -/

/-- The number of opening parentheses among pieces. -/
def parens (ps : List Piece) : Nat :=
  (tokensOf ps).count .lparen

section

variable (ps qs : List Piece)

@[simp] theorem parens_nil : parens [] = 0 := rfl

@[simp] theorem parens_token (t : Token) :
    parens (.token t :: ps) = parens ps + if t = .lparen then 1 else 0 := by
  simp [parens, List.count_cons]

@[simp] theorem parens_blank (c : Char) : parens (.blank c :: ps) = parens ps := rfl

@[simp] theorem parens_append : parens (ps ++ qs) = parens ps + parens qs := by
  simp [parens]

@[simp] theorem parens_enclose (needed : Bool) :
    parens (enclose needed ps) = parens ps + needed.toNat := by
  cases needed <;> simp [enclose]

end

@[simp] theorem parens_separated {mark : Token} (h : mark ≠ .lparen) (pss : List (List Piece)) :
    parens (separated mark pss) = (pss.map parens).sum := by
  fun_induction separated mark pss with
  | case1 => rfl
  | case2 last => simp
  | case3 first rest hne ih => simp [ih, h]

/-- The number of opening parentheses that a term is written with. -/
def Term.parens (t : Term) : Nat :=
  Dynascope.parens t.pieces

@[simp] theorem parens_braced (body : List Term) :
    parens (bracedPieces (body.map Term.pieces)) = (body.map Term.parens).sum := by
  have e : Dynascope.parens ∘ Term.pieces = Term.parens := rfl
  simp [bracedPieces, e]

/-! ## Parentheses in a phrase -/

/-- The number of opening parentheses among tokens. -/
def opens (ls : List Lexeme) : Nat :=
  (ls.map (·.token)).count .lparen

section

variable (l : Lexeme) (xs ys : List Lexeme)

@[simp] theorem opens_nil : opens [] = 0 := rfl

@[simp] theorem opens_cons :
    opens (l :: xs) = opens xs + if l.token = .lparen then 1 else 0 := by
  simp [opens, List.count_cons]

@[simp] theorem opens_append : opens (xs ++ ys) = opens xs + opens ys := by
  simp [opens]

end

/-- The number of opening parentheses that a term is written with where a construct of some
tightness is asked for. -/
def Term.parensWithin (t : Term) (tightness : Nat) : Nat :=
  t.parens + (decide (t.tightness < tightness)).toNat

/-- The number of opening parentheses that the value of a phrase is written with. -/
def Grammar.Category.parens : (c : Category) → c.Value → Nat
  | .program, p => Dynascope.parens p.pieces
  | .seq, ts | .opened, ts | .closed, ts | .items, ts | .args, ts => (ts.map Term.parens).sum
  | .block, b => (b.2.map Term.parens).sum
  | .range, r => (r.1.toList.map Term.parens).sum + r.2.parens + 1
  | .expr, t | .inline, t => t.parens
  | .comparison, t => t.parensWithin 1
  | .sum, t => t.parensWithin 2
  | .product, t => t.parensWithin 3
  | .atom, t => t.parensWithin 4

namespace Term

theorem parens_le_parensWithin (t : Term) (n : Nat) : t.parens ≤ t.parensWithin n :=
  Nat.le_add_right _ _

theorem parensWithin_le_succ (t : Term) (n : Nat) : t.parensWithin n ≤ t.parens + 1 :=
  Nat.add_le_add_left (Bool.toNat_le _) _

/-- A construct that is tight enough has no parentheses around it. -/
theorem parensWithin_of_le {t : Term} {n : Nat} (h : n ≤ t.tightness) :
    t.parensWithin n = t.parens := by
  simp [parensWithin, h]

theorem parensWithin_mono (t : Term) {m n : Nat} (h : m ≤ n) :
    t.parensWithin m ≤ t.parensWithin n := by
  unfold parensWithin
  by_cases hm : t.tightness < m
  · simp [hm, Nat.lt_of_lt_of_le hm h]
  · simp [hm]

/-- On the left of an operator a term stands as an operation of the precedence of the operator. -/
theorem parens_left (t : Term) (op : ArithOp) :
    t.parens + (t.unparen.needsParens op .left).toNat = t.parensWithin (op.precedence + 1) := by
  have hs : (Side.left == Side.right) = false := rfl
  simp [needsParens_eq, hs, parensWithin]

/-- On the right an operand that binds tighter than the operator needs no parentheses. -/
theorem parens_right (t : Term) (op : ArithOp) :
    t.parens + (t.unparen.needsParens op .right).toNat ≤ t.parensWithin (op.precedence + 2) := by
  unfold parensWithin
  by_cases h : t.tightness < op.precedence + 2
  · simpa [h] using Bool.toNat_le _
  · have hn : t.unparen.needsParens op .right = false := by
      rw [needsParens_eq, decide_eq_false (by omega)]
      have hne : (t.tightness == op.precedence + 1) = false := beq_false_of_ne (by omega)
      simp [hne]
    simp [hn]

/-- An operation needs no parentheses of its own where operations of its operator may stand. -/
theorem parensWithin_arith (span : Span) (op : ArithOp) (left right : Term) :
    (arith span op left right).parensWithin (op.precedence + 1) ≤
      left.parensWithin (op.precedence + 1) + right.parensWithin (op.precedence + 2) := by
  have hl := left.parens_left op
  have hr := right.parens_right op
  have ho : op.token ≠ .lparen := by cases op <;> decide
  have ht : op.precedence + 1 ≤ (arith span op left right).tightness := Nat.le_refl _
  rw [parensWithin_of_le ht]
  simp only [parens, pieces, parens_append, parens_enclose, parens_token, ho, if_false] at *
  omega

theorem parens_compare (span : Span) (op : CmpOp) (left right : Term) :
    (compare span op left right).parens = left.parensWithin 2 + right.parensWithin 2 := by
  have ho : op.token ≠ .lparen := by cases op <;> decide
  simp [parens, pieces, parensWithin, needsParensInComparison_eq, ho]

@[simp] theorem parens_number (span : Span) (n : Int64) : (number span n).parens = 0 := by
  unfold parens pieces numberPieces
  split <;> rfl

@[simp] theorem parens_assign (span : Span) (name : String) (value : Term) :
    (assign span name value).parens = value.parens := by
  simp [parens, pieces]

@[simp] theorem parens_block (span : Span) (body : List Term) :
    (block span body).parens = (body.map parens).sum := by
  rw [parens, pieces, piecesAll_eq, parens_braced]

@[simp] theorem parens_branch (span thenSpan : Span) (cond orElse : Term) (body : List Term) :
    (branch span cond thenSpan body orElse).parens =
      cond.parens + (body.map parens).sum + orElse.parens + 1 := by
  rw [parens, pieces, piecesAll_eq]
  simp [parens]
  omega

@[simp] theorem parens_whileLoop (span bodySpan : Span) (cond : Term) (body : List Term) :
    (whileLoop span cond bodySpan body).parens =
      cond.parensWithin 1 + (body.map parens).sum := by
  rw [parens, pieces, piecesAll_eq]
  simp [parens, parensWithin, needsParensInWhile_eq]

@[simp] theorem parens_forLoop (span bodySpan : Span) (name : String) (first : Option Term)
    (limit : Term) (body : List Term) :
    (forLoop span name first limit bodySpan body).parens =
      (first.toList.map parens).sum + limit.parens + 1 + (body.map parens).sum := by
  cases first
  all_goals
    rw [parens, pieces, piecesAll_eq]
    simp [parens]
    omega

@[simp] theorem parens_lambda (span : Span) (params : List String) (body : Term) :
    (lambda span params body).parens = body.parens := by
  have hp : Dynascope.parens (separated .comma (params.map fun p => [.token (.ident p)])) = 0 := by
    simp [Function.comp_def]
  cases params <;> simp_all [parens, pieces]

@[simp] theorem parens_call (span : Span) (name : String) (args : List Term) :
    (call span name args).parens = (args.map parens).sum + 1 := by
  have e : Dynascope.parens ∘ pieces = parens := rfl
  simp [parens, pieces, e]

end Term

theorem Program.parens_pieces (p : Program) :
    parens p.pieces = (p.statements.map Term.parens).sum := by
  have e : parens ∘ Term.pieces = Term.parens := rfl
  simp [pieces, e]

theorem Grammar.SumOp.precedence_eq {t : Token} {op : ArithOp} (h : SumOp t op) :
    op.precedence = 1 := by
  cases h <;> rfl

theorem Grammar.ProductOp.precedence_eq {t : Token} {op : ArithOp} (h : ProductOp t op) :
    op.precedence = 2 := by
  cases h <;> rfl

/-- **A phrase has the parentheses that its value is written with.** -/
theorem Grammar.Derives.parens_le {c : Category} {ls : List Lexeme} {v : c.Value}
    (h : Derives c ls v) : c.parens v ≤ opens ls := by
  induction h with
  | seqOpened _ ih | seqClosed _ ih | exprInline _ ih | argsItems _ ih => exact ih
  | inline _ ih => exact Nat.le_trans (Term.parens_le_parensWithin _ _) ih
  | comparison _ ih | sum _ ih | product _ ih =>
    exact Nat.le_trans (Term.parensWithin_mono _ (by decide)) ih
  | start | noItems => exact Nat.le_refl 0
  | program _ ih => simpa [Category.parens, Program.parens_pieces] using ih
  | openedBlock _ _ ih₁ ih₂ | closed _ _ ih₁ ih₂ | argsLast _ _ ih₁ ih₂ =>
    simpa [Category.parens] using Nat.add_le_add ih₁ ih₂
  | item _ _ hc ih₁ ih₂ =>
    simpa [Category.parens, hc] using Nat.add_le_add ih₁ ih₂
  | openedSemi _ hm ih | closedSemi _ hm ih => simpa [Category.parens, hm] using ih
  | block hl _ hr ih => simpa [Category.parens, hl, hr] using ih
  | exprBlock _ ih => simpa [Category.parens] using ih
  | assign hi he _ ih => simpa [Category.parens, hi, he] using ih
  | branch hi hl _ hr hc _ he _ ihc ihb ihe =>
    simp only [Category.parens, Term.parens_branch, opens_cons, opens_append, hi, hl, hr, hc, he,
      reduceCtorEq, if_true, if_false] at *
    omega
  | whileLoop hw _ _ ihc ihb =>
    simpa [Category.parens, hw] using Nat.add_le_add ihc ihb
  | forLoop hf hx hi _ _ ihr ihb =>
    simpa [Category.parens, hf, hx, hi] using Nat.add_le_add ihr ihb
  | lambda hk hp hc _ ih =>
    simp only [Category.parens, Term.parens_lambda, opens_cons, opens_append, hk, hc,
      reduceCtorEq, if_false] at *
    omega
  | rangeTo hk hl _ hr ih => simpa [Category.parens, hk, hl, hr] using ih
  | rangeFromTo hk hl _ hc _ hr ih₁ ih₂ =>
    have := Nat.add_le_add ih₁ ih₂
    simpa [Category.parens, hk, hl, hc, hr, ← Nat.add_assoc] using this
  | compare _ ho _ ih₁ ih₂ =>
    rw [Category.parens, Term.parensWithin_of_le (Nat.le_refl 1), Term.parens_compare,
      opens_append, opens_cons]
    have := Nat.add_le_add ih₁ ih₂
    simp only [Category.parens] at *
    omega
  | @sumOp xs ys o op left right _ ho _ ih₁ ih₂ =>
    have h := Term.parensWithin_arith (spanOf (xs ++ o :: ys)) op left right
    rw [ho.precedence_eq] at h
    rw [opens_append, opens_cons]
    exact Nat.le_trans h (Nat.add_le_add ih₁ (Nat.le_add_right_of_le ih₂))
  | @productOp xs ys o op left right _ ho _ ih₁ ih₂ =>
    have h := Term.parensWithin_arith (spanOf (xs ++ o :: ys)) op left right
    rw [ho.precedence_eq] at h
    rw [opens_append, opens_cons]
    exact Nat.le_trans h (Nat.add_le_add ih₁ (Nat.le_add_right_of_le ih₂))
  | number | negative =>
    rw [Category.parens, Term.parensWithin_of_le (Nat.le_refl 4), Term.parens_number]
    exact Nat.zero_le _
  | var => exact Nat.zero_le _
  | call hi hl _ hr ih =>
    rw [Category.parens, Term.parensWithin_of_le (Nat.le_refl 4), Term.parens_call]
    simpa [Category.parens, hi, hl, hr] using ih
  | @paren l r xs t hl _ hr ih =>
    refine Nat.le_trans (t.parensWithin_le_succ 4) ?_
    simpa [Category.parens, hl, hr] using ih

/-! ## Parentheses of a text -/

/-- Keywords and marks are read from their spelling. -/
theorem Lexer.Spells.eq_text {t : Token} {word rest : List Char} (h : Spells t word rest)
    (ht : t.isFixed = true) : word = t.text.toList := by
  cases (spells_iff.1 h).2 with
  | fixed => rfl
  | int | ident => cases ht

theorem Lexer.Spells.count_le {t : Token} {word rest : List Char} (h : Spells t word rest) :
    (if t = .lparen then 1 else 0) ≤ word.count '(' := by
  by_cases e : t = .lparen
  · subst e
    rw [h.eq_text rfl]
    decide
  · simp [e]

/-- A text has the opening parentheses among its tokens. -/
theorem Lexer.Segmented.opens_le {position : Nat} {cs : List Char} {ls : List Lexeme}
    (h : Segmented position cs ls) : opens ls ≤ cs.count '(' := by
  induction h with
  | done => exact Nat.le_refl 0
  | blank _ _ ih => exact Nat.le_trans ih (List.count_le_count_cons)
  | comment _ _ _ ih =>
    rw [List.count_cons, List.count_append]
    omega
  | token hw _ ih =>
    have h := hw.count_le
    rw [opens_cons, List.count_append]
    exact Nat.add_comm _ _ ▸ Nat.add_le_add h ih

@[simp] theorem comment_mem_enclose {cs : List Char} {ps : List Piece} (needed : Bool) :
    Piece.comment cs ∈ enclose needed ps ↔ Piece.comment cs ∈ ps := by
  cases needed <;> simp [enclose]

@[simp] theorem comment_mem_separated {cs : List Char} (mark : Token) (pss : List (List Piece)) :
    Piece.comment cs ∈ separated mark pss ↔ ∃ ps ∈ pss, Piece.comment cs ∈ ps := by
  fun_induction separated mark pss with
  | case1 => simp
  | case2 last => simp
  | case3 first rest hne ih => simp [ih]

@[simp] theorem comment_mem_braced {cs : List Char} (pss : List (List Piece)) :
    Piece.comment cs ∈ bracedPieces pss ↔ ∃ ps ∈ pss, Piece.comment cs ∈ ps := by
  simp [bracedPieces]

theorem Term.comment_notMem_pieces (t : Term) (cs : List Char) : Piece.comment cs ∉ t.pieces := by
  induction t with
  | number span n =>
    rw [pieces, numberPieces]
    split <;> simp
  | forLoop span name first => cases first <;> simp_all [pieces]
  | lambda span params => cases params <;> simp_all [pieces]
  | _ => simp_all [pieces]

/-- The text of a token has an opening parenthesis if the token is one. -/
theorem count_text {t : Token} (ht : t.Lexical) :
    t.text.toList.count '(' = if t = .lparen then 1 else 0 := by
  cases t with
  | int n =>
    rw [Token.text, toString_of_nonneg ht]
    refine List.count_eq_zero.2 fun h => ?_
    cases isDigit_toDigits h
  | ident name =>
    obtain ⟨⟨c, cs, e, hc, hcs⟩, -⟩ := ht
    rw [Token.text, e]
    refine List.count_eq_zero.2 fun h => ?_
    rcases List.mem_cons.1 h with rfl | h
    · cases hc
    · cases List.all_eq_true.1 hcs _ h
  | _ => decide

theorem count_spell {ps : List Piece} (hv : ∀ p ∈ ps, p.Valid)
    (hc : ∀ cs, Piece.comment cs ∉ ps) : (spell ps).count '(' = parens ps := by
  induction ps with
  | nil => rfl
  | cons p ps ih =>
    obtain ⟨hp, hv⟩ := List.forall_mem_cons.1 hv
    have ih := ih hv fun cs h => hc cs (.tail _ h)
    rw [spell_cons, List.count_append, ih]
    cases p with
    | token t => rw [Piece.chars, count_text hp, parens_token, Nat.add_comm]
    | blank c =>
      have hne : c ≠ '(' := by rintro rfl; cases hp
      simp [Piece.chars, hne]
    | comment cs => exact absurd (.head _) (hc cs)

/-- A minified text has the opening parentheses of its pieces only. -/
theorem Program.count_minify {p : Program} (h : ∀ t ∈ p.statements, t.Writable) :
    p.minify.toList.count '(' = parens p.pieces := by
  rw [← spell_pieces h]
  refine count_spell ?_ fun cs => ?_
  · rw [pieces, piecesAll_eq]
    exact valid_separated .semi trivial (by simpa using fun t ht => valid_pieces (h t ht))
  · simpa [pieces] using fun t _ => t.comment_notMem_pieces cs

/-- A source has the opening parentheses that its program is written with. -/
theorem parens_le_of_parseSource {source : String} {p : Program} (h : parseSource source = .ok p) :
    parens p.pieces ≤ source.toList.count '(' := by
  obtain ⟨ls, hs, hd⟩ := parseSource_eq_ok_iff.1 h
  rw [Program.parens_pieces]
  exact Nat.le_trans hd.parens_le (scan_eq_ok_iff.1 hs).opens_le

/-! ## The text of a term in parentheses -/

/-- The first token of a text that starts at it. -/
theorem Lexer.Segmented.head {position : Nat} {cs : List Char} {l : Lexeme} {ls : List Lexeme}
    (h : Segmented position cs (l :: ls)) (hl : l.span.start = position) :
    ∃ word rest, cs = word ++ rest ∧ Spells l.token word rest ∧
      l.span.stop = position + byteLength word ∧ Segmented l.span.stop rest ls := by
  cases h with
  | @blank _ c _ _ _ h =>
    have := (h.bounds.1 l (.head _)).1
    have := c.utf8Size_pos
    omega
  | @comment _ note _ _ _ _ h =>
    have := (h.bounds.1 l (.head _)).1
    have := byteLength_pos (List.cons_ne_nil '#' note)
    omega
  | token hw h => exact ⟨_, _, rfl, hw, rfl, h⟩

theorem Grammar.Derives.exists_paren {ls : List Lexeme} {span : Span} {inner : Term}
    (h : Derives .expr ls (.paren span inner)) :
    ∃ l xs r, ls = l :: (xs ++ [r]) ∧ l.token = .lparen ∧ r.token = .rparen ∧ span = spanOf ls := by
  have hs := h.spanned.2
  cases h with | exprInline h =>
  cases h with | inline h =>
  cases h with | comparison h =>
  cases h with | sum h =>
  cases h with | product h =>
  cases h with | paren hl _ hr =>
  exact ⟨_, _, _, rfl, hl, hr, hs⟩

/-- A pair of parentheses with a text between them, in a source. -/
structure Span.Encloses (span : Span) (source before inside after : String) : Prop where
  source_eq : source = before ++ "(" ++ inside ++ ")" ++ after
  start_eq : span.start = before.utf8ByteSize
  stop_eq : span.stop = (before ++ "(" ++ inside ++ ")").utf8ByteSize

/-- A term in parentheses stands between them in the source. -/
theorem Program.Node.exists_encloses {source : String} {p : Program}
    (h : parseSource source = .ok p) {span : Span} {inner : Term}
    (hn : p.Node (.paren span inner)) :
    ∃ before inside after, span.Encloses source before inside after := by
  obtain ⟨ls, hs, hd⟩ := parseSource_eq_ok_iff.1 h
  obtain ⟨xs, ys, zs, rfl, hy⟩ := hn.exists_derives (.program hd)
  obtain ⟨l, ms, r, rfl, hl, hr, rfl⟩ := hy.exists_paren
  have hseg : Segmented 0 source.toList (xs ++ l :: (ms ++ r :: zs)) := by
    simpa using scan_eq_ok_iff.1 hs
  -- cut before and after each of the two tokens
  obtain ⟨before, _, hcs, hstart, h₁⟩ := hseg.suffix
  obtain ⟨_, _, rfl, hw, hstop, h₂⟩ := h₁.head rfl
  rw [hl] at hw
  cases hw.eq_text rfl
  obtain ⟨inside, _, rfl, hstart', h₃⟩ := h₂.suffix
  obtain ⟨_, after, rfl, hw', hstop', -⟩ := h₃.head rfl
  rw [hr] at hw'
  cases hw'.eq_text rfl
  have hspan : spanOf (l :: (ms ++ [r])) = ⟨l.span.start, r.span.stop⟩ :=
    spanOf_append (List.cons_ne_nil l ms) (List.cons_ne_nil r [])
  have size : ∀ cs, (String.ofList cs).utf8ByteSize = byteLength cs := fun cs => by
    rw [String.utf8ByteSize_ofList, byteLength_eq_utf8Len]
  refine ⟨String.ofList before, String.ofList inside, String.ofList after, ?_, ?_, ?_⟩
  · apply String.toList_injective
    rw [hcs]
    simp [Token.text]
  · rw [hspan, size, hstart, Nat.zero_add]
  · have hl : byteLength Token.lparen.text.toList = "(".utf8ByteSize := rfl
    have hr : byteLength Token.rparen.text.toList = ")".utf8ByteSize := rfl
    rw [hspan, hstop', hstart', hstop, hstart, Nat.zero_add, hl, hr]
    simp only [String.utf8ByteSize_append, size]

/-! ## Programs -/

/-- **Minified programs have no parentheses to spare.** Without any pair of parentheses that the
parser keeps as a node, the minified text is no program, or a program that differs by more than
parentheses and spans. -/
theorem minify_parens (p : Program) (hn : ∀ name ∈ p.names, IsName name)
    (hl : ∀ n ∈ p.literals, n ≠ Int64.minValue) :
    ∃ q, parseSource p.minify = .ok q ∧
      ∀ span inner, q.Node (.paren span inner) →
        ∃ before inside after, span.Encloses p.minify before inside after ∧
          ∀ q', parseSource (before ++ inside ++ after) = .ok q' → q'.erase ≠ q.erase := by
  have hw := Program.writable hn hl
  obtain ⟨q, hq, e⟩ := exists_parseSource_minify hw
  refine ⟨q, hq, fun span inner hnode => ?_⟩
  obtain ⟨before, inside, after, he⟩ := hnode.exists_encloses hq
  refine ⟨before, inside, after, he, fun q' hq' e' => ?_⟩
  have hpieces : q'.pieces = p.pieces := by
    refine Program.pieces_eq_of_map_erase ?_
    simpa [Program.erase, Program.regroup, Term.map_readBack] using e'.trans e
  have hle := parens_le_of_parseSource hq'
  have hcount := Program.count_minify hw
  rw [hpieces] at hle
  rw [he.source_eq] at hcount
  simp only [String.toList_append, List.count_append] at hle hcount
  have h₁ : ("(".toList).count '(' = 1 := rfl
  omega

/-- The parentheses of a block in a difference, without which it is a statement before another. -/
theorem minify_parens_block :
    ∃ q before inside after, parseSource "(\x7b1\x7d)-2" = .ok q ∧
      Span.Encloses ⟨0, 5⟩ "(\x7b1\x7d)-2" before inside after ∧
      ∀ q', parseSource (before ++ inside ++ after) = .ok q' → q'.erase ≠ q.erase := by
  have h := minify_parens ⟨[.arith default .sub (.block default [.number default 1])
    (.number default 2)]⟩ (by simp [Program.names, Term.names]) ?_
  · have e : Program.minify ⟨[.arith default .sub (.block default [.number default 1])
        (.number default 2)]⟩ = "(\x7b1\x7d)-2" := by decide
    rw [e] at h
    obtain ⟨q, hq, h⟩ := h
    have hq' : parseSource "(\x7b1\x7d)-2" = .ok ⟨[.arith ⟨0, 7⟩ .sub
        (.paren ⟨0, 5⟩ (.block ⟨1, 4⟩ [.number ⟨2, 3⟩ 1])) (.number ⟨6, 7⟩ 2)]⟩ := by cbv
    cases hq.symm.trans hq'
    obtain ⟨before, inside, after, h⟩ := h _ _ (.part (.statement (.head _)) (.head _))
    exact ⟨_, before, inside, after, hq, h⟩
  · intro n h
    have : n = 1 ∨ n = 2 := by simpa [Program.literals, Term.literals] using h
    rcases this with rfl | rfl <;> decide

end Dynascope
