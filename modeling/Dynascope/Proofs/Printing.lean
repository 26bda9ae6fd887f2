import Dynascope.Proofs.Erasure
import Dynascope.Proofs.Spelling
import Mathlib.Tactic.Tauto

/-! # The pieces of a minified term

`Term.pieces` are the tokens and blanks of `Term.minify`: `spell_pieces`. Each piece is one that the
lexer reads (`valid_pieces`), and none runs into the next (`apart_pieces`), so that
`tokenize_minify` reads a minified program back as the tokens of its pieces.
-/

set_option autoImplicit false

namespace Dynascope

open Lexer Spelling

/-! ## What can be written -/

/-- The names of a term can be written as names and its literals as literals. The least integer
cannot: the literal after its sign is out of range. -/
def Term.Writable (t : Term) : Prop :=
  (∀ name ∈ t.names, IsName name) ∧ ∀ n ∈ t.literals, n ≠ Int64.minValue

namespace Term

@[simp] theorem writable_number {span : Span} {n : Int64} :
    (number span n).Writable ↔ n ≠ Int64.minValue := by
  simp [Writable, names, literals]

@[simp] theorem writable_paren {span : Span} {t : Term} : (paren span t).Writable ↔ t.Writable :=
  Iff.rfl

@[simp] theorem writable_arith {span : Span} {op : ArithOp} {l r : Term} :
    (arith span op l r).Writable ↔ l.Writable ∧ r.Writable := by
  simp only [Writable, names, literals, List.forall_mem_append]
  exact and_and_and_comm

@[simp] theorem writable_compare {span : Span} {op : CmpOp} {l r : Term} :
    (compare span op l r).Writable ↔ l.Writable ∧ r.Writable := by
  simp only [Writable, names, literals, List.forall_mem_append]
  exact and_and_and_comm

@[simp] theorem writable_assign {span : Span} {name : String} {t : Term} :
    (assign span name t).Writable ↔ IsName name ∧ t.Writable := by
  simp only [Writable, names, literals, List.forall_mem_cons, and_assoc]

@[simp] theorem writable_var {span : Span} {name : String} :
    (var span name).Writable ↔ IsName name := by
  simp [Writable, names, literals]

theorem writable_all {ts : List Term} :
    ((∀ name ∈ ts.flatMap names, IsName name) ∧ ∀ n ∈ ts.flatMap literals, n ≠ Int64.minValue) ↔
      ∀ t ∈ ts, t.Writable := by
  simp only [Writable, List.mem_flatMap]
  exact ⟨fun h t ht => ⟨fun x hx => h.1 x ⟨t, ht, hx⟩, fun n hn => h.2 n ⟨t, ht, hn⟩⟩,
    fun h => ⟨fun x ⟨t, ht, hx⟩ => (h t ht).1 x hx, fun n ⟨t, ht, hn⟩ => (h t ht).2 n hn⟩⟩

@[simp] theorem writable_block {span : Span} {body : List Term} :
    (block span body).Writable ↔ ∀ t ∈ body, t.Writable := by
  rw [← writable_all]
  simp only [Writable, names, literals, namesAll_eq, literalsAll_eq]

@[simp] theorem writable_branch {span thenSpan : Span} {cond orElse : Term} {body : List Term} :
    (branch span cond thenSpan body orElse).Writable ↔
      cond.Writable ∧ (∀ t ∈ body, t.Writable) ∧ orElse.Writable := by
  rw [← writable_all]
  simp only [Writable, names, literals, namesAll_eq, literalsAll_eq, List.forall_mem_append]
  tauto

@[simp] theorem writable_whileLoop {span bodySpan : Span} {cond : Term} {body : List Term} :
    (whileLoop span cond bodySpan body).Writable ↔ cond.Writable ∧ ∀ t ∈ body, t.Writable := by
  rw [← writable_all]
  simp only [Writable, names, literals, namesAll_eq, literalsAll_eq, List.forall_mem_append]
  tauto

@[simp] theorem writable_forLoop {span bodySpan : Span} {name : String} {first : Option Term}
    {limit : Term} {body : List Term} :
    (forLoop span name first limit bodySpan body).Writable ↔
      IsName name ∧ (∀ t ∈ first, t.Writable) ∧ limit.Writable ∧ ∀ t ∈ body, t.Writable := by
  have hf : (∀ t ∈ first, t.Writable) ↔ ∀ t ∈ first.toList, t.Writable := by simp
  rw [hf, ← writable_all, ← writable_all, Writable, Writable, names_forLoop, literals_forLoop]
  simp only [List.forall_mem_append, List.forall_mem_cons]
  tauto

@[simp] theorem writable_lambda {span : Span} {params : List String} {body : Term} :
    (lambda span params body).Writable ↔ (∀ p ∈ params, IsName p) ∧ body.Writable := by
  simp only [Writable, names, literals, List.forall_mem_append, and_assoc]

@[simp] theorem writable_call {span : Span} {name : String} {args : List Term} :
    (call span name args).Writable ↔ IsName name ∧ ∀ t ∈ args, t.Writable := by
  rw [← writable_all]
  simp only [Writable, names, literals, namesAll_eq, literalsAll_eq, List.forall_mem_cons,
    and_assoc]

end Term

/-! ## Pieces -/

/-- The mark of an operator. -/
def ArithOp.token : ArithOp → Token
  | .add => .plus
  | .sub => .minus
  | .mul => .star
  | .div => .slash

/-- The mark of a relation. -/
def CmpOp.token : CmpOp → Token
  | .gt => .gt
  | .lt => .lt
  | .ge => .gtEq
  | .le => .ltEq
  | .eq => .eqEq
  | .ne => .notEq

/-- A number: its digits, after a sign if it is negative. -/
def numberPieces (n : Int64) : List Piece :=
  if n < 0 then [.token .minus, .token (.int (-n))] else [.token (.int n)]

/-- Pieces in parentheses, if they are needed. -/
def enclose (needed : Bool) (ps : List Piece) : List Piece :=
  if needed then .token .lparen :: (ps ++ [.token .rparen]) else ps

/-- Lists of pieces with a token between each two. -/
def separated (mark : Token) : List (List Piece) → List Piece
  | [] => []
  | [last] => last
  | first :: rest => first ++ .token mark :: separated mark rest

/-- Statements in braces. -/
def bracedPieces (statements : List (List Piece)) : List Piece :=
  .token .lbrace :: (separated .semi statements ++ [.token .rbrace])

mutual

/-- The pieces of the shortest way to write an expression. -/
def Term.pieces : Term → List Piece
  | .number _ n => numberPieces n
  | .paren _ inner => inner.pieces
  | .arith _ op left right =>
    enclose (left.unparen.needsParens op .left) left.pieces ++ .token op.token
      :: enclose (right.unparen.needsParens op .right) right.pieces
  | .compare _ op left right =>
    enclose left.unparen.needsParensInComparison left.pieces ++ .token op.token
      :: enclose right.unparen.needsParensInComparison right.pieces
  | .assign _ name value => .token (.ident name) :: .token .assign :: value.pieces
  | .var _ name => [.token (.ident name)]
  | .block _ body => bracedPieces (piecesAll body)
  | .branch _ cond _ thenBody orElse =>
    .token .kwIf :: .token .lparen :: (cond.pieces ++ .token .rparen :: .token .colon
      :: (bracedPieces (piecesAll thenBody) ++ .token .kwElse :: .blank ' ' :: orElse.pieces))
  | .whileLoop _ cond _ body =>
    .token .kwWhile :: .blank ' '
      :: (enclose cond.unparen.needsParensInWhile cond.pieces ++ bracedPieces (piecesAll body))
  | .forLoop _ name none limit _ body =>
    .token .kwFor :: .blank ' ' :: .token (.ident name) :: .blank ' ' :: .token .kwIn
      :: .blank ' ' :: .token .kwRange :: .token .lparen
      :: (limit.pieces ++ .token .rparen :: bracedPieces (piecesAll body))
  | .forLoop _ name (some first) limit _ body =>
    .token .kwFor :: .blank ' ' :: .token (.ident name) :: .blank ' ' :: .token .kwIn
      :: .blank ' ' :: .token .kwRange :: .token .lparen
      :: (first.pieces ++ .token .comma
      :: (limit.pieces ++ .token .rparen :: bracedPieces (piecesAll body)))
  | .lambda _ params body =>
    .token .kwLambda :: ((if params.isEmpty then []
      else .blank ' ' :: separated .comma (params.map fun p => [.token (.ident p)]))
        ++ .token .colon :: body.pieces)
  | .call _ name args =>
    .token (.ident name) :: .token .lparen
      :: (separated .comma (piecesAll args) ++ [.token .rparen])

/-- The pieces of each of several expressions. -/
def piecesAll : List Term → List (List Piece)
  | [] => []
  | term :: rest => term.pieces :: piecesAll rest

end

/-- The pieces of a program. -/
def Program.pieces (p : Program) : List Piece :=
  separated .semi (piecesAll p.statements)

@[simp] theorem piecesAll_eq (ts : List Term) : piecesAll ts = ts.map Term.pieces := by
  induction ts with
  | nil => rfl
  | cons t ts ih => rw [piecesAll, ih, List.map_cons]

/-! ## Their text -/

@[simp] theorem text_token_arith (op : ArithOp) : op.token.text = op.symbol := by
  cases op <;> rfl

@[simp] theorem text_token_compare (op : CmpOp) : op.token.text = op.symbol := by
  cases op <;> rfl

theorem neg_toInt {n : Int64} (h : n ≠ Int64.minValue) : (-n).toInt = -n.toInt := by
  have hne : n.toInt ≠ -2 ^ 63 := fun e => h (Int64.toInt_inj.1 (e.trans Int64.toInt_minValue.symm))
  have h₁ := n.le_toInt
  have h₂ := n.toInt_lt
  rw [Int64.toInt_neg, Int.bmod_eq_of_le (by omega) (by omega)]

/-- A negative number is written as a sign and the literal of its negation. -/
theorem toString_of_neg {n : Int64} (h : n < 0) (hn : n ≠ Int64.minValue) :
    toString n = "-" ++ toString (-n) := by
  have e : ∀ m : Int64, toString m = Int.repr m.toInt := fun _ => rfl
  have hlt : n.toInt < 0 := Int64.lt_iff_toInt_lt.1 h
  rw [e, e, neg_toInt hn]
  obtain ⟨k, hk⟩ := Int.eq_negSucc_of_lt_zero hlt
  rw [hk]
  rfl

theorem spell_numberPieces {n : Int64} (h : n ≠ Int64.minValue) :
    spell (numberPieces n) = (toString n).toList := by
  unfold numberPieces
  split
  · rename_i hn
    rw [toString_of_neg hn h, String.toList_append]
    simp [Piece.chars, Token.text]
  · simp [Piece.chars, Token.text]

@[simp] theorem spell_enclose {ps : List Piece} {s : String} (h : spell ps = s.toList)
    (needed : Bool) : spell (enclose needed ps) = (parenthesize needed s).toList := by
  cases needed <;> simp [enclose, parenthesize, Piece.chars, Token.text, h]

theorem spell_separated {α : Type} (mark : Token) {ps : α → List Piece} {text : α → String}
    {xs : List α} (h : ∀ x ∈ xs, spell (ps x) = (text x).toList) :
    spell (separated mark (xs.map ps)) = (Text.joinWith mark.text (xs.map text)).toList := by
  induction xs with
  | nil => rfl
  | cons x xs ih =>
    have hx := h x (.head _)
    have ih := ih fun y hy => h y (.tail _ hy)
    cases xs with
    | nil => exact hx
    | cons y ys =>
      rw [List.map_cons, List.map_cons] at ih ⊢
      simp only [separated, Text.joinWith, spell_append, spell_cons, Piece.chars, hx, ih,
        String.toList_append, List.map_cons, List.append_assoc]

theorem spell_braced {body : List Term} (h : ∀ t ∈ body, spell t.pieces = t.minify.toList) :
    spell (bracedPieces (body.map Term.pieces)) = (bracedBody (body.map Term.minify)).toList := by
  have e := spell_separated .semi h
  simp only [bracedPieces, bracedBody, spell_cons, spell_append, spell_nil, Piece.chars, e,
    String.toList_append, Token.text]
  simp

theorem spell_params (params : List String) :
    spell (if params.isEmpty then []
      else .blank ' ' :: separated .comma (params.map fun p => [.token (.ident p)])) ++ [':'] =
      (if params.isEmpty then ":" else " " ++ Text.joinWith "," params ++ ":").toList := by
  have e : spell (separated .comma (params.map fun p => [.token (.ident p)])) =
      (Text.joinWith "," (params.map id)).toList :=
    spell_separated .comma (by simp [Piece.chars, Token.text])
  rw [List.map_id] at e
  cases params with
  | nil => rfl
  | cons p ps =>
    simp only [List.isEmpty_cons, Bool.false_eq_true, if_false, spell_cons, Piece.chars, e,
      String.toList_append, List.append_assoc]
    rfl

/-- The text of the pieces is the minified text. -/
theorem spell_pieces {t : Term} (h : t.Writable) : spell t.pieces = t.minify.toList := by
  induction t with
  | number span n => exact spell_numberPieces (by simpa using h)
  | paren span inner ih => exact ih h
  | arith span op left right ihl ihr =>
    obtain ⟨hl, hr⟩ := Term.writable_arith.1 h
    simp [Term.pieces, Term.minify, spell_enclose (ihl hl), spell_enclose (ihr hr), Piece.chars]
  | compare span op left right ihl ihr =>
    obtain ⟨hl, hr⟩ := Term.writable_compare.1 h
    simp [Term.pieces, Term.minify, spell_enclose (ihl hl), spell_enclose (ihr hr), Piece.chars]
  | assign span name value ih =>
    obtain ⟨-, hv⟩ := Term.writable_assign.1 h
    simp [Term.pieces, Term.minify, ih hv, Piece.chars, Token.text]
  | var span name => simp [Term.pieces, Term.minify, Piece.chars, Token.text]
  | block span body ih =>
    have hb := Term.writable_block.1 h
    simpa [Term.pieces, Term.minify] using spell_braced fun t ht => ih t ht (hb t ht)
  | branch span cond thenSpan thenBody orElse ihc ihb ihe =>
    obtain ⟨hc, hb, he⟩ := Term.writable_branch.1 h
    have hb := spell_braced fun t ht => ihb t ht (hb t ht)
    simp [Term.pieces, Term.minify, ihc hc, hb, ihe he, Piece.chars, Token.text]
  | whileLoop span cond bodySpan body ihc ihb =>
    obtain ⟨hc, hb⟩ := Term.writable_whileLoop.1 h
    have hb := spell_braced fun t ht => ihb t ht (hb t ht)
    simp [Term.pieces, Term.minify, spell_enclose (ihc hc), hb, Piece.chars, Token.text]
  | forLoop span name first limit bodySpan body ihf ihl ihb =>
    obtain ⟨-, hf, hl, hb⟩ := Term.writable_forLoop.1 h
    have hb := spell_braced fun t ht => ihb t ht (hb t ht)
    cases first with
    | none => simp [Term.pieces, Term.minify, ihl hl, hb, Piece.chars, Token.text]
    | some first =>
      have hf := ihf first rfl (hf first rfl)
      simp [Term.pieces, Term.minify, hf, ihl hl, hb, Piece.chars, Token.text]
  | lambda span params body ih =>
    obtain ⟨-, hb⟩ := Term.writable_lambda.1 h
    have hp := spell_params params
    cases params <;> simp_all [Term.pieces, Term.minify, Piece.chars, Token.text]
  | call span name args ih =>
    obtain ⟨-, ha⟩ := Term.writable_call.1 h
    have ha := spell_separated .comma fun t ht => ih t ht (ha t ht)
    simp [Term.pieces, Term.minify, ha, Piece.chars, Token.text]

/-! ## They can be read -/

@[simp] theorem valid_token (t : Token) : (Piece.token t).Valid ↔ t.Lexical := Iff.rfl

@[simp] theorem valid_space : (Piece.blank ' ').Valid := rfl

theorem valid_numberPieces {n : Int64} (h : n ≠ Int64.minValue) :
    ∀ p ∈ numberPieces n, p.Valid := by
  unfold numberPieces
  split
  · rename_i hn
    have hlt : n.toInt < 0 := Int64.lt_iff_toInt_lt.1 hn
    have hle : 0 ≤ -n := Int64.le_iff_toInt_le.2 (by rw [neg_toInt h, Int64.toInt_zero]; omega)
    simpa [Token.Lexical] using hle
  · rename_i hn
    simpa [Token.Lexical] using Int64.not_lt.1 hn

theorem valid_enclose {ps : List Piece} (h : ∀ p ∈ ps, p.Valid) (needed : Bool) :
    ∀ p ∈ enclose needed ps, p.Valid := by
  cases needed with
  | false => exact h
  | true => simpa [enclose, or_imp, forall_and, Token.Lexical] using h

theorem valid_separated (mark : Token) (hm : mark.Lexical) {pss : List (List Piece)}
    (h : ∀ ps ∈ pss, ∀ p ∈ ps, p.Valid) : ∀ p ∈ separated mark pss, p.Valid := by
  fun_induction separated mark pss with
  | case1 => simp
  | case2 last => exact h last (.head _)
  | case3 first rest hne ih =>
    have ih := ih fun ps hps => h ps (.tail _ hps)
    have hf := h first (.head _)
    intro p hp
    rcases List.mem_append.1 hp with hp | hp
    · exact hf p hp
    · rcases List.mem_cons.1 hp with rfl | hp
      · exact hm
      · exact ih p hp

theorem valid_braced {body : List Term} (h : ∀ t ∈ body, ∀ p ∈ t.pieces, p.Valid) :
    ∀ p ∈ bracedPieces (body.map Term.pieces), p.Valid := by
  have e : ∀ p ∈ separated .semi (body.map Term.pieces), p.Valid :=
    valid_separated .semi trivial (by simpa using h)
  simpa [bracedPieces, or_imp, forall_and, Token.Lexical] using e

/-- The pieces of a term can be read. -/
theorem valid_pieces {t : Term} (h : t.Writable) : ∀ p ∈ t.pieces, p.Valid := by
  induction t with
  | number span n => exact valid_numberPieces (by simpa using h)
  | paren span inner ih => exact ih h
  | arith span op left right ihl ihr =>
    obtain ⟨hl, hr⟩ := Term.writable_arith.1 h
    have ho : op.token.Lexical := by cases op <;> trivial
    have hl := valid_enclose (ihl hl) (left.unparen.needsParens op .left)
    have hr := valid_enclose (ihr hr) (right.unparen.needsParens op .right)
    simpa [Term.pieces, or_imp, forall_and, ho] using ⟨hl, hr⟩
  | compare span op left right ihl ihr =>
    obtain ⟨hl, hr⟩ := Term.writable_compare.1 h
    have ho : op.token.Lexical := by cases op <;> trivial
    have hl := valid_enclose (ihl hl) left.unparen.needsParensInComparison
    have hr := valid_enclose (ihr hr) right.unparen.needsParensInComparison
    simpa [Term.pieces, or_imp, forall_and, ho] using ⟨hl, hr⟩
  | assign span name value ih =>
    obtain ⟨hn, hv⟩ := Term.writable_assign.1 h
    simpa [Term.pieces, or_imp, forall_and, Token.Lexical, hn] using ih hv
  | var span name => simpa [Term.pieces, Token.Lexical] using h
  | block span body ih =>
    have hb := Term.writable_block.1 h
    simpa [Term.pieces] using valid_braced fun t ht => ih t ht (hb t ht)
  | branch span cond thenSpan thenBody orElse ihc ihb ihe =>
    obtain ⟨hc, hb, he⟩ := Term.writable_branch.1 h
    have hb := valid_braced fun t ht => ihb t ht (hb t ht)
    simpa [Term.pieces, or_imp, forall_and, Token.Lexical] using
      ⟨ihc hc, hb, ihe he⟩
  | whileLoop span cond bodySpan body ihc ihb =>
    obtain ⟨hc, hb⟩ := Term.writable_whileLoop.1 h
    have hc := valid_enclose (ihc hc) cond.unparen.needsParensInWhile
    have hb := valid_braced fun t ht => ihb t ht (hb t ht)
    simpa [Term.pieces, or_imp, forall_and, Token.Lexical] using ⟨hc, hb⟩
  | forLoop span name first limit bodySpan body ihf ihl ihb =>
    obtain ⟨hn, hf, hl, hb⟩ := Term.writable_forLoop.1 h
    have hb := valid_braced fun t ht => ihb t ht (hb t ht)
    cases first with
    | none =>
      simpa [Term.pieces, or_imp, forall_and, Token.Lexical, hn] using
        ⟨ihl hl, hb⟩
    | some first =>
      have hf := ihf first rfl (hf first rfl)
      simpa [Term.pieces, or_imp, forall_and, Token.Lexical, hn] using
        ⟨hf, ihl hl, hb⟩
  | lambda span params body ih =>
    obtain ⟨hp, hb⟩ := Term.writable_lambda.1 h
    have hs : ∀ p ∈ separated .comma (params.map fun p => [.token (.ident p)]), p.Valid :=
      valid_separated .comma trivial (by simpa [Token.Lexical] using hp)
    cases params with
    | nil => simpa [Term.pieces, or_imp, forall_and, Token.Lexical] using ih hb
    | cons p ps =>
      simpa [Term.pieces, or_imp, forall_and, Token.Lexical] using ⟨hs, ih hb⟩
  | call span name args ih =>
    obtain ⟨hn, ha⟩ := Term.writable_call.1 h
    have hs : ∀ p ∈ separated .comma (args.map Term.pieces), p.Valid :=
      valid_separated .comma trivial (by simpa using fun t ht => ih t ht (ha t ht))
    simpa [Term.pieces, or_imp, forall_and, Token.Lexical, hn] using hs

/-! ## They do not run together -/

/-- A text that goes on no word. -/
def Ends (rest : List Char) : Prop :=
  ∀ c ∈ rest.head?, isNameChar c = false

theorem ends_cons {c : Char} {rest : List Char} (h : isNameChar c = false) : Ends (c :: rest) := by
  simpa [Ends] using h

theorem stopsAt_word {t : Token} (ht : t.isWord = true) {rest : List Char} (h : Ends rest) :
    (Piece.token t).StopsAt rest := by
  intro c hc
  have := h c hc
  cases t <;> simp_all [Token.isWord, Token.extendedBy]

/-- Pieces that do not start with the second half of a comparison mark. -/
def Starts (ps : List Piece) : Prop :=
  ∃ c cs, spell ps = c :: cs ∧ c ≠ '='

theorem Starts.append {ps : List Piece} (h : Starts ps) (qs : List Piece) : Starts (ps ++ qs) := by
  obtain ⟨c, cs, e, hc⟩ := h
  exact ⟨c, cs ++ spell qs, by rw [spell_append, e, List.cons_append], hc⟩

theorem starts_word (t : Token) (hw : t.isWord = true) (ht : t.Lexical) (ps : List Piece) :
    Starts (.token t :: ps) := by
  obtain ⟨c, cs, e, hg, -⟩ := text_eq_cons ht
  refine ⟨c, cs ++ spell ps, by rw [spell_cons, Piece.chars, e, List.cons_append], ?_⟩
  rintro rfl
  cases t with
  | int n =>
    have := (literal?_toString ht e).2
    simp [Text.isDigit] at this
  | ident name =>
    obtain ⟨⟨c, cs', e', hc, -⟩, -⟩ := ht
    rw [Token.text, e'] at e
    cases e
    simp [isNameStart] at hc
  | kwIf | kwElse | kwWhile | kwFor | kwIn | kwRange | kwLambda => simp [Token.text] at e
  | _ => simp [Token.isWord] at hw

theorem starts_enclose {ps : List Piece} (h : Starts ps) (needed : Bool) :
    Starts (enclose needed ps) := by
  cases needed with
  | false => exact h
  | true => exact ⟨'(', spell (ps ++ [.token .rparen]), rfl, by decide⟩

theorem starts_pieces {t : Term} (h : t.Writable) : Starts t.pieces := by
  induction t with
  | number span n =>
    have hv := valid_numberPieces (Term.writable_number.1 h)
    rw [Term.pieces]
    unfold numberPieces at hv ⊢
    by_cases hn : n < 0
    · rw [if_pos hn]
      exact ⟨'-', _, rfl, by decide⟩
    · rw [if_neg hn] at hv ⊢
      exact starts_word (.int n) rfl (hv _ (.head _)) []
  | paren span inner ih => exact ih h
  | arith span op left right ihl ihr =>
    exact (starts_enclose (ihl (Term.writable_arith.1 h).1) _).append _
  | compare span op left right ihl ihr =>
    exact (starts_enclose (ihl (Term.writable_compare.1 h).1) _).append _
  | assign span name => exact starts_word (.ident name) rfl (Term.writable_assign.1 h).1 _
  | var span name => exact starts_word (.ident name) rfl (Term.writable_var.1 h) _
  | block span body => exact ⟨'{', _, rfl, by decide⟩
  | branch => exact starts_word .kwIf rfl trivial _
  | whileLoop => exact starts_word .kwWhile rfl trivial _
  | forLoop span name first => cases first <;> exact starts_word .kwFor rfl trivial _
  | lambda => exact starts_word .kwLambda rfl trivial _
  | call span name => exact starts_word (.ident name) rfl (Term.writable_call.1 h).1 _

/-- Pieces that do not run together, whatever follows them that goes on no word. -/
def Apart (ps : List Piece) : Prop :=
  ∀ rest, Ends rest → Separate ps rest

namespace Apart

variable {ps qs : List Piece}

theorem append (hp : Apart ps) (hq : Apart qs) (hf : ∀ rest, Ends (spell qs ++ rest)) :
    Apart (ps ++ qs) :=
  fun rest hr => (separate_append ps qs rest).2 ⟨hp _ (hf rest), hq rest hr⟩

theorem blank (hp : Apart ps) (c : Char) : Apart (.blank c :: ps) :=
  fun rest hr => ⟨trivial, hp rest hr⟩

theorem mark {t : Token} (ht : ∀ rest, (Piece.token t).StopsAt rest) (hp : Apart ps) :
    Apart (.token t :: ps) :=
  fun rest hr => ⟨ht _, hp rest hr⟩

theorem word {t : Token} (ht : t.isWord = true) (hp : Apart ps)
    (hf : ∀ rest, Ends rest → Ends (spell ps ++ rest)) : Apart (.token t :: ps) :=
  fun rest hr => ⟨stopsAt_word ht (hf rest hr), hp rest hr⟩

theorem nil : Apart [] :=
  fun _ _ => trivial

theorem enclose (hp : Apart ps) (needed : Bool) : Apart (enclose needed ps) := by
  cases needed with
  | false => exact hp
  | true =>
    refine mark (fun _ _ _ => rfl) (append hp ?_ fun _ => ends_cons rfl)
    exact mark (fun _ _ _ => rfl) nil

/-- Pieces with a mark between each two, if the mark itself runs together with nothing. -/
theorem separated (t : Token) (ht : ∀ rest, (Piece.token t).StopsAt rest)
    (he : ∀ rest, Ends (t.text.toList ++ rest)) {pss : List (List Piece)}
    (h : ∀ ps ∈ pss, Apart ps) : Apart (separated t pss) := by
  fun_induction Dynascope.separated t pss with
  | case1 => exact nil
  | case2 last => exact h last (.head _)
  | case3 first others hne ih =>
    have ih := ih fun ps hps => h ps (.tail _ hps)
    refine append (h first (.head _)) (mark ht ih) fun rest => ?_
    rw [spell_cons, List.append_assoc]
    exact he _

/-- Nothing that follows a brace runs together with it. -/
theorem braced {body : List Term} (h : ∀ t ∈ body, Apart t.pieces) (rest : List Char) :
    Separate (bracedPieces (body.map Term.pieces)) rest := by
  have hs : Apart (Dynascope.separated .semi (body.map Term.pieces)) :=
    separated .semi (fun _ _ _ => rfl) (fun _ => ends_cons rfl) (by simpa using h)
  refine ⟨fun _ _ => rfl, (separate_append _ _ _).2 ⟨hs _ (ends_cons rfl), ?_⟩⟩
  exact ⟨fun _ _ => rfl, trivial⟩

theorem params {names : List String} {body : Term} (h : Apart body.pieces) :
    Apart ((if names.isEmpty then []
      else .blank ' ' :: Dynascope.separated .comma (names.map fun p => [.token (.ident p)]))
        ++ .token .colon :: body.pieces) := by
  have hs : Apart (Dynascope.separated .comma (names.map fun p => [.token (.ident p)])) := by
    refine separated .comma (fun _ _ _ => rfl) (fun _ => ends_cons rfl) fun ps hps => ?_
    obtain ⟨p, -, rfl⟩ := List.mem_map.1 hps
    exact word rfl nil fun _ hr => hr
  refine append ?_ (mark (fun _ _ _ => rfl) h) fun _ => ends_cons rfl
  split
  · exact nil
  · exact hs.blank ' '

theorem loopHead {name : String} (h : Apart ps) :
    Apart (.token .kwFor :: .blank ' ' :: .token (.ident name) :: .blank ' ' :: .token .kwIn
      :: .blank ' ' :: .token .kwRange :: .token .lparen :: ps) := by
  have hr : Apart (.token .kwRange :: .token .lparen :: ps) :=
    word rfl (mark (fun _ _ _ => rfl) h) fun _ _ => ends_cons rfl
  have hi : Apart (.token .kwIn :: .blank ' ' :: .token .kwRange :: .token .lparen :: ps) :=
    word rfl (hr.blank ' ') fun _ _ => ends_cons rfl
  refine word rfl (blank (word rfl (hi.blank ' ') ?_) ' ') ?_ <;> exact fun _ _ => ends_cons rfl

end Apart

theorem stopsAt_compare (op : CmpOp) {ps : List Piece} (h : Starts ps) (rest : List Char) :
    (Piece.token op.token).StopsAt (spell ps ++ rest) := by
  obtain ⟨c, cs, e, hc⟩ := h
  rw [e]
  cases op <;> simp [Piece.StopsAt, CmpOp.token, Token.extendedBy, Token.isWord, hc]

/-- The pieces of a term do not run together. -/
theorem apart_pieces {t : Term} (h : t.Writable) : Apart t.pieces := by
  induction t with
  | number span n =>
    rw [Term.pieces, numberPieces]
    split
    · exact .mark (fun _ _ _ => rfl) (.word rfl .nil fun _ hr => hr)
    · exact .word rfl .nil fun _ hr => hr
  | paren span inner ih => exact ih h
  | arith span op left right ihl ihr =>
    obtain ⟨hl, hr⟩ := Term.writable_arith.1 h
    refine ((ihl hl).enclose _).append (.mark (fun _ _ _ => ?_) ((ihr hr).enclose _)) fun _ => ?_
    · cases op <;> rfl
    · cases op <;> exact ends_cons rfl
  | compare span op left right ihl ihr =>
    obtain ⟨hl, hr⟩ := Term.writable_compare.1 h
    have hs := starts_enclose (starts_pieces hr) right.unparen.needsParensInComparison
    refine ((ihl hl).enclose _).append (fun rest hrest => ?_) fun _ => ?_
    · exact ⟨stopsAt_compare op hs rest, (ihr hr).enclose _ rest hrest⟩
    · cases op <;> exact ends_cons rfl
  | assign span name value ih =>
    obtain ⟨-, hv⟩ := Term.writable_assign.1 h
    refine .word rfl (fun rest hrest => ⟨?_, ih hv rest hrest⟩) fun _ _ => ends_cons rfl
    obtain ⟨c, cs, e, hc⟩ := starts_pieces hv
    rw [e]
    simpa [Piece.StopsAt, Token.extendedBy] using hc
  | var span name => exact .word rfl .nil fun _ hr => hr
  | block span body ih =>
    have hb := Term.writable_block.1 h
    rw [Term.pieces, piecesAll_eq]
    exact fun rest _ => Apart.braced (fun t ht => ih t ht (hb t ht)) rest
  | branch span cond thenSpan thenBody orElse ihc ihb ihe =>
    obtain ⟨hc, hb, he⟩ := Term.writable_branch.1 h
    have hb := Apart.braced fun t ht => ihb t ht (hb t ht)
    rw [Term.pieces, piecesAll_eq]
    refine .word rfl (.mark (fun _ _ _ => rfl) ?_) fun _ _ => ends_cons rfl
    refine (ihc hc).append ?_ fun _ => ends_cons rfl
    refine .mark (fun _ _ _ => rfl) (.mark (fun _ _ _ => rfl) ?_)
    have he : Apart (.token .kwElse :: .blank ' ' :: orElse.pieces) :=
      .word rfl ((ihe he).blank ' ') fun _ _ => ends_cons rfl
    exact fun rest hr => (separate_append _ _ _).2 ⟨hb _, he rest hr⟩
  | whileLoop span cond bodySpan body ihc ihb =>
    obtain ⟨hc, hb⟩ := Term.writable_whileLoop.1 h
    have hb := Apart.braced fun t ht => ihb t ht (hb t ht)
    rw [Term.pieces, piecesAll_eq]
    refine .word rfl (.blank (((ihc hc).enclose _).append (fun rest _ => hb rest) ?_) ' ') ?_
    · exact fun _ => ends_cons rfl
    · exact fun _ _ => ends_cons rfl
  | forLoop span name first limit bodySpan body ihf ihl ihb =>
    obtain ⟨-, hf, hl, hb⟩ := Term.writable_forLoop.1 h
    have hb := Apart.braced fun t ht => ihb t ht (hb t ht)
    have hl : Apart (limit.pieces ++ .token .rparen :: bracedPieces (body.map Term.pieces)) :=
      (ihl hl).append (.mark (fun _ _ _ => rfl) fun rest _ => hb rest) fun _ => ends_cons rfl
    cases first with
    | none =>
      rw [Term.pieces, piecesAll_eq]
      exact .loopHead hl
    | some first =>
      have hf := ihf first rfl (hf first rfl)
      rw [Term.pieces, piecesAll_eq]
      exact .loopHead (hf.append (.mark (fun _ _ _ => rfl) hl) fun _ => ends_cons rfl)
  | lambda span params body ih =>
    obtain ⟨-, hb⟩ := Term.writable_lambda.1 h
    refine .word rfl (.params (ih hb)) fun _ _ => ?_
    cases params <;> exact ends_cons rfl
  | call span name args ih =>
    obtain ⟨-, ha⟩ := Term.writable_call.1 h
    have hs : Apart (separated .comma (args.map Term.pieces)) :=
      .separated .comma (fun _ _ _ => rfl) (fun _ => ends_cons rfl)
        (by simpa using fun t ht => ih t ht (ha t ht))
    rw [Term.pieces, piecesAll_eq]
    refine .word rfl (.mark (fun _ _ _ => rfl) (hs.append ?_ fun _ => ends_cons rfl)) ?_
    · exact .mark (fun _ _ _ => rfl) .nil
    · exact fun _ _ => ends_cons rfl

/-! ## Programs -/

/-- **A minified program is read back** as the tokens of its pieces. -/
theorem tokenize_minify {p : Program} (h : ∀ t ∈ p.statements, t.Writable) :
    tokenize p.minify = .ok (lexemesFrom 0 p.pieces) := by
  have hv : ∀ q ∈ p.pieces, q.Valid := by
    rw [Program.pieces, piecesAll_eq]
    exact valid_separated .semi trivial (by simpa using fun t ht => valid_pieces (h t ht))
  have ha : Apart p.pieces := by
    rw [Program.pieces, piecesAll_eq]
    exact .separated .semi (fun _ _ _ => rfl) (fun _ => ends_cons rfl)
      (by simpa using fun t ht => apart_pieces (h t ht))
  refine tokenize_spell hv (ha [] (by simp [Ends])) ?_
  rw [Program.minify, Program.pieces, minifyAll_eq, piecesAll_eq]
  exact (spell_separated .semi fun t ht => spell_pieces (h t ht)).symm

end Dynascope
