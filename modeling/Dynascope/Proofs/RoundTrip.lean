import Dynascope.Proofs.ParserComplete
import Dynascope.Proofs.Printing

/-! # Minified programs are parsed back

`Parses c ps v`: the tokens among the pieces are a phrase of category `c`, wherever they stand,
with the value `v` up to spans and parentheses. The pieces of a term are a phrase of the tightest
category that its outermost construct allows, with the regrouped term as its value (`Prints`). An
operand on the right of an operator of its precedence is no phrase of its own where it stands
without parentheses: its operands go on the operation to the left of it (`Extends`). Main
statement: `parseSource_minify`.
-/

set_option autoImplicit false

namespace Dynascope

open Grammar Spelling

/-! ## Phrases of pieces -/

/-- The value of a phrase without spans and parentheses. -/
def Grammar.Category.erase : (c : Category) → c.Value → c.Value
  | .program, p => p.erase
  | .seq, ts | .opened, ts | .closed, ts | .items, ts | .args, ts => ts.map Term.erase
  | .block, b => (default, b.2.map Term.erase)
  | .range, r => (r.1.map Term.erase, r.2.erase)
  | .expr, t | .inline, t | .comparison, t | .sum, t | .product, t | .atom, t => t.erase

/-- Lexemes with the tokens of pieces. -/
def Lexes (ps : List Piece) (ls : List Lexeme) : Prop :=
  ls.map (·.token) = tokensOf ps

section

variable {ps qs : List Piece} {ls : List Lexeme} {t : Token} {c : Char}

theorem lexes_nil : Lexes [] ls ↔ ls = [] := List.map_eq_nil_iff

theorem lexes_token :
    Lexes (.token t :: ps) ls ↔ ∃ l xs, ls = l :: xs ∧ l.token = t ∧ Lexes ps xs :=
  List.map_eq_cons_iff

theorem lexes_blank : Lexes (.blank c :: ps) ls ↔ Lexes ps ls := Iff.rfl

theorem lexes_append :
    Lexes (ps ++ qs) ls ↔ ∃ xs ys, ls = xs ++ ys ∧ Lexes ps xs ∧ Lexes qs ys := by
  rw [Lexes, tokensOf_append, List.map_eq_append_iff]
  rfl

end

/-- Pieces of which the tokens are a phrase, wherever they stand, with the same value up to spans
and parentheses. -/
def Parses (c : Category) (ps : List Piece) (v : c.Value) : Prop :=
  ∀ ls, Lexes ps ls → ∃ w, Derives c ls w ∧ c.erase w = v

namespace Parses

variable {ps qs : List Piece} {t u : Term} {ts : List Term}

theorem product (h : Parses .atom ps t) : Parses .product ps t :=
  fun _ e => (h _ e).imp fun _ h => ⟨.product h.1, h.2⟩

theorem sum (h : Parses .product ps t) : Parses .sum ps t :=
  fun _ e => (h _ e).imp fun _ h => ⟨.sum h.1, h.2⟩

theorem comparison (h : Parses .sum ps t) : Parses .comparison ps t :=
  fun _ e => (h _ e).imp fun _ h => ⟨.comparison h.1, h.2⟩

theorem inline (h : Parses .comparison ps t) : Parses .inline ps t :=
  fun _ e => (h _ e).imp fun _ h => ⟨.inline h.1, h.2⟩

theorem expr (h : Parses .inline ps t) : Parses .expr ps t :=
  fun _ e => (h _ e).imp fun _ h => ⟨.exprInline h.1, h.2⟩

theorem exprBlock {body : List Term} (h : Parses .block ps (default, body)) :
    Parses .expr ps (.block default body) := by
  intro ls e
  obtain ⟨⟨span, ts⟩, h, eb⟩ := h ls e
  exact ⟨_, .exprBlock h, by simp_all [Category.erase, Term.erase]⟩

/-- Parentheses make an operand of any expression. -/
theorem enclosed (h : Parses .expr ps t) : Parses .atom (enclose true ps) t := by
  intro ls e
  rw [enclose, if_pos rfl] at e
  simp only [lexes_token, lexes_append, lexes_nil] at e
  obtain ⟨l, _, rfl, el, xs, _, rfl, ex, r, _, rfl, er, rfl⟩ := e
  obtain ⟨w, hd, rfl⟩ := h xs ex
  exact ⟨_, .paren el hd er, rfl⟩

theorem number {n : Int64} : Parses .atom (numberPieces n) (.number default n) := by
  intro ls e
  unfold numberPieces at e
  split at e
  · simp only [lexes_token, lexes_nil] at e
    obtain ⟨m, _, rfl, em, l, _, rfl, el, rfl⟩ := e
    exact ⟨_, .negative em el, by simp [Category.erase, Term.erase]⟩
  · simp only [lexes_token, lexes_nil] at e
    obtain ⟨l, _, rfl, el, rfl⟩ := e
    exact ⟨_, .number el, rfl⟩

theorem var (name : String) : Parses .atom [.token (.ident name)] (.var default name) := by
  intro ls e
  simp only [lexes_token, lexes_nil] at e
  obtain ⟨i, _, rfl, ei, rfl⟩ := e
  exact ⟨_, .var ei, rfl⟩

theorem call {name : String} (h : Parses .args ps ts) :
    Parses .atom (.token (.ident name) :: .token .lparen :: (ps ++ [.token .rparen]))
      (.call default name ts) := by
  intro ls e
  simp only [lexes_token, lexes_append, lexes_nil] at e
  obtain ⟨i, _, rfl, ei, l, _, rfl, el, xs, _, rfl, ex, r, _, rfl, er, rfl⟩ := e
  obtain ⟨ws, hd, ew⟩ := h xs ex
  exact ⟨_, .call ei el hd er, by simpa [Category.erase, Term.erase] using ew⟩

theorem compare {op : CmpOp} (hl : Parses .sum ps t) (hr : Parses .sum qs u) :
    Parses .comparison (ps ++ .token op.token :: qs) (.compare default op t u) := by
  intro ls e
  simp only [lexes_append, lexes_token] at e
  obtain ⟨xs, _, rfl, ex, o, ys, rfl, eo, ey⟩ := e
  obtain ⟨l, dl, rfl⟩ := hl xs ex
  obtain ⟨r, dr, rfl⟩ := hr ys ey
  have ho : Relation o.token op := by
    rw [eo]
    cases op <;> constructor
  exact ⟨_, .compare dl ho dr, rfl⟩

theorem assign {name : String} (h : Parses .expr ps t) :
    Parses .inline (.token (.ident name) :: .token .assign :: ps) (.assign default name t) := by
  intro ls e
  simp only [lexes_token] at e
  obtain ⟨i, _, rfl, ei, m, xs, rfl, em, ex⟩ := e
  obtain ⟨w, hd, rfl⟩ := h xs ex
  exact ⟨_, .assign ei em hd, rfl⟩

theorem branch {cond orElse : Term} {cs bs es : List Piece} {body : List Term}
    (hc : Parses .expr cs cond) (hb : Parses .block bs (default, body))
    (he : Parses .expr es orElse) :
    Parses .inline (.token .kwIf :: .token .lparen :: (cs ++ .token .rparen :: .token .colon
      :: (bs ++ .token .kwElse :: .blank ' ' :: es)))
      (.branch default cond default body orElse) := by
  intro ls e
  simp only [lexes_token, lexes_append, lexes_blank] at e
  obtain ⟨i, _, rfl, ei, l, _, rfl, el, xs, _, rfl, ex, r, _, rfl, er, c, _, rfl, ec, ys, _, rfl,
    ey, m, zs, rfl, em, ez⟩ := e
  obtain ⟨cond, dc, rfl⟩ := hc xs ex
  obtain ⟨⟨span, body⟩, db, eb⟩ := hb ys ey
  obtain ⟨orElse, de, rfl⟩ := he zs ez
  exact ⟨_, .branch ei el dc er ec db em de, by simp_all [Category.erase, Term.erase]⟩

theorem whileLoop {cond : Term} {body : List Term} (hc : Parses .comparison ps cond)
    (hb : Parses .block qs (default, body)) :
    Parses .inline (.token .kwWhile :: .blank ' ' :: (ps ++ qs))
      (.whileLoop default cond default body) := by
  intro ls e
  simp only [lexes_token, lexes_append, lexes_blank] at e
  obtain ⟨w, _, rfl, ew, xs, ys, rfl, ex, ey⟩ := e
  obtain ⟨cond, dc, rfl⟩ := hc xs ex
  obtain ⟨⟨span, body⟩, db, eb⟩ := hb ys ey
  exact ⟨_, .whileLoop ew dc db, by simp_all [Category.erase, Term.erase]⟩

theorem forLoop {name : String} {first : Option Term} {limit : Term} {body : List Term}
    (hr : Parses .range (.token .kwRange :: ps) (first, limit))
    (hb : Parses .block qs (default, body)) :
    Parses .inline (.token .kwFor :: .blank ' ' :: .token (.ident name) :: .blank ' '
      :: .token .kwIn :: .blank ' ' :: .token .kwRange :: (ps ++ qs))
      (.forLoop default name first limit default body) := by
  intro ls e
  obtain ⟨f, _, rfl, ef, e⟩ := lexes_token.1 e
  obtain ⟨x, _, rfl, ex, e⟩ := lexes_token.1 (lexes_blank.1 e)
  obtain ⟨i, _, rfl, ei, e⟩ := lexes_token.1 (lexes_blank.1 e)
  -- `range` is the first token of the bounds
  rw [lexes_blank, ← List.cons_append] at e
  obtain ⟨xs, ys, rfl, er, eb⟩ := lexes_append.1 e
  obtain ⟨⟨first, limit⟩, dr, er⟩ := hr xs er
  obtain ⟨⟨span, body⟩, db, eb⟩ := hb ys eb
  exact ⟨_, .forLoop ef ex ei dr db, by simp_all [Category.erase, Term.erase_forLoop]⟩

theorem rangeTo {limit : Term} (h : Parses .expr ps limit) :
    Parses .range (.token .kwRange :: .token .lparen :: (ps ++ [.token .rparen]))
      (none, limit) := by
  intro ls e
  simp only [lexes_token, lexes_append, lexes_nil] at e
  obtain ⟨k, _, rfl, ek, l, _, rfl, el, xs, _, rfl, ex, r, _, rfl, er, rfl⟩ := e
  obtain ⟨limit, hd, rfl⟩ := h xs ex
  exact ⟨_, .rangeTo ek el hd er, rfl⟩

theorem rangeFromTo {first limit : Term} (hf : Parses .expr ps first)
    (hl : Parses .expr qs limit) :
    Parses .range (.token .kwRange :: .token .lparen :: (ps ++ .token .comma
      :: (qs ++ [.token .rparen]))) (some first, limit) := by
  intro ls e
  simp only [lexes_token, lexes_append, lexes_nil] at e
  obtain ⟨k, _, rfl, ek, l, _, rfl, el, xs, _, rfl, ex, c, _, rfl, ec, ys, _, rfl, ey, r, _, rfl,
    er, rfl⟩ := e
  obtain ⟨first, df, rfl⟩ := hf xs ex
  obtain ⟨limit, dl, rfl⟩ := hl ys ey
  exact ⟨_, .rangeFromTo ek el df ec dl er, rfl⟩

theorem block (h : Parses .seq ps ts) :
    Parses .block (.token .lbrace :: (ps ++ [.token .rbrace])) (default, ts) := by
  intro ls e
  simp only [lexes_token, lexes_append, lexes_nil] at e
  obtain ⟨l, _, rfl, el, xs, _, rfl, ex, r, _, rfl, er, rfl⟩ := e
  obtain ⟨ws, hd, rfl⟩ := h xs ex
  exact ⟨_, .block el hd er, rfl⟩

/-! ### Lists -/

theorem start : Parses .opened [] [] := by
  intro ls e
  rw [lexes_nil.1 e]
  exact ⟨[], .start, rfl⟩

theorem noItems : Parses .items [] [] := by
  intro ls e
  rw [lexes_nil.1 e]
  exact ⟨[], .noItems, rfl⟩

/-- One more statement. After it another one may need a semicolon. -/
theorem statement (hs : Parses .opened ps ts) (h : Parses .expr qs t) :
    Parses .seq (ps ++ qs) (ts ++ [t]) := by
  intro ls e
  obtain ⟨xs, ys, rfl, ex, ey⟩ := lexes_append.1 e
  obtain ⟨ws, ds, rfl⟩ := hs xs ex
  obtain ⟨w, hd, rfl⟩ := h ys ey
  cases hd with
  | exprBlock hd => exact ⟨_, .seqOpened (.openedBlock ds hd), by simp [Category.erase]⟩
  | exprInline hd => exact ⟨_, .seqClosed (.closed ds hd), by simp [Category.erase]⟩

theorem semi (h : Parses .seq ps ts) : Parses .opened (ps ++ [.token .semi]) ts := by
  intro ls e
  simp only [lexes_append, lexes_token, lexes_nil] at e
  obtain ⟨xs, _, rfl, ex, m, _, rfl, em, rfl⟩ := e
  obtain ⟨ws, hd, rfl⟩ := h xs ex
  cases hd with
  | seqOpened hd => exact ⟨ws, .openedSemi hd em, rfl⟩
  | seqClosed hd => exact ⟨ws, .closedSemi hd em, rfl⟩

/-- Statements after statements. -/
theorem statements {α : Type} {pieces : α → List Piece} {value : α → Term} {xs : List α}
    (h : ∀ x ∈ xs, Parses .expr (pieces x) (value x)) (hs : Parses .opened ps ts) :
    Parses .seq (ps ++ separated .semi (xs.map pieces)) (ts ++ xs.map value) := by
  induction xs generalizing ps ts with
  | nil =>
    intro ls e
    obtain ⟨ws, ds, rfl⟩ := hs ls (by simpa [separated] using e)
    exact ⟨ws, .seqOpened ds, by simp [Category.erase]⟩
  | cons x xs ih =>
    have hx := statement hs (h x (.head _))
    cases xs with
    | nil => exact hx
    | cons y ys =>
      have := ih (fun z hz => h z (.tail _ hz)) (semi hx)
      simpa [separated] using this

/-- One more argument, with the comma after it. -/
theorem item (hs : Parses .items ps ts) (h : Parses .expr qs t) :
    Parses .items (ps ++ (qs ++ [.token .comma])) (ts ++ [t]) := by
  intro ls e
  simp only [lexes_append, lexes_token, lexes_nil] at e
  obtain ⟨xs, _, rfl, ex, ys, _, rfl, ey, c, _, rfl, ec, rfl⟩ := e
  obtain ⟨ws, ds, rfl⟩ := hs xs ex
  obtain ⟨w, hd, rfl⟩ := h ys ey
  exact ⟨_, .item ds hd ec, by simp [Category.erase]⟩

/-- The last argument, with no comma after it. -/
theorem lastItem (hs : Parses .items ps ts) (h : Parses .expr qs t) :
    Parses .args (ps ++ qs) (ts ++ [t]) := by
  intro ls e
  obtain ⟨xs, ys, rfl, ex, ey⟩ := lexes_append.1 e
  obtain ⟨ws, ds, rfl⟩ := hs xs ex
  obtain ⟨w, hd, rfl⟩ := h ys ey
  exact ⟨_, .argsLast ds hd, by simp [Category.erase]⟩

/-- Arguments after arguments. -/
theorem arguments {α : Type} {pieces : α → List Piece} {value : α → Term} {xs : List α}
    (h : ∀ x ∈ xs, Parses .expr (pieces x) (value x)) (hs : Parses .items ps ts) :
    Parses .args (ps ++ separated .comma (xs.map pieces)) (ts ++ xs.map value) := by
  induction xs generalizing ps ts with
  | nil =>
    intro ls e
    obtain ⟨ws, ds, rfl⟩ := hs ls (by simpa [separated] using e)
    exact ⟨ws, .argsItems ds, by simp [Category.erase]⟩
  | cons x xs ih =>
    cases xs with
    | nil => exact lastItem hs (h x (.head _))
    | cons y ys =>
      have := ih (fun z hz => h z (.tail _ hz)) (item hs (h x (.head _)))
      simpa [separated] using this

/-- Parameters after parameters. -/
theorem params {names : List String} (hs : ∀ ls, Lexes ps ls → NameItems ls names)
    (xs : List String) {ls : List Lexeme}
    (e : Lexes (ps ++ separated .comma (xs.map fun x => [.token (.ident x)])) ls) :
    Names ls (names ++ xs) := by
  induction xs generalizing ps names with
  | nil => simpa using Names.items (hs ls (by simpa [separated] using e))
  | cons x xs ih =>
    cases xs with
    | nil =>
      simp only [List.map_cons, List.map_nil, separated, lexes_append, lexes_token,
        lexes_nil] at e
      obtain ⟨ms, _, rfl, em, i, _, rfl, ei, rfl⟩ := e
      exact .last (hs ms em) ei
    | cons y ys =>
      have hi : ∀ ls, Lexes (ps ++ [.token (.ident x), .token .comma]) ls →
          NameItems ls (names ++ [x]) := by
        intro ls e
        simp only [lexes_append, lexes_token, lexes_nil] at e
        obtain ⟨ms, _, rfl, em, i, _, rfl, ei, c, _, rfl, ec, rfl⟩ := e
        exact .snoc (hs ms em) ei ec
      simpa using ih hi (by simpa [separated] using e)

theorem lambda {names : List String} (h : Parses .expr ps t) :
    Parses .inline (.token .kwLambda :: ((if names.isEmpty then []
      else .blank ' ' :: separated .comma (names.map fun p => [.token (.ident p)]))
        ++ .token .colon :: ps)) (.lambda default names t) := by
  intro ls e
  simp only [lexes_token, lexes_append] at e
  obtain ⟨k, _, rfl, ek, ms, _, rfl, em, c, xs, rfl, ec, ex⟩ := e
  obtain ⟨w, hd, rfl⟩ := h xs ex
  have hnil : ∀ ls, Lexes [] ls → NameItems ls [] := fun ls e => lexes_nil.1 e ▸ .nil
  have hn : Names ms ([] ++ names) := by
    refine params hnil names ?_
    cases names with
    | nil => exact em
    | cons x xs => exact em
  exact ⟨_, .lambda ek hn ec hd, rfl⟩

end Parses

/-! ## Operations -/

/-- Pieces that are an operation of the precedence of an operator, or bind tighter. -/
def IsOperation (op : ArithOp) (ps : List Piece) (t : Term) : Prop :=
  match op with
  | .add | .sub => Parses .sum ps t
  | .mul | .div => Parses .product ps t

/-- Pieces that bind tighter than an operator. -/
def IsOperand (op : ArithOp) (ps : List Piece) (t : Term) : Prop :=
  match op with
  | .add | .sub => Parses .product ps t
  | .mul | .div => Parses .atom ps t

section

variable {op child : ArithOp} {ps qs : List Piece} {t u : Term}

theorem IsOperand.operation (h : IsOperand op ps t) : IsOperation op ps t := by
  cases op
  · exact Parses.sum h
  · exact Parses.sum h
  · exact Parses.product h
  · exact Parses.product h

theorem IsOperand.of_atom (h : Parses .atom ps t) : IsOperand op ps t := by
  cases op
  · exact h.product
  · exact h.product
  · exact h
  · exact h

theorem IsOperation.parses_sum (h : IsOperation op ps t) : Parses .sum ps t := by
  cases op
  · exact h
  · exact h
  · exact Parses.sum h
  · exact Parses.sum h

theorem IsOperation.of_precedence_eq (h : IsOperation child ps t)
    (e : child.precedence = op.precedence) : IsOperation op ps t := by
  cases op <;> cases child <;> first | exact h | exact absurd e (by decide)

theorem IsOperation.operand (h : IsOperation child ps t)
    (e : op.precedence < child.precedence) : IsOperand op ps t := by
  cases op <;> cases child <;> first | exact h | exact absurd e (by decide)

/-- An operation, an operator and an operand. -/
theorem IsOperation.arith (hl : IsOperation op ps t) (hr : IsOperand op qs u) :
    IsOperation op (ps ++ .token op.token :: qs) (.arith default op t u) := by
  cases op
  all_goals
    intro ls e
    simp only [lexes_append, lexes_token] at e
    obtain ⟨xs, _, rfl, ex, o, ys, rfl, eo, ey⟩ := e
    obtain ⟨l, dl, rfl⟩ := hl xs ex
    obtain ⟨r, dr, rfl⟩ := hr ys ey
  · exact ⟨_, .sumOp dl (eo ▸ .add) dr, rfl⟩
  · exact ⟨_, .sumOp dl (eo ▸ .sub) dr, rfl⟩
  · exact ⟨_, .productOp dl (eo ▸ .mul) dr, rfl⟩
  · exact ⟨_, .productOp dl (eo ▸ .div) dr, rfl⟩

end

/-! ## The pieces of terms -/

/-- The pieces of a term are a phrase of the tightest category for its outermost construct. -/
def Prints (t : Term) : Prop :=
  match t.unparen with
  | .number .. | .var .. | .call .. => Parses .atom t.pieces t.readBack
  | .arith _ op .. => IsOperation op t.pieces t.readBack
  | .compare .. => Parses .comparison t.pieces t.readBack
  | .block .. => ∃ body, t.readBack = .block default body ∧ Parses .block t.pieces (default, body)
  | _ => Parses .inline t.pieces t.readBack

/-- A term on the left of an operator, or its operands after others with an operator of its
precedence: the operands go on the operation before them. -/
def Extends (t : Term) : Prop :=
  ∀ (op : ArithOp) (ps : List Piece) (l : Term), IsOperation op ps l →
    IsOperation op
      (ps ++ .token op.token :: enclose (t.unparen.needsParens op .left) t.pieces)
      (l.attach op t.readBack)

theorem Prints.expr {t : Term} (h : Prints t) : Parses .expr t.pieces t.readBack := by
  unfold Prints at h
  split at h
  · exact h.product.sum.comparison.inline.expr
  · exact h.product.sum.comparison.inline.expr
  · exact h.product.sum.comparison.inline.expr
  · exact h.parses_sum.comparison.inline.expr
  · exact h.inline.expr
  · obtain ⟨body, e, h⟩ := h
    exact e ▸ h.exprBlock
  · exact h.expr

/-- A side of a comparison. -/
theorem Prints.side {t : Term} (h : Prints t) :
    Parses .sum (enclose t.unparen.needsParensInComparison t.pieces) t.readBack := by
  cases hn : t.unparen.needsParensInComparison with
  | true => exact h.expr.enclosed.product.sum
  | false =>
    unfold Prints at h
    split at h
    · exact h.product.sum
    · exact h.product.sum
    · exact h.product.sum
    · exact h.parses_sum
    all_goals simp_all [Term.needsParensInComparison, Term.isAtom]

/-- The condition of a loop. -/
theorem Prints.condition {t : Term} (h : Prints t) :
    Parses .comparison (enclose t.unparen.needsParensInWhile t.pieces) t.readBack := by
  by_cases hc : ∃ span op l r, t.unparen = .compare span op l r
  · obtain ⟨span, op, l, r, e⟩ := hc
    unfold Prints at h
    rw [e] at h ⊢
    exact h
  · have e : t.unparen.needsParensInWhile = t.unparen.needsParensInComparison := by
      unfold Term.needsParensInWhile
      split
      · rename_i e
        exact absurd ⟨_, _, _, _, e⟩ hc
      · rfl
    exact e ▸ h.side.comparison

/-- An operand that is no operation, or one that binds tighter, stands by itself. -/
theorem Prints.operand {t : Term} (h : Prints t) {op : ArithOp} {side : Side}
    (hp : ∀ child ∈ t.unparen.op?, child.precedence = op.precedence →
      t.unparen.needsParens op side = true) :
    IsOperand op (enclose (t.unparen.needsParens op side) t.pieces) t.readBack := by
  cases hn : t.unparen.needsParens op side with
  | true => exact .of_atom h.expr.enclosed
  | false =>
    unfold Prints at h
    split at h
    · exact .of_atom h
    · exact .of_atom h
    · exact .of_atom h
    · rename_i child _ _ e
      have hne : child.precedence ≠ op.precedence := fun hc => by
        simp [hp child (by rw [e]; rfl) hc] at hn
      rw [e] at hn
      simp only [Term.needsParens, Bool.or_eq_false_iff, decide_eq_false_iff_not] at hn
      exact IsOperation.operand h (by omega)
    all_goals simp_all [Term.needsParens, Term.isAtom]

/-- Between operators of the same precedence there are parentheses on the right only, where the
left operand does not move. -/
theorem needsParens_same {t : Term} {op child : ArithOp} (h : t.unparen.op? = some child)
    (hp : child.precedence = op.precedence) :
    t.unparen.needsParens op .left = false ∧
      t.unparen.needsParens op .right = !op.movesInto child := by
  cases e : t.unparen with
  | arith =>
    rw [e] at h
    cases h
    cases op <;> cases child <;> first | exact ⟨rfl, rfl⟩ | exact absurd hp (by decide)
  | _ => simp [e, Term.op?] at h

/-- On the left only the precedence of the operator counts. -/
theorem needsParens_left {op child : ArithOp} (h : op.precedence = child.precedence) (t : Term) :
    t.needsParens op .left = t.needsParens child .left := by
  have hs : (Side.left == Side.right) = false := rfl
  cases t with
  | arith => simp [Term.needsParens, h, hs]
  | _ => rfl

theorem Prints.left {t : Term} (h : Prints t) (op : ArithOp) :
    IsOperation op (enclose (t.unparen.needsParens op .left) t.pieces) t.readBack := by
  by_cases hs : ∃ child ∈ t.unparen.op?, child.precedence = op.precedence
  · obtain ⟨child, hc, hp⟩ := hs
    rw [(needsParens_same hc hp).1]
    unfold Prints at h
    split at h <;> simp_all [Term.op?]
    exact IsOperation.of_precedence_eq h hp
  · exact (h.operand fun child hc hp => absurd ⟨child, hc, hp⟩ hs).operation

/-- The right operand of an operation, after its left one. -/
theorem Prints.right {t : Term} (h : Prints t) (hx : Extends t) {op : ArithOp} {ps : List Piece}
    {l : Term} (hl : IsOperation op ps l) :
    IsOperation op (ps ++ .token op.token :: enclose (t.unparen.needsParens op .right) t.pieces)
      (Term.operate op l t.readBack) := by
  by_cases hm : ∃ child ∈ t.unparen.op?, op.movesInto child = true
  · obtain ⟨child, hc, hm⟩ := hm
    obtain ⟨b, hb, hab⟩ := Term.exists_op?_readBack hc
    have hn := needsParens_same hc (ArithOp.precedence_of_movesInto hm)
    rw [Term.operate_of_moves hb (hab.movesInto op ▸ hm), hn.2, hm, Bool.not_true, ← hn.1]
    exact hx op ps l hl
  · have ho : ∀ b ∈ t.readBack.op?, op.movesInto b = false := by
      intro b hb
      obtain ⟨child, hc, hab⟩ := Term.exists_op?_of_readBack hb
      rw [← hab.movesInto op]
      exact Bool.eq_false_iff.2 fun hm' => hm ⟨child, hc, hm'⟩
    rw [Term.operate_eq ho]
    refine hl.arith (h.operand fun child hc hp => ?_)
    rw [(needsParens_same hc hp).2, Bool.not_eq_true', Bool.eq_false_iff]
    exact fun hm' => hm ⟨child, hc, hm'⟩

/-- A left operand with no operator of the same precedence is one operand after the others. -/
theorem Prints.extend {t : Term} (h : Prints t) {op : ArithOp} {ps : List Piece} {l : Term}
    (hl : IsOperation op ps l)
    (ho : ∀ child ∈ t.unparen.op?, child.precedence ≠ op.precedence) :
    IsOperation op (ps ++ .token op.token :: enclose (t.unparen.needsParens op .left) t.pieces)
      (l.attach op t.readBack) := by
  have ha : ∀ b ∈ t.readBack.op?, b.precedence ≠ op.precedence := by
    intro b hb
    obtain ⟨child, hc, hab⟩ := Term.exists_op?_of_readBack hb
    exact hab.1 ▸ ho child hc
  rw [Term.attach_eq ha]
  exact hl.arith (h.operand fun child hc hp => absurd hp (ho child hc))

/-- A term that is no operation is one operand after the others. -/
theorem Prints.and_extends {t : Term} (h : Prints t) (ho : t.unparen.op? = none) :
    Prints t ∧ Extends t :=
  ⟨h, fun _ _ _ hl => h.extend hl (by simp [ho])⟩

theorem prints_braced {body : List Term} (h : ∀ t ∈ body, Prints t) :
    Parses .block (bracedPieces (body.map Term.pieces)) (default, body.map Term.readBack) := by
  exact .block (Parses.statements (fun t ht => (h t ht).expr) .start)

/-- **The pieces of every term are a phrase with the term, read from left to right, as value.** -/
theorem prints_and_extends (t : Term) : Prints t ∧ Extends t := by
  induction t with
  | number span n =>
    have h : Prints (.number span n) := Parses.number
    exact h.and_extends rfl
  | paren span inner ih => exact ih
  | arith span child a b iha ihb =>
    have hl := iha.1.left child
    have h : Prints (.arith span child a b) := ihb.1.right ihb.2 hl
    refine ⟨h, fun op ps l hop => ?_⟩
    by_cases hp : child.precedence = op.precedence
    · have hn := needsParens_same (t := .arith span child a b) rfl hp
      have e : (Term.arith span child a b).readBack =
          Term.operate child a.readBack b.readBack := rfl
      rw [hn.1, e, Term.attach_operate hp]
      have hx := iha.2 op ps l hop
      have hx' : IsOperation child
          (ps ++ .token op.token :: enclose (a.unparen.needsParens op .left) a.pieces)
          (l.attach op a.readBack) := hx.of_precedence_eq hp.symm
      have hr := (ihb.1.right ihb.2 hx').of_precedence_eq hp
      rw [needsParens_left hp.symm] at hr
      simpa [enclose, Term.pieces] using hr
    · exact h.extend hop fun c hc => by cases hc; exact hp
  | compare span op l r ihl ihr =>
    have h : Prints (.compare span op l r) := Parses.compare ihl.1.side ihr.1.side
    exact h.and_extends rfl
  | assign span name value ih =>
    have h : Prints (.assign span name value) := Parses.assign ih.1.expr
    exact h.and_extends rfl
  | var span name =>
    have h : Prints (.var span name) := Parses.var name
    exact h.and_extends rfl
  | block span body ih =>
    have hb := prints_braced fun t ht => (ih t ht).1
    have h : Prints (.block span body) := by
      refine ⟨body.map Term.readBack, ?_, ?_⟩
      · simp [Term.readBack, Term.erase, Term.regroup]
      · simpa [Term.pieces] using hb
    exact h.and_extends rfl
  | branch span cond thenSpan thenBody orElse ihc ihb ihe =>
    have hb := prints_braced fun t ht => (ihb t ht).1
    have h : Prints (.branch span cond thenSpan thenBody orElse) := by
      have := Parses.branch ihc.1.expr hb ihe.1.expr
      simpa [Prints, Term.unparen, Term.readBack, Term.map_readBack, Term.erase, Term.regroup,
        Term.pieces] using this
    exact h.and_extends rfl
  | whileLoop span cond bodySpan body ihc ihb =>
    have hb := prints_braced fun t ht => (ihb t ht).1
    have h : Prints (.whileLoop span cond bodySpan body) := by
      have := Parses.whileLoop ihc.1.condition hb
      simpa [Prints, Term.unparen, Term.readBack, Term.map_readBack, Term.erase, Term.regroup,
        Term.pieces] using this
    exact h.and_extends rfl
  | forLoop span name first limit bodySpan body ihf ihl ihb =>
    have hb := prints_braced fun t ht => (ihb t ht).1
    have h : Prints (.forLoop span name first limit bodySpan body) := by
      cases first with
      | none =>
        have : Parses .inline _ (.forLoop default name none _ default _) :=
          .forLoop (.rangeTo ihl.1.expr) hb
        simpa [Prints, Term.unparen, Term.readBack, Term.map_readBack, Term.erase, Term.regroup,
          Term.pieces] using this
      | some first =>
        have : Parses .inline _ (.forLoop default name (some _) _ default _) :=
          .forLoop (.rangeFromTo (ihf first rfl).1.expr ihl.1.expr) hb
        simpa [Prints, Term.unparen, Term.readBack, Term.map_readBack, Term.erase, Term.regroup,
          Term.pieces] using this
    exact h.and_extends rfl
  | lambda span params body ih =>
    have h : Prints (.lambda span params body) := Parses.lambda ih.1.expr
    exact h.and_extends rfl
  | call span name args ih =>
    have h : Prints (.call span name args) := by
      have : Parses .atom _ (.call default name _) :=
        .call (.arguments (fun t ht => (ih t ht).1.expr) .noItems)
      simpa [Prints, Term.unparen, Term.readBack, Term.map_readBack, Term.erase, Term.regroup,
        Term.pieces] using this
    exact h.and_extends rfl

/-! ## Programs -/

/-- The pieces of a program are a program. -/
theorem parses_program (p : Program) : Parses .program p.pieces p.erase.regroup := by
  have h : Parses .seq (separated .semi (p.statements.map Term.pieces))
      (p.statements.map Term.readBack) :=
    Parses.statements (fun t _ => (prints_and_extends t).1.expr) .start
  intro ls e
  obtain ⟨ts, h, ets⟩ := h ls (by simpa [Program.pieces] using e)
  refine ⟨⟨ts⟩, .program h, ?_⟩
  simp_all [Category.erase, Program.erase, Program.regroup, Term.map_readBack]

theorem exists_parseSource_minify {p : Program} (hw : ∀ t ∈ p.statements, t.Writable) :
    ∃ q, parseSource p.minify = .ok q ∧ q.erase = p.erase.regroup := by
  obtain ⟨q, hq, e⟩ := parses_program p (lexemesFrom 0 p.pieces) (map_token_lexemesFrom ..)
  refine ⟨q, ?_, e⟩
  rw [parseSource, tokenize_minify hw]
  exact Parser.parse_eq_ok_of_derives hq

/-- **Minified programs are parsed back**: every program of which the names and literals can be
written is read back from its minified text as itself, with sums and products read from left to
right, up to spans and parentheses. -/
theorem parseSource_minify (p : Program) (hn : ∀ name ∈ p.names, IsName name)
    (hl : ∀ n ∈ p.literals, n ≠ Int64.minValue) :
    ∃ q, parseSource p.minify = .ok q ∧ q.erase = p.erase.regroup := by
  have hw : ∀ t ∈ p.statements, t.Writable :=
    Term.writable_all.1 ⟨by simpa [Program.names] using hn, by simpa [Program.literals] using hl⟩
  exact exists_parseSource_minify hw

/-- A product whose last operand is an assignment, written without the first parentheses. -/
theorem parseSource_minify_product :
    ∃ q, parseSource "a*2*(b=-3)" = .ok q ∧
      q.erase = ⟨[.arith default .mul (.arith default .mul (.var default "a") (.number default 2))
        (.assign default "b" (.number default (-3)))]⟩ := by
  have h := parseSource_minify ⟨[.arith default .mul (.var default "a")
    (.arith default .mul (.number default 2) (.assign default "b" (.number default (-3))))]⟩
    ?_ ?_
  · have e : Program.minify ⟨[.arith default .mul (.var default "a")
      (.arith default .mul (.number default 2) (.assign default "b" (.number default (-3))))]⟩ =
        "a*2*(b=-3)" := by decide
    rw [e] at h
    exact h
  · intro name h
    have : name = "a" ∨ name = "b" := by simpa [Program.names, Term.names] using h
    rcases this with rfl | rfl
    · exact ⟨⟨'a', [], rfl, rfl, rfl⟩, rfl⟩
    · exact ⟨⟨'b', [], rfl, rfl, rfl⟩, rfl⟩
  · intro n h
    have : n = 2 ∨ n = -3 := by simpa [Program.literals, Term.literals] using h
    rcases this with rfl | rfl <;> decide

end Dynascope
