import Dynascope.Parser

/-! # The grammar

`Derives c ls v`: the tokens `ls` are a phrase of category `c` with the value `v`. Each rule of
the grammar is one constructor. The value of a phrase that is an expression or a block carries the
span of its tokens (`Derives.spanned`).

A sequence of statements is `opened` where a statement can follow at once (at its start, after a
`;`, after a block) and `closed` where it ends in an expression, which needs a `;` before the next
statement. The bodies of assignments, lambdas and branches are whole expressions, the condition of
a loop is at most a comparison, operands are atoms.
-/

set_option autoImplicit false

namespace Dynascope.Grammar

/-! ## Phrases -/

/-- From the start of the first token to the end of the last. -/
def spanOf (ls : List Lexeme) : Span :=
  ⟨(ls.head?.map (·.span.start)).getD 0, (ls.getLast?.map (·.span.stop)).getD 0⟩

/-- The kinds of phrase. -/
inductive Category where
  /-- a whole program -/
  | program
  /-- statements -/
  | seq
  /-- statements after which another one can stand at once -/
  | opened
  /-- statements of which the last is an expression that is no block -/
  | closed
  /-- statements in braces -/
  | block
  | expr
  /-- an expression that is no block -/
  | inline
  /-- one or two bounds in parentheses -/
  | range
  /-- two sums with a relation between, or one sum -/
  | comparison
  | sum
  | product
  | atom
  /-- arguments with a comma after each -/
  | items
  /-- arguments, the last with or without a comma -/
  | args
deriving DecidableEq

/-- What a phrase stands for. -/
abbrev Category.Value : Category → Type
  | program => Program
  | seq | opened | closed | items | args => List Term
  | block => Span × List Term
  | range => Option Term × Term
  | expr | inline | comparison | sum | product | atom => Term

/-- The signs of a sum. -/
inductive SumOp : Token → ArithOp → Prop
  | add : SumOp .plus .add
  | sub : SumOp .minus .sub

/-- The signs of a product. -/
inductive ProductOp : Token → ArithOp → Prop
  | mul : ProductOp .star .mul
  | div : ProductOp .slash .div

/-- The signs of a comparison. -/
inductive Relation : Token → CmpOp → Prop
  | gt : Relation .gt .gt
  | lt : Relation .lt .lt
  | ge : Relation .gtEq .ge
  | le : Relation .ltEq .le
  | eq : Relation .eqEq .eq
  | ne : Relation .notEq .ne

/-- Names with a comma after each. -/
inductive NameItems : List Lexeme → List String → Prop
  | nil : NameItems [] []
  | snoc {xs : List Lexeme} {names : List String} {i c : Lexeme} {name : String} :
      NameItems xs names → i.token = .ident name → c.token = .comma →
      NameItems (xs ++ [i, c]) (names ++ [name])

/-- The parameters of a lambda, the last with or without a comma. -/
inductive Names : List Lexeme → List String → Prop
  | items {xs : List Lexeme} {names : List String} : NameItems xs names → Names xs names
  | last {xs : List Lexeme} {names : List String} {i : Lexeme} {name : String} :
      NameItems xs names → i.token = .ident name → Names (xs ++ [i]) (names ++ [name])

/-- The rules of the grammar. -/
inductive Derives : (c : Category) → List Lexeme → c.Value → Prop
  | program {ls : List Lexeme} {ts : List Term} : Derives .seq ls ts → Derives .program ls ⟨ts⟩
  -- statements
  | seqOpened {ls : List Lexeme} {ts : List Term} : Derives .opened ls ts → Derives .seq ls ts
  | seqClosed {ls : List Lexeme} {ts : List Term} : Derives .closed ls ts → Derives .seq ls ts
  | start : Derives .opened [] []
  | openedSemi {xs : List Lexeme} {ts : List Term} {m : Lexeme} :
      Derives .opened xs ts → m.token = .semi → Derives .opened (xs ++ [m]) ts
  | closedSemi {xs : List Lexeme} {ts : List Term} {m : Lexeme} :
      Derives .closed xs ts → m.token = .semi → Derives .opened (xs ++ [m]) ts
  | openedBlock {xs ys : List Lexeme} {ts body : List Term} {span : Span} :
      Derives .opened xs ts → Derives .block ys (span, body) →
      Derives .opened (xs ++ ys) (ts ++ [.block span body])
  | closed {xs ys : List Lexeme} {ts : List Term} {t : Term} :
      Derives .opened xs ts → Derives .inline ys t → Derives .closed (xs ++ ys) (ts ++ [t])
  -- blocks
  | block {l r : Lexeme} {xs : List Lexeme} {ts : List Term} :
      l.token = .lbrace → Derives .seq xs ts → r.token = .rbrace →
      Derives .block (l :: (xs ++ [r])) (spanOf (l :: (xs ++ [r])), ts)
  | exprBlock {ls : List Lexeme} {body : List Term} {span : Span} :
      Derives .block ls (span, body) → Derives .expr ls (.block span body)
  | exprInline {ls : List Lexeme} {t : Term} : Derives .inline ls t → Derives .expr ls t
  -- expressions that reach as far to the right as they can
  | assign {i e : Lexeme} {name : String} {vs : List Lexeme} {v : Term} :
      i.token = .ident name → e.token = .assign → Derives .expr vs v →
      Derives .inline (i :: e :: vs) (.assign (spanOf (i :: e :: vs)) name v)
  | branch {i l r c e : Lexeme} {cs bs es : List Lexeme} {cond orElse : Term} {span : Span}
      {body : List Term} :
      i.token = .kwIf → l.token = .lparen → Derives .expr cs cond → r.token = .rparen →
      c.token = .colon → Derives .block bs (span, body) → e.token = .kwElse →
      Derives .expr es orElse →
      Derives .inline (i :: l :: (cs ++ r :: c :: (bs ++ e :: es)))
        (.branch (spanOf (i :: l :: (cs ++ r :: c :: (bs ++ e :: es)))) cond span body orElse)
  | whileLoop {w : Lexeme} {cs bs : List Lexeme} {cond : Term} {span : Span}
      {body : List Term} :
      w.token = .kwWhile → Derives .comparison cs cond → Derives .block bs (span, body) →
      Derives .inline (w :: (cs ++ bs)) (.whileLoop (spanOf (w :: (cs ++ bs))) cond span body)
  | forLoop {f x i : Lexeme} {name : String} {rs bs : List Lexeme} {first : Option Term}
      {limit : Term} {span : Span} {body : List Term} :
      f.token = .kwFor → x.token = .ident name → i.token = .kwIn →
      Derives .range rs (first, limit) → Derives .block bs (span, body) →
      Derives .inline (f :: x :: i :: (rs ++ bs))
        (.forLoop (spanOf (f :: x :: i :: (rs ++ bs))) name first limit span body)
  | lambda {k c : Lexeme} {ps bs : List Lexeme} {params : List String} {body : Term} :
      k.token = .kwLambda → Names ps params → c.token = .colon → Derives .expr bs body →
      Derives .inline (k :: (ps ++ c :: bs)) (.lambda (spanOf (k :: (ps ++ c :: bs))) params body)
  | inline {ls : List Lexeme} {t : Term} : Derives .comparison ls t → Derives .inline ls t
  -- bounds
  | rangeTo {k l r : Lexeme} {xs : List Lexeme} {limit : Term} :
      k.token = .kwRange → l.token = .lparen → Derives .expr xs limit → r.token = .rparen →
      Derives .range (k :: l :: (xs ++ [r])) (none, limit)
  | rangeFromTo {k l c r : Lexeme} {xs ys : List Lexeme} {first limit : Term} :
      k.token = .kwRange → l.token = .lparen → Derives .expr xs first → c.token = .comma →
      Derives .expr ys limit → r.token = .rparen →
      Derives .range (k :: l :: (xs ++ c :: (ys ++ [r]))) (some first, limit)
  -- operators
  | compare {xs ys : List Lexeme} {o : Lexeme} {op : CmpOp} {left right : Term} :
      Derives .sum xs left → Relation o.token op → Derives .sum ys right →
      Derives .comparison (xs ++ o :: ys) (.compare (spanOf (xs ++ o :: ys)) op left right)
  | comparison {ls : List Lexeme} {t : Term} : Derives .sum ls t → Derives .comparison ls t
  | sumOp {xs ys : List Lexeme} {o : Lexeme} {op : ArithOp} {left right : Term} :
      Derives .sum xs left → SumOp o.token op → Derives .product ys right →
      Derives .sum (xs ++ o :: ys) (.arith (spanOf (xs ++ o :: ys)) op left right)
  | sum {ls : List Lexeme} {t : Term} : Derives .product ls t → Derives .sum ls t
  | productOp {xs ys : List Lexeme} {o : Lexeme} {op : ArithOp} {left right : Term} :
      Derives .product xs left → ProductOp o.token op → Derives .atom ys right →
      Derives .product (xs ++ o :: ys) (.arith (spanOf (xs ++ o :: ys)) op left right)
  | product {ls : List Lexeme} {t : Term} : Derives .atom ls t → Derives .product ls t
  -- operands
  | number {n : Lexeme} {value : Int64} :
      n.token = .int value → Derives .atom [n] (.number (spanOf [n]) value)
  | negative {m n : Lexeme} {value : Int64} :
      m.token = .minus → n.token = .int value →
      Derives .atom [m, n] (.number (spanOf [m, n]) (-value))
  | var {i : Lexeme} {name : String} :
      i.token = .ident name → Derives .atom [i] (.var (spanOf [i]) name)
  | call {i l r : Lexeme} {name : String} {xs : List Lexeme} {ts : List Term} :
      i.token = .ident name → l.token = .lparen → Derives .args xs ts → r.token = .rparen →
      Derives .atom (i :: l :: (xs ++ [r])) (.call (spanOf (i :: l :: (xs ++ [r]))) name ts)
  | paren {l r : Lexeme} {xs : List Lexeme} {t : Term} :
      l.token = .lparen → Derives .expr xs t → r.token = .rparen →
      Derives .atom (l :: (xs ++ [r])) (.paren (spanOf (l :: (xs ++ [r]))) t)
  -- arguments
  | noItems : Derives .items [] []
  | item {xs ys : List Lexeme} {ts : List Term} {t : Term} {c : Lexeme} :
      Derives .items xs ts → Derives .expr ys t → c.token = .comma →
      Derives .items (xs ++ (ys ++ [c])) (ts ++ [t])
  | argsItems {ls : List Lexeme} {ts : List Term} : Derives .items ls ts → Derives .args ls ts
  | argsLast {xs ys : List Lexeme} {ts : List Term} {t : Term} :
      Derives .items xs ts → Derives .expr ys t → Derives .args (xs ++ ys) (ts ++ [t])

/-! ## Spans -/

theorem spanOf_singleton (l : Lexeme) : spanOf [l] = l.span := rfl

/-- A phrase starts where its first part starts and stops where its last part stops. -/
theorem spanOf_append {xs ys : List Lexeme} (hx : xs ≠ []) (hy : ys ≠ []) :
    spanOf (xs ++ ys) = ⟨(spanOf xs).start, (spanOf ys).stop⟩ := by
  simp [spanOf, List.head?_append, List.getLast?_append, List.head?_eq_some_head hx,
    List.getLast?_eq_some_getLast hy]

theorem spanOf_cons {x : Lexeme} {ys : List Lexeme} (hy : ys ≠ []) :
    spanOf (x :: ys) = ⟨x.span.start, (spanOf ys).stop⟩ :=
  spanOf_append (List.cons_ne_nil x []) hy

/-- Phrases that are expressions or blocks have tokens, and their values the span of these. -/
def Spanned : (c : Category) → List Lexeme → c.Value → Prop
  | .expr, ls, t | .inline, ls, t | .comparison, ls, t | .sum, ls, t | .product, ls, t
  | .atom, ls, t => ls ≠ [] ∧ t.span = spanOf ls
  | .block, ls, b => ls ≠ [] ∧ b.1 = spanOf ls
  | _, _, _ => True

theorem Derives.spanned {c : Category} {ls : List Lexeme} {v : c.Value} (h : Derives c ls v) :
    Spanned c ls v := by
  induction h with
  | block | assign | branch | whileLoop | forLoop | lambda | number | negative | var | call
  | paren => exact ⟨List.cons_ne_nil _ _, rfl⟩
  | compare | sumOp | productOp => exact ⟨by simp, rfl⟩
  | exprBlock _ ih | exprInline _ ih | inline _ ih | comparison _ ih | sum _ ih
  | product _ ih => exact ih
  | _ => trivial

/-- The span of two phrases with a token between. -/
theorem spanOf_operator {xs ys : List Lexeme} {o : Lexeme} {left right : Term}
    (hx : xs ≠ [] ∧ left.span = spanOf xs) (hy : ys ≠ [] ∧ right.span = spanOf ys) :
    spanOf (xs ++ o :: ys) = Parser.Pending.around left right := by
  rw [spanOf_append hx.1 (by simp), spanOf_cons hy.1, Parser.Pending.around, hx.2, hy.2]

/-- The span of a phrase that starts with a token and ends with a phrase. -/
theorem spanOf_suffix {x : Lexeme} (xs : List Lexeme) {ys zs : List Lexeme} {span : Span}
    (hy : ys ≠ [] ∧ span = spanOf ys) (h : zs = xs ++ ys) :
    spanOf (x :: zs) = ⟨x.span.start, span.stop⟩ := by
  rw [h, hy.2, ← List.cons_append]
  exact spanOf_append (List.cons_ne_nil x xs) hy.1

theorem spanned_singleton (l : Lexeme) : [l] ≠ [] ∧ l.span = spanOf [l] :=
  ⟨List.cons_ne_nil _ _, rfl⟩

end Dynascope.Grammar
