import Dynascope.Proofs.Grammar

/-! # Every accepted program is derived

`Reached s ls`: the tokens `ls` bring the parser to the state `s`, that is, the tokens are those
of the unfinished constructs around the place (`Opens`), of the operators that wait for their
right side (`Waits`) and of what has been read since, each part a phrase of the grammar with the
value that the state holds for it. The beginning is reached by no tokens and every step keeps the
relation (`step_reached`), so a program that is complete is derived from the tokens read
(`derives_of_parse`).
-/

set_option autoImplicit false

namespace Dynascope.Parser

open Grammar

/-! ## What has been read -/

/-- A place where any expression can stand but a block as a statement. -/
def Context.AnyInline : Context → Prop
  | whileCond .. => False
  | _ => True

/-- A place where any expression can stand that is not a statement. -/
def Context.AnyExpr : Context → Prop
  | program _ | block .. | whileCond .. => False
  | _ => True

/-- A place among statements. -/
def Context.AmongStatements : Context → Prop
  | program _ | block .. => True
  | _ => False

/-- The phrases that can stand at a place. -/
def Context.Takes : Context → List Lexeme → Term → Prop
  | program _ | block .. => Derives .inline
  | whileCond .. => Derives .comparison
  | _ => Derives .expr

/-- The tokens of a construct before its block. -/
inductive Heads : BlockRole → List Lexeme → Prop
  | plain : Heads .plain []
  | thenBody {i l r c : Lexeme} {cs : List Lexeme} {cond : Term} :
      i.token = .kwIf → l.token = .lparen → Derives .expr cs cond → r.token = .rparen →
      c.token = .colon → Heads (.thenBody i.span.start cond) (i :: l :: (cs ++ [r, c]))
  | whileBody {w : Lexeme} {cs : List Lexeme} {cond : Term} :
      w.token = .kwWhile → Derives .comparison cs cond →
      Heads (.whileBody w.span.start cond) (w :: cs)
  | forBody {f x i : Lexeme} {name : String} {rs : List Lexeme} {first : Option Term}
      {limit : Term} :
      f.token = .kwFor → x.token = .ident name → i.token = .kwIn →
      Derives .range rs (first, limit) →
      Heads (.forBody f.span.start name first limit) (f :: x :: i :: rs)

/-- The tokens of a left side and its operator, if there is one. -/
inductive LeftOf {α : Type} (Side : List Lexeme → Term → Prop) (Sign : Token → α → Prop) :
    Option (Term × α) → List Lexeme → Prop
  | none : LeftOf Side Sign none []
  | some {xs : List Lexeme} {t : Term} {o : Lexeme} {op : α} :
      Side xs t → Sign o.token op → LeftOf Side Sign (some (t, op)) (xs ++ [o])

/-- The tokens of the operators that wait for their right side. -/
inductive Waits : Pending → List Lexeme → Prop
  | intro {p : Pending} {xs ys zs : List Lexeme} :
      LeftOf (Derives .sum) Relation p.comparison xs → LeftOf (Derives .sum) SumOp p.sum ys →
      LeftOf (Derives .product) ProductOp p.product zs → Waits p (xs ++ (ys ++ zs))

/-- The tokens of unfinished constructs. -/
inductive Opens : Context → List Lexeme → Prop
  | program {done : List Term} {ls : List Lexeme} :
      Derives .opened ls done.reverse → Opens (.program done) ls
  | block {role : BlockRole} {done : List Term} {outer : Context} {xs hs ys ls : List Lexeme}
      {l : Lexeme} :
      Opens outer xs → outer.AnyInline → Heads role hs → l.token = .lbrace →
      Derives .opened ys done.reverse → ls = xs ++ (hs ++ l :: ys) →
      Opens (.block role l.span.start done outer) ls
  | value {name : String} {outer : Context} {xs ls : List Lexeme} {i e : Lexeme} :
      Opens outer xs → outer.AnyInline → i.token = .ident name → e.token = .assign →
      ls = xs ++ [i, e] → Opens (.value i.span.start name outer) ls
  | lambdaBody {params : List String} {outer : Context} {xs ps ls : List Lexeme}
      {k c : Lexeme} :
      Opens outer xs → outer.AnyInline → k.token = .kwLambda → Names ps params.reverse →
      c.token = .colon → ls = xs ++ k :: (ps ++ [c]) →
      Opens (.lambdaBody k.span.start params outer) ls
  | orElse {start : Nat} {cond : Term} {span : Span} {body : List Term} {outer : Context}
      {xs hs bs ls : List Lexeme} {e : Lexeme} :
      Opens outer xs → outer.AnyInline → Heads (.thenBody start cond) hs →
      Derives .block bs (span, body) → e.token = .kwElse → ls = xs ++ (hs ++ (bs ++ [e])) →
      Opens (.orElse start cond span body outer) ls
  | paren {pending : Pending} {outer : Context} {xs ys ls : List Lexeme} {l : Lexeme} :
      Opens outer xs → Waits pending ys → l.token = .lparen → ls = xs ++ (ys ++ [l]) →
      Opens (.paren l.span.start pending outer) ls
  | args {name : String} {done : List Term} {pending : Pending} {outer : Context}
      {xs ys zs ls : List Lexeme} {i l : Lexeme} :
      Opens outer xs → Waits pending ys → i.token = .ident name → l.token = .lparen →
      Derives .items zs done.reverse → ls = xs ++ (ys ++ i :: l :: zs) →
      Opens (.args i.span.start name done pending outer) ls
  | ifCond {outer : Context} {xs ls : List Lexeme} {i l : Lexeme} :
      Opens outer xs → outer.AnyInline → i.token = .kwIf → l.token = .lparen →
      ls = xs ++ [i, l] → Opens (.ifCond i.span.start outer) ls
  | whileCond {outer : Context} {xs ls : List Lexeme} {w : Lexeme} :
      Opens outer xs → outer.AnyInline → w.token = .kwWhile → ls = xs ++ [w] →
      Opens (.whileCond w.span.start outer) ls
  | firstBound {name : String} {outer : Context} {xs ls : List Lexeme} {f x i k l : Lexeme} :
      Opens outer xs → outer.AnyInline → f.token = .kwFor → x.token = .ident name →
      i.token = .kwIn → k.token = .kwRange → l.token = .lparen →
      ls = xs ++ [f, x, i, k, l] → Opens (.firstBound f.span.start name outer) ls
  | secondBound {name : String} {first : Term} {outer : Context} {xs ys ls : List Lexeme}
      {f x i k l c : Lexeme} :
      Opens outer xs → outer.AnyInline → f.token = .kwFor → x.token = .ident name →
      i.token = .kwIn → k.token = .kwRange → l.token = .lparen → Derives .expr ys first →
      c.token = .comma → ls = xs ++ f :: x :: i :: k :: l :: (ys ++ [c]) →
      Opens (.secondBound f.span.start name first outer) ls

/-- The tokens that bring the parser to a state. -/
inductive Reached : State → List Lexeme → Prop
  | statement {ctx : Context} {ls : List Lexeme} :
      Opens ctx ls → ctx.AmongStatements → Reached (.statement ctx) ls
  | expression {ctx : Context} {ls : List Lexeme} :
      Opens ctx ls → ctx.AnyExpr → Reached (.expression ctx) ls
  | argument {start : Nat} {name : String} {done : List Term} {pending : Pending}
      {outer : Context} {ls : List Lexeme} :
      Opens (.args start name done pending outer) ls →
      Reached (.argument (.args start name done pending outer)) ls
  | operand {ctx : Context} {pending : Pending} {xs ys ls : List Lexeme} :
      Opens ctx xs → Waits pending ys → ls = xs ++ ys → Reached (.operand ctx pending) ls
  | negated {ctx : Context} {pending : Pending} {xs ys ls : List Lexeme} {m : Lexeme} :
      Opens ctx xs → Waits pending ys → m.token = .minus → ls = xs ++ (ys ++ [m]) →
      Reached (.negated ctx pending m.span.start) ls
  | named {ctx : Context} {pending : Pending} {assignable : Bool} {name : String}
      {xs ys ls : List Lexeme} {i : Lexeme} :
      Opens ctx xs → Waits pending ys → i.token = .ident name →
      (assignable = true → ys = [] ∧ ctx.AnyInline) → ls = xs ++ (ys ++ [i]) →
      Reached (.named ctx pending assignable i.span name) ls
  | operator {ctx : Context} {pending : Pending} {t : Term} {xs ys zs ls : List Lexeme} :
      Opens ctx xs → Waits pending ys → Derives .atom zs t → ls = xs ++ (ys ++ zs) →
      Reached (.operator ctx pending t) ls
  | complete {ctx : Context} {t : Term} {xs ys ls : List Lexeme} :
      Opens ctx xs → ctx.Takes ys t → ls = xs ++ ys → Reached (.complete ctx t) ls
  | ifOpen {ctx : Context} {xs ls : List Lexeme} {i : Lexeme} :
      Opens ctx xs → ctx.AnyInline → i.token = .kwIf → ls = xs ++ [i] →
      Reached (.ifOpen ctx i.span.start) ls
  | ifColon {ctx : Context} {cond : Term} {xs cs ls : List Lexeme} {i l r : Lexeme} :
      Opens ctx xs → ctx.AnyInline → i.token = .kwIf → l.token = .lparen →
      Derives .expr cs cond → r.token = .rparen → ls = xs ++ i :: l :: (cs ++ [r]) →
      Reached (.ifColon ctx i.span.start cond) ls
  | thenOpen {ctx : Context} {start : Nat} {cond : Term} {xs hs ls : List Lexeme} :
      Opens ctx xs → ctx.AnyInline → Heads (.thenBody start cond) hs → ls = xs ++ hs →
      Reached (.thenOpen ctx start cond) ls
  | elseWord {ctx : Context} {start : Nat} {cond : Term} {span : Span} {body : List Term}
      {xs hs bs ls : List Lexeme} :
      Opens ctx xs → ctx.AnyInline → Heads (.thenBody start cond) hs →
      Derives .block bs (span, body) → ls = xs ++ (hs ++ bs) →
      Reached (.elseWord ctx start cond span body) ls
  | forName {ctx : Context} {xs ls : List Lexeme} {f : Lexeme} :
      Opens ctx xs → ctx.AnyInline → f.token = .kwFor → ls = xs ++ [f] →
      Reached (.forName ctx f.span.start) ls
  | forIn {ctx : Context} {name : String} {xs ls : List Lexeme} {f x : Lexeme} :
      Opens ctx xs → ctx.AnyInline → f.token = .kwFor → x.token = .ident name →
      ls = xs ++ [f, x] → Reached (.forIn ctx f.span.start name) ls
  | forRange {ctx : Context} {name : String} {xs ls : List Lexeme} {f x i : Lexeme} :
      Opens ctx xs → ctx.AnyInline → f.token = .kwFor → x.token = .ident name →
      i.token = .kwIn → ls = xs ++ [f, x, i] → Reached (.forRange ctx f.span.start name) ls
  | forOpen {ctx : Context} {name : String} {xs ls : List Lexeme} {f x i k : Lexeme} :
      Opens ctx xs → ctx.AnyInline → f.token = .kwFor → x.token = .ident name →
      i.token = .kwIn → k.token = .kwRange → ls = xs ++ [f, x, i, k] →
      Reached (.forOpen ctx f.span.start name) ls
  | forBlock {ctx : Context} {start : Nat} {name : String} {first : Option Term}
      {limit : Term} {xs hs ls : List Lexeme} :
      Opens ctx xs → ctx.AnyInline → Heads (.forBody start name first limit) hs →
      ls = xs ++ hs → Reached (.forBlock ctx start name first limit) ls
  | param {ctx : Context} {params : List String} {xs ps ls : List Lexeme} {k : Lexeme} :
      Opens ctx xs → ctx.AnyInline → k.token = .kwLambda → NameItems ps params.reverse →
      ls = xs ++ k :: ps → Reached (.param ctx k.span.start params) ls
  | paramEnd {ctx : Context} {params : List String} {name : String} {xs ps ls : List Lexeme}
      {k i : Lexeme} :
      Opens ctx xs → ctx.AnyInline → k.token = .kwLambda → NameItems ps params.reverse →
      i.token = .ident name → ls = xs ++ k :: (ps ++ [i]) →
      Reached (.paramEnd ctx k.span.start (name :: params)) ls

/-! ## Places -/

theorem Context.AnyExpr.anyInline {ctx : Context} (h : ctx.AnyExpr) : ctx.AnyInline := by
  cases ctx <;> trivial

theorem Context.AmongStatements.anyInline {ctx : Context} (h : ctx.AmongStatements) :
    ctx.AnyInline := by
  cases ctx <;> trivial

theorem Context.takes_comparison (ctx : Context) {ls : List Lexeme} {t : Term}
    (h : Derives .comparison ls t) : ctx.Takes ls t := by
  cases ctx <;> first | exact h | exact .inline h | exact .exprInline (.inline h)

theorem Context.takes_inline {ctx : Context} (hc : ctx.AnyInline) {ls : List Lexeme} {t : Term}
    (h : Derives .inline ls t) : ctx.Takes ls t := by
  cases ctx <;> first | exact h | exact .exprInline h | exact hc.elim

/-! ## Pending operators -/

section
variable {p : Pending} {operand : Term} {xs ys zs ts : List Lexeme}

theorem waits_nil : Waits {} [] := by
  have h : Waits {} ([] ++ ([] ++ [])) := .intro .none .none .none
  exact h

theorem derives_toProduct (hz : LeftOf (Derives .product) ProductOp p.product zs)
    (ht : Derives .atom ts operand) : Derives .product (zs ++ ts) (p.toProduct operand) := by
  obtain ⟨comparison, sum, product⟩ := p
  cases hz with
  | none => exact .product ht
  | some hl ho =>
    have h := Derives.productOp hl ho ht
    rw [spanOf_operator hl.spanned ht.spanned] at h
    simpa [Pending.toProduct] using h

theorem derives_toSum (hy : LeftOf (Derives .sum) SumOp p.sum ys)
    (hz : LeftOf (Derives .product) ProductOp p.product zs) (ht : Derives .atom ts operand) :
    Derives .sum (ys ++ (zs ++ ts)) (p.toSum operand) := by
  have hr := derives_toProduct hz ht
  obtain ⟨comparison, sum, product⟩ := p
  cases hy with
  | none => exact .sum hr
  | some hl ho =>
    have h := Derives.sumOp hl ho hr
    rw [spanOf_operator hl.spanned hr.spanned] at h
    simpa [Pending.toSum] using h

theorem derives_toComparison (hp : Waits p ys) (ht : Derives .atom ts operand) :
    Derives .comparison (ys ++ ts) (p.toComparison operand) := by
  obtain ⟨hx, hy, hz⟩ := hp
  have hr := derives_toSum hy hz ht
  obtain ⟨comparison, sum, product⟩ := p
  cases hx with
  | none => simpa [Pending.toComparison] using Derives.comparison hr
  | some hl ho =>
    have h := Derives.compare hl ho hr
    rw [spanOf_operator hl.spanned hr.spanned] at h
    simpa [Pending.toComparison] using h

/-! Which signs the operators have. -/

theorem productOp_of_operator? {t : Token} {op : ArithOp}
    (h : operator? t = some (.product op)) : ProductOp t op := by
  cases t <;> cases h <;> constructor

theorem sumOp_of_operator? {t : Token} {op : ArithOp} (h : operator? t = some (.sum op)) :
    SumOp t op := by
  cases t <;> cases h <;> constructor

theorem relation_of_operator? {t : Token} {op : CmpOp}
    (h : operator? t = some (.comparison op)) : Relation t op := by
  cases t <;> cases h <;> constructor

/-- An operator after an operand. -/
theorem waits_extend {o : Lexeme} {op : Operator} {q : Pending} (hp : Waits p ys)
    (ht : Derives .atom ts operand) (ho : operator? o.token = some op)
    (h : p.extend? operand op = some q) : Waits q (ys ++ (ts ++ [o])) := by
  obtain @⟨xs, ys, zs, hx, hy, hz⟩ := hp
  cases op with
  | product op =>
    cases h
    have hz' : LeftOf (Derives .product) ProductOp (some (p.toProduct operand, op))
        (zs ++ ts ++ [o]) := .some (derives_toProduct hz ht) (productOp_of_operator? ho)
    have := Waits.intro (p := { p with product := some (p.toProduct operand, op) }) hx hy hz'
    simpa using this
  | sum op =>
    cases h
    have hy' : LeftOf (Derives .sum) SumOp (some (p.toSum operand, op))
        (ys ++ (zs ++ ts) ++ [o]) := .some (derives_toSum hy hz ht) (sumOp_of_operator? ho)
    have := Waits.intro
      (p := { p with sum := some (p.toSum operand, op), product := none }) hx hy' .none
    simpa using this
  | comparison op =>
    obtain ⟨comparison, sum, product⟩ := p
    cases hx with
    | some => cases h
    | none =>
      cases h
      have hx' := LeftOf.some (derives_toSum hy hz ht) (relation_of_operator? ho)
      have := Waits.intro (p := ⟨some (_, op), none, none⟩) hx' .none .none
      simpa using this

end

/-! ## Blocks -/

/-- The block of a construct ends. -/
theorem closeBlock_reached {role : BlockRole} {outer : Context} {xs hs bs ls : List Lexeme}
    {span : Span} {body : List Term} (ho : Opens outer xs) (ha : outer.AnyInline)
    (hh : Heads role hs) (hb : Derives .block bs (span, body)) (e : ls = xs ++ (hs ++ bs)) :
    Reached (closeBlock role span body outer) ls := by
  subst e
  cases hh with
  | plain =>
    have hctx := ho
    cases hctx with
    | program hd =>
      have := Derives.openedBlock hd hb
      exact .statement (.program (by simpa using this)) trivial
    | block ho' ha' hh' hl hd e =>
      have := Derives.openedBlock hd hb
      exact .statement (.block ho' ha' hh' hl (by simpa using this) (by simp [e])) trivial
    | whileCond => exact ha.elim
    | _ => exact .complete ho (.exprBlock hb) rfl
  | thenBody hi hl hc hr hcol =>
    exact .elseWord ho ha (.thenBody hi hl hc hr hcol) hb rfl
  | @whileBody w cs cond hw hc =>
    have h := Derives.whileLoop hw hc hb
    rw [spanOf_suffix cs hb.spanned rfl] at h
    exact .complete ho (Context.takes_inline ha h) (by simp)
  | @forBody f x i _ rs _ _ hf hx hi hr =>
    have h := Derives.forLoop hf hx hi hr hb
    rw [spanOf_suffix (x :: i :: rs) hb.spanned (by simp)] at h
    exact .complete ho (Context.takes_inline ha h) (by simp)

/-- A block read up to its closing brace. -/
theorem derives_block {l r : Lexeme} {xs : List Lexeme} {ts : List Term}
    (hl : l.token = .lbrace) (hs : Derives .seq xs ts) (hr : r.token = .rbrace) :
    Derives .block (l :: (xs ++ [r])) (⟨l.span.start, r.span.stop⟩, ts) := by
  have h := Derives.block hl hs hr
  rwa [spanOf_suffix xs (spanned_singleton r) rfl] at h

/-! ## Ends of expressions -/

section
variable {vs bs es : List Lexeme} {v body orElse : Term}

theorem derives_assign {i e : Lexeme} {name : String} (hi : i.token = .ident name)
    (he : e.token = .assign) (hv : Derives .expr vs v) :
    Derives .inline (i :: e :: vs) (.assign ⟨i.span.start, v.span.stop⟩ name v) := by
  have h := Derives.assign hi he hv
  rwa [spanOf_suffix [e] hv.spanned (by simp)] at h

theorem derives_lambda {k c : Lexeme} {ps : List Lexeme} {params : List String}
    (hk : k.token = .kwLambda) (hp : Names ps params) (hc : c.token = .colon)
    (hb : Derives .expr bs body) :
    Derives .inline (k :: (ps ++ c :: bs))
      (.lambda ⟨k.span.start, body.span.stop⟩ params body) := by
  have h := Derives.lambda hk hp hc hb
  rwa [spanOf_suffix (ps ++ [c]) hb.spanned (by simp)] at h

theorem derives_branch {start : Nat} {cond : Term} {hs : List Lexeme} {e : Lexeme}
    {span : Span} {ts : List Term} (hh : Heads (.thenBody start cond) hs)
    (hb : Derives .block bs (span, ts)) (he : e.token = .kwElse)
    (ho : Derives .expr es orElse) :
    Derives .inline (hs ++ (bs ++ e :: es))
      (.branch ⟨start, orElse.span.stop⟩ cond span ts orElse) := by
  cases hh with
  | @thenBody i p r c cs _ hi hp hcond hr hc =>
    have h := Derives.branch hi hp hcond hr hc hb he ho
    rw [spanOf_suffix (p :: (cs ++ r :: c :: (bs ++ [e]))) ho.spanned (by simp)] at h
    simpa using h

end

theorem derives_call {i l r : Lexeme} {name : String} {xs : List Lexeme} {ts : List Term}
    (hi : i.token = .ident name) (hl : l.token = .lparen) (ha : Derives .args xs ts)
    (hr : r.token = .rparen) :
    Derives .atom (i :: l :: (xs ++ [r])) (.call ⟨i.span.start, r.span.stop⟩ name ts) := by
  have h := Derives.call hi hl ha hr
  rwa [spanOf_suffix (l :: xs) (spanned_singleton r) (by simp)] at h

/-- A token after an expression that fills a place. -/
theorem fill_reached {ctx : Context} {xs ys : List Lexeme} {t : Term} {l : Lexeme} {s : State}
    (ho : Opens ctx xs) (ht : ctx.Takes ys t) (h : ctx.fill? t l = some s) :
    Reached s (xs ++ (ys ++ [l])) := by
  induction ho generalizing ys t with
  | program hd =>
    simp only [Context.fill?] at h
    split at h <;> cases h
    rename_i hl
    have := Derives.closedSemi (.closed hd ht) hl
    exact .statement (.program (by simpa using this)) trivial
  | block ho ha hh hlb hd e ih =>
    simp only [Context.fill?] at h
    split at h <;> cases h <;> rename_i hl
    · have := Derives.closedSemi (.closed hd ht) hl
      exact .statement (.block ho ha hh hlb (by simpa using this) (by simp [e])) trivial
    · have hb := derives_block hlb (.seqClosed (.closed hd ht)) hl
      exact closeBlock_reached ho ha hh (by simpa using hb) (by simp [e])
  | value _ ha hi heq e ih =>
    have := ih (Context.takes_inline ha (derives_assign hi heq ht)) h
    simpa [e] using this
  | lambdaBody _ ha hk hp hc e ih =>
    have := ih (Context.takes_inline ha (derives_lambda hk hp hc ht)) h
    simpa [e] using this
  | orElse _ ha hh hb he e ih =>
    have := ih (Context.takes_inline ha (derives_branch hh hb he ht)) h
    simpa [e] using this
  | paren ho hp hl e ih =>
    simp only [Context.fill?] at h
    split at h <;> cases h
    rename_i hr
    have := Derives.paren hl ht hr
    rw [spanOf_suffix ys (spanned_singleton l) rfl] at this
    exact .operator ho hp this (by simp [e])
  | @args _ done _ _ _ _ _ _ i p ho hw hi hp hd e ih =>
    simp only [Context.fill?] at h
    split at h <;> cases h <;> rename_i hl
    · have := Derives.item hd ht hl
      exact .argument (.args ho hw hi hp (by simpa using this) (by simp [e]))
    · have := derives_call hi hp (.argsLast hd ht) hl
      exact .operator ho hw (by simpa using this) (by simp [e])
  | ifCond ho ha hi hp e ih =>
    simp only [Context.fill?] at h
    split at h <;> cases h
    rename_i hr
    exact .ifColon ho ha hi hp ht hr (by simp [e])
  | whileCond ho ha hw e ih =>
    simp only [Context.fill?] at h
    split at h <;> cases h
    rename_i hl
    exact .statement (.block ho ha (.whileBody hw ht) hl .start (by simp [e])) trivial
  | firstBound ho ha hf hx hi hk hp e ih =>
    simp only [Context.fill?] at h
    split at h <;> cases h <;> rename_i hl
    · exact .expression (.secondBound ho ha hf hx hi hk hp ht hl (by simp [e])) trivial
    · exact .forBlock ho ha (.forBody hf hx hi (.rangeTo hk hp ht hl)) (by simp [e])
  | secondBound ho ha hf hx hi hk hp hfirst hc e ih =>
    simp only [Context.fill?] at h
    split at h <;> cases h
    rename_i hr
    exact .forBlock ho ha (.forBody hf hx hi (.rangeFromTo hk hp hfirst hc ht hr)) (by simp [e])

/-! ## Starts of expressions -/

theorem startOperand_reached {ctx : Context} {p : Pending} {assignable : Bool}
    {xs ys : List Lexeme} {l : Lexeme} {s : State} (ho : Opens ctx xs) (hp : Waits p ys)
    (ha : assignable = true → ys = [] ∧ ctx.AnyInline)
    (h : startOperand? ctx p assignable l = some s) : Reached s (xs ++ (ys ++ [l])) := by
  simp only [startOperand?] at h
  split at h <;> cases h <;> rename_i hl
  · exact .negated ho hp hl rfl
  · exact .expression (.paren ho hp hl rfl) trivial
  · exact .named ho hp hl ha rfl
  · exact .operator ho hp (.number hl) rfl

theorem startExpression_reached {ctx : Context} {xs : List Lexeme} {l : Lexeme} {s : State}
    (ho : Opens ctx xs) (ha : ctx.AnyInline) (h : startExpression? ctx l = some s) :
    Reached s (xs ++ [l]) := by
  simp only [startExpression?] at h
  split at h
  case h_1 hl => cases h; exact .ifOpen ho ha hl rfl
  case h_2 hl => cases h; exact .operand (.whileCond ho ha hl rfl) waits_nil (by simp)
  case h_3 hl => cases h; exact .forName ho ha hl rfl
  case h_4 hl => cases h; exact .param ho ha hl .nil rfl
  case h_5 hl =>
    cases h
    exact .statement (.block ho ha .plain hl .start (by simp)) trivial
  case h_6 => exact startOperand_reached ho waits_nil (fun _ => ⟨rfl, ha⟩) h

theorem startStatement_reached {ctx : Context} {xs : List Lexeme} {l : Lexeme} {s : State}
    (ho : Opens ctx xs) (ha : ctx.AmongStatements) (h : startStatement? ctx l = some s) :
    Reached s (xs ++ [l]) := by
  simp only [startStatement?] at h
  split at h
  case h_1 hl =>
    cases h
    cases ho with
    | program hd => exact .statement (.program (.openedSemi hd hl)) trivial
    | block ho' ha' hh hlb hd e =>
      exact .statement (.block ho' ha' hh hlb (.openedSemi hd hl) (by simp [e])) trivial
    | _ => exact ha.elim
  case h_2 hl =>
    cases h
    cases ho with
    | block ho' ha' hh hlb hd e =>
      exact closeBlock_reached ho' ha' hh (derives_block hlb (.seqOpened hd) hl) (by simp [e])
  case h_3 => exact startExpression_reached ho ha.anyInline h

theorem startArgument_reached {start : Nat} {name : String} {done : List Term} {p : Pending}
    {outer : Context} {xs : List Lexeme} {l : Lexeme} {s : State}
    (ho : Opens (.args start name done p outer) xs)
    (h : startArgument? (.args start name done p outer) l = some s) : Reached s (xs ++ [l]) := by
  simp only [startArgument?] at h
  split at h
  case h_1 hl hc =>
    cases hc
    cases h
    cases ho with
    | args ho hw hi hp hd e =>
      exact .operator ho hw (derives_call hi hp (.argsItems hd) hl) (by simp [e])
  case h_2 => exact startExpression_reached ho trivial h

theorem afterOperand_reached {ctx : Context} {p : Pending} {t : Term} {xs ys zs : List Lexeme}
    {l : Lexeme} {s : State} (ho : Opens ctx xs) (hp : Waits p ys) (ht : Derives .atom zs t)
    (h : afterOperand? ctx p t l = some s) : Reached s (xs ++ (ys ++ (zs ++ [l]))) := by
  simp only [afterOperand?] at h
  split at h
  · rename_i op hop
    obtain ⟨q, hq, rfl⟩ := Option.map_eq_some_iff.1 h
    exact .operand ho (waits_extend hp ht hop hq) rfl
  · have := fill_reached ho (ctx.takes_comparison (derives_toComparison hp ht)) h
    simpa using this

/-! ## Steps and runs -/

/-- One more token. -/
theorem step_reached {s s' : State} {ls : List Lexeme} {l : Lexeme} (hs : Reached s ls)
    (h : s.step l = some s') : Reached s' (ls ++ [l]) := by
  cases hs with
  | statement ho ha => exact startStatement_reached ho ha h
  | expression ho ha => exact startExpression_reached ho ha.anyInline h
  | argument ho => exact startArgument_reached ho h
  | operand ho hp e =>
    have := startOperand_reached ho hp (by simp) h
    simpa [e] using this
  | @negated _ _ xs ys _ m ho hp hm e =>
    simp only [State.step] at h
    split at h <;> cases h
    rename_i hl
    have := Derives.negative hm hl
    exact .operator ho hp this (by simp [e])
  | named ho hp hi ha e =>
    simp only [State.step] at h
    split at h
    · cases h
      obtain ⟨rfl, hc⟩ := ha rfl
      exact .expression (.value ho hc hi ‹_› (by simp [e])) trivial
    · cases h
      exact .argument (.args ho hp hi ‹_› .noItems (by simp [e]))
    · have := afterOperand_reached ho hp (.var hi) h
      simpa [e] using this
  | operator ho hp ht e =>
    have := afterOperand_reached ho hp ht h
    simpa [e] using this
  | complete ho ht e =>
    have := fill_reached ho ht h
    simpa [e] using this
  | ifOpen ho ha hi e =>
    simp only [State.step] at h
    split at h <;> cases h
    exact .expression (.ifCond ho ha hi ‹_› (by simp [e])) trivial
  | ifColon ho ha hi hp hc hr e =>
    simp only [State.step] at h
    split at h <;> cases h
    exact .thenOpen ho ha (.thenBody hi hp hc hr ‹_›) (by simp [e])
  | thenOpen ho ha hh e =>
    simp only [State.step] at h
    split at h <;> cases h
    exact .statement (.block ho ha hh ‹_› .start (by simp [e])) trivial
  | elseWord ho ha hh hb e =>
    simp only [State.step] at h
    split at h <;> cases h
    exact .expression (.orElse ho ha hh hb ‹_› (by simp [e])) trivial
  | forName ho ha hf e =>
    simp only [State.step] at h
    split at h <;> cases h
    exact .forIn ho ha hf ‹_› (by simp [e])
  | forIn ho ha hf hx e =>
    simp only [State.step] at h
    split at h <;> cases h
    exact .forRange ho ha hf hx ‹_› (by simp [e])
  | forRange ho ha hf hx hi e =>
    simp only [State.step] at h
    split at h <;> cases h
    exact .forOpen ho ha hf hx hi ‹_› (by simp [e])
  | forOpen ho ha hf hx hi hk e =>
    simp only [State.step] at h
    split at h <;> cases h
    exact .expression (.firstBound ho ha hf hx hi hk ‹_› (by simp [e])) trivial
  | forBlock ho ha hh e =>
    simp only [State.step] at h
    split at h <;> cases h
    exact .statement (.block ho ha hh ‹_› .start (by simp [e])) trivial
  | @param _ params _ ps _ k ho ha hk hp e =>
    simp only [State.step] at h
    split at h <;> cases h
    · exact .paramEnd ho ha hk hp ‹_› (by simp [e])
    · exact .expression (.lambdaBody ho ha hk (.items hp) ‹_› (by simp [e])) trivial
  | @paramEnd _ params name _ ps _ k i ho ha hk hp hi e =>
    simp only [State.step] at h
    split at h <;> cases h <;> rename_i hl
    · exact .param ho ha hk (by simpa using NameItems.snoc hp hi hl) (by simp [e])
    · exact .expression
        (.lambdaBody ho ha hk (by simpa using Names.last hp hi) hl (by simp [e])) trivial

/-- A program that a whole expression completes. -/
theorem finish_derives {ctx : Context} {xs ys : List Lexeme} {t : Term} {p : Program}
    (ho : Opens ctx xs) (ht : ctx.Takes ys t) (h : ctx.finish? t = some p) :
    Derives .program (xs ++ ys) p := by
  induction ho generalizing ys t with
  | program hd =>
    cases h
    exact .program (.seqClosed (by simpa using Derives.closed hd ht))
  | value _ ha hi heq e ih =>
    have := ih (Context.takes_inline ha (derives_assign hi heq ht)) h
    simpa [e] using this
  | lambdaBody _ ha hk hp hc e ih =>
    have := ih (Context.takes_inline ha (derives_lambda hk hp hc ht)) h
    simpa [e] using this
  | orElse _ ha hh hb he e ih =>
    have := ih (Context.takes_inline ha (derives_branch hh hb he ht)) h
    simpa [e] using this
  | _ => cases h

theorem finish_reached {s : State} {ls : List Lexeme} {p : Program} (hs : Reached s ls)
    (h : s.finish? = some p) : Derives .program ls p := by
  cases hs with
  | statement ho ha =>
    cases ho with
    | program hd =>
      cases h
      exact .program (.seqOpened hd)
    | _ => cases h
  | @named ctx _ _ _ xs ys _ i ho hp hi ha e =>
    have hc := derives_toComparison hp (.var hi)
    have := finish_derives ho (ctx.takes_comparison hc) h
    simpa [e] using this
  | @operator ctx _ _ _ _ _ _ ho hp ht e =>
    have := finish_derives ho (ctx.takes_comparison (derives_toComparison hp ht)) h
    simpa [e] using this
  | complete ho ht e => exact e ▸ finish_derives ho ht h
  | _ => cases h

theorem run_reached {s s' : State} {ls rest : List Lexeme} (hs : Reached s ls)
    (h : s.run rest = .ok s') : Reached s' (ls ++ rest) := by
  induction rest generalizing s ls with
  | nil =>
    cases h
    simpa using hs
  | cons l rest ih =>
    simp only [State.run] at h
    split at h
    · rename_i next hn
      simpa using ih (step_reached hs hn) h
    · cases h

theorem initial_reached : Reached .initial [] :=
  .statement (.program .start) trivial

/-- Every program that the parser returns is derived from the tokens. -/
theorem derives_of_parse {ls : List Lexeme} {p : Program} (h : parse ls = .ok p) :
    Derives .program ls p := by
  unfold parse at h
  split at h
  · cases h
  · rename_i s hs
    split at h <;> cases h
    exact finish_reached (run_reached initial_reached hs) ‹_›

end Dynascope.Parser
