import Mathlib
import Dynascope.Proofs.ParserComplete
import Dynascope.Proofs.Segments

/-! # Spans cut out what they belong to

Every node of a parsed program was derived from tokens that stand one after the other in the
source (`Placed`, `Derives.placed`), and its span reaches from the first to the last of them.
Derivations do not depend on where the tokens stand (`Derives.move`), and the text from the first
to the last token has just these tokens (`Segmented.between`). So the text of a node's span is a
program by itself, with the node as its one statement: `parseSource_spans`.
-/

set_option autoImplicit false

namespace Dynascope

open Dynascope.Grammar Dynascope.Lexer Dynascope.Parser

/-! ## Moved terms -/

mutual

/-- A term with the ends of all spans moved. -/
def Term.move (f : Nat → Nat) : Term → Term
  | .number span n => .number (span.move f) n
  | .paren span inner => .paren (span.move f) (inner.move f)
  | .arith span op left right => .arith (span.move f) op (left.move f) (right.move f)
  | .compare span op left right => .compare (span.move f) op (left.move f) (right.move f)
  | .assign span name value => .assign (span.move f) name (value.move f)
  | .var span name => .var (span.move f) name
  | .block span body => .block (span.move f) (moveAll f body)
  | .branch span cond thenSpan thenBody orElse =>
    .branch (span.move f) (cond.move f) (thenSpan.move f) (moveAll f thenBody) (orElse.move f)
  | .whileLoop span cond bodySpan body =>
    .whileLoop (span.move f) (cond.move f) (bodySpan.move f) (moveAll f body)
  | .forLoop span name none limit bodySpan body =>
    .forLoop (span.move f) name none (limit.move f) (bodySpan.move f) (moveAll f body)
  | .forLoop span name (some first) limit bodySpan body =>
    .forLoop (span.move f) name (some (first.move f)) (limit.move f) (bodySpan.move f)
      (moveAll f body)
  | .lambda span params body => .lambda (span.move f) params (body.move f)
  | .call span name args => .call (span.move f) name (moveAll f args)

/-- Terms with the ends of all spans moved. -/
def moveAll (f : Nat → Nat) : List Term → List Term
  | [] => []
  | term :: rest => term.move f :: moveAll f rest

end

section

variable (f : Nat → Nat)

@[simp] theorem moveAll_eq (ts : List Term) : moveAll f ts = ts.map (Term.move f) := by
  induction ts with
  | nil => rfl
  | cons t ts ih => rw [moveAll, ih, List.map_cons]

theorem Term.move_forLoop (span : Span) (name : String) (first : Option Term) (limit : Term)
    (bodySpan : Span) (body : List Term) :
    (Term.forLoop span name first limit bodySpan body).move f =
      .forLoop (span.move f) name (first.map (Term.move f)) (limit.move f) (bodySpan.move f)
        (body.map (Term.move f)) := by
  cases first <;> simp [move]

/-- The value of a phrase with the ends of all spans moved. -/
def Grammar.Category.move : (c : Category) → c.Value → c.Value
  | .program, p => ⟨p.statements.map (Term.move f)⟩
  | .seq, ts | .opened, ts | .closed, ts | .items, ts | .args, ts => ts.map (Term.move f)
  | .block, b => (b.1.move f, b.2.map (Term.move f))
  | .range, r => (r.1.map (Term.move f), r.2.move f)
  | .expr, t | .inline, t | .comparison, t | .sum, t | .product, t | .atom, t => t.move f

theorem spanOf_map {ls : List Lexeme} (h : ls ≠ []) :
    spanOf (ls.map (Lexeme.move f)) = (spanOf ls).move f := by
  simp [spanOf, Span.move, Lexeme.move, List.head?_eq_some_head h, List.getLast?_eq_some_getLast h]

theorem Grammar.NameItems.move {ls : List Lexeme} {names : List String} (h : NameItems ls names) :
    NameItems (ls.map (Lexeme.move f)) names := by
  induction h with
  | nil => exact .nil
  | snoc _ hi hc ih =>
    rw [List.map_append]
    exact .snoc ih hi hc

theorem Grammar.Names.move {ls : List Lexeme} {names : List String} (h : Names ls names) :
    Names (ls.map (Lexeme.move f)) names := by
  cases h with
  | items h => exact .items (h.move f)
  | last h hi =>
    rw [List.map_append]
    exact .last (h.move f) hi

/-- Where tokens stand does not matter to what they derive, up to spans. -/
theorem Grammar.Derives.move {c : Category} {ls : List Lexeme} {v : c.Value} (h : Derives c ls v) :
    Derives c (ls.map (Lexeme.move f)) (c.move f v) := by
  induction h with
  | program _ ih => exact .program ih
  | seqOpened _ ih => exact .seqOpened ih
  | seqClosed _ ih => exact .seqClosed ih
  | start => exact .start
  | openedSemi _ hm ih =>
    rw [List.map_append]
    exact .openedSemi ih hm
  | closedSemi _ hm ih =>
    rw [List.map_append]
    exact .closedSemi ih hm
  | openedBlock _ _ ih₁ ih₂ =>
    simpa [Category.move, Term.move] using Derives.openedBlock ih₁ ih₂
  | closed _ _ ih₁ ih₂ => simpa [Category.move] using Derives.closed ih₁ ih₂
  | @block l r xs ts hl _ hr ih =>
    have h := Derives.block (l := l.move f) (r := r.move f) hl ih hr
    simpa [Category.move, ← spanOf_map] using h
  | exprBlock _ ih => simpa [Category.move, Term.move] using Derives.exprBlock ih
  | exprInline _ ih => exact .exprInline ih
  | @assign i e name vs v hi he _ ih =>
    have h := Derives.assign (i := i.move f) (e := e.move f) hi he ih
    simpa [Category.move, Term.move, ← spanOf_map] using h
  | @branch i l r c e cs bs es cond orElse span body hi hl _ hr hc _ he _ ihc ihb iho =>
    have h := Derives.branch (i := i.move f) (l := l.move f) (r := r.move f) (c := c.move f)
      (e := e.move f) hi hl ihc hr hc ihb he iho
    simpa [Category.move, Term.move, ← spanOf_map] using h
  | @whileLoop w cs bs cond span body hw _ _ ihc ihb =>
    have h := Derives.whileLoop (w := w.move f) hw ihc ihb
    simpa [Category.move, Term.move, ← spanOf_map] using h
  | @forLoop g x i name rs bs first limit span body hf hx hi _ _ ihr ihb =>
    have h := Derives.forLoop (f := g.move f) (x := x.move f) (i := i.move f) hf hx hi ihr ihb
    simpa [Category.move, Term.move_forLoop, ← spanOf_map] using h
  | @lambda k c ps bs params body hk hp hc _ ih =>
    have h := Derives.lambda (k := k.move f) (c := c.move f) hk (hp.move f) hc ih
    simpa [Category.move, Term.move, ← spanOf_map] using h
  | inline _ ih => exact .inline ih
  | @rangeTo k l r xs limit hk hl _ hr ih =>
    have h := Derives.rangeTo (k := k.move f) (l := l.move f) (r := r.move f) hk hl ih hr
    simpa [Category.move] using h
  | @rangeFromTo k l c r xs ys first limit hk hl _ hc _ hr ih₁ ih₂ =>
    have h := Derives.rangeFromTo (k := k.move f) (l := l.move f) (c := c.move f) (r := r.move f)
      hk hl ih₁ hc ih₂ hr
    simpa [Category.move] using h
  | @compare xs ys o op left right _ ho _ ih₁ ih₂ =>
    have h := Derives.compare (o := o.move f) ih₁ ho ih₂
    simpa [Category.move, Term.move, ← spanOf_map] using h
  | comparison _ ih => exact .comparison ih
  | @sumOp xs ys o op left right _ ho _ ih₁ ih₂ =>
    have h := Derives.sumOp (o := o.move f) ih₁ ho ih₂
    simpa [Category.move, Term.move, ← spanOf_map] using h
  | sum _ ih => exact .sum ih
  | @productOp xs ys o op left right _ ho _ ih₁ ih₂ =>
    have h := Derives.productOp (o := o.move f) ih₁ ho ih₂
    simpa [Category.move, Term.move, ← spanOf_map] using h
  | product _ ih => exact .product ih
  | @number n value hn => exact .number (n := n.move f) hn
  | @negative m n value hm hn => exact .negative (m := m.move f) (n := n.move f) hm hn
  | @var i name hi => exact .var (i := i.move f) hi
  | @call i l r name xs ts hi hl _ hr ih =>
    have h := Derives.call (i := i.move f) (l := l.move f) (r := r.move f) hi hl ih hr
    simpa [Category.move, Term.move, ← spanOf_map] using h
  | @paren l r xs t hl _ hr ih =>
    have h := Derives.paren (l := l.move f) (r := r.move f) hl ih hr
    simpa [Category.move, Term.move, ← spanOf_map] using h
  | noItems => exact .noItems
  | @item xs ys ts t c _ _ hc ih₁ ih₂ =>
    have h := Derives.item (c := c.move f) ih₁ ih₂ hc
    simpa [Category.move] using h
  | argsItems _ ih => exact .argsItems ih
  | argsLast _ _ ih₁ ih₂ => simpa [Category.move] using Derives.argsLast ih₁ ih₂

end

/-! ## The nodes of a program -/

/-- The nodes right below a node that have spans, in the order of the source. The blocks of branches
and loops are among them, as the terms that they are as statements. -/
def Term.parts : Term → List Term
  | .number .. | .var .. => []
  | .paren _ inner => [inner]
  | .arith _ _ left right | .compare _ _ left right => [left, right]
  | .assign _ _ value => [value]
  | .block _ body => body
  | .branch _ cond thenSpan thenBody orElse => [cond, .block thenSpan thenBody, orElse]
  | .whileLoop _ cond bodySpan body => [cond, .block bodySpan body]
  | .forLoop _ _ first limit bodySpan body => first.toList ++ [limit, .block bodySpan body]
  | .lambda _ _ body => [body]
  | .call _ _ args => args

/-- The nodes of a program that have spans. -/
inductive Program.Node (p : Program) : Term → Prop
  | statement {t : Term} : t ∈ p.statements → Node p t
  | part {t u : Term} : Node p t → u ∈ t.parts → Node p u

/-! ## Where nodes are derived from -/

/-- The terms are derived from parts of the tokens, one after the other. -/
inductive Placed : List Lexeme → List Term → Prop
  | nil (ls : List Lexeme) : Placed ls []
  | cons {ys zs : List Lexeme} {t : Term} {ts : List Term} (xs : List Lexeme) :
      Derives .expr ys t → Placed zs ts → Placed (xs ++ (ys ++ zs)) (t :: ts)

namespace Placed

variable {xs ys : List Lexeme} {t : Term} {ts us : List Term}

theorem before (xs : List Lexeme) (h : Placed ys ts) : Placed (xs ++ ys) ts := by
  cases h with
  | nil => exact .nil _
  | cons ws ht h =>
    rw [← List.append_assoc]
    exact .cons _ ht h

theorem append (hx : Placed xs ts) (hy : Placed ys us) : Placed (xs ++ ys) (ts ++ us) := by
  induction hx with
  | nil ls => exact hy.before ls
  | cons ws ht _ ih =>
    rw [List.append_assoc, List.append_assoc]
    exact .cons ws ht ih

theorem after (h : Placed xs ts) (ys : List Lexeme) : Placed (xs ++ ys) ts := by
  simpa using h.append (.nil ys)

theorem single (h : Derives .expr xs t) : Placed xs [t] := by
  simpa using Placed.cons [] h (.nil [])

theorem exists_derives (h : Placed xs ts) (ht : t ∈ ts) :
    ∃ ws zs us, xs = ws ++ (zs ++ us) ∧ Derives .expr zs t := by
  induction h with
  | nil => cases ht
  | @cons zs us u ts ws hu _ ih =>
    rcases List.mem_cons.1 ht with rfl | ht
    · exact ⟨ws, zs, us, rfl, hu⟩
    · obtain ⟨ws', zs', us', rfl, h⟩ := ih ht
      exact ⟨ws ++ (zs ++ ws'), zs', us', by simp, h⟩

end Placed

/-- The terms with spans right below the value of a phrase. -/
def Grammar.Category.parts : (c : Category) → c.Value → List Term
  | .program, p => p.statements
  | .seq, ts | .opened, ts | .closed, ts | .items, ts | .args, ts => ts
  | .block, b => b.2
  | .range, r => r.1.toList ++ [r.2]
  | .expr, t | .inline, t | .comparison, t | .sum, t | .product, t | .atom, t => t.parts

/-- What stands right below a phrase is derived from parts of its tokens. -/
theorem Grammar.Derives.placed {c : Category} {ls : List Lexeme} {v : c.Value}
    (h : Derives c ls v) : Placed ls (c.parts v) := by
  induction h with
  | program _ ih | seqOpened _ ih | seqClosed _ ih | exprBlock _ ih | exprInline _ ih
  | inline _ ih | comparison _ ih | sum _ ih | product _ ih | argsItems _ ih => exact ih
  | start | noItems | number | negative | var => exact .nil _
  | openedSemi _ _ ih | closedSemi _ _ ih => exact ih.after _
  | openedBlock _ hb ih => exact ih.append (.single (.exprBlock hb))
  | closed _ ht ih => exact ih.append (.single (.exprInline ht))
  | block _ _ _ ih => exact (ih.after _).before [_]
  | assign _ _ hv => exact (Placed.single hv).before [_, _]
  | @branch i l r c e _ _ _ _ _ _ _ _ _ hc _ _ hb _ ho =>
    have hes := (Placed.single ho).before [e]
    have hbs := ((Placed.single (.exprBlock hb)).append hes).before [r, c]
    exact ((Placed.single hc).append hbs).before [i, l]
  | whileLoop _ hc hb =>
    exact ((Placed.single (.exprInline (.inline hc))).append (.single (.exprBlock hb))).before [_]
  | @forLoop g x i _ _ _ _ _ _ _ _ _ _ _ hb ih =>
    have h := (ih.append (.single (.exprBlock hb))).before [g, x, i]
    simpa [Category.parts, Term.parts] using h
  | lambda _ _ _ hb => exact (((Placed.single hb).before [_]).before _).before [_]
  | rangeTo _ _ ht => exact ((Placed.single ht).after _).before [_, _]
  | rangeFromTo _ _ ha _ hb =>
    exact ((Placed.single ha).append (((Placed.single hb).after _).before [_])).before [_, _]
  | compare ha _ hb =>
    exact (Placed.single (.exprInline (.inline (.comparison ha)))).append
      ((Placed.single (.exprInline (.inline (.comparison hb)))).before [_])
  | sumOp ha _ hb =>
    exact (Placed.single (.exprInline (.inline (.comparison ha)))).append
      ((Placed.single (.exprInline (.inline (.comparison (.sum hb))))).before [_])
  | productOp ha _ hb =>
    exact (Placed.single (.exprInline (.inline (.comparison (.sum ha))))).append
      ((Placed.single (.exprInline (.inline (.comparison (.sum (.product hb)))))).before [_])
  | call _ _ _ _ ih => exact (ih.after _).before [_, _]
  | paren _ ht => exact ((Placed.single ht).after _).before [_]
  | item _ ht _ ih => exact ih.append ((Placed.single ht).after _)
  | argsLast _ ht ih => exact ih.append (.single ht)

/-- Every node of a program is derived from tokens that stand one after the other. -/
theorem Program.Node.exists_derives {ls : List Lexeme} {p : Program} (h : Derives .program ls p)
    {t : Term} (ht : p.Node t) : ∃ xs ys zs, ls = xs ++ (ys ++ zs) ∧ Derives .expr ys t := by
  induction ht with
  | statement ht => exact h.placed.exists_derives ht
  | part _ hu ih =>
    obtain ⟨xs, ys, zs, rfl, ht⟩ := ih
    obtain ⟨xs', ys', zs', rfl, hu⟩ := ht.placed.exists_derives hu
    exact ⟨xs ++ xs', ys', zs' ++ zs, by simp, hu⟩

/-- An expression is a program of one statement. -/
theorem Grammar.Derives.program_of_expr {ls : List Lexeme} {t : Term} (h : Derives .expr ls t) :
    Derives .program ls ⟨[t]⟩ := by
  cases h with
  | exprBlock h => exact .program (.seqOpened (.openedBlock .start h))
  | exprInline h => exact .program (.seqClosed (.closed .start h))

/-! ## Order of spans -/

/-- Tokens that stand in a source, one after the other. -/
def InOrder (ls : List Lexeme) : Prop :=
  (∀ l ∈ ls, l.span.start < l.span.stop) ∧ ls.Pairwise fun a b => a.span.stop ≤ b.span.start

theorem exists_ends {ls : List Lexeme} (h : ls ≠ []) :
    ∃ a ∈ ls, ∃ b ∈ ls, spanOf ls = ⟨a.span.start, b.span.stop⟩ :=
  ⟨_, List.head_mem h, _, List.getLast_mem h, by
    simp [spanOf, List.head?_eq_some_head h, List.getLast?_eq_some_getLast h]⟩

theorem InOrder.mono {xs ls : List Lexeme} (h : InOrder ls) (hs : xs.Sublist ls) : InOrder xs :=
  ⟨fun l hl => h.1 l (hs.subset hl), h.2.sublist hs⟩

/-- A token is inside the span of tokens that it is one of. -/
theorem InOrder.mem_bounds {ls : List Lexeme} (h : InOrder ls) {l : Lexeme} (hl : l ∈ ls) :
    (spanOf ls).start ≤ l.span.start ∧ l.span.stop ≤ (spanOf ls).stop := by
  obtain ⟨hpos, hord⟩ := h
  constructor
  · obtain ⟨x, xs, rfl⟩ := List.exists_cons_of_ne_nil (List.ne_nil_of_mem hl)
    rcases List.mem_cons.1 hl with rfl | hl
    · exact Nat.le_refl _
    · have h₁ := hpos x (.head _)
      have h₂ := (List.pairwise_cons.1 hord).1 l hl
      show x.span.start ≤ _
      omega
  · obtain ⟨xs, x, rfl⟩ := List.eq_nil_or_concat' ls |>.resolve_left (List.ne_nil_of_mem hl)
    have hstop : (spanOf (xs ++ [x])).stop = x.span.stop := by simp [spanOf]
    rw [hstop]
    rcases List.mem_append.1 hl with hl | hl
    · have h₁ := hpos x (by simp)
      have h₂ := (List.pairwise_append.1 hord).2.2 l hl x (.head _)
      omega
    · rw [List.mem_singleton.1 hl]

/-- The terms stand in the source one after the other. -/
def InSourceOrder (ts : List Term) : Prop :=
  ts.Pairwise fun a b => a.span.stop ≤ b.span.start

/-- Terms that are derived from tokens one after the other stand one after the other. -/
theorem Placed.inSourceOrder {ls : List Lexeme} {ts : List Term} (h : Placed ls ts)
    (ho : InOrder ls) : InSourceOrder ts := by
  induction h with
  | nil => exact .nil
  | @cons ys zs t ts xs ht hts ih =>
    have hz : InOrder (ys ++ zs) := ho.mono (List.sublist_append_right _ _)
    refine List.pairwise_cons.2 ⟨fun u hu => ?_, ih (hz.mono (List.sublist_append_right _ _))⟩
    obtain ⟨ws, us, vs, rfl, hu⟩ := hts.exists_derives hu
    obtain ⟨_, _, b, hb, hy⟩ := exists_ends ht.spanned.1
    obtain ⟨a, ha, _, _, hu'⟩ := exists_ends hu.spanned.1
    rw [ht.spanned.2, hu.spanned.2, hy, hu']
    exact (List.pairwise_append.1 hz.2).2.2 b hb a (by simp [ha])

/-- A term is inside a term that it is a part of. -/
theorem Grammar.Derives.part_inside {ls : List Lexeme} {t u : Term} (h : Derives .expr ls t)
    (ho : InOrder ls) (hu : u ∈ t.parts) :
    t.span.start ≤ u.span.start ∧ u.span.stop ≤ t.span.stop := by
  obtain ⟨xs, ys, zs, rfl, hd⟩ := h.placed.exists_derives hu
  obtain ⟨a, ha, b, hb, hy⟩ := exists_ends hd.spanned.1
  rw [h.spanned.2, hd.spanned.2, hy]
  exact ⟨(ho.mem_bounds (by simp [ha])).1, (ho.mem_bounds (by simp [hb])).2⟩

/-! ## The text between two tokens -/

theorem Lexer.Segmented.inOrder {position : Nat} {cs : List Char} {ls : List Lexeme}
    (h : Segmented position cs ls) : InOrder ls :=
  ⟨fun l hl => (h.bounds.1 l hl).2.1, h.bounds.2⟩

/-- From the first to the last of some tokens, a source has these tokens. -/
theorem Lexer.Segmented.between {cs : List Char} {xs ys zs : List Lexeme}
    (h : Segmented 0 cs (xs ++ (ys ++ zs))) (hy : ys ≠ []) :
    ∃ before text after ms, cs = before ++ text ++ after ∧
      spanOf ys = ⟨byteLength before, byteLength before + byteLength text⟩ ∧
      Segmented 0 text ms ∧ ms.map (Lexeme.move (· + byteLength before)) = ys := by
  -- cut where the first token starts, then where the last one ends
  obtain ⟨y, ws, rfl⟩ := List.exists_cons_of_ne_nil hy
  obtain ⟨before, cs', rfl, hstart, h'⟩ := h.suffix
  obtain ⟨us, z, e⟩ := (List.eq_nil_or_concat' (y :: ws)).resolve_left hy
  have h' : Segmented y.span.start cs' (us ++ z :: zs) := by
    rw [List.append_cons, ← e]
    exact h'
  obtain ⟨text, after, rfl, hstop, h'⟩ := h'.initial
  rw [← e] at h'
  rw [hstart] at hstop h'
  obtain ⟨ms, hm, e'⟩ := h'.exists_move
  rw [Nat.zero_add] at hstart
  refine ⟨before, text, after, ms, by simp, ?_, hm, e'⟩
  have hlast : (y :: ws).getLast? = some z := by simp [e]
  simp [spanOf, hlast, hstart, hstop]

/-! ## The text of a span -/

/-- The text from the start of a span up to its end. -/
def Span.slice (span : Span) (source : String) : String :=
  String.Pos.Raw.extract source ⟨span.start⟩ ⟨span.stop⟩

theorem byteLength_eq_utf8Len (cs : List Char) : byteLength cs = String.utf8Len cs := by
  induction cs with
  | nil => rfl
  | cons c cs ih => rw [Spelling.byteLength_cons, ih, String.utf8Len_cons, Nat.add_comm]

theorem slice_ofList (before text after : List Char) :
    (Span.mk (byteLength before) (byteLength before + byteLength text)).slice
      (String.ofList (before ++ text ++ after)) = String.ofList text := by
  rw [byteLength_eq_utf8Len, byteLength_eq_utf8Len]
  exact String.extract_of_valid before text after

theorem isValid_byteLength (before after : List Char) :
    (String.Pos.Raw.mk (byteLength before)).IsValid (String.ofList (before ++ after)) := by
  refine String.Pos.Raw.isValid_iff_exists_append.2
    ⟨String.ofList before, String.ofList after, String.ofList_append, ?_⟩
  rw [byteLength_eq_utf8Len, String.rawEndPos_ofList]

/-- The span of a term is its own text in a source. -/
structure Term.Spans (source : String) (t : Term) : Prop where
  nonempty : t.span.start < t.span.stop
  inside : t.span.stop ≤ source.utf8ByteSize
  start_isValid : (String.Pos.Raw.mk t.span.start).IsValid source
  stop_isValid : (String.Pos.Raw.mk t.span.stop).IsValid source
  /-- It reaches from a token of the source to a token of the source. -/
  tokens : ∃ ls, tokenize source = .ok ls ∧
    (∃ l ∈ ls, l.span.start = t.span.start) ∧ ∃ l ∈ ls, l.span.stop = t.span.stop
  /-- The text by itself is a program, with the term as its one statement. -/
  parses : ∃ u, parseSource (t.span.slice source) = .ok ⟨[u]⟩ ∧ u.move (· + t.span.start) = t
  parts_inside : ∀ u ∈ t.parts, t.span.start ≤ u.span.start ∧ u.span.stop ≤ t.span.stop
  parts_inOrder : InSourceOrder t.parts

theorem Grammar.Derives.unique_of_expr {ls : List Lexeme} {t u : Term} (ht : Derives .expr ls t)
    (hu : Derives .expr ls u) : t = u := by
  have h := (parse_eq_ok_of_derives ht.program_of_expr).symm.trans
    (parse_eq_ok_of_derives hu.program_of_expr)
  cases h
  rfl

/-- Tokens that were moved there from the start of their text. -/
theorem Grammar.Derives.exists_move {ms : List Lexeme} {t : Term} {n : Nat}
    (h : Derives .expr (ms.map (Lexeme.move (· + n))) t) :
    ∃ u, Derives .expr ms u ∧ u.move (· + n) = t := by
  have hback : (ms.map (Lexeme.move (· + n))).map (Lexeme.move (· - n)) = ms := by
    simp [Lexeme.move, Span.move, Function.comp_def]
  have hu : Derives .expr ms (t.move (· - n)) := by
    have h' := h.move (· - n)
    rwa [hback] at h'
  exact ⟨_, hu, (hu.move (· + n)).unique_of_expr h⟩

theorem Grammar.Derives.spans {source : String} {xs ys zs : List Lexeme} {t : Term}
    (hs : tokenize source = .ok (xs ++ (ys ++ zs))) (h : Derives .expr ys t) : t.Spans source := by
  have hseg : Segmented 0 source.toList (xs ++ (ys ++ zs)) := scan_eq_ok_iff.1 hs
  obtain ⟨before, text, after, ms, hcs, hspan, hms, hmap⟩ := hseg.between h.spanned.1
  have hsource : source = String.ofList (before ++ text ++ after) := by
    rw [← hcs, String.ofList_toList]
  have ht : t.span = ⟨byteLength before, byteLength before + byteLength text⟩ :=
    h.spanned.2.trans hspan
  have hord : InOrder ys :=
    hseg.inOrder.mono ((List.sublist_append_left ys zs).trans (List.sublist_append_right xs _))
  obtain ⟨a, ha, b, hb, hends⟩ := exists_ends h.spanned.1
  have hends : t.span = ⟨a.span.start, b.span.stop⟩ := h.spanned.2.trans hends
  have ha' : a ∈ xs ++ (ys ++ zs) := by simp [ha]
  have hb' : b ∈ xs ++ (ys ++ zs) := by simp [hb]
  constructor
  case nonempty =>
    have h₁ := hord.1 a ha
    have h₂ := (hord.mem_bounds ha).2
    rw [← h.spanned.2] at h₂
    rw [hends] at h₂ ⊢
    exact Nat.lt_of_lt_of_le h₁ h₂
  case inside =>
    rw [ht, hsource, String.utf8ByteSize_ofList, ← byteLength_eq_utf8Len]
    simp
  case start_isValid =>
    rw [ht, hsource, List.append_assoc]
    exact isValid_byteLength before _
  case stop_isValid =>
    rw [ht, hsource, ← Spelling.byteLength_append]
    exact isValid_byteLength (before ++ text) after
  case tokens => exact ⟨_, hs, ⟨a, ha', by rw [hends]⟩, ⟨b, hb', by rw [hends]⟩⟩
  case parses =>
    rw [← hmap] at h
    obtain ⟨u, hu, hmove⟩ := h.exists_move
    refine ⟨u, ?_, by rw [ht]; exact hmove⟩
    have htok : tokenize (String.ofList text) = .ok ms := by
      rw [tokenize, String.toList_ofList]
      exact hms.scan_eq
    rw [ht, hsource, slice_ofList, parseSource, htok]
    exact parse_eq_ok_of_derives hu.program_of_expr
  case parts_inside => exact fun u hu => h.part_inside hord hu
  case parts_inOrder => exact h.placed.inSourceOrder hord

/-- **Every node's span is its own text.** The statements of a program stand in its source one after
the other, and the span of every node, which reaches from token to token, is a text that alone is a
program with this node as its one statement, with the nodes below it inside, one after the other. -/
theorem parseSource_spans {source : String} {p : Program} (h : parseSource source = .ok p) :
    InSourceOrder p.statements ∧ ∀ t, p.Node t → t.Spans source := by
  unfold parseSource at h
  cases hs : tokenize source with
  | error e =>
    rw [hs] at h
    cases h
  | ok ls =>
    rw [hs] at h
    have hd := derives_of_parse h
    refine ⟨hd.placed.inSourceOrder (scan_eq_ok_iff.1 hs).inOrder, fun t ht => ?_⟩
    obtain ⟨xs, ys, zs, rfl, hy⟩ := ht.exists_derives hd
    exact hy.spans hs

/-- The block of a loop, after a comment with a character of two bytes. -/
theorem parseSource_spans_block :
    ∃ p t, parseSource "# é\nwhile n < 3 { n = n + 1 }" = .ok p ∧ p.Node t ∧
      t.span.slice "# é\nwhile n < 3 { n = n + 1 }" = "{ n = n + 1 }" ∧
      t.Spans "# é\nwhile n < 3 { n = n + 1 }" := by
  let cond : Term := .compare ⟨11, 16⟩ .lt (.var ⟨11, 12⟩ "n") (.number ⟨15, 16⟩ 3)
  let body : List Term := [.assign ⟨19, 28⟩ "n"
    (.arith ⟨23, 28⟩ .add (.var ⟨23, 24⟩ "n") (.number ⟨27, 28⟩ 1))]
  have h : parseSource "# é\nwhile n < 3 { n = n + 1 }" =
      .ok ⟨[.whileLoop ⟨5, 30⟩ cond ⟨17, 30⟩ body]⟩ := by cbv
  have hn : Program.Node ⟨[.whileLoop ⟨5, 30⟩ cond ⟨17, 30⟩ body]⟩ (.block ⟨17, 30⟩ body) :=
    .part (.statement (.head _)) (.tail _ (.head _))
  exact ⟨_, _, h, hn, by cbv, (parseSource_spans h).2 _ hn⟩

end Dynascope
