import Dynascope.Proofs.JsonRecords
import Dynascope.Proofs.Termination

/-! # Programs are read back from JSON

Every reordering of the JSON form of a tree is read as the tree (`Term.reads`), if the places in it
are in range: `ReadsTo` says so of each part, and there is one lemma for each form of a node. With
`Json.read?_of_spells`, this gives `Program.json_roundtrip`: the JSON texts of a program, fields in
any order, are read as the program.
-/

set_option autoImplicit false

namespace Dynascope

open Json

/-! ## Places -/

/-- A span whose ends are byte offsets of 64 bits. -/
def Span.InRange (span : Span) : Prop :=
  span.start < 18446744073709551616 ∧ span.stop < 18446744073709551616

theorem offset?_natCast {n : Nat} (h : n < 18446744073709551616) :
    (integer n).offset? = some n := by
  have hi : (0 : Int) ≤ n ∧ (n : Int) < 18446744073709551616 := by omega
  rw [offset?, if_pos hi, Int.toNat_natCast]

theorem Span.ofJson?_reordered {span : Span} (hs : span.InRange) {json : Json}
    (h : span.toJson.Reordered json) : Span.ofJson? json = some span := by
  obtain ⟨a, b, hr, ha, hb, -⟩ := record?_two (by decide) h
  cases ha
  cases hb
  simp [ofJson?, hr, offset?_natCast hs.1, offset?_natCast hs.2]

theorem located?_reordered {node json : Json} {span : Span} (hs : span.InRange)
    (h : (locatedJson node span).Reordered json) :
    ∃ node', located? json = some (node', span) ∧ node.Reordered node' ∧
      node'.depth < json.depth := by
  obtain ⟨node', s, hr, hn, hspan, hd, -⟩ := record?_two (by decide) h
  refine ⟨node', ?_, hn, hd⟩
  simp [located?, hr, Span.ofJson?_reordered hs hspan]

/-! ## The JSON form of a tree -/

theorem allToJson_eq (ts : List Term) : allToJson ts = ts.map Term.toJson := by
  induction ts with
  | nil => rfl
  | cons t ts ih => rw [allToJson, ih, List.map_cons]

/-- The JSON form of a first bound. -/
def firstJson : Option Term → Json
  | none => .null
  | some t => t.toJson

theorem Term.toJson_forLoop (span : Span) (name : String) (first : Option Term) (limit : Term)
    (bodySpan : Span) (body : List Term) :
    (forLoop span name first limit bodySpan body).toJson =
      locatedJson (formJson "For" (.object
        [("var", .string name),
          ("range", .object [("start", firstJson first), ("end", limit.toJson)]),
          ("body", locatedJson (blockJson (allToJson body)) bodySpan)])) span := by
  cases first <;> rfl

theorem Term.toJson_ne_null {t : Term} {json : Json} (h : t.toJson.Reordered json) :
    json ≠ .null := by
  rintro rfl
  cases t with
  | forLoop =>
    rw [toJson_forLoop] at h
    cases h
  | _ => cases h

/-! ## Parts of a tree -/

/-- Every reordering of some data that is not deeper than `n` is read as `a`. -/
def ReadsTo {α : Type} (n : Nat) (read? : Json → Option α) (json : Json) (a : α) : Prop :=
  ∀ json', json.Reordered json' → json'.depth ≤ n → read? json' = some a

namespace ReadsTo

variable {n : Nat}

theorem arrayOf {α : Type} {toJson : α → Json} {item? : Json → Option α} {as : List α}
    (h : ∀ a ∈ as, ReadsTo n item? (toJson a) a) :
    ReadsTo n (Json.arrayOf? item?) (.array (as.map toJson)) as := by
  intro json hr hd
  cases hr with
  | @array _ items hi =>
    have hdepth : ∀ item ∈ items, item.depth ≤ n := fun item hm =>
      Nat.le_of_lt (Nat.lt_of_lt_of_le (depth_lt_array hm) hd)
    -- from here on only the depth of the items matters
    clear hd
    show items.mapM item? = some as
    induction as generalizing items with
    | nil =>
      cases hi
      rfl
    | cons a as ih =>
      obtain ⟨ha, has⟩ := List.forall_mem_cons.1 h
      cases hi with
      | cons hx hi =>
        obtain ⟨hd, hds⟩ := List.forall_mem_cons.1 hdepth
        simp [List.mapM_cons, ha _ hx hd, ih has hi hds]

variable {term? : Json → Option Term}

theorem terms {ts : List Term} (h : ∀ t ∈ ts, ReadsTo n term? t.toJson t) :
    ReadsTo n (Json.arrayOf? term?) (.array (allToJson ts)) ts := by
  rw [allToJson_eq]
  exact arrayOf h

theorem statements {ts : List Term} (h : ∀ t ∈ ts, ReadsTo n term? t.toJson t) :
    ReadsTo n (statements? term?) (blockJson (allToJson ts)) ts := by
  intro json hr hd
  obtain ⟨ss, hrec, hs, hlt⟩ := record?_one hr
  simp only [statements?, hrec]
  exact terms h ss hs (by omega)

theorem locatedBlock {ts : List Term} (h : ∀ t ∈ ts, ReadsTo n term? t.toJson t) {span : Span}
    (hs : span.InRange) :
    ReadsTo n (locatedBlock? term?) (locatedJson (blockJson (allToJson ts)) span) (span, ts) := by
  intro json hr hd
  obtain ⟨node, hl, hnode, hlt⟩ := located?_reordered hs hr
  simp [locatedBlock?, hl, statements h node hnode (by omega)]

theorem first {first : Option Term} (h : ∀ t ∈ first, ReadsTo n term? t.toJson t) :
    ReadsTo n (fun json => firstBound? term? (some json)) (firstJson first) first := by
  intro json hr hd
  cases first with
  | none =>
    cases hr
    rfl
  | some t =>
    have ht := h t rfl json hr hd
    -- a bound that is there is an object, so it is not taken for a missing one
    cases json with
    | null => exact absurd rfl (Term.toJson_ne_null hr)
    | _ => simp [firstBound?, ht]

theorem bounds {first : Option Term} (hf : ∀ t ∈ first, ReadsTo n term? t.toJson t) {limit : Term}
    (hl : ReadsTo n term? limit.toJson limit) :
    ReadsTo n (bounds? term?) (.object [("start", firstJson first), ("end", limit.toJson)])
      (first, limit) := by
  intro json hr hd
  obtain ⟨a, b, hrec, ha, hb, hda, hdb⟩ := record?_two (by decide) hr
  have hfirst := ReadsTo.first hf a ha (by omega)
  simp only [bounds?, hrec, hfirst, hl b hb (by omega)]
  rfl

/-! ## The forms of a node -/

section

-- Its equations, one for each tag, are made here once for all the forms.
attribute [local simp] Term.ofForm?

variable {span : Span}

theorem number (i : Int64) :
    ReadsTo n (Term.ofForm? term? span "Number") (.integer i.toInt) (.number span i) := by
  intro json hr hd
  simp [int64?_reordered hr]

theorem paren {inner : Term} (h : ReadsTo n term? inner.toJson inner) :
    ReadsTo n (Term.ofForm? term? span "Paren") inner.toJson (.paren span inner) := by
  intro json hr hd
  simp [h json hr hd]

section

variable {left right : Term} (hl : ReadsTo n term? left.toJson left)
  (hr : ReadsTo n term? right.toJson right)

include hl hr

theorem arith (op : ArithOp) :
    ReadsTo n (Term.ofForm? term? span "BinaryArith")
      (.object [("op", .string op.tag), ("left", left.toJson), ("right", right.toJson)])
      (.arith span op left right) := by
  intro json h hd
  obtain ⟨a, b, c, hrec, ha, hb, hc, hda, hdb, hdc⟩ := record?_three (by decide) h
  have hop : ArithOp.ofTag? op.tag = some op := by cases op <;> rfl
  simp [hrec, tag?_reordered ha, hop, hl b hb (by omega),
    hr c hc (by omega)]

theorem compare (op : CmpOp) :
    ReadsTo n (Term.ofForm? term? span "Comparison")
      (.object [("op", .string op.tag), ("left", left.toJson), ("right", right.toJson)])
      (.compare span op left right) := by
  intro json h hd
  obtain ⟨a, b, c, hrec, ha, hb, hc, hda, hdb, hdc⟩ := record?_three (by decide) h
  have hop : CmpOp.ofTag? op.tag = some op := by cases op <;> rfl
  simp [hrec, tag?_reordered ha, hop, hl b hb (by omega),
    hr c hc (by omega)]

end

theorem assign (name : String) {value : Term} (h : ReadsTo n term? value.toJson value) :
    ReadsTo n (Term.ofForm? term? span "VarAssign")
      (.object [("name", .string name), ("value", value.toJson)]) (.assign span name value) := by
  intro json hr hd
  obtain ⟨a, b, hrec, ha, hb, hda, hdb⟩ := record?_two (by decide) hr
  simp [hrec, string?_reordered ha, h b hb (by omega)]

theorem var (name : String) :
    ReadsTo n (Term.ofForm? term? span "VarAccess") (.string name) (.var span name) := by
  intro json hr hd
  simp [string?_reordered hr]

section

variable {body : List Term} (hb : ∀ t ∈ body, ReadsTo n term? t.toJson t)

include hb

theorem block :
    ReadsTo n (Term.ofForm? term? span "Block") (blockJson (allToJson body))
      (.block span body) := by
  intro json hr hd
  simp [statements hb json hr hd]

variable {bodySpan : Span} (hs : bodySpan.InRange)

include hs

theorem branch {cond orElse : Term} (hc : ReadsTo n term? cond.toJson cond)
    (he : ReadsTo n term? orElse.toJson orElse) :
    ReadsTo n (Term.ofForm? term? span "If")
      (.object [("cond", cond.toJson),
        ("then_block", locatedJson (blockJson (allToJson body)) bodySpan),
        ("else_expr", orElse.toJson)])
      (.branch span cond bodySpan body orElse) := by
  intro json hr hd
  obtain ⟨a, b, c, hrec, ha, hb', hc', hda, hdb, hdc⟩ := record?_three (by decide) hr
  simp [hrec, hc a ha (by omega), locatedBlock hb hs b hb' (by omega),
    he c hc' (by omega)]

theorem whileLoop {cond : Term} (hc : ReadsTo n term? cond.toJson cond) :
    ReadsTo n (Term.ofForm? term? span "While")
      (.object [("cond", cond.toJson),
        ("body", locatedJson (blockJson (allToJson body)) bodySpan)])
      (.whileLoop span cond bodySpan body) := by
  intro json hr hd
  obtain ⟨a, b, hrec, ha, hb', hda, hdb⟩ := record?_two (by decide) hr
  simp [hrec, hc a ha (by omega), locatedBlock hb hs b hb' (by omega)]

theorem forLoop (name : String) {first : Option Term}
    (hf : ∀ t ∈ first, ReadsTo n term? t.toJson t) {limit : Term}
    (hl : ReadsTo n term? limit.toJson limit) :
    ReadsTo n (Term.ofForm? term? span "For")
      (.object [("var", .string name),
        ("range", .object [("start", firstJson first), ("end", limit.toJson)]),
        ("body", locatedJson (blockJson (allToJson body)) bodySpan)])
      (.forLoop span name first limit bodySpan body) := by
  intro json hr hd
  obtain ⟨a, b, c, hrec, ha, hb', hc, hda, hdb, hdc⟩ := record?_three (by decide) hr
  simp [hrec, string?_reordered ha, bounds hf hl b hb' (by omega),
    locatedBlock hb hs c hc (by omega)]

end

theorem lambda (params : List String) {body : Term} (h : ReadsTo n term? body.toJson body) :
    ReadsTo n (Term.ofForm? term? span "FunctionDef")
      (.object [("params", .array (params.map .string)), ("body", body.toJson)])
      (.lambda span params body) := by
  intro json hr hd
  obtain ⟨a, b, hrec, ha, hb, hda, hdb⟩ := record?_two (by decide) hr
  have hparams : a.arrayOf? Json.string? = some params :=
    arrayOf (fun _ _ _ hname _ => string?_reordered hname) a ha (Nat.le_refl _)
  simp [hrec, hparams, h b hb (by omega)]

theorem call (name : String) {args : List Term} (h : ∀ t ∈ args, ReadsTo n term? t.toJson t) :
    ReadsTo n (Term.ofForm? term? span "FunctionCall")
      (.object [("name", .string name), ("args", .array (allToJson args))])
      (.call span name args) := by
  intro json hr hd
  obtain ⟨a, b, hrec, ha, hb, hda, hdb⟩ := record?_two (by decide) hr
  simp [hrec, string?_reordered ha, terms h b hb (by omega)]

end

/-- A node is read one level deeper than its form. -/
theorem located {span : Span} (hs : span.InRange) {tag : String} {content : Json} {t : Term}
    (h : ∀ n, ReadsTo n (Term.ofForm? (Term.ofJson? n) span tag) content t) (n : Nat) :
    ReadsTo n (Term.ofJson? n) (locatedJson (formJson tag content) span) t := by
  intro json hr hd
  obtain ⟨node, hl, hnode, hlt⟩ := located?_reordered hs hr
  obtain ⟨a, hf, ha, hlt'⟩ := form?_reordered hnode
  cases n with
  | zero => omega
  | succ n => simp [Term.ofJson?, hl, hf, h n a ha (by omega)]

end ReadsTo

/-! ## Terms and programs -/

instance (span : Span) : Decidable span.InRange :=
  inferInstanceAs (Decidable (_ ∧ _))

/-- The spans of a node, without those of the nodes below it. -/
def Term.ownSpans : Term → List Span
  | .branch span _ bodySpan .. | .whileLoop span _ bodySpan _ | .forLoop span _ _ _ bodySpan _ =>
    [span, bodySpan]
  | t => [t.span]

/-- All places in a term are in range. -/
def Term.Fits (t : Term) : Prop :=
  ∀ u ∈ t.nodes, ∀ span ∈ u.ownSpans, span.InRange

/-- All places in a program are in range. -/
def Program.Fits (p : Program) : Prop :=
  ∀ t ∈ p.statements, t.Fits

instance (t : Term) : Decidable t.Fits :=
  inferInstanceAs (Decidable (∀ u ∈ t.nodes, ∀ span ∈ u.ownSpans, span.InRange))

instance (p : Program) : Decidable p.Fits :=
  inferInstanceAs (Decidable (∀ t ∈ p.statements, t.Fits))

namespace Term

theorem Fits.own {t : Term} (h : t.Fits) {span : Span} (hs : span ∈ t.ownSpans) :
    span.InRange :=
  h t (nodes_eq t ▸ .head _) span hs

theorem Fits.child {t u : Term} (h : t.Fits) (hu : u ∈ t.children) : u.Fits :=
  fun w hw => h w (nodes_subset hu hw)

/-- A term is read from any reordering of its JSON form. -/
theorem reads {t : Term} (h : t.Fits) (n : Nat) : ReadsTo n (ofJson? n) t.toJson t := by
  -- for every depth, as the parts of a node are read with one less
  induction t generalizing n with
  | number span i => exact .located (h.own (.head _)) (fun _ => .number i) n
  | paren span inner ih =>
    exact .located (h.own (.head _)) (fun n => .paren (ih (h.child (.head _)) n)) n
  | arith span op left right ihl ihr =>
    have hl := h.child (.head _)
    have hr := h.child (.tail _ (.head _))
    exact .located (h.own (.head _)) (fun n => .arith (ihl hl n) (ihr hr n) op) n
  | compare span op left right ihl ihr =>
    have hl := h.child (.head _)
    have hr := h.child (.tail _ (.head _))
    exact .located (h.own (.head _)) (fun n => .compare (ihl hl n) (ihr hr n) op) n
  | assign span name value ih =>
    exact .located (h.own (.head _)) (fun n => .assign name (ih (h.child (.head _)) n)) n
  | var span name => exact .located (h.own (.head _)) (fun _ => .var name) n
  | block span body ih =>
    exact .located (h.own (.head _)) (fun n => .block fun t ht => ih t ht (h.child ht) n) n
  | branch span cond bodySpan body orElse ihc ih ihe =>
    have hc := h.child (.head _)
    have hb {t} (ht : t ∈ body) := h.child (.tail _ (List.mem_append_left [orElse] ht))
    have he := h.child (.tail _ (List.mem_append_right body (.head _)))
    refine .located (h.own (.head _)) (fun n => ?_) n
    exact .branch (fun t ht => ih t ht (hb ht) n) (h.own (.tail _ (.head _))) (ihc hc n) (ihe he n)
  | whileLoop span cond bodySpan body ihc ih =>
    have hc := h.child (.head _)
    have hb {t} (ht : t ∈ body) := h.child (.tail _ ht)
    refine .located (h.own (.head _)) (fun n => ?_) n
    exact .whileLoop (fun t ht => ih t ht (hb ht) n) (h.own (.tail _ (.head _))) (ihc hc n)
  | forLoop span name first limit bodySpan body ihf ihl ih =>
    have hf {t} (ht : t ∈ first) := h.child (List.mem_append_left _ (Option.mem_toList.2 ht))
    have hl := h.child (List.mem_append_right first.toList (.head _))
    have hb {t} (ht : t ∈ body) := h.child (List.mem_append_right first.toList (.tail _ ht))
    rw [Term.toJson_forLoop]
    refine .located (h.own (.head _)) (fun n => ?_) n
    exact .forLoop (fun t ht => ih t ht (hb ht) n) (h.own (.tail _ (.head _))) name
      (fun t ht => ihf t ht (hf ht) n) (ihl hl n)
  | lambda span params body ih =>
    exact .located (h.own (.head _)) (fun n => .lambda params (ih (h.child (.head _)) n)) n
  | call span name args ih =>
    exact .located (h.own (.head _)) (fun n => .call name fun t ht => ih t ht (h.child ht) n) n

end Term

/-! ## The JSON form keeps no number as it is written -/

theorem locatedJson_plain {node : Json} (h : node.Plain) (span : Span) :
    (locatedJson node span).Plain := by
  have hspan : span.toJson.Plain := .object (by simp [Plain.integer])
  exact .object (by simp [h, hspan])

theorem formJson_plain (tag : String) {content : Json} (h : content.Plain) :
    (formJson tag content).Plain :=
  .object (by simp [h])

theorem allToJson_plain {ts : List Term} (h : ∀ t ∈ ts, t.toJson.Plain) :
    (array (allToJson ts)).Plain := by
  rw [allToJson_eq]
  exact .array (by simpa using h)

theorem blockJson_plain {ts : List Term} (h : ∀ t ∈ ts, t.toJson.Plain) :
    (blockJson (allToJson ts)).Plain :=
  .object (by simp [allToJson_plain h])

theorem Term.toJson_plain (t : Term) : t.toJson.Plain := by
  induction t with
  | number span i => exact locatedJson_plain (formJson_plain _ (.integer _)) span
  | paren span inner ih => exact locatedJson_plain (formJson_plain _ ih) span
  | arith span op left right ihl ihr | compare span op left right ihl ihr =>
    refine locatedJson_plain (formJson_plain _ (.object ?_)) span
    simp [Plain.string, ihl, ihr]
  | assign span name value ih =>
    refine locatedJson_plain (formJson_plain _ (.object ?_)) span
    simp [Plain.string, ih]
  | var span name => exact locatedJson_plain (formJson_plain _ (.string name)) span
  | block span body ih => exact locatedJson_plain (formJson_plain _ (blockJson_plain ih)) span
  | branch span cond bodySpan body orElse ihc ih ihe =>
    refine locatedJson_plain (formJson_plain _ (.object ?_)) span
    simp [ihc, locatedJson_plain (blockJson_plain ih), ihe]
  | whileLoop span cond bodySpan body ihc ih =>
    refine locatedJson_plain (formJson_plain _ (.object ?_)) span
    simp [ihc, locatedJson_plain (blockJson_plain ih)]
  | forLoop span name first limit bodySpan body ihf ihl ih =>
    have hfirst : (firstJson first).Plain := by
      cases first with
      | none => exact .null
      | some t => exact ihf t rfl
    have hrange : (object [("start", firstJson first), ("end", limit.toJson)]).Plain :=
      .object (by simp [hfirst, ihl])
    rw [Term.toJson_forLoop]
    refine locatedJson_plain (formJson_plain _ (.object ?_)) span
    simp [Plain.string, hrange, locatedJson_plain (blockJson_plain ih)]
  | lambda span params body ih =>
    have hparams : (array (params.map .string)).Plain := .array (by simp [Plain.string])
    refine locatedJson_plain (formJson_plain _ (.object ?_)) span
    simp [hparams, ih]
  | call span name args ih =>
    refine locatedJson_plain (formJson_plain _ (.object ?_)) span
    simp [Plain.string, allToJson_plain ih]

namespace Program

variable {p : Program}

theorem toJson_plain (p : Program) : p.toJson.Plain :=
  blockJson_plain fun t _ => t.toJson_plain

theorem ofJson?_reordered (hp : p.Fits) {json : Json} (h : p.toJson.Reordered json) :
    ofJson? json = some p := by
  have hs : statements? (Term.ofJson? json.depth) json = some p.statements :=
    ReadsTo.statements (fun t ht => Term.reads (hp t ht) _) json h (Nat.le_refl _)
  simp [ofJson?, hs]

/-- A text that spells a reordering of the JSON form of a program is read as the program. -/
theorem ofJsonText?_of_spells (hp : p.Fits) {json : Json} (h : p.toJson.Reordered json)
    {text : String} (ht : Spells (.value json) text.toList []) : ofJsonText? text = some p := by
  rw [ofJsonText?, read?_of_spells ht .nil, Option.bind_some, ofJson?_reordered hp h]

/-- A program whose places are in range is read back from its JSON form as it was: from the compact
text and from the one with a field to a line, and whatever order the fields of the objects have.
Different programs have different texts. -/
theorem json_roundtrip (hp : p.Fits) :
    ofJsonText? p.toJson.compact = some p ∧ ofJsonText? p.toJson.pretty = some p ∧
      (∀ json, p.toJson.Reordered json →
        ofJsonText? json.compact = some p ∧ ofJsonText? json.pretty = some p) ∧
      ∀ q : Program, q.Fits → q ≠ p →
        q.toJson.compact ≠ p.toJson.compact ∧ q.toJson.pretty ≠ p.toJson.pretty := by
  have hread {p : Program} (hp : p.Fits) {json : Json} (h : p.toJson.Reordered json) :
      ofJsonText? json.compact = some p ∧ ofJsonText? json.pretty = some p := by
    have hplain := p.toJson_plain.reordered h
    exact ⟨ofJsonText?_of_spells hp h (compact_spells hplain),
      ofJsonText?_of_spells hp h (pretty_spells hplain)⟩
  have hself {p : Program} (hp : p.Fits) := hread hp p.toJson_plain.reordered_self
  have hdiff (write : Json → String)
      (h : ∀ p : Program, p.Fits → ofJsonText? (write p.toJson) = some p) {q : Program}
      (hq : q.Fits) (hne : q ≠ p) : write q.toJson ≠ write p.toJson := by
    intro heq
    have hwritten := h q hq
    rw [heq, h p hp] at hwritten
    exact hne (Option.some.inj hwritten).symm
  refine ⟨(hself hp).1, (hself hp).2, fun _ h => hread hp h, fun q hq hne => ⟨?_, ?_⟩⟩
  · exact hdiff compact (fun _ hp => (hself hp).1) hq hne
  · exact hdiff pretty (fun _ hp => (hself hp).2) hq hne

/-- The least number under a name of escaped characters, its span written before its node, and a
program that differs in the name only. -/
theorem json_roundtrip_escaped :
    let value : Term := .number ⟨4, 24⟩ (-9223372036854775808)
    let form := formJson "VarAssign" (.object
      [("name", .string "\"\\\n"), ("value", value.toJson)])
    let swapped : Json := .object [("span", Span.toJson ⟨0, 24⟩), ("node", form)]
    let p : Program := ⟨[.assign ⟨0, 24⟩ "\"\\\n" value]⟩
    let q : Program := ⟨[.assign ⟨0, 24⟩ "\"\\n" value]⟩
    ofJsonText? (blockJson [swapped]).pretty = some p ∧ q.toJson.compact ≠ p.toJson.compact := by
  intro value form swapped p q
  have hp : p.Fits := by decide
  have hq : q.Fits := by decide
  have hne : q ≠ p := by simp [p, q]
  have hplain : (Json.object [("node", form), ("span", Span.toJson ⟨0, 24⟩)]).Plain :=
    Term.toJson_plain (.assign ⟨0, 24⟩ "\"\\\n" value)
  cases hplain with
  | object hf =>
    have hswap := Reordered.object_of_perm (fun field hm => (hf field hm).reordered_self)
      (.swap ("span", Span.toJson ⟨0, 24⟩) ("node", form) [])
    have h : p.toJson.Reordered (blockJson [swapped]) :=
      @Reordered.object _ [("statements", .array [swapped])] _ rfl
        (.cons (.array (.cons hswap .nil)) .nil) (.refl _)
    obtain ⟨-, -, hread, hdiff⟩ := json_roundtrip hp
    exact ⟨(hread _ h).2, (hdiff q hq hne).1⟩

end Program

end Dynascope
