import Mathlib
import Dynascope.Proofs.ExactRuns
import Dynascope.Proofs.RoundTrip

/-! # What minified programs do

Minifying drops the parentheses around a sum in a sum and around a product in a product, so the
program read back from a minified text is the one that was minified with these operations read
from left to right. In exact arithmetic that keeps all values but those of products in which a
factor moves to the left of a division: `2*(3/2*4)` is eight and `2*3/2*4` is twelve.

`Program.Agree` compares what can be seen of the runs of two programs. `minify_runs` is the main
result.
-/

set_option autoImplicit false

namespace Dynascope

open Grammar

/-! ## What has been read can be written -/

/-- The names and literals in the value of a phrase can be written. -/
def Grammar.Category.Writable : (c : Category) → c.Value → Prop
  | .program, p => ∀ t ∈ p.statements, t.Writable
  | .seq, ts | .opened, ts | .closed, ts | .items, ts | .args, ts => ∀ t ∈ ts, t.Writable
  | .block, b => ∀ t ∈ b.2, t.Writable
  | .range, r => (∀ t ∈ r.1, t.Writable) ∧ r.2.Writable
  | .expr, t | .inline, t | .comparison, t | .sum, t | .product, t | .atom, t => t.Writable

theorem ne_minValue_of_nonneg {n : Int64} (h : 0 ≤ n) :
    n ≠ Int64.minValue ∧ -n ≠ Int64.minValue := by
  have hm : ¬ (0 : Int64) ≤ Int64.minValue := by decide
  refine ⟨fun e => hm (e ▸ h), fun e => hm ?_⟩
  have e : n = Int64.minValue := by rw [← Int64.neg_neg (a := n), e]; decide
  exact e ▸ h

/-- Tokens that the lexer can read. -/
def Readable (ls : List Lexeme) : Prop :=
  ∀ l ∈ ls, l.token.Lexical

@[simp] theorem readable_cons {l : Lexeme} {ls : List Lexeme} :
    Readable (l :: ls) ↔ l.token.Lexical ∧ Readable ls :=
  List.forall_mem_cons

@[simp] theorem readable_append {ls ls' : List Lexeme} :
    Readable (ls ++ ls') ↔ Readable ls ∧ Readable ls' :=
  List.forall_mem_append

theorem Grammar.NameItems.isName {ls : List Lexeme} {names : List String} (h : NameItems ls names)
    (hl : Readable ls) : ∀ name ∈ names, IsName name := by
  induction h with
  | nil => simp
  | snoc _ hi _ ih => simp_all [Token.Lexical, or_imp]

theorem Grammar.Names.isName {ls : List Lexeme} {names : List String} (h : Names ls names)
    (hl : Readable ls) : ∀ name ∈ names, IsName name := by
  cases h with
  | items h => exact h.isName hl
  | last h hi =>
    obtain ⟨hx, hl⟩ := readable_append.1 hl
    have hx := h.isName hx
    simp_all [Token.Lexical, or_imp]

/-- **What the parser reads can be written**, as the lexer reads no sign into a literal. -/
theorem Grammar.Derives.writable {c : Category} {ls : List Lexeme} {v : c.Value}
    (h : Derives c ls v) (hl : Readable ls) : c.Writable v := by
  induction h with
  | number hn =>
    rw [readable_cons, hn] at hl
    exact Term.writable_number.2 (ne_minValue_of_nonneg hl.1).1
  | negative _ hn =>
    rw [readable_cons, readable_cons, hn] at hl
    exact Term.writable_number.2 (ne_minValue_of_nonneg hl.2.1).2
  | lambda _ hp _ _ ih =>
    rw [readable_cons, readable_append, readable_cons] at hl
    exact Term.writable_lambda.2 ⟨hp.isName hl.2.1, ih hl.2.2.2⟩
  | _ => simp_all [Category.Writable, Token.Lexical, or_imp, forall_and]

theorem writable_of_parseSource {source : String} {p : Program} (h : parseSource source = .ok p) :
    ∀ t ∈ p.statements, t.Writable := by
  unfold parseSource at h
  cases ht : tokenize source with
  | error e => rw [ht] at h; cases h
  | ok ls =>
    rw [ht] at h
    exact (Parser.derives_of_parse h).writable (Spelling.lexical_of_tokenize ht)

/-! ## What can be seen of a run -/

/-- What can be seen of a run that ended: the kind and the text of its value or else its error, the
output, and the text of the scope stack that is left. -/
structure Observation where
  outcome : Except RuntimeError (ValueKind × String)
  output : String
  scope : String
deriving DecidableEq

/-- What can be seen of a result. -/
def seen? : Result Value → Option Observation
  | (.value v, s) => some ⟨.ok (v.kind, v.text), s.log.output, s.scope.text⟩
  | (.failure e, s) => some ⟨.error e, s.log.output, s.scope.text⟩
  | (.outOfFuel, _) => none

theorem Alike.seen?_eq {f : Term → Term} {r r' : Result Value} (h : Alike f (Value.Same f) r r') :
    seen? r = seen? r' := by
  have seen : ∀ {s s' : Session}, s.mapBodies f = s'.mapBodies f →
      s.log.output = s'.log.output ∧ s.scope.text = s'.scope.text := by
    intro s s' h
    refine ⟨congrArg (·.log.output) h, ?_⟩
    rw [← Scope.text_mapBodies f s.scope, ← Scope.text_mapBodies f s'.scope]
    exact congrArg (·.scope.text) h
  cases h with
  | value hv hs => simp only [seen?, hv.kind, hv.text, seen hs]
  | failure hs => simp only [seen?, seen hs]

namespace Program

/-- In a session, the program ends, and this is what can be seen of it. -/
def Shows (p : Program) (s : Session) (o : Observation) : Prop :=
  ∃ r, p.Ends s r ∧ seen? r = some o

/-- In a session, the program ends with an error of a certain kind. -/
def Fails (kind : RuntimeError → Prop) (p : Program) (s : Session) : Prop :=
  ∃ r, p.Ends s r ∧ Escapes kind r

/-- In a session, both programs end or none does, and nothing that can be seen tells them apart. -/
def Agree (p q : Program) (s : Session) : Prop :=
  ∀ o, p.Shows s o ↔ q.Shows s o

variable {p q : Program} {s : Session}

theorem Agree.symm (h : p.Agree q s) : q.Agree p s :=
  fun o => (h o).symm

theorem Agree.trans {r : Program} (h : p.Agree q s) (h' : q.Agree r s) : p.Agree r s :=
  fun o => (h o).trans (h' o)

theorem Shows.of_run {o : Observation} (fuel : Nat) (h : seen? (p.run fuel s) = some o) :
    p.Shows s o := by
  refine ⟨_, ⟨fun hr => ?_, fuel, rfl⟩, h⟩
  rcases hp : p.run fuel s with ⟨o', t⟩
  rw [hp] at hr h
  cases hr
  cases h

theorem Shows.unique {o o' : Observation} (h : p.Shows s o) (h' : p.Shows s o') : o = o' := by
  obtain ⟨r, hr, ho⟩ := h
  obtain ⟨r', hr', ho'⟩ := h'
  cases hr.unique hr'
  exact Option.some.inj (ho.symm.trans ho')

theorem not_agree_of_ne {o o' : Observation} (ne : o ≠ o') (h : p.Shows s o) (h' : q.Shows s o') :
    ¬ p.Agree q s :=
  fun ha => ne (((ha o).1 h).unique h')

variable {f : Term → Term} {tol : RuntimeError → Prop}

theorem Shows.follow (h : ∀ fuel, Follows f tol (Term.eval fuel) fun k => Term.eval k)
    (e : p.statements.map f = q.statements.map f) {o : Observation} (ho : p.Shows s o) :
    p.Fails tol s ∨ q.Fails tol s ∨ q.Shows s o := by
  obtain ⟨r, ⟨hr, fuel, rfl⟩, ho⟩ := ho
  obtain hesc | ⟨r, hM, hesc | ha⟩ := Tracks.evalAll (h fuel) e rfl s s rfl hr
  · exact .inl ⟨_, ⟨hr, fuel, rfl⟩, hesc⟩
  · refine .inr (.inl ⟨r, Ends.of_settles hM ?_, hesc⟩)
    obtain ⟨e, t, rfl, -⟩ := hesc
    simp
  · exact .inr (.inr ⟨r, Ends.of_settles hM ha.finished, ha.seen?_eq ▸ ho⟩)

/-- Programs that are equal up to `f` agree unless one of them fails in a way that is tolerated. -/
theorem agree_of_follows (h : ∀ fuel, Follows f tol (Term.eval fuel) fun k => Term.eval k)
    (e : p.statements.map f = q.statements.map f) :
    p.Agree q s ∨ p.Fails tol s ∨ q.Fails tol s := by
  by_cases hp : p.Fails tol s
  · exact .inr (.inl hp)
  by_cases hq : q.Fails tol s
  · exact .inr (.inr hq)
  refine .inl fun o => ⟨fun ho => ?_, fun ho => ?_⟩
  · exact (ho.follow h e).resolve_left hp |>.resolve_left hq
  · exact (ho.follow h e.symm).resolve_left hq |>.resolve_left hp

/-- **Layout does not matter** to what a program does. -/
theorem agree_of_erase (e : p.erase = q.erase) : p.Agree q s := by
  have e : p.statements.map Term.erase = q.statements.map Term.erase := by
    simpa [erase] using e
  obtain h | ⟨_, _, _, _, _, ⟨⟩⟩ | ⟨_, _, _, _, _, ⟨⟩⟩ :=
    agree_of_follows (s := s) (follows_erase fun _ => False) e
  exact h

end Program

/-! ## Runs of minified programs -/

theorem Program.erase_regroup_erase (p : Program) : p.erase.regroup.erase = p.erase.regroup := by
  have h : Term.erase ∘ Term.regroup ∘ Term.erase = Term.regroup ∘ Term.erase :=
    funext Term.erase_readBack
  simp [erase, regroup, h]

theorem Program.map_flatten_eq {p q : Program} (e : q.erase = p.erase.regroup)
    (h : ∀ t ∈ nodesAll p.statements, t.movesQuotient = false) :
    p.statements.map Term.flatten = q.statements.map Term.flatten := by
  have e : q.statements.map Term.erase = p.statements.map Term.readBack := by
    simpa [erase, regroup, Term.map_readBack] using e
  have hq : q.statements.map Term.flatten = (q.statements.map Term.erase).map Term.flatten := by
    simp [Function.comp_def]
  rw [hq, e, List.map_map]
  refine List.map_congr_left fun t ht => (Term.flatten_readBack fun u hu => h u ?_).symm
  rw [nodesAll_eq]
  exact List.mem_flatMap.2 ⟨t, ht, hu⟩

/-- **What minified programs do.** A program that was parsed is read back from its minified text as
one that does what the first does with its sums and products read from left to right. So minifying
keeps what a program does wherever this regrouping does: always if it moves nothing, and up to
overflow if it moves no factor to the left of a division. -/
theorem minify_runs {source : String} {p : Program} (h : parseSource source = .ok p) :
    ∃ q, parseSource p.minify = .ok q ∧ ∀ s,
      q.Agree p.erase.regroup s ∧
      (p.Agree q s ↔ p.Agree p.erase.regroup s) ∧
      (p.erase.regroup = p.erase → p.Agree q s) ∧
      ((∀ t ∈ nodesAll p.statements, t.movesQuotient = false) →
        p.Agree q s ∨ p.Fails IsOverflow s ∨ q.Fails IsOverflow s) := by
  obtain ⟨q, hq, e⟩ := exists_parseSource_minify (writable_of_parseSource h)
  refine ⟨q, hq, fun s => ?_⟩
  have hqr : q.Agree p.erase.regroup s :=
    Program.agree_of_erase (e.trans p.erase_regroup_erase.symm)
  refine ⟨hqr, ⟨fun h => h.trans hqr, fun h => h.trans hqr.symm⟩, fun hr => ?_, fun hm => ?_⟩
  · exact Program.agree_of_erase (hr.symm.trans e.symm)
  · exact Program.agree_of_follows follows_flatten (Program.map_flatten_eq e hm)

/-- A sum that moves to the left of a difference. -/
theorem minify_runs_sum :
    ∃ p q, parseSource "4-(1+(2-3))" = .ok p ∧ parseSource "4-(1+2-3)" = .ok q ∧
      ∀ s, p.Agree q s ∨ p.Fails IsOverflow s ∨ q.Fails IsOverflow s := by
  obtain ⟨p, hp, e, hm⟩ : ∃ p, parseSource "4-(1+(2-3))" = .ok p ∧ p.minify = "4-(1+2-3)" ∧
      ∀ t ∈ nodesAll p.statements, t.movesQuotient = false :=
    ⟨_, by cbv, by decide, by decide⟩
  obtain ⟨q, hq, h⟩ := minify_runs hp
  exact ⟨p, q, hp, e ▸ hq, fun s => (h s).2.2.2 hm⟩

/-- A factor that moves to the left of a division, and so changes a value. -/
theorem minify_moves_quotient :
    ∃ p q, parseSource "2*(3/2*4)" = .ok p ∧ parseSource p.minify = .ok q ∧
      ¬ p.Agree q (.start none none) := by
  have ne : Observation.mk (.ok (.int, "8")) "" "[\x7b\x7d]" ≠
      ⟨.ok (.int, "12"), "", "[\x7b\x7d]"⟩ := by decide
  exact ⟨_, _, by cbv, by cbv, Program.not_agree_of_ne ne (.of_run 5 (by cbv)) (.of_run 5 (by cbv))⟩

-- read from left to right, a sum can overflow that did not
example :
    ∃ p q, parseSource "9223372036854775807+(1+-1)" = .ok p ∧ parseSource p.minify = .ok q ∧
      ¬ p.Agree q (.start none none) := by
  have ne : Observation.mk (.ok (.int, "9223372036854775807")) "" "[\x7b\x7d]" ≠
      ⟨.error (.fault (.overflow .add Int64.maxValue 1)), "", "[\x7b\x7d]"⟩ := by decide
  exact ⟨_, _, by cbv, by cbv, Program.not_agree_of_ne ne (.of_run 5 (by cbv)) (.of_run 5 (by cbv))⟩

end Dynascope
