import Dynascope.Proofs.Erasure
import Dynascope.Proofs.Simulation

/-! # Enough fuel

More fuel does not change a result (`Term.eval_mono`), so what a program does is independent of
fuel: `Program.Ends`. Where a program ends without some of the primitives, it does the same with
them (`Program.EndsBy.ends`). Spans and parentheses do not matter (`follows_erase`).
-/

set_option autoImplicit false

namespace Dynascope

/-! ## More fuel -/

@[simp] theorem Value.mapBody_id (v : Value) : v.mapBody id = v := by
  cases v <;> rfl

@[simp] theorem Scope.mapBodies_id (s : Scope) : s.mapBodies id = s := by
  have hf : ∀ frame : Frame Value, frame.map (Value.mapBody id) = frame := by
    intro frame
    apply Frame.ext_bindings
    simp [Frame.map]
  have hm : Frame.map (Value.mapBody id) = id := funext hf
  rw [mapBodies, hm, List.map_id]
  rfl

@[simp] theorem Session.mapBodies_id (s : Session) : s.mapBodies id = s := by
  simp [mapBodies]

theorem Alike.eq {r r' : Result Value} (h : Alike id (Value.Same id) r r') : r = r' := by
  cases h with
  | value hv hs => simp_all [Value.Same]
  | failure hs => simp_all

theorem Alike.refl {α : Type} {f : Term → Term} {V : α → α → Prop} (hV : ∀ a, V a a)
    {r : Result α} (h : r.1 ≠ .outOfFuel) : Alike f V r r := by
  obtain ⟨o, s⟩ := r
  cases o with
  | value a => exact .value (hV a) rfl
  | failure e => exact .failure rfl
  | outOfFuel => exact absurd rfl h

theorem Alike.same {f : Term → Term} {r : Result Value} (h : r.1 ≠ .outOfFuel) :
    Alike f (Value.Same f) r r :=
  .refl (V := Value.Same f) (fun _ => rfl) h

/-- An evaluator that follows another on the same terms has the results of the other. -/
theorem Tracks.eq_of_const {m m' : Run Value}
    (h : Tracks id (fun _ => False) (Value.Same id) m fun _ => m') {s : Session}
    (hm : (m s).1 ≠ .outOfFuel) : m' s = m s := by
  obtain ⟨e, t, -, ⟨⟩⟩ | ⟨r, ⟨n, hr⟩, ⟨e, t, -, ⟨⟩⟩ | ha⟩ := h s s rfl hm
  exact (hr n (Nat.le_refl n)).trans ha.eq.symm

theorem follows_succ (fuel : Nat) :
    Follows id (fun _ => False) (Term.eval fuel) fun _ => Term.eval (fuel + 1) := by
  induction fuel with
  | zero => exact fun _ _ _ => .outOfFuel
  | succ fuel ih =>
    rintro t u rfl
    exact Tracks.evalWith ih rfl ⟨0, fun _ _ => Nat.le_succ fuel⟩

theorem Term.eval_succ {fuel : Nat} {t : Term} {s : Session}
    (h : (t.eval fuel s).1 ≠ .outOfFuel) : t.eval (fuel + 1) s = t.eval fuel s :=
  (follows_succ fuel t t rfl).eq_of_const h

/-- **More fuel does not change a result.** -/
theorem Term.eval_mono {fuel more : Nat} (hle : fuel ≤ more) {t : Term} {s : Session}
    (h : (t.eval fuel s).1 ≠ .outOfFuel) : t.eval more s = t.eval fuel s := by
  induction hle with
  | refl => rfl
  | step _ ih =>
    rw [eval_succ, ih]
    rwa [ih]

theorem follows_mono {fuel more : Nat} (hle : fuel ≤ more) :
    Follows id (fun _ => False) (Term.eval fuel) fun _ => Term.eval more := by
  rintro t u rfl s s' hs hm
  have hs : s = s' := by simpa using hs
  subst hs
  refine .inr ⟨_, .const _ s, .inr ?_⟩
  show Alike id _ (t.eval fuel s) (t.eval more s)
  rw [Term.eval_mono hle hm]
  exact .same hm

/-- Evaluation with some fuel goes on with more. -/
theorem follows_limit (fuel : Nat) :
    Follows id (fun _ => False) (Term.eval fuel) fun k => Term.eval k := by
  rintro t u rfl s s' hs hm
  have hs : s = s' := by simpa using hs
  subst hs
  exact .inr ⟨t.eval fuel s, ⟨fuel, fun k hk => Term.eval_mono hk hm⟩, .inr (.same hm)⟩

theorem Program.run_mono {fuel more : Nat} (hle : fuel ≤ more) {p : Program} {s : Session}
    (h : (p.run fuel s).1 ≠ .outOfFuel) : p.run more s = p.run fuel s :=
  (Tracks.evalAll (follows_mono hle) rfl rfl).eq_of_const h

/-! ## What programs do -/

/-- How a program ends in a session, and what it leaves behind. -/
def Program.Ends (p : Program) (s : Session) (r : Result Value) : Prop :=
  r.1 ≠ .outOfFuel ∧ ∃ fuel, p.run fuel s = r

theorem Program.Ends.of_settles {p : Program} {s : Session} {r : Result Value}
    (h : Settles (fun k => p.run k) s r) (hr : r.1 ≠ .outOfFuel) : p.Ends s r := by
  obtain ⟨n, h⟩ := h
  exact ⟨hr, n, h n (Nat.le_refl n)⟩

/-- A program ends in at most one way. -/
theorem Program.Ends.unique {p : Program} {s : Session} {r r' : Result Value} (h : p.Ends s r)
    (h' : p.Ends s r') : r = r' := by
  obtain ⟨hr, fuel, rfl⟩ := h
  obtain ⟨hr', fuel', rfl⟩ := h'
  rcases Nat.le_total fuel fuel' with hle | hle
  · exact (run_mono hle hr).symm
  · exact run_mono hle hr'

/-- With any fuel with which it ends, a program ends in that way. -/
theorem Program.Ends.eq_run {p : Program} {s : Session} {r : Result Value} (h : p.Ends s r)
    {fuel : Nat} (hne : (p.run fuel s).1 ≠ .outOfFuel) : p.run fuel s = r :=
  unique ⟨hne, fuel, rfl⟩ h

/-- Where a program ends, one ends alike that `f` makes equal to it, if evaluation follows `f`. -/
theorem Program.Ends.follow {f : Term → Term}
    (hf : ∀ fuel, Follows f (fun _ => False) (Term.eval fuel) fun k => Term.eval k)
    {p q : Program} {s s' : Session} {r : Result Value} (h : p.Ends s r)
    (e : p.statements.map f = q.statements.map f) (hs : s.mapBodies f = s'.mapBodies f) :
    ∃ r', q.Ends s' r' ∧ Alike f (Value.Same f) r r' := by
  obtain ⟨hr, fuel, rfl⟩ := h
  obtain ⟨e, t, -, ⟨⟩⟩ | ⟨r, hM, ⟨e, t, -, ⟨⟩⟩ | ha⟩ := Tracks.evalAll (hf fuel) e rfl s s' hs hr
  exact ⟨r, .of_settles hM ha.finished, ha⟩

/-! ## Primitives that may have no answer -/

/-- Where the primitives have an answer, it is that of the language. -/
structure Primitives.Partial (P : Primitives) : Prop where
  stack {s : Session} : (P.stack s).1 ≠ .outOfFuel → P.stack s = standard.stack s
  assign {name : String} {v : Value} {s : Session} :
    (P.assign name v s).1 ≠ .outOfFuel → P.assign name v s = standard.assign name v s

theorem Primitives.withoutStack_partial : withoutStack.Partial where
  stack h := absurd rfl h
  assign _ := rfl

theorem Primitives.barring_partial (bars : Scope → String → Prop)
    [∀ scope, DecidablePred (bars scope)] : (barring bars).Partial where
  stack _ := rfl
  assign {name v s} h := by
    by_cases hb : bars s.scope name
    · exact absurd (by simp [barring, hb]) h
    · simp [barring, hb]

/-- Evaluation does what an evaluator with such primitives does, if that has an answer. -/
theorem Program.run_of_runBy {P : Primitives} (hP : P.Partial) {fuel : Nat} {p : Program}
    {s : Session} (h : (p.runBy P fuel s).1 ≠ .outOfFuel) : p.run fuel s = p.runBy P fuel s := by
  let C := (tracking id fun _ => False).toCorrespondence
  have settle {α : Type} {V : α → α → Prop} (hV : ∀ a, V a a) {m m' : Run α}
      (hm : ∀ s, (m s).1 ≠ .outOfFuel → m s = m' s) : C.Rel V m fun _ => m' := by
    intro s s' hs hf
    have hs : s = s' := by simpa using hs
    subst hs
    refine Tracks.settle (.const m' s) ?_
    rw [← hm s hf]
    exact .refl hV hf
  have handles : C.Handles P .standard := by
    constructor
    · exact settle Value.Related.refl fun _ => hP.stack
    · intro name v w _ hvw
      have e : v = w := Value.Related.eq hvw
      subst e
      exact settle (fun _ => trivial) fun _ => hP.assign
  have hb : ∀ t u, C.bodies t u → t.PartsRelated C.bodies u ∧ ∀ x ∈ t.mentioned?, C.names x := by
    rintro t _ rfl
    exact ⟨.of_refl (fun _ => rfl) t, fun _ _ => trivial⟩
  have hr : Tracks id (fun _ => False) (Value.Related Eq fun t u => id t = id u) (p.runBy P fuel)
      fun _ => p.runBy .standard fuel :=
    C.runBy handles .outOfFuel hb fuel (List.forall₂_same.2 fun _ _ => rfl)
  rw [Value.related_eq_same, runBy_standard] at hr
  exact hr.eq_of_const h

theorem Program.EndsBy.ends {P : Primitives} (hP : P.Partial) {p : Program} {s : Session}
    {r : Result Value} (h : p.EndsBy P s r) : p.Ends s r := by
  obtain ⟨hr, fuel, rfl⟩ := h
  exact ⟨hr, fuel, run_of_runBy hP hr⟩

/-! ## Spans and parentheses -/

theorem Term.mapParts_erase {t : Term} (h : t.unparen = t) : t.mapParts erase = t.erase := by
  cases t with
  | paren span inner => exact absurd h (inner.unparen_ne_paren span inner)
  | forLoop => rw [mapParts, erase_forLoop]
  | _ => simp [mapParts, erase]

/-- Parentheses cost fuel and do nothing else, so evaluations can be compared on terms without
parentheses around them. -/
theorem Follows.of_unparen {f : Term → Term} {tol : RuntimeError → Prop} {fuel : Nat}
    (hf : ∀ span t, f (.paren span t) = f t)
    (ih : Follows f tol (Term.eval fuel) fun k => Term.eval k)
    (step : ∀ t u, f t = f u → t.unparen = t → u.unparen = u →
      Tracks f tol (Value.Same f) (t.eval (fuel + 1)) fun k => u.eval (k + 1)) :
    Follows f tol (Term.eval (fuel + 1)) fun k => Term.eval k := by
  intro t u e
  by_cases ht : t.unparen = t
  · induction u with
    | paren span inner ihu => exact .shift (ihu (e.trans (hf span inner)))
    | _ => exact .shift (step t _ e ht rfl)
  · cases t with
    | paren span inner => exact ih inner u ((hf span inner).symm.trans e)
    | _ => exact absurd rfl ht

/-- **Spans and parentheses do not matter**, neither in a term nor in the closures that it
calls. -/
theorem follows_erase (tol : RuntimeError → Prop) (fuel : Nat) :
    Follows Term.erase tol (Term.eval fuel) fun k => Term.eval k := by
  induction fuel with
  | zero => exact fun _ _ _ => .outOfFuel
  | succ fuel ih =>
    refine .of_unparen (fun _ _ => rfl) ih fun t u e ht hu => ?_
    have e : t.mapParts Term.erase = u.mapParts Term.erase := by
      rw [Term.mapParts_erase ht, Term.mapParts_erase hu, e]
    exact Tracks.evalWith ih e ⟨fuel, fun _ hk => hk⟩

end Dynascope
