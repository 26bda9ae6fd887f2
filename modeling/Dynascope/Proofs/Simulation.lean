import Dynascope.Proofs.Bodies
import Dynascope.Proofs.Comparison

/-! # Runs that follow runs

`Tracks f tol V m M`: wherever the computation `m` finishes, the computations `M k` settle, for
large `k`, on a result like that of `m`: values related by `V` or the same error, and sessions
that are equal once `f` is applied to the bodies of closures. Nothing is said where one of the two
ends with an error that `tol` tolerates. A family `M` is for instance an evaluation with fuel `k`.

`Tracks` is a comparison (`tracking`), so it goes through every construct of the language.
-/

set_option autoImplicit false

namespace Dynascope

variable {α β γ δ : Type}

/-- From some amount of fuel on, the result is always the same. -/
def Settles (M : Nat → Run β) (s : Session) (r : Result β) : Prop :=
  ∃ n, ∀ k ≥ n, M k s = r

/-- A failure that is tolerated. -/
def Escapes (tol : RuntimeError → Prop) (r : Result α) : Prop :=
  ∃ e s, r = (.failure e, s) ∧ tol e

/-- Results with related values or the same error, and the same session up to the bodies of
closures. -/
inductive Alike (f : Term → Term) (V : α → β → Prop) : Result α → Result β → Prop
  | value {a : α} {b : β} {s s' : Session} :
      V a b → s.mapBodies f = s'.mapBodies f → Alike f V (.value a, s) (.value b, s')
  | failure {e : RuntimeError} {s s' : Session} :
      s.mapBodies f = s'.mapBodies f → Alike f V (.failure e, s) (.failure e, s')

def Tracks (f : Term → Term) (tol : RuntimeError → Prop) (V : α → β → Prop) (m : Run α)
    (M : Nat → Run β) : Prop :=
  ∀ s s', s.mapBodies f = s'.mapBodies f → (m s).1 ≠ .outOfFuel →
    Escapes tol (m s) ∨ ∃ r, Settles M s' r ∧ (Escapes tol r ∨ Alike f V (m s) r)

/-- The same value up to the bodies of closures. -/
def Value.Same (f : Term → Term) (v w : Value) : Prop :=
  v.mapBody f = w.mapBody f

theorem Alike.leave {f : Term → Term} {V : α → β → Prop} {r : Result α} {r' : Result β}
    (h : Alike f V r r') {change : Session → Session}
    (hc : ∀ s s', s.mapBodies f = s'.mapBodies f →
      (change s).mapBodies f = (change s').mapBodies f) :
    Alike f V (r.1, change r.2) (r'.1, change r'.2) := by
  cases h with
  | value hv hs => exact .value hv (hc _ _ hs)
  | failure hs => exact .failure (hc _ _ hs)

theorem Alike.related {f : Term → Term} {V : α → β → Prop} {r : Result α} {r' : Result β}
    (h : Alike f V r r') : r.1.Related V r'.1 ∧ r.2.mapBodies f = r'.2.mapBodies f := by
  cases h with
  | value hv hs => exact ⟨.value hv, hs⟩
  | failure hs => exact ⟨.failure _, hs⟩

theorem Alike.finished {f : Term → Term} {V : α → β → Prop} {r : Result α} {r' : Result β}
    (h : Alike f V r r') : r'.1 ≠ .outOfFuel := by
  cases h <;> simp

namespace Settles

variable {M M' : Nat → Run β} {s : Session} {r : Result β}

theorem const (m : Run β) (s : Session) : Settles (fun _ => m) s (m s) :=
  ⟨0, fun _ _ => rfl⟩

theorem shift (h : Settles (fun k => M (k + 1)) s r) : Settles M s r := by
  obtain ⟨n, h⟩ := h
  refine ⟨n + 1, fun k hk => ?_⟩
  obtain ⟨j, rfl⟩ : ∃ j, k = j + 1 := ⟨k - 1, by omega⟩
  exact h j (by omega)

theorem succ (h : Settles M s r) : Settles (fun k => M (k + 1)) s r := by
  obtain ⟨n, h⟩ := h
  exact ⟨n, fun k hk => h (k + 1) (by omega)⟩

theorem congr (h : Settles M s r) (e : ∃ n, ∀ k ≥ n, M' k = M k) : Settles M' s r := by
  obtain ⟨n, h⟩ := h
  obtain ⟨n', e⟩ := e
  exact ⟨max n n', fun k hk => by rw [e k (by omega), h k (by omega)]⟩

end Settles

namespace Tracks

variable {f : Term → Term} {tol : RuntimeError → Prop} {V : α → β → Prop} {W : γ → δ → Prop}

theorem settle {m : Run α} {M : Nat → Run β} {s s' : Session} {r : Result β}
    (hr : Settles M s' r) (h : Alike f V (m s) r) :
    Escapes tol (m s) ∨ ∃ r, Settles M s' r ∧ (Escapes tol r ∨ Alike f V (m s) r) :=
  .inr ⟨r, hr, .inr h⟩

theorem shift {m : Run α} {M : Nat → Run β} (h : Tracks f tol V m fun k => M (k + 1)) :
    Tracks f tol V m M :=
  fun s s' hs hm => (h s s' hs hm).imp id fun ⟨r, hr, ha⟩ => ⟨r, hr.shift, ha⟩

theorem succ {m : Run α} {M : Nat → Run β} (h : Tracks f tol V m M) :
    Tracks f tol V m fun k => M (k + 1) :=
  fun s s' hs hm => (h s s' hs hm).imp id fun ⟨r, hr, ha⟩ => ⟨r, hr.succ, ha⟩

theorem congr {m : Run α} {M M' : Nat → Run β} (h : Tracks f tol V m M)
    (e : ∃ n, ∀ k ≥ n, M' k = M k) : Tracks f tol V m M' := by
  intro s s' hs hm
  exact (h s s' hs hm).imp id fun ⟨r, hr, ha⟩ => ⟨r, hr.congr e, ha⟩

/-- One computation after another. -/
theorem bind {m : Run α} {M : Nat → Run β} {next : α → Run γ} {Next : Nat → β → Run δ}
    (h : Tracks f tol V m M) (hn : ∀ a b, V a b → Tracks f tol W (next a) fun k => Next k b) :
    Tracks f tol W (m >>= next) fun k => M k >>= Next k := by
  intro s s' hs hm
  cases hr : m s with
  | mk o s₁ =>
    have fails : ∀ {e t}, Settles M s' (.failure e, t) →
        Settles (fun k => M k >>= Next k) s' (.failure e, t) := by
      rintro e t ⟨n, hn⟩
      exact ⟨n, fun k hk => bind_of_failure (hn k hk)⟩
    have first := h s s' hs
    rw [hr] at first
    cases o with
    | outOfFuel => exact absurd (by rw [bind_of_outOfFuel hr]) hm
    | failure e =>
      rw [bind_of_failure hr]
      obtain ⟨e', t, he, ht⟩ | ⟨r, hM, ⟨e', t, rfl, ht⟩ | ha⟩ := first (by simp)
      · cases he
        exact .inl ⟨_, _, rfl, ht⟩
      · exact .inr ⟨_, fails hM, .inl ⟨_, _, rfl, ht⟩⟩
      · cases ha with
        | failure hs => exact .inr ⟨_, fails hM, .inr (.failure hs)⟩
    | value a =>
      rw [bind_of_value hr] at hm ⊢
      obtain ⟨e', t, he, ht⟩ | ⟨r, hM, ⟨e', t, rfl, ht⟩ | ha⟩ := first (by simp)
      · cases he
      · exact .inr ⟨_, fails hM, .inl ⟨_, _, rfl, ht⟩⟩
      · cases ha with
        | @value _ b _ s₂ hv hs =>
          obtain ⟨n, hM⟩ := hM
          refine (hn a b hv s₁ s₂ hs hm).imp id fun ⟨r, hN, hw⟩ => ⟨r, ?_, hw⟩
          obtain ⟨n', hN⟩ := hN
          refine ⟨max n n', fun k hk => ?_⟩
          exact (bind_of_value (hM k (by omega))).trans (hN k (by omega))

theorem ret {a : α} {b : β} (h : V a b) :
    Tracks f tol V (pure a) fun _ => pure b :=
  fun _ s' hs _ => settle (.const _ s') (.value h hs)

theorem fail {e e' : RuntimeError} (h : e = e') :
    Tracks f tol V (Run.fail e) fun _ => Run.fail e' := by
  subst h
  exact fun _ s' hs _ => settle (.const _ s') (.failure hs)

theorem outOfFuel {M : Nat → Run β} : Tracks f tol V Run.outOfFuel M :=
  fun _ _ _ h => absurd rfl h

/-- Something read off sessions that look alike. -/
theorem read {view : Session → α} {view' : Session → β}
    (h : ∀ s s', s.mapBodies f = s'.mapBodies f → V (view s) (view' s')) :
    Tracks f tol V (Run.read view) fun _ => Run.read view' :=
  fun s s' hs _ => settle (.const _ s') (.value (h s s' hs) hs)

theorem update {change change' : Session → Session}
    (h : ∀ s s', s.mapBodies f = s'.mapBodies f →
      (change s).mapBodies f = (change' s').mapBodies f) :
    Tracks f tol (fun _ _ => True) (Run.update change) fun _ => Run.update change' :=
  fun s s' hs _ => settle (.const _ s') (.value trivial (h s s' hs))

/-- A computation between changes of the session before and after it. -/
theorem around {m : Run α} {M : Nat → Run β} (enter leave : Session → Session)
    (h : Tracks f tol V m M)
    (he : ∀ s s', s.mapBodies f = s'.mapBodies f → (enter s).mapBodies f = (enter s').mapBodies f)
    (hl : ∀ s s', s.mapBodies f = s'.mapBodies f →
      (leave s).mapBodies f = (leave s').mapBodies f) :
    Tracks f tol V (fun s => ((m (enter s)).1, leave (m (enter s)).2))
      fun k s => ((M k (enter s)).1, leave (M k (enter s)).2) := by
  intro s s' hs hm
  have leaves : ∀ r, Settles M (enter s') r →
      Settles (fun k s => ((M k (enter s)).1, leave (M k (enter s)).2)) s' (r.1, leave r.2) := by
    rintro r ⟨n, hn⟩
    exact ⟨n, fun k hk => congrArg (fun r => (r.1, leave r.2)) (hn k hk)⟩
  obtain ⟨e, t, hr, ht⟩ | ⟨r, hM, ⟨e, t, rfl, ht⟩ | ha⟩ := h _ _ (he s s' hs) hm
  · exact .inl ⟨e, leave t, congrArg (fun r => (r.1, leave r.2)) hr, ht⟩
  · exact .inr ⟨_, leaves _ hM, .inl ⟨e, _, rfl, ht⟩⟩
  · exact .inr ⟨_, leaves _ hM, .inr (ha.leave hl)⟩

theorem inFrame {m : Run α} {M : Nat → Run β} (h : Tracks f tol V m M) :
    Tracks f tol V m.inFrame fun k => (M k).inFrame := by
  refine around Session.openFrame Session.closeFrame h ?_ ?_
  · intro s s' hs
    rw [Session.mapBodies_openFrame, hs, Session.mapBodies_openFrame]
  · intro s s' hs
    rw [Session.mapBodies_closeFrame, hs, Session.mapBodies_closeFrame]

theorem inCall {m : Run α} {M : Nat → Run β} (h : Tracks f tol V m M) :
    Tracks f tol V m.inCall fun k => (M k).inCall := by
  refine around (fun s => { s with callDepth := s.callDepth + 1 })
    (fun s => { s with callDepth := s.callDepth - 1 }) h ?_ ?_
  · intro s s' hs
    simp only [Session.mapBodies, Session.mk.injEq] at hs ⊢
    simp [hs]
  · intro s s' hs
    simp only [Session.mapBodies, Session.mk.injEq] at hs ⊢
    simp [hs]

theorem writeLine {text : String} :
    Tracks f tol (fun _ _ => True) (Run.writeLine text) fun _ => Run.writeLine text := by
  intro s s' hs _
  refine settle (.const _ s') ?_
  have hw := Session.write_mapBodies f s (text ++ "\n")
  rw [hs, Session.write_mapBodies] at hw
  obtain ⟨h₁, h₂⟩ := Prod.mk.inj hw
  unfold Run.writeLine
  rcases hr : s.write (text ++ "\n") with ⟨t, b⟩
  rcases hr' : s'.write (text ++ "\n") with ⟨t', b'⟩
  rw [hr, hr'] at h₁ h₂
  cases h₂
  cases b
  · exact .failure h₁.symm
  · exact .value trivial h₁.symm

theorem freshClosure : Tracks f tol Eq Run.freshClosure fun _ => Run.freshClosure := by
  intro s s' hs _
  refine settle (.const _ s') ?_
  simp only [Session.mapBodies, Session.mk.injEq] at hs
  refine .value hs.2.2.2.2.1 ?_
  simp [Session.mapBodies, hs]

end Tracks

/-! ## The constructs of the language -/

theorem forall₂_iff_map_eq {f : α → γ} {g : β → γ} {xs : List α} {ys : List β} :
    List.Forall₂ (fun x y => f x = g y) xs ys ↔ xs.map f = ys.map g := by
  rw [← List.forall₂_eq_eq_eq, List.forall₂_map_left_iff, List.forall₂_map_right_iff]

theorem optionRel_of_map_eq {f : α → β} {x y : Option α} (h : x.map f = y.map f) :
    Option.Rel (fun x y => f x = f y) x y := by
  cases x <;> cases y
  · exact .none
  · cases h
  · cases h
  · exact .some (Option.some.inj h)

section

variable {f : Term → Term} {tol : RuntimeError → Prop}
variable {ev : Term → Run Value} {EV : Nat → Term → Run Value}

/-- One evaluator follows another on all terms that `f` makes equal. -/
def Follows (f : Term → Term) (tol : RuntimeError → Prop) (ev : Term → Run Value)
    (EV : Nat → Term → Run Value) : Prop :=
  ∀ t u, f t = f u → Tracks f tol (Value.Same f) (ev t) fun k => EV k u

theorem Value.mapBody_eq (f : Term → Term) : Value.mapBody f = Value.mapClosure id f := by
  funext v
  cases v <;> rfl

theorem Value.related_eq_same :
    Value.Related Eq (fun t u => f t = f u) = Value.Same f := by
  funext v w
  rw [Value.Same, Value.mapBody_eq]
  exact propext (Value.related_iff_mapClosure id f)

theorem Value.Same.text {v w : Value} (h : v.Same f w) : v.text = w.text := by
  rw [← Value.text_mapBody f v, h, Value.text_mapBody]

theorem Value.Same.kind {v w : Value} (h : v.Same f w) : v.kind = w.kind := by
  rw [← Value.kind_mapBody f v, h, Value.kind_mapBody]

namespace Tracks

theorem asCall {V : Value → Value → Prop} (name : String) (args : Nat) {m : Run Value}
    {M : Nat → Run Value} (h : Tracks f tol V m M) :
    Tracks f tol V (m.asCall name args) fun k => (M k).asCall name args := by
  refine Tracks.bind (V := Eq) (.read fun s s' hs => ?_) fun a b hab => ?_
  · have he := congrArg Session.exceeded? hs
    exact he
  · subst hab
    cases a with
    | some limit => exact .fail rfl
    | none =>
      refine Tracks.bind (.update fun s s' hs => ?_) fun _ _ _ => h.inCall
      have hd := congrArg Session.callDepth hs
      have hd : s.callDepth = s'.callDepth := hd
      rw [Session.mapBodies_note, hs, hd, Session.mapBodies_note]

theorem lookup (name : String) :
    Tracks f tol (Value.Same f) (Run.lookup name) fun _ => Run.lookup name := by
  intro s s' hs _
  refine settle (.const _ s') ?_
  have hg : (s.scope.get? name).map (Value.mapBody f) =
      (s'.scope.get? name).map (Value.mapBody f) := by
    rw [← Scope.get?_mapBodies, ← Scope.get?_mapBodies]
    exact congrArg (fun s : Session => s.scope.get? name) hs
  show Alike f _ (Run.ofExcept (s.scope.lookup name) s) (Run.ofExcept (s'.scope.lookup name) s')
  unfold Scope.lookup
  cases h : s.scope.get? name with
  | none =>
    cases h' : s'.scope.get? name with
    | none => exact .failure hs
    | some w => simp [h, h'] at hg
  | some v =>
    cases h' : s'.scope.get? name with
    | none => simp [h, h'] at hg
    | some w => exact .value (by simpa [h, h', Value.Same] using hg) hs

theorem scopeText :
    Tracks f tol Eq (Run.read (·.scope.text)) fun _ => Run.read (·.scope.text) := by
  refine .read fun s s' hs => ?_
  have ht := congrArg (fun s : Session => s.scope.text) hs
  exact ((Scope.text_mapBodies f _).symm.trans ht).trans (Scope.text_mapBodies f _)

end Tracks

/-- Tracking, as a way to compare evaluators. -/
def tracking (f : Term → Term) (tol : RuntimeError → Prop) : Comparison Nat where
  Rel := Tracks f tol
  ids := Eq
  bodies t u := f t = f u
  ret := .ret
  fail _ := .fail rfl
  bind := .bind
  inFrame := .inFrame
  asCall := .asCall
  lookup name := Value.related_eq_same ▸ .lookup name
  define name v w hvw := by
    rw [Value.related_eq_same] at hvw
    refine .update fun s s' hs => ?_
    rw [Session.mapBodies_define, hs, hvw, Session.mapBodies_define]
  assign name v w hvw := by
    rw [Value.related_eq_same] at hvw
    refine .update fun s s' hs => ?_
    rw [Session.mapBodies_assign, hs, hvw, Session.mapBodies_assign]
  freshClosure := .freshClosure
  scopeText := .scopeText
  writeLine _ := .writeLine

theorem Follows.tracking (h : Follows f tol ev EV) : (tracking f tol).Follows ev EV := by
  intro t u e
  show Tracks f tol (Value.Related Eq fun t u => f t = f u) _ _
  rw [Value.related_eq_same]
  exact h t u e

theorem Tracks.evalInt (h : Follows f tol ev EV) {t u : Term} (e : f t = f u) :
    Tracks f tol Eq (evalInt ev t) fun k => evalInt (EV k) u :=
  Comparison.evalInt h.tracking e

theorem Tracks.evalAll (h : Follows f tol ev EV) {ts us : List Term} (e : ts.map f = us.map f)
    {v w : Value} (hv : v.Same f w) :
    Tracks f tol (Value.Same f) (evalAll ev v ts) fun k => evalAll (EV k) w us := by
  rw [← Value.related_eq_same] at hv ⊢
  exact Comparison.evalAll h.tracking (forall₂_iff_map_eq.2 e) hv

/-- A loop may have more rounds than one that it follows. -/
theorem tracking_rounds {fuel : Nat} {rounds : Nat → Nat} (hr : ∃ n, ∀ k ≥ n, fuel ≤ rounds k) :
    (Dynascope.tracking f tol).Rounds fuel rounds := by
  induction fuel generalizing rounds with
  | zero => exact fun _ _ _ => .outOfFuel
  | succ fuel ih =>
    obtain ⟨n, hr⟩ := hr
    have h : (Dynascope.tracking f tol).Rounds fuel fun k => rounds k - 1 :=
      ih ⟨n, fun k hk => by have := hr k hk; omega⟩
    intro cond Cond body Body last last' hc hb hl
    refine (Comparison.Rounds.succ h hc hb hl).congr ⟨n, fun k hk => ?_⟩
    have hk : rounds k - 1 + 1 = rounds k := by have := hr k hk; omega
    simp only [hk]

/-! ## One layer of a term -/

/-- A function applied to the parts of a term, and all spans set to one. -/
def Term.mapParts (f : Term → Term) : Term → Term
  | .number _ n => .number default n
  | .paren _ inner => .paren default (f inner)
  | .arith _ op left right => .arith default op (f left) (f right)
  | .compare _ op left right => .compare default op (f left) (f right)
  | .assign _ name value => .assign default name (f value)
  | .var _ name => .var default name
  | .block _ body => .block default (body.map f)
  | .branch _ cond _ thenBody orElse =>
    .branch default (f cond) default (thenBody.map f) (f orElse)
  | .whileLoop _ cond _ body => .whileLoop default (f cond) default (body.map f)
  | .forLoop _ name first limit _ body =>
    .forLoop default name (first.map f) (f limit) default (body.map f)
  | .lambda _ params body => .lambda default params (f body)
  | .call _ name args => .call default name (args.map f)

theorem Term.partsRelated_of_mapParts {t u : Term} (e : t.mapParts f = u.mapParts f) :
    t.PartsRelated (fun t u => f t = f u) u := by
  cases t with
  | number span n =>
    cases u <;> cases e
    exact .number n
  | paren span inner =>
    cases u with
    | paren => exact .paren (Term.paren.inj e).2
    | _ => cases e
  | arith span op l r =>
    cases u with
    | arith =>
      obtain ⟨-, rfl, hl, hr⟩ := Term.arith.inj e
      exact .arith op hl hr
    | _ => cases e
  | compare span op l r =>
    cases u with
    | compare =>
      obtain ⟨-, rfl, hl, hr⟩ := Term.compare.inj e
      exact .compare op hl hr
    | _ => cases e
  | assign span name value =>
    cases u with
    | assign =>
      obtain ⟨-, rfl, hv⟩ := Term.assign.inj e
      exact .assign name hv
    | _ => cases e
  | var span name =>
    cases u <;> cases e
    exact .var name
  | block span body =>
    cases u with
    | block => exact .block (forall₂_iff_map_eq.2 (Term.block.inj e).2)
    | _ => cases e
  | branch span cond thenSpan body orElse =>
    cases u with
    | branch =>
      obtain ⟨-, hc, -, hb, ho⟩ := Term.branch.inj e
      exact .branch hc (forall₂_iff_map_eq.2 hb) ho
    | _ => cases e
  | whileLoop span cond bodySpan body =>
    cases u with
    | whileLoop =>
      obtain ⟨-, hc, -, hb⟩ := Term.whileLoop.inj e
      exact .whileLoop hc (forall₂_iff_map_eq.2 hb)
    | _ => cases e
  | forLoop span name first limit bodySpan body =>
    cases u with
    | forLoop =>
      obtain ⟨-, rfl, hf, hl, -, hb⟩ := Term.forLoop.inj e
      exact .forLoop name (optionRel_of_map_eq hf) hl (forall₂_iff_map_eq.2 hb)
    | _ => cases e
  | lambda span params body =>
    cases u with
    | lambda =>
      obtain ⟨-, rfl, hb⟩ := Term.lambda.inj e
      exact .lambda params hb
    | _ => cases e
  | call span name args =>
    cases u with
    | call =>
      obtain ⟨-, rfl, ha⟩ := Term.call.inj e
      exact .call name (forall₂_iff_map_eq.2 ha)
    | _ => cases e

/-- Where one evaluator follows another on the parts of terms, it follows it on the terms. -/
theorem Tracks.evalWith (h : Follows f tol ev EV) {t u : Term}
    (e : t.mapParts f = u.mapParts f) {fuel : Nat} {rounds : Nat → Nat}
    (hr : ∃ n, ∀ k ≥ n, fuel ≤ rounds k) :
    Tracks f tol (Value.Same f) (t.evalWith fuel ev) fun k => u.evalWith (rounds k) (EV k) := by
  rw [← Value.related_eq_same]
  exact Comparison.evalWith h.tracking (tracking_rounds hr) (Term.partsRelated_of_mapParts e)

end

end Dynascope
