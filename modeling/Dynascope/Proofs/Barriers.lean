import Dynascope.Proofs.Comparison
import Dynascope.Proofs.FramedRuns
import Dynascope.Proofs.Limit

/-! # Barred assignments

Which assignments a program makes is told from an evaluator to which some assignments are barred. A
run either makes none of these, and then it is the same without them, or it makes one, and then it
does not end without them. A `Barrier` says what is known in the two cases: `Barrier.run`.

An assignment adds a name to the innermost frame only if no frame binds it (`FreshlyKept`).
-/

set_option autoImplicit false

namespace Dynascope

variable {α β γ δ : Type}

/-! ## Frames that get only new names -/

theorem FramesKept.get?_eq_none {s t : Session} (h : FramesKept s t) {x : String}
    (hx : t.scope.get? x = none) : s.scope.get? x = none := by
  rw [Scope.get?_eq, Scope.frames, findSome?_cons_or, Option.or_eq_none_iff] at hx ⊢
  constructor
  · by_contra hs
    have hm : x ∈ t.scope.inner.names :=
      h.inner (Frame.contains_iff.1 (Option.isSome_iff_ne_none.2 hs))
    rw [← Frame.contains_iff, Frame.contains, hx.1] at hm
    cases hm
  · have he := isSome_find_of_names h.outer x
    rw [hx.2] at he
    simpa using he.symm

/-- What the steps of an evaluation keep outside of the frames that it opens: the innermost frame
gets names only that no frame binds. -/
structure FreshlyKept (s t : Session) : Prop extends FramesKept s t where
  fresh : ∀ x, t.scope.inner.contains x = true →
    s.scope.inner.contains x = true ∨ s.scope.get? x = none

namespace FreshlyKept

variable {s t u : Session}

theorem of_inner (h : FramesKept s t) (hi : t.scope.inner.names = s.scope.inner.names) :
    FreshlyKept s t :=
  ⟨h, fun x hx => .inl (by rwa [← Frame.contains_eq_of_names hi])⟩

theorem refl (s : Session) : FreshlyKept s s :=
  of_inner (.refl s) rfl

theorem trans (h : FreshlyKept s t) (h' : FreshlyKept t u) : FreshlyKept s u where
  toFramesKept := h.toFramesKept.trans h'.toFramesKept
  fresh x hx := by
    rcases h'.fresh x hx with hx | hx
    · exact h.fresh x hx
    · exact .inr (h.get?_eq_none hx)

theorem assign (s : Session) (name : String) (value : Value) :
    FreshlyKept s (s.assign name value) := by
  have hf := s.scope.frames_assign name value
  split at hf
  · have hn := congrArg (List.map Frame.names) hf
    rw [rebind_names] at hn
    exact .of_inner (.assign s name value) (List.cons.inj hn).1
  · rename_i hnone
    have hi : (s.scope.assign name value).inner = s.scope.inner.insert name value :=
      (List.cons.inj hf).1
    refine ⟨.assign s name value, fun x hx => ?_⟩
    have hx : ((s.scope.assign name value).inner.get? x).isSome = true := hx
    rw [hi, Frame.get?_insert] at hx
    by_cases e : x = name
    · rw [e]
      exact .inr (Option.not_isSome_iff_eq_none.1 hnone)
    · rw [if_neg e] at hx
      exact .inl hx

end FreshlyKept

theorem Session.write_scope (s : Session) (text : String) : (s.write text).1.scope = s.scope := by
  unfold write
  split <;> rfl

/-! ## Barred assignments -/

/-- A program ends in a session, and makes an assignment that is barred: if it could not, it would
not end. -/
def Program.Makes (p : Program) (bars : Scope → String → Prop)
    [∀ scope, DecidablePred (bars scope)] (s : Session) : Prop :=
  (∃ r, p.Ends s r) ∧ ¬ ∃ r, p.EndsBy (.barring bars) s r

/-- What is known of a run by whether it makes an assignment that is barred. -/
structure Barrier (bars : Scope → String → Prop) where
  /-- If it makes none, this holds between its start and its end. -/
  Clear : Scope → Scope → Prop
  /-- If it makes one, this holds at its end. -/
  Hit : Scope → Prop
  refl (scope : Scope) : Clear scope scope
  trans {s t u : Scope} : Clear s t → Clear t u → Clear s u
  define (scope : Scope) (name : String) (value : Value) : Clear scope (scope.define name value)
  assign {s : Session} {name : String} (value : Value) : s.Grounded → ¬ bars s.scope name →
    Clear s.scope (s.assign name value).scope
  closeFrame {s t : Session} : s.Grounded → FramesKept s.openFrame t →
    Clear s.openFrame.scope t.scope → Clear s.scope t.closeFrame.scope
  hit {s : Session} {name : String} (value : Value) : bars s.scope name →
    Hit (s.assign name value).scope
  kept {s t : Session} : FramesKept s t → Hit s.scope → Hit t.scope
  hit_closeFrame {s t : Session} : s.Grounded → FramesKept s.openFrame t → Hit t.scope →
    Hit t.closeFrame.scope

namespace Barrier

variable {bars : Scope → String → Prop} (B : Barrier bars)

/-- The second computation either is the first one, which then makes no barred assignment, or has no
answer, as the first one makes one. -/
def Parts (B : Barrier bars) (Kept : Session → Session → Prop) (V : α → β → Prop) (m : Run α)
    (m' : Run β) : Prop :=
  ∀ s, s.Grounded → ∃ outcome, (m s).1.Related V outcome ∧ Kept s (m s).2 ∧
    (m' s = (outcome, (m s).2) ∧ B.Clear s.scope (m s).2.scope ∨
      (m' s).1 = .outOfFuel ∧ B.Hit (m s).2.scope)

namespace Parts

variable {B} {Kept : Session → Session → Prop} {V : α → β → Prop} {W : γ → δ → Prop}

theorem same {V : α → α → Prop} {m : Run α} (hV : ∀ a, V a a)
    (h : ∀ s, Kept s (m s).2 ∧ B.Clear s.scope (m s).2.scope) : B.Parts Kept V m m :=
  fun s _ => ⟨(m s).1, .refl hV _, (h s).1, .inl ⟨rfl, (h s).2⟩⟩

theorem bindKept {m : Run α} {m' : Run β} {next : α → Run γ} {next' : β → Run δ}
    (hkept : ∀ {s t}, Kept s t → FramesKept s t)
    (htrans : ∀ {s t u}, Kept s t → Kept t u → Kept s u) (h : B.Parts Kept V m m')
    (hn : ∀ a b, V a b → B.Parts Kept W (next a) (next' b)) :
    B.Parts Kept W (m >>= next) (m' >>= next') := by
  intro s hs
  obtain ⟨outcome, ho, hk, he⟩ := h s hs
  rcases hm : m s with ⟨o, t⟩
  rw [hm] at ho hk he
  cases ho with
  | @value a b hab =>
    rw [bind_of_value hm]
    obtain ⟨outcome, ho', hk', he'⟩ := hn a b hab t ((hkept hk).grounded hs)
    refine ⟨outcome, ho', htrans hk hk', ?_⟩
    rcases he with ⟨he, hc⟩ | ⟨he, hh⟩
    · rw [bind_of_value he]
      exact he'.imp (fun h => ⟨h.1, B.trans hc h.2⟩) id
    -- a barred assignment in the first part: the rest does not undo it
    · exact .inr ⟨outOfFuel_bind he, B.kept (hkept hk') hh⟩
  | failure e =>
    rw [bind_of_failure hm]
    refine ⟨_, .failure e, hk, he.imp (fun h => ⟨bind_of_failure h.1, h.2⟩) fun h => ?_⟩
    exact ⟨outOfFuel_bind h.1, h.2⟩
  | outOfFuel =>
    rw [bind_of_outOfFuel hm]
    refine ⟨_, .outOfFuel, hk, he.imp (fun h => ⟨bind_of_outOfFuel h.1, h.2⟩) fun h => ?_⟩
    exact ⟨outOfFuel_bind h.1, h.2⟩

theorem bind {m : Run α} {m' : Run β} {next : α → Run γ} {next' : β → Run δ}
    (h : B.Parts FreshlyKept V m m')
    (hn : ∀ a b, V a b → B.Parts FreshlyKept W (next a) (next' b)) :
    B.Parts FreshlyKept W (m >>= next) (m' >>= next') :=
  bindKept FreshlyKept.toFramesKept .trans h hn

theorem ret {a : α} {b : β} (h : V a b) : B.Parts FreshlyKept V (pure a) (pure b) :=
  fun s _ => ⟨_, .value h, .refl s, .inl ⟨rfl, B.refl _⟩⟩

theorem fail (e : RuntimeError) : B.Parts FreshlyKept V (Run.fail e) (Run.fail e) :=
  fun s _ => ⟨_, .failure e, .refl s, .inl ⟨rfl, B.refl _⟩⟩

theorem outOfFuel : B.Parts FreshlyKept V Run.outOfFuel Run.outOfFuel :=
  fun s _ => ⟨_, .outOfFuel, .refl s, .inl ⟨rfl, B.refl _⟩⟩

/-- Steps that leave the scope stack as it is. -/
theorem quiet {V : α → α → Prop} {m : Run α} (hV : ∀ a, V a a)
    (h : ∀ s, FramesKept s (m s).2 ∧ (m s).2.scope = s.scope) : B.Parts FreshlyKept V m m :=
  same hV fun s => by
    obtain ⟨hk, hs⟩ := h s
    refine ⟨.of_inner hk (by rw [hs]), ?_⟩
    rw [hs]
    exact B.refl _

theorem own {m : Run α} {m' : Run β} (h : B.Parts FreshlyKept V m m') :
    B.Parts FramesKept V m m' := by
  intro s hs
  obtain ⟨outcome, ho, hk, he⟩ := h s hs
  exact ⟨outcome, ho, hk.toFramesKept, he⟩

theorem inFrame {m : Run α} {m' : Run β} (h : B.Parts FramesKept V m m') :
    B.Parts FreshlyKept V m.inFrame m'.inFrame := by
  intro s hs
  obtain ⟨outcome, ho, hk, he⟩ := h s.openFrame hs.openFrame
  have hn := hk.closeFrame
  refine ⟨outcome, ho, .of_inner hn.toFramesKept hn.names, he.imp (fun h => ?_) fun h => ?_⟩
  · refine ⟨?_, B.closeFrame hs hk h.2⟩
    unfold Run.inFrame
    rw [h.1]
  · exact ⟨h.1, B.hit_closeFrame hs hk h.2⟩

theorem inCall {m : Run α} {m' : Run β} (h : B.Parts FreshlyKept V m m') :
    B.Parts FreshlyKept V m.inCall m'.inCall := by
  intro s hs
  obtain ⟨outcome, ho, hk, he⟩ := h { s with callDepth := s.callDepth + 1 } hs
  refine ⟨outcome, ho, ⟨hk.endCall, hk.fresh⟩, he.imp (fun h => ⟨?_, h.2⟩) id⟩
  unfold Run.inCall
  rw [h.1]

theorem asCall {V : Value → Value → Prop} (name : String) (args : Nat) {m m' : Run Value}
    (h : B.Parts FreshlyKept V m m') :
    B.Parts FreshlyKept V (m.asCall name args) (m'.asCall name args) := by
  refine bind (V := Eq) (quiet (fun _ => rfl) fun s => ⟨.refl s, rfl⟩)
    fun limit limit' hl => ?_
  subst hl
  cases limit with
  | some limit => exact fail _
  | none =>
    exact bind (V := fun _ _ => True) (quiet (fun _ => trivial) fun s => ⟨.note s rfl, rfl⟩)
      fun _ _ _ => h.inCall

end Parts

/-! ## Runs -/

/-- Runs with and without barred assignments, as a correspondence. -/
def correspondence (B : Barrier bars) : Correspondence Unit where
  Rel V m M := B.Parts FreshlyKept V m (M ())
  Own V m M := B.Parts FramesKept V m (M ())
  ids := Eq
  bodies := Eq
  names _ := True
  ret := .ret
  fail := .fail
  bind := .bind
  own h := h.own
  ownBind := .bindKept id .trans
  inFrame h := h.inFrame
  asCall name args _ _ h := h.asCall name args
  lookup name _ := .quiet Value.Related.refl fun s => by
    rw [lookup_session]
    exact ⟨.refl s, rfl⟩
  define name v w hv := by
    cases hv.eq
    exact .same (fun _ => trivial) fun s => ⟨.define s name v, B.define s.scope name v⟩
  freshClosure := .quiet (fun _ => rfl) fun _ => ⟨⟨rfl, fun _ h => h, rfl, [], rfl, .nil⟩, rfl⟩
  writeLine text := .quiet (fun _ => trivial) fun s => by
    rw [writeLine_session]
    exact ⟨.write s _, s.write_scope _⟩

theorem handles (B : Barrier bars) [∀ scope, DecidablePred (bars scope)] :
    B.correspondence.Handles .standard (.barring bars) where
  stack := by
    refine .bind (V := Eq) (.quiet (fun _ => rfl) fun s => ⟨.refl s, rfl⟩) fun text text' ht => ?_
    subst ht
    exact .bind (B.correspondence.writeLine _) fun _ _ _ => .ret .none
  assign name v w _ hv s hs := by
    cases hv.eq
    refine ⟨.value (), .value trivial, .assign s name v, ?_⟩
    by_cases hb : bars s.scope name
    · exact .inr ⟨by simp [Primitives.barring, hb], B.hit v hb⟩
    · exact .inl ⟨by simp [Primitives.barring, hb]; rfl, B.assign v hs hb⟩

variable [∀ scope, DecidablePred (bars scope)]

theorem follows (fuel : Nat) :
    B.correspondence.Follows (Term.evalBy .standard fuel)
      fun _ => Term.evalBy (.barring bars) fuel :=
  Correspondence.follows B.handles .outOfFuel
    (fun t _ e => e ▸ ⟨.of_refl (fun _ => rfl) t, fun _ _ => trivial⟩) fuel

section

variable {s : Session} (hs : s.Grounded)
include hs

/-- **A program makes no barred assignment, or has no answer without one.** -/
theorem run (fuel : Nat) (p : Program) :
    FreshlyKept s (p.run fuel s).2 ∧
      (p.runBy (.barring bars) fuel s = p.run fuel s ∧ B.Clear s.scope (p.run fuel s).2.scope ∨
        (p.runBy (.barring bars) fuel s).1 = .outOfFuel ∧ B.Hit (p.run fuel s).2.scope) := by
  have h : B.Parts FreshlyKept (Value.Related Eq Eq) (p.runBy .standard fuel)
      (p.runBy (.barring bars) fuel) :=
    Correspondence.evalAll (C := B.correspondence) (B.follows fuel)
      (List.forall₂_same.2 fun _ _ => rfl) .none
  obtain ⟨outcome, ho, hk, he⟩ := h s hs
  rw [Value.related_eq] at ho
  cases ho.eq
  rw [Program.runBy_standard] at hk he
  exact ⟨hk, he⟩

variable {p : Program} {r : Result Value} (h : p.Ends s r)
include h

theorem hit_of_makes (hm : p.Makes bars s) : B.Hit r.2.scope := by
  obtain ⟨hr, fuel, rfl⟩ := h
  rcases (B.run hs fuel p).2 with ⟨he, -⟩ | ⟨-, hh⟩
  -- without a barred assignment, it would end the same without them
  · exact absurd ⟨_, hr, fuel, he⟩ hm.2
  · exact hh

theorem clear_of_not_makes (hm : ¬ p.Makes bars s) : B.Clear s.scope r.2.scope := by
  obtain ⟨r', h'⟩ : ∃ r', p.EndsBy (.barring bars) s r' :=
    not_not.1 fun hn => hm ⟨⟨r, h⟩, hn⟩
  have e : r' = r := (h'.ends (Primitives.barring_partial bars)).unique h
  subst e
  obtain ⟨hr, fuel, hf⟩ := h'
  obtain ⟨he, hc⟩ | ⟨ho, -⟩ := (B.run hs fuel p).2
  · rwa [← he, hf] at hc
  · exact absurd (hf ▸ ho) hr

end

end Barrier

/-- The barrier of no assignment. -/
def Barrier.none : Barrier fun _ _ => False where
  Clear _ _ := True
  Hit _ := False
  refl _ := trivial
  trans _ _ := trivial
  define _ _ _ := trivial
  assign _ _ _ := trivial
  closeFrame _ _ _ := trivial
  hit _ h := h
  kept _ h := h
  hit_closeFrame _ _ h := h

section

variable {s : Session} (hs : s.Grounded) (fuel : Nat)
include hs

/-- **Evaluation adds no name to the innermost frame that another frame binds.** -/
theorem Program.run_freshlyKept (p : Program) : FreshlyKept s (p.run fuel s).2 :=
  (Barrier.none.run hs fuel p).1

theorem Term.eval_freshlyKept (t : Term) : FreshlyKept s (t.eval fuel s).2 := by
  have h : Barrier.none.Parts FreshlyKept (Value.Related Eq Eq) (Term.evalBy .standard fuel t)
      (Term.evalBy (.barring fun _ _ => False) fuel t) :=
    Barrier.none.follows fuel t t rfl
  obtain ⟨-, -, hk, -⟩ := h s hs
  rwa [Term.evalBy_standard] at hk

end

end Dynascope
