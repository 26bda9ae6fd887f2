import Mathlib
import Dynascope.Proofs.Limit

/-! # Similar programs in similar sessions

Nothing that a program does depends on the identities of closures, nor on what a session did
before: from sessions that are equal but for these, programs run in `Lockstep`
(`Program.run_lockstep`). Nor does it depend on spans and parentheses, in the program or in the
bodies of closures (`follows_erase`). So programs that are equal but for spans and parentheses do
the same in all sessions that are `Similar`: `Program.similar_runs`.
-/

set_option autoImplicit false

namespace Dynascope

variable {α β γ δ : Type}

/-! ## Similar values and sessions -/

/-- Equal values, except for the identities of closures and for the spans and parentheses in their
bodies. -/
def Value.Similar : Value → Value → Prop :=
  Value.Related (fun _ _ => True) fun t u => t.erase = u.erase

/-- The same names bound to similar values. -/
def Frame.Similar (a b : Frame Value) : Prop :=
  List.Forall₂ (fun x y => x.1 = y.1 ∧ x.2.Similar y.2) a.bindings b.bindings

/-- Sessions between which a program cannot tell, except by the room that is left for its output. -/
structure Session.Similar (s s' : Session) : Prop where
  frames : List.Forall₂ Frame.Similar s.scope.frames s'.scope.frames
  callDepth : s.callDepth = s'.callDepth
  maxCallDepth : s.maxCallDepth = s'.maxCallDepth

/-- A value without the identity of a closure. -/
def Value.anonymous : Value → Value :=
  Value.mapClosure (fun _ => 0) id

/-- A value without the identity of a closure, and without spans and parentheses in its body. -/
def Value.bare : Value → Value :=
  Value.mapClosure (fun _ => 0) Term.erase

theorem Value.text_anonymous (v : Value) : v.anonymous.text = v.text := by
  cases v <;> rfl

theorem Value.related_iff_anonymous {v w : Value} :
    v.Related (fun _ _ => True) Eq w ↔ v.anonymous = w.anonymous := by
  have h := Value.related_iff_mapClosure (fun _ => 0) id (v := v) (w := w)
  simp only [eq_self] at h
  exact h

theorem Value.similar_iff {v w : Value} : v.Similar w ↔ v.bare = w.bare := by
  have h := Value.related_iff_mapClosure (fun _ => 0) Term.erase (v := v) (w := w)
  simp only [eq_self] at h
  exact h

/-! ## Lockstep -/

/-- From related sessions, the computations end alike and leave related sessions behind. -/
def Lockstep (R : Session → Session → Prop) (V : α → β → Prop) (m : Run α) (m' : Run β) : Prop :=
  ∀ s s', R s s' → (m s).1.Related V (m' s').1 ∧ R (m s).2 (m' s').2

namespace Lockstep

variable {R : Session → Session → Prop} {V : α → β → Prop} {W : γ → δ → Prop}

theorem ret {a : α} {b : β} (h : V a b) : Lockstep R V (pure a) (pure b) :=
  fun _ _ hs => ⟨.value h, hs⟩

theorem fail (e : RuntimeError) : Lockstep R V (Run.fail e) (Run.fail e) :=
  fun _ _ hs => ⟨.failure e, hs⟩

theorem outOfFuel : Lockstep R V Run.outOfFuel Run.outOfFuel :=
  fun _ _ hs => ⟨.outOfFuel, hs⟩

theorem bind {m : Run α} {m' : Run β} {next : α → Run γ} {next' : β → Run δ}
    (h : Lockstep R V m m') (hn : ∀ a b, V a b → Lockstep R W (next a) (next' b)) :
    Lockstep R W (m >>= next) (m' >>= next') := by
  intro s s' hs
  obtain ⟨ho, ht⟩ := h s s' hs
  rcases hm : m s with ⟨o, t⟩
  rcases hm' : m' s' with ⟨o', t'⟩
  rw [hm, hm'] at ho ht
  cases ho with
  | value hv =>
    rw [bind_of_value hm, bind_of_value hm']
    exact hn _ _ hv t t' ht
  | failure e =>
    rw [bind_of_failure hm, bind_of_failure hm']
    exact ⟨.failure e, ht⟩
  | outOfFuel =>
    rw [bind_of_outOfFuel hm, bind_of_outOfFuel hm']
    exact ⟨.outOfFuel, ht⟩

theorem read {view : Session → α} {view' : Session → β}
    (h : ∀ s s', R s s' → V (view s) (view' s')) : Lockstep R V (Run.read view) (Run.read view') :=
  fun s s' hs => ⟨.value (h s s' hs), hs⟩

theorem update {change change' : Session → Session}
    (h : ∀ s s', R s s' → R (change s) (change' s')) :
    Lockstep R (fun _ _ => True) (Run.update change) (Run.update change') :=
  fun s s' hs => ⟨.value trivial, h s s' hs⟩

theorem inFrame {m : Run α} {m' : Run β} (h : Lockstep R V m m')
    (hopen : ∀ s s', R s s' → R s.openFrame s'.openFrame)
    (hclose : ∀ s s', R s s' → R s.closeFrame s'.closeFrame) :
    Lockstep R V m.inFrame m'.inFrame := by
  intro s s' hs
  obtain ⟨ho, ht⟩ := h _ _ (hopen s s' hs)
  exact ⟨ho, hclose _ _ ht⟩

theorem lookup_of {V : Value → Value → Prop} {name : String}
    (h : ∀ s s', R s s' → Option.Rel V (s.scope.get? name) (s'.scope.get? name)) :
    Lockstep R V (Run.lookup name) (Run.lookup name) := by
  intro s s' hs
  have hg := h s s' hs
  show Outcome.Related _ (Run.ofExcept (s.scope.lookup name) s).1
      (Run.ofExcept (s'.scope.lookup name) s').1 ∧
    R (Run.ofExcept (s.scope.lookup name) s).2 (Run.ofExcept (s'.scope.lookup name) s').2
  unfold Scope.lookup
  cases hv : s.scope.get? name <;> cases hw : s'.scope.get? name <;> rw [hv, hw] at hg <;> cases hg
  · exact ⟨.failure _, hs⟩
  · exact ⟨.value ‹_›, hs⟩

theorem writeLine_of {text text' : String}
    (h : ∀ s s', R s s' → R (s.write (text ++ "\n")).1 (s'.write (text' ++ "\n")).1 ∧
      (s.write (text ++ "\n")).2 = (s'.write (text' ++ "\n")).2) :
    Lockstep R (fun _ _ => True) (Run.writeLine text) (Run.writeLine text') := by
  intro s s' hs
  obtain ⟨ht, hb⟩ := h s s' hs
  unfold Run.writeLine
  rcases hw : s.write (text ++ "\n") with ⟨t, b⟩
  rcases hw' : s'.write (text' ++ "\n") with ⟨t', b'⟩
  rw [hw, hw'] at ht hb
  cases hb
  cases b with
  | true => exact ⟨.value trivial, ht⟩
  | false => exact ⟨.failure _, ht⟩

/-- A call, in sessions with the same active calls and the same limit on them. -/
theorem asCall_of {V : Value → Value → Prop} (name : String) (args : Nat) {m m' : Run Value}
    (h : Lockstep R V m m') (hcalls : ∀ s s', R s s' → s.callDepth = s'.callDepth)
    (hlimit : ∀ s s', R s s' → s.maxCallDepth = s'.maxCallDepth)
    (hnote : ∀ s s' event, R s s' → R (s.note event) (s'.note event))
    (hset : ∀ s s' calls, R s s' → R { s with callDepth := calls } { s' with callDepth := calls }) :
    Lockstep R V (m.asCall name args) (m'.asCall name args) := by
  refine bind (V := Eq) (.read fun s s' hs => ?_) fun limit limit' hl => ?_
  · unfold Session.exceeded?
    rw [hcalls s s' hs, hlimit s s' hs]
  · subst hl
    cases limit with
    | some limit => exact .fail _
    | none =>
      refine bind (.update fun s s' hs => ?_) fun _ _ _ s s' hs => ?_
      · rw [hcalls s s' hs]
        exact hnote s s' _ hs
      · have hs' : R { s with callDepth := s.callDepth + 1 }
            { s' with callDepth := s'.callDepth + 1 } := by
          rw [← hcalls s s' hs]
          exact hset s s' _ hs
        obtain ⟨ho, ht⟩ := h _ _ hs'
        have hclose := hset _ _ ((m { s with callDepth := s.callDepth + 1 }).2.callDepth - 1) ht
        refine ⟨ho, ?_⟩
        unfold Run.inCall
        simp only
        rw [← hcalls _ _ ht]
        exact hclose

end Lockstep

/-! ## Identities of closures -/

/-- Sessions that are equal but for the identities of closures and for what happened before. Since
then, the same happened in both. -/
structure Renamed (before before' : Log) (s s' : Session) : Prop where
  scope : s.scope.mapValues Value.anonymous = s'.scope.mapValues Value.anonymous
  callDepth : s.callDepth = s'.callDepth
  maxCallDepth : s.maxCallDepth = s'.maxCallDepth
  room : s.room = s'.room
  log : ∃ events, s.log = events ++ before ∧ s'.log = events ++ before'

namespace Renamed

variable {before before' : Log} {s s' : Session} (h : Renamed before before' s s')
include h

theorem note_log (event : Event) :
    ∃ events, event :: s.log = events ++ before ∧ event :: s'.log = events ++ before' := by
  obtain ⟨events, e, e'⟩ := h.log
  exact ⟨event :: events, by rw [e, List.cons_append], by rw [e', List.cons_append]⟩

theorem note (event : Event) : Renamed before before' (s.note event) (s'.note event) :=
  { h with log := h.note_log event }

theorem openFrame : Renamed before before' s.openFrame s'.openFrame where
  scope := by
    show s.scope.push.mapValues _ = s'.scope.push.mapValues _
    rw [Scope.mapValues_push, h.scope, Scope.mapValues_push]
  callDepth := h.callDepth
  maxCallDepth := h.maxCallDepth
  room := h.room
  log := h.note_log .opened

theorem closeFrame : Renamed before before' s.closeFrame s'.closeFrame := by
  have hp : s.scope.pop?.map (Scope.mapValues Value.anonymous) =
      s'.scope.pop?.map (Scope.mapValues Value.anonymous) := by
    rw [← Scope.pop?_mapValues, h.scope, Scope.pop?_mapValues]
  unfold Session.closeFrame
  cases hs : s.scope.pop? with
  | none =>
    cases hs' : s'.scope.pop? with
    | none => exact h.note .refused
    | some scope' => simp [hs, hs'] at hp
  | some scope =>
    cases hs' : s'.scope.pop? with
    | none => simp [hs, hs'] at hp
    | some scope' =>
      rw [hs, hs'] at hp
      exact { h with scope := Option.some.inj hp, log := h.note_log .closed }

theorem define (name : String) {v w : Value} (hv : v.anonymous = w.anonymous) :
    Renamed before before' (s.define name v) (s'.define name w) := by
  refine { h with scope := ?_ }
  show (s.scope.define name v).mapValues _ = (s'.scope.define name w).mapValues _
  rw [Scope.mapValues_define, Scope.mapValues_define, h.scope, hv]

theorem assign (name : String) {v w : Value} (hv : v.anonymous = w.anonymous) :
    Renamed before before' (s.assign name v) (s'.assign name w) := by
  refine { h with scope := ?_ }
  show (s.scope.assign name v).mapValues _ = (s'.scope.assign name w).mapValues _
  rw [Scope.mapValues_assign, Scope.mapValues_assign, h.scope, hv]

theorem text : s.scope.text = s'.scope.text := by
  rw [← Scope.text_mapValues Value.text_anonymous, h.scope,
    Scope.text_mapValues Value.text_anonymous]

theorem get? (name : String) :
    Option.Rel (Value.Related (fun _ _ => True) Eq) (s.scope.get? name) (s'.scope.get? name) := by
  have hg : (s.scope.get? name).map Value.anonymous = (s'.scope.get? name).map Value.anonymous := by
    rw [← Scope.get?_mapValues, h.scope, Scope.get?_mapValues]
  cases hs : s.scope.get? name <;> cases hs' : s'.scope.get? name <;> simp [hs, hs'] at hg
  · exact .none
  · exact .some (Value.related_iff_anonymous.2 hg)

theorem write (text : String) : Renamed before before' (s.write text).1 (s'.write text).1 ∧
    (s.write text).2 = (s'.write text).2 := by
  unfold Session.write
  rw [← h.room]
  cases hr : s.room with
  | none => exact ⟨h.note _, rfl⟩
  | some room => exact ⟨{ h with room := rfl, log := h.note_log _ }, rfl⟩

end Renamed

namespace Lockstep

variable {before before' : Log}

theorem lookup (name : String) :
    Lockstep (Renamed before before') (Value.Related (fun _ _ => True) Eq) (Run.lookup name)
      (Run.lookup name) :=
  .lookup_of fun _ _ hs => hs.get? name

theorem writeLine (text : String) :
    Lockstep (Renamed before before') (fun _ _ => True) (Run.writeLine text)
      (Run.writeLine text) :=
  .writeLine_of fun _ _ hs => hs.write (text ++ "\n")

theorem asCall {V : Value → Value → Prop} (name : String) (args : Nat) {m m' : Run Value}
    (h : Lockstep (Renamed before before') V m m') :
    Lockstep (Renamed before before') V (m.asCall name args) (m'.asCall name args) :=
  h.asCall_of name args (fun _ _ hs => hs.callDepth) (fun _ _ hs => hs.maxCallDepth)
    (fun _ _ event hs => hs.note event) fun _ _ _ hs => { hs with callDepth := rfl }

end Lockstep

/-- Lockstep in sessions that are equal but for the identities of closures, as a way to compare
evaluators. -/
def anonymously (before before' : Log) : Comparison Unit where
  Rel V m M := Lockstep (Renamed before before') V m (M ())
  ids _ _ := True
  bodies := Eq
  ret := .ret
  fail := .fail
  bind h hn := h.bind hn
  inFrame h := h.inFrame (fun _ _ => Renamed.openFrame) fun _ _ => Renamed.closeFrame
  asCall name args _ _ h := h.asCall name args
  lookup := .lookup
  define name _ _ hv := .update fun _ _ hs => hs.define name (Value.related_iff_anonymous.1 hv)
  assign name _ _ hv := .update fun _ _ hs => hs.assign name (Value.related_iff_anonymous.1 hv)
  freshClosure := fun _ _ hs => ⟨.value trivial, { hs with }⟩
  scopeText := .read fun _ _ hs => hs.text
  writeLine := .writeLine

theorem Program.run_lockstep (fuel : Nat) (p : Program) {before before' : Log} {s s' : Session}
    (h : Renamed before before' s s') :
    (p.run fuel s).1.Related (Value.Related (fun _ _ => True) Eq) (p.run fuel s').1 ∧
      Renamed before before' (p.run fuel s).2 (p.run fuel s').2 :=
  Comparison.run_self (C := anonymously before before') rfl Lockstep.outOfFuel fuel p s s' h

/-! ## Spans and parentheses -/

theorem Value.bare_eq_anonymous : Value.bare = Value.anonymous ∘ Value.mapBody Term.erase := by
  funext v
  cases v <;> rfl

theorem Value.bare_eq_mapBody : Value.bare = Value.mapBody Term.erase ∘ Value.anonymous := by
  funext v
  cases v <;> rfl

theorem Value.bare_of_anonymous {v w : Value} (h : v.anonymous = w.anonymous) :
    v.bare = w.bare := by
  rw [Value.bare_eq_mapBody]
  exact congrArg (Value.mapBody Term.erase) h

theorem Value.bare_of_mapBody {v w : Value} (h : v.mapBody Term.erase = w.mapBody Term.erase) :
    v.bare = w.bare := by
  rw [Value.bare_eq_anonymous]
  exact congrArg Value.anonymous h

theorem Frame.similar_iff {a b : Frame Value} :
    a.Similar b ↔ a.map Value.bare = b.map Value.bare := by
  have h : a.Similar b ↔ List.Forall₂ (fun x y => (x.1, x.2.bare) = (y.1, y.2.bare))
      a.bindings b.bindings := by
    simp only [Frame.Similar, Value.similar_iff, Prod.mk.injEq]
  rw [h, forall₂_iff_map_eq (f := fun x : String × Value => (x.1, x.2.bare))]
  exact ⟨fun h => ext_bindings h, fun h => congrArg Frame.bindings h⟩

theorem Scope.similar_iff {s s' : Scope} :
    List.Forall₂ Frame.Similar s.frames s'.frames ↔
      s.mapValues Value.bare = s'.mapValues Value.bare := by
  have h : Frame.Similar = fun a b => a.map Value.bare = b.map Value.bare := by
    funext a b
    exact propext Frame.similar_iff
  rw [h, forall₂_iff_map_eq, frames, frames, List.map_cons, List.map_cons]
  simp [mapValues]

theorem Scope.mapValues_bare (s : Scope) :
    s.mapValues Value.bare = (s.mapBodies Term.erase).mapValues Value.anonymous := by
  rw [Value.bare_eq_anonymous]
  exact (mapValues_mapValues _ _ s).symm

/-- Where closures are compared up to their identities, their bodies can be erased. -/
theorem Scope.mapValues_bare_of_anonymous {s s' : Scope}
    (h : s.mapValues Value.anonymous = s'.mapValues Value.anonymous) :
    s.mapValues Value.bare = s'.mapValues Value.bare := by
  rw [Value.bare_eq_mapBody, ← mapValues_mapValues, h, mapValues_mapValues]

theorem Session.mapBodies_erase_erase (s : Session) :
    (s.mapBodies Term.erase).mapBodies Term.erase = s.mapBodies Term.erase := by
  have hv : Value.mapBody Term.erase ∘ Value.mapBody Term.erase = Value.mapBody Term.erase := by
    funext v
    cases v <;> simp [Value.mapBody, Closure.mapBody, Term.erase_erase]
  have hs := Scope.mapValues_mapValues (Value.mapBody Term.erase) (Value.mapBody Term.erase) s.scope
  rw [hv] at hs
  exact congrArg (fun scope => { s with scope }) hs

/-- Results between which a program cannot tell that was run before in similar sessions. -/
structure SimilarResults (before before' : Log) (r r' : Result Value) : Prop where
  outcome : r.1.Related Value.Similar r'.1
  session : r.2.Similar r'.2
  room : r.2.room = r'.2.room
  /-- The same happened in both, so the same was written. -/
  log : ∃ events, r.2.log = events ++ before ∧ r'.2.log = events ++ before'

theorem Session.Similar.symm {s s' : Session} (h : s.Similar s') : s'.Similar s where
  frames := Scope.similar_iff.2 (Scope.similar_iff.1 h.frames).symm
  callDepth := h.callDepth.symm
  maxCallDepth := h.maxCallDepth.symm

/-- Similar sessions are equal but for the identities of closures once the bodies are erased. -/
theorem Session.Similar.renamed {s s' : Session} (h : s.Similar s') (hr : s.room = s'.room) :
    Renamed s.log s'.log (s.mapBodies Term.erase) (s'.mapBodies Term.erase) where
  scope := by
    have hs := Scope.similar_iff.1 h.frames
    rwa [Scope.mapValues_bare, Scope.mapValues_bare] at hs
  callDepth := h.callDepth
  maxCallDepth := h.maxCallDepth
  room := hr
  log := ⟨[], rfl, rfl⟩

/-- Sessions that are equal but for the identities of closures, on both sides of which bodies were
erased. -/
theorem Renamed.similar {before before' : Log} {s t t' s' : Session}
    (h : Renamed before before' t t') (hs : s.mapBodies Term.erase = t.mapBodies Term.erase)
    (hs' : t'.mapBodies Term.erase = s'.mapBodies Term.erase) :
    s.Similar s' ∧ s.room = s'.room ∧
      ∃ events, s.log = events ++ before ∧ s'.log = events ++ before' := by
  have e {γ : Type} (view : Session → γ) := congrArg view hs
  have e' {γ : Type} (view : Session → γ) := congrArg view hs'
  have hlog : s.log = t.log := e (·.log)
  have hlog' : t'.log = s'.log := e' (·.log)
  refine ⟨⟨Scope.similar_iff.2 ?_, ?_, ?_⟩, ?_, ?_⟩
  · have hb := Scope.mapValues_bare_of_anonymous h.scope
    rw [Scope.mapValues_bare, Scope.mapValues_bare] at hb ⊢
    exact (e (·.scope.mapValues Value.anonymous)).trans
      (hb.trans (e' (·.scope.mapValues Value.anonymous)))
  · exact (e (·.callDepth)).trans (h.callDepth.trans (e' (·.callDepth)))
  · exact (e (·.maxCallDepth)).trans (h.maxCallDepth.trans (e' (·.maxCallDepth)))
  · exact (e (·.room)).trans (h.room.trans (e' (·.room)))
  · rw [hlog, ← hlog']
    exact h.log

namespace Program

variable {p q : Program} {s s' : Session} {r r' : Result Value}

/-- Where a program ends, one ends alike that is the same but for spans and parentheses. -/
theorem Ends.erase (h : p.Ends s r) (e : p.erase = q.erase)
    (hs : s.mapBodies Term.erase = s'.mapBodies Term.erase) :
    ∃ r', q.Ends s' r' ∧ Alike Term.erase (Value.Same Term.erase) r r' := by
  have e : p.statements.map Term.erase = q.statements.map Term.erase := by
    rw [← eraseAll_eq, ← eraseAll_eq]
    exact congrArg statements e
  exact h.follow (follows_erase fun _ => False) e hs

/-- Where a program ends, it ends alike where closures have other identities. -/
theorem Ends.renamed {before before' : Log} (h : p.Ends s r) (hs : Renamed before before' s s') :
    ∃ r', p.Ends s' r' ∧ r.1.Related (Value.Related (fun _ _ => True) Eq) r'.1 ∧
      Renamed before before' r.2 r'.2 := by
  obtain ⟨hr, fuel, rfl⟩ := h
  obtain ⟨ho, ht⟩ := p.run_lockstep fuel hs
  exact ⟨_, ⟨fun hf => hr (ho.outOfFuel_iff.2 hf), fuel, rfl⟩, ho, ht⟩

theorem Ends.similar (h : p.Ends s r) (e : p.erase = q.erase) (hs : s.Similar s')
    (hr : s.room = s'.room) : ∃ r', q.Ends s' r' ∧ SimilarResults s.log s'.log r r' := by
  have he : p.erase.erase = p.erase := by
    simp [Program.erase, Function.comp_def, Term.erase_erase]
  -- by way of the erased program, in sessions of which the bodies are erased
  obtain ⟨⟨o₁, t₁⟩, h₁, a₁⟩ := h.erase he.symm s.mapBodies_erase_erase.symm
  obtain ⟨⟨o₂, t₂⟩, h₂, ho, ht⟩ := h₁.renamed (hs.renamed hr)
  obtain ⟨⟨o₃, t₃⟩, h₃, a₃⟩ := h₂.erase (he.trans e) s'.mapBodies_erase_erase
  refine ⟨_, h₃, ?_⟩
  cases a₁ with
  | value hv hs =>
    cases ho with
    | value hw =>
      cases a₃ with
      | value hv' hs' =>
        obtain ⟨hsim, hroom, hlog⟩ := ht.similar hs hs'
        have hv₁ := Value.bare_of_mapBody hv
        have hv₂ := Value.bare_of_anonymous (Value.related_iff_anonymous.1 hw)
        have hv₃ := Value.bare_of_mapBody hv'
        exact ⟨.value (Value.similar_iff.2 (hv₁.trans (hv₂.trans hv₃))), hsim, hroom, hlog⟩
  | failure hs =>
    cases ho with
    | failure e =>
      cases a₃ with
      | failure hs' =>
        obtain ⟨hsim, hroom, hlog⟩ := ht.similar hs hs'
        exact ⟨.failure _, hsim, hroom, hlog⟩

/-- **Grouping and positions never affect evaluation.** Of two programs that are equal but for spans
and parentheses, run in similar sessions with the same room for output, one ends if and only if the
other does, and then with similar values or the same error, after the same events, which include all
output, in similar sessions. -/
theorem similar_runs (e : p.erase = q.erase) (hs : s.Similar s') (hr : s.room = s'.room) :
    ((∃ r, p.Ends s r) ↔ ∃ r', q.Ends s' r') ∧
      ∀ r r', p.Ends s r → q.Ends s' r' → SimilarResults s.log s'.log r r' := by
  refine ⟨⟨?_, ?_⟩, fun r r' h h' => ?_⟩
  · rintro ⟨r, h⟩
    obtain ⟨r', h', -⟩ := h.similar e hs hr
    exact ⟨r', h'⟩
  · rintro ⟨r', h'⟩
    obtain ⟨r, h, -⟩ := h'.similar e.symm hs.symm hr.symm
    exact ⟨r, h⟩
  · obtain ⟨r'', h'', hsim⟩ := h.similar e hs hr
    rwa [h'.unique h'']

/-- Parentheses in the body of a closure and around calls, in sessions of different age. -/
theorem similar_runs_call :
    ∃ p q : Program, parseSource "f=lambda x:(x+1);print(f(1))" = .ok p ∧
      parseSource "(f=(lambda x:x+1));print((f((1))))" = .ok q ∧
      SimilarResults [.opened] [] (p.run 10 (.start none none))
        (q.run 10 { Session.start none none with nextClosure := 7, log := [] }) := by
  have hs : (Session.start none none).Similar
      { Session.start none none with nextClosure := 7, log := [] } :=
    ⟨Scope.similar_iff.2 rfl, rfl, rfl⟩
  have ends {p : Program} {s : Session} (h : (p.run 10 s).1 = .value (.int 2)) :
      p.Ends s (p.run 10 s) := ⟨by simp [h], 10, rfl⟩
  refine ⟨_, _, by cbv, by cbv, ?_⟩
  exact (similar_runs (by cbv) hs rfl).2 _ _ (ends (by cbv)) (ends (by cbv))

end Program

end Dynascope
