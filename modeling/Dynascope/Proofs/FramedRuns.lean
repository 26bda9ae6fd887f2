import Dynascope.Proofs.Comparison
import Dynascope.Proofs.Frames
import Dynascope.Shell

/-! # The frames of running programs

However an evaluation ends, it keeps the frames (`Term.eval_kept`), so an idle session has two
frames and no active call, whatever was done with it before (`Session.Reachable`). The frame of
the built-ins is under all others at every moment of an evaluation: an evaluation that is watched
for that (`Term.evalWatched`) has no cause for alarm.
-/

set_option autoImplicit false

namespace Dynascope

variable {α β γ δ : Type}

/-! ## Watched evaluation -/

/-- The outermost frame is not the innermost, and binds the names of the built-ins and no others. -/
def Session.Grounded (s : Session) : Prop :=
  s.scope.outer.getLast?.map Frame.names = some builtinFrame.names

instance (s : Session) : Decidable s.Grounded :=
  inferInstanceAs (Decidable (_ = _))

theorem Session.Grounded.of_outer {s : Session}
    (h : s.scope.outer.map Frame.names = [builtinFrame.names]) : s.Grounded := by
  rw [Session.Grounded, ← List.getLast?_map, h]
  rfl

theorem FramesKept.grounded {s t : Session} (h : FramesKept s t) (hs : s.Grounded) :
    t.Grounded := by
  unfold Session.Grounded at *
  rw [← List.getLast?_map] at *
  rwa [h.outer]

theorem Session.Grounded.openFrame {s : Session} (h : s.Grounded) : s.openFrame.Grounded := by
  obtain ⟨frame, hf, hn⟩ := Option.map_eq_some_iff.1 h
  show (s.scope.inner :: s.scope.outer).getLast?.map Frame.names = _
  rw [List.getLast?_cons, hf, ← hn]
  rfl

/-- A computation that gives way to another where the session before or after it is not grounded. -/
def Run.watched (m alarm : Run α) : Run α := fun s =>
  if s.Grounded then
    if (m s).2.Grounded then m s else alarm (m s).2
  else alarm s

/-- Evaluation that is watched before and after every part of a term. -/
def Term.evalWatched (alarm : Run Value) : Nat → Term → Run Value
  | 0, _ => Run.outOfFuel
  | fuel + 1, t => (t.evalWith fuel (evalWatched alarm fuel)).watched alarm

def Program.runWatched (alarm : Run Value) (fuel : Nat) (p : Program) : Run Value :=
  evalAll (Term.evalWatched alarm fuel) .none p.statements

/-! ## Kept frames -/

/-- However `m` ends, it keeps the frames, and on grounded sessions `m'` does the same. -/
def Disciplined (m m' : Run α) : Prop :=
  ∀ s, FramesKept s (m s).2 ∧ (s.Grounded → m' s = m s)

/-- However `m` ends, it keeps the frames, and on grounded sessions `m'` does the same, with a
related value. -/
def DisciplinedTo (V : α → β → Prop) (m : Run α) (m' : Run β) : Prop :=
  ∀ s, ∃ outcome, (m s).1.Related V outcome ∧ FramesKept s (m s).2 ∧
    (s.Grounded → m' s = (outcome, (m s).2))

theorem disciplined_iff {m m' : Run α} : Disciplined m m' ↔ DisciplinedTo Eq m m' := by
  constructor
  · intro h s
    obtain ⟨hk, he⟩ := h s
    exact ⟨(m s).1, .refl (fun _ => rfl) _, hk, he⟩
  · intro h s
    obtain ⟨outcome, ho, hk, he⟩ := h s
    cases ho.eq
    exact ⟨hk, he⟩

namespace DisciplinedTo

variable {V : α → β → Prop} {W : γ → δ → Prop}

theorem same {V : α → α → Prop} {m : Run α} (hV : ∀ a, V a a) (h : ∀ s, FramesKept s (m s).2) :
    DisciplinedTo V m m :=
  fun s => ⟨(m s).1, .refl hV _, h s, fun _ => rfl⟩

theorem ret {a : α} {b : β} (h : V a b) : DisciplinedTo V (pure a) (pure b) :=
  fun s => ⟨_, .value h, .refl s, fun _ => rfl⟩

theorem fail (e : RuntimeError) : DisciplinedTo V (Run.fail e) (Run.fail e) :=
  fun s => ⟨_, .failure e, .refl s, fun _ => rfl⟩

theorem outOfFuel : DisciplinedTo V Run.outOfFuel Run.outOfFuel :=
  fun s => ⟨_, .outOfFuel, .refl s, fun _ => rfl⟩

theorem bind {m : Run α} {m' : Run β} {next : α → Run γ} {next' : β → Run δ}
    (h : DisciplinedTo V m m') (hn : ∀ a b, V a b → DisciplinedTo W (next a) (next' b)) :
    DisciplinedTo W (m >>= next) (m' >>= next') := by
  intro s
  obtain ⟨outcome, ho, hk, he⟩ := h s
  rcases hm : m s with ⟨o, t⟩
  rw [hm] at ho hk he
  cases ho with
  | @value a b hab =>
    rw [bind_of_value hm]
    obtain ⟨outcome, ho', hk', he'⟩ := hn a b hab t
    refine ⟨outcome, ho', hk.trans hk', fun hs => ?_⟩
    rw [bind_of_value (he hs)]
    exact he' (hk.grounded hs)
  | failure e =>
    rw [bind_of_failure hm]
    exact ⟨_, .failure e, hk, fun hs => bind_of_failure (he hs)⟩
  | outOfFuel =>
    rw [bind_of_outOfFuel hm]
    exact ⟨_, .outOfFuel, hk, fun hs => bind_of_outOfFuel (he hs)⟩

theorem update {change : Session → Session} (h : ∀ s, FramesKept s (change s)) :
    DisciplinedTo (fun _ _ => True) (Run.update change) (Run.update change) :=
  .same (fun _ => trivial) h

theorem inFrame {m : Run α} {m' : Run β} (h : DisciplinedTo V m m') :
    DisciplinedTo V m.inFrame m'.inFrame := by
  intro s
  obtain ⟨outcome, ho, hk, he⟩ := h s.openFrame
  refine ⟨outcome, ho, hk.closeFrame.toFramesKept, fun hs => ?_⟩
  unfold Run.inFrame
  rw [he hs.openFrame]

theorem inCall {m : Run α} {m' : Run β} (h : DisciplinedTo V m m') :
    DisciplinedTo V m.inCall m'.inCall := by
  intro s
  obtain ⟨outcome, ho, hk, he⟩ := h { s with callDepth := s.callDepth + 1 }
  refine ⟨outcome, ho, hk.endCall, fun hs => ?_⟩
  unfold Run.inCall
  rw [he hs]

theorem asCall {V : Value → Value → Prop} (name : String) (args : Nat) {m m' : Run Value}
    (h : DisciplinedTo V m m') : DisciplinedTo V (m.asCall name args) (m'.asCall name args) := by
  refine bind (V := Eq) (.same (fun _ => rfl) .refl) fun limit limit' hl => ?_
  subst hl
  cases limit with
  | some limit => exact .fail _
  | none => exact bind (.update fun s => .note s rfl) fun _ _ _ => h.inCall

end DisciplinedTo

/-- Keeping the frames, as a way to compare evaluators. -/
def discipline : Comparison Unit where
  Rel V m M := DisciplinedTo V m (M ())
  ids := Eq
  bodies := Eq
  ret := .ret
  fail := .fail
  bind h hn := h.bind hn
  inFrame h := h.inFrame
  asCall name args _ _ h := h.asCall name args
  lookup name := .same Value.Related.refl fun s => by
    rw [lookup_session]
    exact .refl s
  define name v w hv := by
    cases hv.eq
    exact .update fun s => .define s name v
  assign name v w hv := by
    cases hv.eq
    exact .update fun s => .assign s name v
  freshClosure := .same (fun _ => rfl) fun _ => ⟨rfl, fun _ h => h, rfl, [], rfl, .nil⟩
  scopeText := .same (fun _ => rfl) .refl
  writeLine text := .same (fun _ => trivial) fun s => by
    rw [writeLine_session]
    exact .write s _

namespace Disciplined

theorem watched {m m' : Run α} (h : Disciplined m m') (alarm : Run α) :
    Disciplined m (m'.watched alarm) := by
  intro s
  obtain ⟨hk, he⟩ := h s
  refine ⟨hk, fun hs => ?_⟩
  unfold Run.watched
  rw [if_pos hs, he hs, if_pos (hk.grounded hs)]

variable {ev ev' : Term → Run Value} (h : ∀ t, Disciplined (ev t) (ev' t))
include h

theorem follows : discipline.Follows ev fun _ => ev' := by
  rintro t u rfl
  show DisciplinedTo (Value.Related Eq Eq) (ev t) (ev' t)
  rw [Value.related_eq]
  exact disciplined_iff.1 (h t)

theorem evalAll (ts : List Term) (v : Value) :
    Disciplined (evalAll ev v ts) (evalAll ev' v ts) := by
  rw [disciplined_iff, ← Value.related_eq]
  exact Comparison.evalAll (follows h) (List.forall₂_same.2 fun _ _ => rfl) (.refl v)

/-- Where evaluation of the parts of terms keeps the frames, evaluation of the terms does. -/
theorem evalWith (fuel : Nat) (t : Term) :
    Disciplined (t.evalWith fuel ev) (t.evalWith fuel ev') := by
  rw [disciplined_iff, ← Value.related_eq]
  exact Comparison.evalWith (follows h) (Comparison.Rounds.const DisciplinedTo.outOfFuel fuel)
    (.of_refl (fun _ => rfl) t)

end Disciplined

/-! ## Runs -/

theorem disciplined_eval (alarm : Run Value) (fuel : Nat) (t : Term) :
    Disciplined (t.eval fuel) (t.evalWatched alarm fuel) := by
  induction fuel generalizing t with
  | zero => exact disciplined_iff.2 .outOfFuel
  | succ fuel ih => exact (Disciplined.evalWith ih fuel t).watched alarm

/-- **Evaluation keeps the frames**, however it ends. -/
theorem Term.eval_kept (fuel : Nat) (t : Term) (s : Session) : FramesKept s (t.eval fuel s).2 :=
  (disciplined_eval Run.outOfFuel fuel t s).1

/-- In a grounded session, an evaluation that is watched never gives alarm. -/
theorem Term.evalWatched_eq (alarm : Run Value) (fuel : Nat) (t : Term) {s : Session}
    (hs : s.Grounded) : t.evalWatched alarm fuel s = t.eval fuel s :=
  (disciplined_eval alarm fuel t s).2 hs

/-- A block leaves the names of all frames as they were. -/
theorem Term.eval_block_kept (fuel : Nat) (span : Span) (body : List Term) (s : Session) :
    NamesKept s ((Term.block span body).eval fuel s).2 := by
  cases fuel with
  | zero => exact ⟨.refl s, rfl⟩
  | succ fuel =>
    have h := Disciplined.evalAll (disciplined_eval Run.outOfFuel fuel) body .none
    exact (h s.openFrame).1.closeFrame

theorem Program.run_kept (fuel : Nat) (p : Program) (s : Session) :
    FramesKept s (p.run fuel s).2 :=
  (Disciplined.evalAll (disciplined_eval Run.outOfFuel fuel) p.statements .none s).1

theorem Program.runWatched_eq (alarm : Run Value) (fuel : Nat) (p : Program) {s : Session}
    (hs : s.Grounded) : p.runWatched alarm fuel s = p.run fuel s :=
  (Disciplined.evalAll (disciplined_eval alarm fuel) p.statements .none s).2 hs

theorem Session.evaluate_kept (fuel : Nat) (source : String) (s : Session) :
    FramesKept s (s.evaluate fuel source).2 := by
  unfold evaluate
  cases parseSource source with
  | error e => exact .refl s
  | ok p =>
    have h := (FramesKept.note s rfl).trans (p.run_kept fuel (s.note (.started p.statements.length)))
    rcases hr : p.run fuel (s.note (.started p.statements.length)) with ⟨o, t⟩
    rw [hr] at h
    simp only [hr]
    cases o <;> exact h

theorem Session.respond_kept (fuel : Nat) (line : String) (s : Session) :
    FramesKept s (s.respond fuel line).2 := by
  have h := s.evaluate_kept fuel line
  unfold respond
  split
  · exact .refl s
  · rcases hr : s.evaluate fuel line with ⟨o, t⟩
    rw [hr] at h
    cases o <;> exact h

/-! ## Idle sessions -/

/-- What a session can become that has just begun, between one input and the next. -/
inductive Session.Reachable : Session → Prop
  | start (maxCallDepth room : Option Nat) : Reachable (.start maxCallDepth room)
  | evaluate {s : Session} (fuel : Nat) (source : String) :
      Reachable s → Reachable (s.evaluate fuel source).2
  | respond {s : Session} (fuel : Nat) (line : String) :
      Reachable s → Reachable (s.respond fuel line).2
  | run {s : Session} (fuel : Nat) (p : Program) : Reachable s → Reachable (p.run fuel s).2
  | eval {s : Session} (fuel : Nat) (t : Term) : Reachable s → Reachable (t.eval fuel s).2
  | reset {s : Session} : Reachable s → Reachable s.reset
  | setMaxCallDepth {s : Session} (limit : Nat) :
      Reachable s → Reachable (s.setMaxCallDepth limit)
  | delivered {s : Session} : Reachable s → Reachable s.delivered

/-- No call is active, there is one frame outside the innermost one, which binds the names of the
built-ins, and the last frame was never to be removed. -/
structure Session.Idle (s : Session) : Prop where
  callDepth : s.callDepth = 0
  outer : s.scope.outer.map Frame.names = [builtinFrame.names]
  log : .refused ∉ s.log

namespace Session.Idle

variable {s t : Session}

theorem kept (h : s.Idle) (hk : FramesKept s t) : t.Idle :=
  ⟨hk.callDepth.trans h.callDepth, hk.outer.trans h.outer, hk.refused_notMem h.log⟩

theorem depth (h : s.Idle) : s.scope.depth = 2 := by
  have hl := congrArg List.length h.outer
  rw [List.length_map] at hl
  rw [Scope.depth, hl]
  rfl

theorem grounded (h : s.Idle) : s.Grounded :=
  .of_outer h.outer

end Session.Idle

/-- Between inputs, a session is idle. -/
theorem Session.Reachable.idle {s : Session} (h : s.Reachable) : s.Idle := by
  induction h with
  | start => exact ⟨rfl, rfl, by simp [Session.start]⟩
  | evaluate fuel source _ ih => exact ih.kept (evaluate_kept fuel source _)
  | respond fuel line _ ih => exact ih.kept (respond_kept fuel line _)
  | run fuel p _ ih => exact ih.kept (p.run_kept fuel _)
  | eval fuel t _ ih => exact ih.kept (t.eval_kept fuel _)
  | reset _ ih => exact ⟨rfl, rfl, by simpa [Session.reset] using ih.log⟩
  | setMaxCallDepth _ _ ih => exact ⟨ih.callDepth, ih.outer, ih.log⟩
  | delivered _ ih => exact ⟨ih.callDepth, ih.outer, by simp [Session.delivered]⟩

/-- **Frames are disciplined.** In any session, a term or a program leaves the frames, their names
and the active calls as `FramesKept` says, whether it ends with a value or with an error: what it
opened it closed, and that was never refused. A block leaves all names as they were. Between
inputs a session has two frames and no active call. The outer frame binds the names of the
built-ins, then and at every moment of an evaluation: one that is watched for it is the same,
whatever the alarm. -/
theorem frame_discipline :
    (∀ (s : Session) (fuel : Nat),
      (∀ t : Term, FramesKept s (t.eval fuel s).2 ∧
        (t.eval fuel s).2.scope.depth = s.scope.depth) ∧
      (∀ p : Program, FramesKept s (p.run fuel s).2 ∧
        (p.run fuel s).2.scope.depth = s.scope.depth) ∧
      ∀ (span : Span) (body : List Term),
        NamesKept s ((Term.block span body).eval fuel s).2) ∧
    ∀ s : Session, s.Reachable →
      s.scope.depth = 2 ∧ s.callDepth = 0 ∧ .refused ∉ s.log ∧
      s.scope.outer.map Frame.names = [["prime", "print", "stack"]] ∧
      ∀ (alarm : Run Value) (fuel : Nat),
        (∀ t : Term, t.evalWatched alarm fuel s = t.eval fuel s) ∧
        ∀ p : Program, p.runWatched alarm fuel s = p.run fuel s := by
  refine ⟨fun s fuel => ⟨fun t => ?_, fun p => ?_, fun span body => ?_⟩, fun s h => ?_⟩
  · have hk := t.eval_kept fuel s
    exact ⟨hk, hk.depth⟩
  · have hk := p.run_kept fuel s
    exact ⟨hk, hk.depth⟩
  · exact Term.eval_block_kept fuel span body s
  · have hi := h.idle
    have hg := hi.grounded
    refine ⟨hi.depth, hi.callDepth, hi.log, hi.outer, fun alarm fuel => ⟨fun t => ?_, fun p => ?_⟩⟩
    · exact t.evalWatched_eq alarm fuel hg
    · exact p.runWatched_eq alarm fuel hg

/-- A session after a program that failed in a block in a call: `f=lambda x:{1/0};f(1)`. -/
theorem frame_discipline_failure :
    ∃ p : Program, (p.run 10 (.start none none)).1 = .failure (.fault .divisionByZero) ∧
      (p.run 10 (.start none none)).2.scope.depth = 2 ∧
      (p.run 10 (.start none none)).2.callDepth = 0 := by
  have h (p : Program) := frame_discipline.2 _ (.run 10 p (.start none none))
  exact ⟨⟨[.assign default "f" (.lambda default ["x"] (.block default
    [.arith default .div (.number default 1) (.number default 0)])),
    .call default "f" [.number default 1]]⟩, rfl, (h _).1, (h _).2.1⟩

end Dynascope
