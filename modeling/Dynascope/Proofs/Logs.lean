import Dynascope.Proofs.Limit

/-! # Runs and the log

Nothing that a program does depends on what happened before. A run adds its events to the log and
does the same, with the same events, in a session with another log: `Relogs`, which goes through
the steps of evaluation (`relogging`) and so holds of all programs (`Program.Ends.withLog`).
-/

set_option autoImplicit false

namespace Dynascope

variable {α β γ δ : Type}

/-! ## Output -/

/-- What was written before stands before what was written after it. -/
theorem Log.output_append (xs ys : Log) : Log.output (xs ++ ys) = ys.output ++ xs.output := by
  have hfold : ∀ (zs : Log) (text : String),
      zs.foldl (fun rest event => event.written ++ rest) text = zs.output ++ text := by
    intro zs
    unfold output
    induction zs with
    | nil => simp
    | cons event zs ih =>
      intro text
      rw [List.foldl_cons, List.foldl_cons, ih, ih (event.written ++ "")]
      simp [String.append_assoc]
  have h : Log.output (xs ++ ys) = ys.foldl (fun rest event => event.written ++ rest) xs.output := by
    unfold output
    rw [List.foldl_append]
  rw [h, hfold]

/-- Events that wrote nothing can be left out. -/
theorem Log.output_filter {keep : Event → Bool}
    (h : ∀ event, keep event = false → event.written = "") (log : Log) :
    Log.output (log.filter keep) = log.output := by
  unfold output
  rw [List.foldl_filter]
  congr 1
  funext rest event
  cases hk : keep event <;> simp [h event, hk]

/-! ## Sessions with another log -/

/-- A session with another log. -/
def Session.withLog (s : Session) (log : Log) : Session :=
  { s with log }

namespace Session

variable (s : Session) (log : Log)

/-- The removal of a frame adds one event, the same whatever the log. -/
theorem closeFrame_withLog :
    ∃ event, s.closeFrame.log = event :: s.log ∧
      (s.withLog log).closeFrame = s.closeFrame.withLog (event :: log) := by
  unfold closeFrame withLog
  cases s.scope.pop? with
  | none => exact ⟨.refused, rfl, rfl⟩
  | some scope => exact ⟨.closed, rfl, rfl⟩

theorem write_withLog (text : String) :
    ∃ event, (s.write text).1.log = event :: s.log ∧
      (s.withLog log).write text = ((s.write text).1.withLog (event :: log), (s.write text).2) := by
  obtain ⟨scope, calls, limit, room, next, log'⟩ := s
  cases room with
  | none => exact ⟨_, rfl, rfl⟩
  | some room => exact ⟨_, rfl, rfl⟩

end Session

/-! ## Runs in sessions with another log -/

/-- In a session with another log, the second computation ends as the first does, with related
values, and adds the same events. -/
def Relogs (V : α → β → Prop) (m : Run α) (m' : Run β) : Prop :=
  ∀ s log, ∃ outcome events, (m s).1.Related V outcome ∧ (m s).2.log = events ++ s.log ∧
    m' (s.withLog log) = (outcome, (m s).2.withLog (events ++ log))

namespace Relogs

variable {V : α → β → Prop} {W : γ → δ → Prop}

theorem of_step {V : α → α → Prop} {m : Run α} (hV : ∀ a, V a a)
    (h : ∀ s log, ∃ events, (m s).2.log = events ++ s.log ∧
      m (s.withLog log) = ((m s).1, (m s).2.withLog (events ++ log))) : Relogs V m m := by
  intro s log
  obtain ⟨events, hlog, he⟩ := h s log
  exact ⟨(m s).1, events, .refl hV _, hlog, he⟩

/-- A step without events. -/
theorem of_quiet {V : α → α → Prop} {m : Run α} (hV : ∀ a, V a a)
    (h : ∀ s log, (m s).2.log = s.log ∧ m (s.withLog log) = ((m s).1, (m s).2.withLog log)) :
    Relogs V m m :=
  of_step hV fun s log => ⟨[], h s log⟩

theorem ret {a : α} {b : β} (h : V a b) : Relogs V (pure a) (pure b) :=
  fun _ _ => ⟨_, [], .value h, rfl, rfl⟩

theorem fail (e : RuntimeError) : Relogs V (Run.fail e) (Run.fail e) :=
  fun _ _ => ⟨_, [], .failure e, rfl, rfl⟩

theorem outOfFuel : Relogs V Run.outOfFuel Run.outOfFuel :=
  fun _ _ => ⟨_, [], .outOfFuel, rfl, rfl⟩

theorem bind {m : Run α} {m' : Run β} {next : α → Run γ} {next' : β → Run δ} (h : Relogs V m m')
    (hn : ∀ a b, V a b → Relogs W (next a) (next' b)) :
    Relogs W (m >>= next) (m' >>= next') := by
  intro s log
  obtain ⟨outcome, xs, ho, hlog, he⟩ := h s log
  rcases hm : m s with ⟨o, t⟩
  rw [hm] at ho hlog he
  cases ho with
  | @value a b hab =>
    obtain ⟨outcome, ys, ho', hlog', he'⟩ := hn a b hab t (xs ++ log)
    rw [bind_of_value hm, bind_of_value he]
    rw [← List.append_assoc] at he'
    exact ⟨outcome, ys ++ xs, ho', by rw [hlog', hlog, List.append_assoc], he'⟩
  | failure e =>
    rw [bind_of_failure hm, bind_of_failure he]
    exact ⟨_, xs, .failure e, hlog, rfl⟩
  | outOfFuel =>
    rw [bind_of_outOfFuel hm, bind_of_outOfFuel he]
    exact ⟨_, xs, .outOfFuel, hlog, rfl⟩

theorem inFrame {m : Run α} {m' : Run β} (h : Relogs V m m') : Relogs V m.inFrame m'.inFrame := by
  intro s log
  obtain ⟨outcome, events, ho, hlog, he⟩ := h s.openFrame (.opened :: log)
  obtain ⟨event, hc, he'⟩ := Session.closeFrame_withLog (m s.openFrame).2 (events ++ .opened :: log)
  have hlog : (m s.openFrame).2.log = events ++ .opened :: s.log := hlog
  refine ⟨outcome, event :: (events ++ [.opened]), ho, ?_, ?_⟩
  · show (m s.openFrame).2.closeFrame.log = _
    rw [hc, hlog]
    simp
  · show ((m' (s.openFrame.withLog (.opened :: log))).1,
      (m' (s.openFrame.withLog (.opened :: log))).2.closeFrame) = _
    rw [he]
    simp only [he', List.cons_append, List.append_assoc, List.nil_append]
    rfl

theorem inCall {m m' : Run Value} {V : Value → Value → Prop} (h : Relogs V m m') :
    Relogs V m.inCall m'.inCall := by
  intro s log
  obtain ⟨outcome, events, ho, hlog, he⟩ := h { s with callDepth := s.callDepth + 1 } log
  exact ⟨outcome, events, ho, hlog, congrArg (fun r : Result Value =>
    (r.1, { r.2 with callDepth := r.2.callDepth - 1 })) he⟩

theorem asCall {V : Value → Value → Prop} (name : String) (args : Nat) {m m' : Run Value}
    (h : Relogs V m m') : Relogs V (m.asCall name args) (m'.asCall name args) := by
  refine Relogs.bind (V := Eq) (.of_quiet (fun _ => rfl) fun s log => ⟨rfl, rfl⟩) ?_
  rintro limit _ rfl
  cases limit with
  | some limit => exact .fail _
  | none =>
    refine Relogs.bind (V := Eq) (.of_step (fun _ => rfl) fun s log => ?_) fun _ _ _ => h.inCall
    exact ⟨[.called name args s.callDepth], rfl, rfl⟩

theorem lookup (name : String) :
    Relogs (Value.Related Eq Eq) (Run.lookup name) (Run.lookup name) := by
  refine of_quiet Value.Related.refl fun s log => ⟨by rw [lookup_session], ?_⟩
  show Run.ofExcept (s.scope.lookup name) (s.withLog log) =
    ((Run.ofExcept (s.scope.lookup name) s).1,
      (Run.ofExcept (s.scope.lookup name) s).2.withLog log)
  cases s.scope.lookup name <;> rfl

theorem writeLine (text : String) :
    Relogs (fun _ _ => True) (Run.writeLine text) (Run.writeLine text) := by
  refine of_step (fun _ => trivial) fun s log => ?_
  obtain ⟨event, hlog, he⟩ := s.write_withLog log (text ++ "\n")
  refine ⟨[event], ?_, ?_⟩
  · rw [writeLine_session, hlog]
    rfl
  · unfold Run.writeLine
    rw [he]
    rcases s.write (text ++ "\n") with ⟨t, _ | _⟩ <;> rfl

end Relogs

/-- Runs in sessions with another log, as a way to compare evaluators. -/
def relogging : Comparison Unit where
  Rel V m M := Relogs V m (M ())
  ids := Eq
  bodies := Eq
  ret := .ret
  fail := .fail
  bind h hn := h.bind hn
  inFrame h := h.inFrame
  asCall name args _ _ h := h.asCall name args
  lookup := .lookup
  define name v w hv := by
    cases hv.eq
    exact .of_quiet (fun _ => trivial) fun _ _ => ⟨rfl, rfl⟩
  assign name v w hv := by
    cases hv.eq
    exact .of_quiet (fun _ => trivial) fun _ _ => ⟨rfl, rfl⟩
  freshClosure := .of_quiet (fun _ => rfl) fun _ _ => ⟨rfl, rfl⟩
  scopeText := .of_quiet (fun _ => rfl) fun _ _ => ⟨rfl, rfl⟩
  writeLine := .writeLine

/-! ## Programs -/

namespace Program

variable {p : Program} {s : Session} {r : Result Value}

/-- A program adds to the log what happens, which does not depend on what the log holds. -/
theorem run_withLog (fuel : Nat) (p : Program) (s : Session) (log : Log) :
    ∃ events, (p.run fuel s).2.log = events ++ s.log ∧
      p.run fuel (s.withLog log) =
        ((p.run fuel s).1, (p.run fuel s).2.withLog (events ++ log)) := by
  have h : Relogs (Value.Related Eq Eq) (p.run fuel) (p.run fuel) :=
    Comparison.run_self (C := relogging) rfl Relogs.outOfFuel fuel p
  obtain ⟨outcome, events, ho, hlog, he⟩ := h s log
  rw [Value.related_eq] at ho
  rw [← ho.eq] at he
  exact ⟨events, hlog, he⟩

theorem Ends.withLog (h : p.Ends s r) (log : Log) :
    ∃ events, r.2.log = events ++ s.log ∧
      p.Ends (s.withLog log) (r.1, r.2.withLog (events ++ log)) := by
  obtain ⟨hr, fuel, rfl⟩ := h
  obtain ⟨events, hlog, he⟩ := p.run_withLog fuel s log
  exact ⟨events, hlog, hr, fuel, he⟩

end Program

end Dynascope
