import Dynascope.Proofs.CallLimit
import Dynascope.Proofs.FramedRuns
import Dynascope.Proofs.Logs

/-! # An output that takes a number of bytes

A run whose output takes only so many bytes is the run without a limit up to the first write that
does not fit. It is either the same to its end, or it ends at that write: `Fills`. What follows then
is that frames are closed and calls are left (`Session.Unwound`), and no term is evaluated any more:
an evaluator that goes through a guard at every term (`Term.evalVia`) does the same, whatever the
guard does in sessions in which a write failed (`Run.untilCut`). This goes through the steps of
evaluation (`filling`), so it holds of all programs: `Program.sink_limit`.
-/

set_option autoImplicit false

namespace Dynascope

variable {α β γ δ : Type}

/-! ## Bytes of the output -/

/-- The bytes of a text. -/
def utf8Bytes (text : String) : List UInt8 :=
  text.toByteArray.data.toList

/-- The bytes that an event added to the output. -/
def Event.bytes : Event → List UInt8
  | wrote text bytes => (utf8Bytes text).take bytes
  | _ => []

/-- The bytes that the output took, in order. -/
def Log.bytes (log : Log) : List UInt8 :=
  log.reverse.flatMap Event.bytes

/-- A write of which the output did not take all. -/
def Event.isCut : Event → Bool
  | wrote text bytes => decide (bytes < text.utf8ByteSize)
  | _ => false

/-- The number of writes of which the output did not take all. -/
def Log.cuts (log : Log) : Nat :=
  log.countP Event.isCut

@[simp] theorem length_utf8Bytes (text : String) : (utf8Bytes text).length = text.utf8ByteSize := rfl

@[simp] theorem utf8Bytes_append (s t : String) : utf8Bytes (s ++ t) = utf8Bytes s ++ utf8Bytes t := by
  simp [utf8Bytes, String.toByteArray_append]

theorem Event.bytes_of_isFrame {event : Event} (h : event.isFrame = true) : event.bytes = [] := by
  cases event <;> first | rfl | cases h

theorem Event.isCut_of_isFrame {event : Event} (h : event.isFrame = true) :
    event.isCut = false := by
  cases event <;> first | rfl | cases h

/-- What an event wrote that was not cut is what it added to the output. -/
theorem Event.bytes_eq_written {event : Event} (h : event.isCut = false) :
    event.bytes = utf8Bytes event.written := by
  cases event with
  | wrote text taken =>
    have hle : text.utf8ByteSize ≤ taken := by simpa [isCut] using h
    rw [bytes, written, if_pos hle, List.take_of_length_le (by simpa using hle)]
  | _ => rfl

namespace Log

@[simp] theorem bytes_nil : bytes [] = [] := rfl

@[simp] theorem bytes_append (xs ys : Log) : bytes (xs ++ ys) = ys.bytes ++ xs.bytes := by
  simp [bytes]

@[simp] theorem bytes_cons (event : Event) (log : Log) :
    bytes (event :: log) = log.bytes ++ event.bytes := by
  simp [bytes]

theorem bytes_frames {closings : Log} (h : ∀ event ∈ closings, event.isFrame = true) :
    closings.bytes = [] := by
  refine List.flatMap_eq_nil_iff.2 fun event he => Event.bytes_of_isFrame (h event ?_)
  exact List.mem_reverse.1 he

theorem cuts_append_of_whole {xs : Log} (h : ∀ event ∈ xs, event.isCut = false) (ys : Log) :
    cuts (xs ++ ys) = cuts ys := by
  have hx : xs.countP Event.isCut = 0 := List.countP_eq_zero.2 (by simpa using h)
  rw [cuts, List.countP_append, hx, Nat.zero_add, cuts]

/-- Where nothing was cut, the bytes are those of the output. -/
theorem bytes_eq_output {log : Log} (h : ∀ event ∈ log, event.isCut = false) :
    log.bytes = utf8Bytes log.output := by
  induction log with
  | nil => rfl
  | cons event log ih =>
    obtain ⟨he, hl⟩ := List.forall_mem_cons.1 h
    have e : event :: log = [event] ++ log := rfl
    have ho : output [event] = event.written := by simp [output]
    rw [bytes_cons, ih hl, Event.bytes_eq_written he, e, output_append, utf8Bytes_append, ho]

end Log

/-! ## Evaluation with a guard -/

/-- Evaluation that goes through `guard` at every term. -/
def Term.evalVia (guard : Run Value → Run Value) : Nat → Term → Run Value
  | 0, _ => Run.outOfFuel
  | fuel + 1, t => guard (t.evalWith fuel (evalVia guard fuel))

def Program.runVia (guard : Run Value → Run Value) (fuel : Nat) (p : Program) : Run Value :=
  evalAll (Term.evalVia guard fuel) .none p.statements

/-- A computation that gives way to another where the number of writes that were cut is not `cuts`
any more. -/
def Run.untilCut (cuts : Nat) (alarm m : Run Value) : Run Value := fun s =>
  if s.log.cuts = cuts then m s else alarm s

/-- Without a guard this is evaluation. -/
theorem Term.evalVia_id (fuel : Nat) : Term.evalVia id fuel = Term.eval fuel := by
  induction fuel with
  | zero => rfl
  | succ fuel ih =>
    funext t
    rw [evalVia, ih, eval, id]

theorem Program.runVia_id (fuel : Nat) (p : Program) : p.runVia id fuel = p.run fuel := by
  rw [runVia, Term.evalVia_id, run]

/-! ## Sessions with less room -/

/-- A session with another number of bytes that the output takes. -/
def Session.withRoom (s : Session) (room : Option Nat) : Session :=
  { s with room }

/-- What a session becomes when frames are closed and calls are left and nothing else is done. -/
inductive Session.Unwound (s : Session) : Session → Prop
  | refl : Unwound s s
  | closeFrame {t : Session} : Unwound s t → Unwound s t.closeFrame
  | leaveCall {t : Session} : Unwound s t → Unwound s t.leaveCall

theorem Session.Unwound.exists_closings {s t : Session} (h : s.Unwound t) :
    ∃ closings, t.log = closings ++ s.log ∧ ∀ event ∈ closings, event.isFrame = true := by
  induction h with
  | refl => exact ⟨[], rfl, by simp⟩
  | @closeFrame t _ ih =>
    obtain ⟨closings, hlog, hc⟩ := ih
    obtain ⟨event, he, hran⟩ := Ran.closeFrame t
    refine ⟨event :: closings, ?_, List.forall_mem_cons.2 ⟨he, hc⟩⟩
    rw [hran.log, hlog]
    rfl
  | leaveCall _ ih => exact ih

theorem Session.Unwound.room {s t : Session} (h : s.Unwound t) : t.room = s.room := by
  induction h with
  | refl => rfl
  | @closeFrame t _ ih =>
    rw [← ih, Session.closeFrame]
    cases t.scope.pop? <;> rfl
  | leaveCall _ ih => exact ih

theorem Session.closeFrame_withRoom (s : Session) (room : Option Nat) :
    (s.withRoom room).closeFrame = s.closeFrame.withRoom room := by
  unfold closeFrame withRoom
  cases s.scope.pop? <;> rfl

/-- Events of a run whose output takes everything. -/
structure Whole (s t : Session) (events : Log) : Prop where
  log : t.log = events ++ s.log
  room : t.room = none
  whole : ∀ event ∈ events, event.isCut = false

namespace Whole

variable {s t u : Session} {xs ys : Log}

theorem refl (h : s.room = none) : Whole s s [] :=
  ⟨rfl, h, by simp⟩

theorem trans (h : Whole s t xs) (h' : Whole t u ys) : Whole s u (ys ++ xs) where
  log := by rw [h'.log, h.log, List.append_assoc]
  room := h'.room
  whole := List.forall_mem_append.2 ⟨h'.whole, h.whole⟩

theorem cuts_eq (h : Whole s t xs) : t.log.cuts = s.log.cuts := by
  rw [h.log, Log.cuts_append_of_whole h.whole]

theorem openFrame (h : s.room = none) : Whole s s.openFrame [.opened] :=
  ⟨rfl, h, by simp [Event.isCut]⟩

theorem closeFrame (h : s.room = none) :
    ∃ event, event.isFrame = true ∧ Whole s s.closeFrame [event] := by
  obtain ⟨event, he, hran⟩ := Ran.closeFrame s
  refine ⟨event, he, hran.log, ?_, by simpa using Event.isCut_of_isFrame he⟩
  rw [← h, (Session.Unwound.refl.closeFrame (s := s)).room]

end Whole

/-! ## Runs with less room -/

/-- The session after a run that ended at the first write that did not fit in `n` bytes, when frames
were closed and calls were left. It began with a log, and the events are those that follow where the
output takes everything. -/
inductive CutShort (n : Nat) (log : Log) : Log → Session → Prop
  | intro {later before : Log} {text : String} {u t : Session} :
      u.log = before ++ log → u.room = some (n - before.bytes.length) →
      before.bytes.length ≤ n → n < before.bytes.length + text.utf8ByteSize →
      (u.write text).1.Unwound t →
      CutShort n log (later ++ .wrote text text.utf8ByteSize :: before) t

namespace CutShort

variable {n : Nat} {s t u : Session} {log xs ys : Log}

/-- The run whose output takes everything goes on. -/
theorem later (h : CutShort n log xs t) (ys : Log) : CutShort n log (ys ++ xs) t := by
  cases h with
  | intro hlog hroom hle hlt ht =>
    rw [← List.append_assoc]
    exact .intro hlog hroom hle hlt ht

/-- Cut short after a while. -/
theorem after (hle : xs.bytes.length ≤ n)
    (h : CutShort (n - xs.bytes.length) (xs ++ log) ys t) : CutShort n log (ys ++ xs) t := by
  cases h with
  | @intro _ before text u _ hlog hroom hle' hlt ht =>
    have hlen : (before ++ xs).bytes.length = xs.bytes.length + before.bytes.length := by simp
    rw [List.append_assoc, List.cons_append]
    refine .intro (u := u) ?_ ?_ ?_ ?_ ht
    · rw [hlog, List.append_assoc]
    · rw [hroom, hlen, Nat.sub_sub]
    · omega
    · omega

theorem closeFrame (h : CutShort n log xs t) : CutShort n log xs t.closeFrame := by
  cases h with
  | intro hlog hroom hle hlt ht => exact .intro hlog hroom hle hlt ht.closeFrame

theorem leaveCall (h : CutShort n log xs t) : CutShort n log xs t.leaveCall := by
  cases h with
  | intro hlog hroom hle hlt ht => exact .intro hlog hroom hle hlt ht.leaveCall

/-- What the output took is the start of what it takes without a limit. -/
theorem bytes (h : CutShort n log xs t) :
    n < xs.bytes.length ∧ ∃ ys, t.log = ys ++ log ∧ ys.bytes = xs.bytes.take n := by
  cases h with
  | @intro later before text u _ hlog hroom hle hlt ht =>
    have hbytes : Log.bytes (later ++ .wrote text text.utf8ByteSize :: before) =
        before.bytes ++ (utf8Bytes text ++ later.bytes) := by
      simp [Event.bytes, ← length_utf8Bytes]
    rw [hbytes]
    refine ⟨by simp; omega, ?_⟩
    obtain ⟨closings, hclose, hc⟩ := ht.exists_closings
    have hmin : min (n - before.bytes.length) text.utf8ByteSize = n - before.bytes.length :=
      Nat.min_eq_left (by omega)
    refine ⟨closings ++ .wrote text (n - before.bytes.length) :: before, ?_, ?_⟩
    · rw [hclose, Session.write, hroom]
      simp [hmin, hlog]
    · rw [Log.bytes_append, Log.bytes_frames hc, List.append_nil, Log.bytes_cons, Event.bytes,
        List.take_append, List.take_of_length_le hle, List.take_append_of_le_length (by simp; omega)]

end CutShort

/-- What may be done at every term, if it does nothing where this number of writes were cut. -/
abbrev Guard (cuts : Nat) : Type :=
  { guard : Run Value → Run Value // ∀ m s, s.log.cuts = cuts → guard m s = m s }

/-- With room for `n` bytes, all of the second computations do what the first does with room for
everything, or all are cut short. -/
def Fills (cuts : Nat) (V : α → β → Prop) (m : Run α) (M : Guard cuts → Run β) : Prop :=
  ∀ s n, s.room = none → s.log.cuts = cuts → ∃ outcome events,
    (m s).1.Related V outcome ∧ Whole s (m s).2 events ∧
      (events.bytes.length ≤ n ∧ (∀ guard, M guard (s.withRoom (some n)) =
          (outcome, (m s).2.withRoom (some (n - events.bytes.length)))) ∨
        ∃ t, CutShort n s.log events t ∧
          ∀ guard, M guard (s.withRoom (some n)) = (.failure .sinkFull, t))

namespace Fills

variable {cuts : Nat} {V : α → β → Prop} {W : γ → δ → Prop}

/-- A step that writes nothing and does not look at the room. -/
theorem of_step {V : α → α → Prop} {m : Run α} (hV : ∀ a, V a a)
    (h : ∀ s, s.room = none → ∃ events, Whole s (m s).2 events ∧ events.bytes = [] ∧
      ∀ room, m (s.withRoom room) = ((m s).1, (m s).2.withRoom room)) :
    Fills cuts V m fun _ => m := by
  intro s n hs _
  obtain ⟨events, hw, hb, he⟩ := h s hs
  refine ⟨(m s).1, events, .refl hV _, hw, .inl ⟨?_, fun _ => ?_⟩⟩
  · simp [hb]
  · have e := he (some n)
    simpa [hb] using e

/-- A step without events. -/
theorem of_quiet {V : α → α → Prop} {m : Run α} (hV : ∀ a, V a a)
    (h : ∀ s, (m s).2.log = s.log ∧ (m s).2.room = s.room ∧
      ∀ room, m (s.withRoom room) = ((m s).1, (m s).2.withRoom room)) :
    Fills cuts V m fun _ => m :=
  of_step hV fun s hs =>
    ⟨[], ⟨(h s).1, (h s).2.1.trans hs, by simp⟩, rfl, (h s).2.2⟩

theorem ret {a : α} {b : β} (h : V a b) : Fills cuts V (pure a) fun _ => pure b :=
  fun _ _ hs _ => ⟨_, [], .value h, .refl hs, .inl ⟨Nat.zero_le _, fun _ => rfl⟩⟩

theorem fail (e : RuntimeError) : Fills cuts V (Run.fail e) fun _ => Run.fail e :=
  fun _ _ hs _ => ⟨_, [], .failure e, .refl hs, .inl ⟨Nat.zero_le _, fun _ => rfl⟩⟩

theorem outOfFuel : Fills cuts V Run.outOfFuel fun _ => Run.outOfFuel :=
  fun _ _ hs _ => ⟨_, [], .outOfFuel, .refl hs, .inl ⟨Nat.zero_le _, fun _ => rfl⟩⟩

theorem bind {m : Run α} {M : Guard cuts → Run β} {next : α → Run γ}
    {Next : Guard cuts → β → Run δ} (h : Fills cuts V m M)
    (hn : ∀ a b, V a b → Fills cuts W (next a) fun guard => Next guard b) :
    Fills cuts W (m >>= next) fun guard => M guard >>= Next guard := by
  intro s n hs hc
  obtain ⟨outcome, xs, ho, hw, hl⟩ := h s n hs hc
  rcases hm : m s with ⟨o, t⟩
  rw [hm] at ho hw hl
  cases ho with
  | @value a b hab =>
    rw [bind_of_value hm]
    rcases hl with ⟨hle, he⟩ | ⟨u, hu, he⟩
    · obtain ⟨outcome, ys, ho', hw', hl'⟩ :=
        hn a b hab t (n - xs.bytes.length) hw.room (hw.cuts_eq.trans hc)
      refine ⟨outcome, ys ++ xs, ho', hw.trans hw', ?_⟩
      have hlen : (ys ++ xs).bytes.length = xs.bytes.length + ys.bytes.length := by simp
      rcases hl' with ⟨hle', he'⟩ | ⟨u, hu, he'⟩
      · refine .inl ⟨by omega, fun guard => ?_⟩
        have e := (bind_of_value (he guard)).trans (he' guard)
        rwa [Nat.sub_sub, ← hlen] at e
      · exact .inr ⟨u, (hw.log ▸ hu).after hle, fun guard =>
          (bind_of_value (he guard)).trans (he' guard)⟩
    -- the room ends the run in its first part, while the run with room for everything goes on
    · obtain ⟨outcome, ys, ho', hw', -⟩ := hn a b hab t 0 hw.room (hw.cuts_eq.trans hc)
      exact ⟨outcome, ys ++ xs, ho', hw.trans hw',
        .inr ⟨u, hu.later ys, fun guard => bind_of_failure (he guard)⟩⟩
  | failure e =>
    rw [bind_of_failure hm]
    refine ⟨_, xs, .failure e, hw, ?_⟩
    rcases hl with ⟨hle, he⟩ | ⟨u, hu, he⟩
    · exact .inl ⟨hle, fun guard => bind_of_failure (he guard)⟩
    · exact .inr ⟨u, hu, fun guard => bind_of_failure (he guard)⟩
  | outOfFuel =>
    rw [bind_of_outOfFuel hm]
    refine ⟨_, xs, .outOfFuel, hw, ?_⟩
    rcases hl with ⟨hle, he⟩ | ⟨u, hu, he⟩
    · exact .inl ⟨hle, fun guard => bind_of_outOfFuel (he guard)⟩
    · exact .inr ⟨u, hu, fun guard => bind_of_failure (he guard)⟩

theorem inFrame {m : Run α} {M : Guard cuts → Run β} (h : Fills cuts V m M) :
    Fills cuts V m.inFrame fun guard => (M guard).inFrame := by
  intro s n hs hc
  have hopen := Whole.openFrame hs
  obtain ⟨outcome, xs, ho, hw, hl⟩ := h s.openFrame n hs (hopen.cuts_eq.trans hc)
  obtain ⟨event, hev, hclose⟩ := Whole.closeFrame hw.room
  have hb : Log.bytes ([event] ++ (xs ++ [.opened])) = xs.bytes := by
    have ho : Event.opened.bytes = [] := rfl
    simp [Event.bytes_of_isFrame hev, ho]
  have close {r r' : Result β} (e : r = r') : (r.1, r.2.closeFrame) = (r'.1, r'.2.closeFrame) :=
    e ▸ rfl
  refine ⟨outcome, _, ho, (hopen.trans hw).trans hclose, ?_⟩
  rw [hb]
  rcases hl with ⟨hle, he⟩ | ⟨t, ht, he⟩
  · refine .inl ⟨hle, fun guard => (close (he guard)).trans ?_⟩
    rw [Session.closeFrame_withRoom]
    rfl
  · have ht : CutShort n s.log (xs ++ [.opened]) t := .after (Nat.zero_le n) ht
    exact .inr ⟨_, ht.closeFrame.later [event], fun guard => close (he guard)⟩

theorem inCall {m : Run α} {M : Guard cuts → Run β} (h : Fills cuts V m M) :
    Fills cuts V m.inCall fun guard => (M guard).inCall := by
  intro s n hs hc
  obtain ⟨outcome, xs, ho, hw, hl⟩ := h s.enterCall n hs hc
  have leave {r r' : Result β} (e : r = r') : (r.1, r.2.leaveCall) = (r'.1, r'.2.leaveCall) :=
    e ▸ rfl
  refine ⟨outcome, xs, ho, ⟨hw.log, hw.room, hw.whole⟩, ?_⟩
  rcases hl with ⟨hle, he⟩ | ⟨t, ht, he⟩
  · exact .inl ⟨hle, fun guard => leave (he guard)⟩
  · exact .inr ⟨_, ht.leaveCall, fun guard => leave (he guard)⟩

theorem asCall {V : Value → Value → Prop} (name : String) (args : Nat) {m : Run Value}
    {M : Guard cuts → Run Value} (h : Fills cuts V m M) :
    Fills cuts V (m.asCall name args) fun guard => (M guard).asCall name args := by
  refine bind (V := Eq) (.of_quiet (fun _ => rfl) fun s => ⟨rfl, rfl, fun _ => rfl⟩) ?_
  rintro limit _ rfl
  cases limit with
  | some limit => exact .fail _
  | none =>
    refine bind (V := Eq) (.of_step (fun _ => rfl) fun s hs => ?_) fun _ _ _ => h.inCall
    refine ⟨[.called name args s.callDepth], ⟨rfl, hs, ?_⟩, rfl, fun _ => rfl⟩
    simp [Event.isCut]

theorem lookup (name : String) :
    Fills cuts (Value.Related Eq Eq) (Run.lookup name) fun _ => Run.lookup name := by
  refine of_quiet Value.Related.refl fun s => ?_
  rw [lookup_session]
  refine ⟨rfl, rfl, fun room => ?_⟩
  show Run.ofExcept (s.scope.lookup name) (s.withRoom room) =
    ((Run.ofExcept (s.scope.lookup name) s).1, _)
  cases s.scope.lookup name <;> rfl

/-- The one step that looks at the room. -/
theorem writeLine (text : String) :
    Fills cuts (fun _ _ => True) (Run.writeLine text) fun _ => Run.writeLine text := by
  intro s n hs _
  generalize hl : text ++ "\n" = line
  let event := Event.wrote line line.utf8ByteSize
  have hb : Log.bytes [event] = utf8Bytes line := by
    simp [event, Event.bytes, ← length_utf8Bytes]
  have hw : Whole s (s.note event) [event] := ⟨rfl, hs, by simp [event, Event.isCut]⟩
  have hfree : Run.writeLine text s = (.value (), s.note event) := by
    simp [Run.writeLine, Session.write, hs, hl, event]
  rw [hfree]
  refine ⟨.value (), [event], .value trivial, hw, ?_⟩
  rw [hb, length_utf8Bytes]
  by_cases hle : line.utf8ByteSize ≤ n
  · refine .inl ⟨hle, fun _ => ?_⟩
    simp [Run.writeLine, Session.write, Session.withRoom, Session.note, hl, hle, event]
  · refine .inr ⟨((s.withRoom (some n)).write line).1, ?_, fun _ => ?_⟩
    · have hcut : CutShort n s.log ([] ++ event :: []) ((s.withRoom (some n)).write line).1 :=
        .intro (u := s.withRoom (some n)) rfl rfl (Nat.zero_le n)
          (by simpa using Nat.lt_of_not_le hle) .refl
      exact hcut
    · simp [Run.writeLine, Session.write, Session.withRoom, hl, hle]

/-- What is done at a term may depend on whether a write was cut. -/
theorem guarded {m : Run Value} {M : Guard cuts → Run Value} {V : Value → Value → Prop}
    (h : Fills cuts V m M) : Fills cuts V m fun guard => guard.1 (M guard) := by
  intro s n hs hc
  obtain ⟨outcome, xs, ho, hw, hl⟩ := h s n hs hc
  have e (guard : Guard cuts) : guard.1 (M guard) (s.withRoom (some n)) =
      M guard (s.withRoom (some n)) := guard.2 _ _ hc
  refine ⟨outcome, xs, ho, hw, ?_⟩
  rcases hl with ⟨hle, he⟩ | ⟨t, ht, he⟩
  · exact .inl ⟨hle, fun guard => (e guard).trans (he guard)⟩
  · exact .inr ⟨t, ht, fun guard => (e guard).trans (he guard)⟩

end Fills

/-- Runs with less room, as a way to compare evaluators. -/
def filling (cuts : Nat) : Comparison (Guard cuts) where
  Rel := Fills cuts
  ids := Eq
  bodies := Eq
  ret := .ret
  fail := .fail
  bind h hn := h.bind hn
  inFrame h := h.inFrame
  asCall name args _ _ h := h.asCall name args
  lookup := .lookup
  define name v w hv := by
    cases hv.eq
    exact .of_quiet (fun _ => trivial) fun _ => ⟨rfl, rfl, fun _ => rfl⟩
  assign name v w hv := by
    cases hv.eq
    exact .of_quiet (fun _ => trivial) fun _ => ⟨rfl, rfl, fun _ => rfl⟩
  freshClosure := .of_quiet (fun _ => rfl) fun _ => ⟨rfl, rfl, fun _ => rfl⟩
  scopeText := .of_quiet (fun _ => rfl) fun _ => ⟨rfl, rfl, fun _ => rfl⟩
  writeLine := .writeLine

theorem filling_follows (cuts fuel : Nat) :
    (filling cuts).Follows (Term.eval fuel) fun guard => Term.evalVia guard.1 fuel := by
  induction fuel with
  | zero => exact fun _ _ _ => Fills.outOfFuel
  | succ fuel ih =>
    rintro t u rfl
    have h := Comparison.evalWith ih (Comparison.Rounds.const Fills.outOfFuel fuel)
      (.of_refl (fun _ => rfl) t)
    exact Fills.guarded h

/-! ## Programs -/

namespace Program

/-- With less room, a program does what it does with room for everything, or it is cut short,
whatever is done at its terms after that. -/
theorem run_fits (fuel n : Nat) (p : Program) (s : Session) :
    ∃ events, Whole (s.withRoom none) (p.run fuel (s.withRoom none)).2 events ∧
      (events.bytes.length ≤ n ∧ (∀ guard : Guard s.log.cuts,
          p.runVia guard.1 fuel (s.withRoom (some n)) = ((p.run fuel (s.withRoom none)).1,
            (p.run fuel (s.withRoom none)).2.withRoom (some (n - events.bytes.length)))) ∨
        ∃ t, CutShort n s.log events t ∧ ∀ guard : Guard s.log.cuts,
          p.runVia guard.1 fuel (s.withRoom (some n)) = (.failure .sinkFull, t)) := by
  have h : Fills s.log.cuts (Value.Related Eq Eq) (p.run fuel) fun guard =>
      p.runVia guard.1 fuel :=
    Comparison.evalAll (filling_follows s.log.cuts fuel) (List.forall₂_same.2 fun _ _ => rfl) .none
  obtain ⟨outcome, events, ho, hw, hl⟩ := h (s.withRoom none) n rfl rfl
  rw [Value.related_eq] at ho
  rw [← ho.eq] at hl
  exact ⟨events, hw, hl⟩

/-- After a write that was cut nothing is evaluated. -/
theorem runVia_untilCut (alarm : Run Value) (fuel n : Nat) (p : Program) (s : Session) :
    p.runVia (Run.untilCut s.log.cuts alarm) fuel (s.withRoom (some n)) =
      p.run fuel (s.withRoom (some n)) := by
  let guard : Guard s.log.cuts := ⟨Run.untilCut s.log.cuts alarm, fun m s hs => if_pos hs⟩
  let free : Guard s.log.cuts := ⟨id, fun _ _ _ => rfl⟩
  have e : p.runVia guard.1 fuel (s.withRoom (some n)) =
      p.runVia free.1 fuel (s.withRoom (some n)) := by
    obtain ⟨events, -, ⟨-, he⟩ | ⟨t, -, he⟩⟩ := p.run_fits fuel n s
    · rw [he guard, he free]
    · rw [he guard, he free]
  rw [← runVia_id]
  exact e

variable {p : Program} {s : Session} {r : Result Value}

/-- **An output with a limit cuts a run off at the limit and nowhere else.** Where a program ends
with an output that takes everything, and writes at most `n` bytes, it does the same if the output
takes `n` bytes. If it writes more, it fails at the first write that does not fit, after the same
events, and the output has the first `n` bytes: nothing is left to do then but to close frames and
to leave calls, as many as were opened and made. In no case a term is evaluated after a write that
was cut: an evaluation that does something else there is the same. -/
theorem sink_limit (h : p.Ends (s.withRoom none) r) (n : Nat) :
    ∃ events, r.2.log = events ++ s.log ∧
      ((utf8Bytes events.output).length ≤ n → p.Ends (s.withRoom (some n))
        (r.1, r.2.withRoom (some (n - (utf8Bytes events.output).length)))) ∧
      (n < (utf8Bytes events.output).length → ∃ t,
        p.Ends (s.withRoom (some n)) (.failure .sinkFull, t) ∧ CutShort n s.log events t ∧
        (∃ kept, t.log = kept ++ s.log ∧ kept.bytes = (utf8Bytes events.output).take n) ∧
        t.scope.depth = s.scope.depth ∧ t.callDepth = s.callDepth) ∧
      ∀ (alarm : Run Value) (fuel : Nat),
        p.runVia (Run.untilCut s.log.cuts alarm) fuel (s.withRoom (some n)) =
          p.run fuel (s.withRoom (some n)) := by
  obtain ⟨hr, fuel, rfl⟩ := h
  obtain ⟨events, hw, hl⟩ := p.run_fits fuel n s
  let free : Guard s.log.cuts := ⟨id, fun _ _ _ => rfl⟩
  have hfree : p.runVia free.1 fuel (s.withRoom (some n)) = p.run fuel (s.withRoom (some n)) :=
    congrFun (p.runVia_id fuel) _
  refine ⟨events, hw.log, ?_, ?_, fun alarm fuel => p.runVia_untilCut alarm fuel n s⟩
  all_goals
    rw [← Log.bytes_eq_output hw.whole]
    intro hn
  · rcases hl with ⟨-, he⟩ | ⟨t, ht, -⟩
    · exact ⟨hr, fuel, hfree.symm.trans (he free)⟩
    · exact absurd ht.bytes.1 (Nat.not_lt.2 hn)
  · rcases hl with ⟨hle, -⟩ | ⟨t, ht, he⟩
    · exact absurd hn (Nat.not_lt.2 hle)
    · have hrun := hfree.symm.trans (he free)
      have hkept := p.run_kept fuel (s.withRoom (some n))
      rw [hrun] at hkept
      exact ⟨t, ⟨by simp, fuel, hrun⟩, ht, ht.bytes.2, hkept.depth, hkept.callDepth⟩

/-- An output that takes five bytes: the second write is made in a block. -/
theorem sink_limit_block :
    ∃ (p : Program) (t : Session) (kept : Log),
      parseSource "\x7bprint(12);stack()\x7d;print(3)" = .ok p ∧
      p.Ends (.start none (some 5)) (.failure .sinkFull, t) ∧ t.log = kept ++ [.opened] ∧
      kept.bytes = utf8Bytes "12\n[\x7b" ∧ t.scope.depth = 2 ∧ t.callDepth = 0 := by
  let s := Session.start none none
  let events : Log := [.wrote "3\n" 2, .closed, .wrote "[\x7b\x7d, \x7b\x7d]\n" 9, .wrote "12\n" 3,
    .opened]
  obtain ⟨p, hp, hv, hlog⟩ : ∃ p : Program,
      parseSource "\x7bprint(12);stack()\x7d;print(3)" = .ok p ∧
        (p.run 20 s).1 = .value (.int 3) ∧ (p.run 20 s).2.log = events ++ s.log :=
    ⟨_, by cbv, by cbv, by cbv⟩
  have hends : p.Ends (s.withRoom none) (p.run 20 s) := ⟨by simp [hv], 20, rfl⟩
  obtain ⟨events', hlog', -, hcut, -⟩ := sink_limit hends 5
  cases List.append_cancel_right (hlog'.symm.trans hlog)
  obtain ⟨t, ht, -, ⟨kept, hkept, hbytes⟩, hdepth, hcalls⟩ := hcut (by decide)
  exact ⟨p, t, kept, hp, ht, hkept, hbytes.trans (by decide), hdepth, hcalls⟩

end Program

end Dynascope
