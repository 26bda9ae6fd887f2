import Mathlib
import Dynascope.Proofs.Frames
import Dynascope.Proofs.Limit

/-! # The limit on active calls

A run under a limit is the run without one up to the first call for which the limit leaves no
room. It is either the same to its end, and all calls are `Within` the limit, or it is `CutOff` at
that call: `Curbed`. This goes through the steps of evaluation (`curbing`), so it holds of all
programs (`Program.run_limited`), and says what a limit does to them in an idle session:
`Program.call_limit`.
-/

set_option autoImplicit false

namespace Dynascope

variable {α β γ δ : Type}

/-! ## Sessions under a limit -/

/-- A session under another limit on active calls. -/
def Session.limited (s : Session) (limit : Option Nat) : Session :=
  { s with maxCallDepth := limit }

theorem Session.limited_self {s : Session} {limit : Option Nat} (h : s.maxCallDepth = limit) :
    s.limited limit = s := by
  subst h
  rfl

/-- A session with one more active call. -/
def Session.enterCall (s : Session) : Session :=
  { s with callDepth := s.callDepth + 1 }

/-- A session with one active call less. -/
def Session.leaveCall (s : Session) : Session :=
  { s with callDepth := s.callDepth - 1 }

theorem inCall_eq (m : Run α) (s : Session) :
    m.inCall s = ((m s.enterCall).1, (m s.enterCall).2.leaveCall) := rfl

/-- Not a call that makes more calls active than the limit. -/
def Event.Within (limit : Nat) : Event → Prop
  | called _ _ depth => depth < limit
  | _ => True

instance (limit : Nat) : (event : Event) → Decidable (event.Within limit)
  | .called _ _ depth => inferInstanceAs (Decidable (depth < limit))
  | .cleared | .opened | .closed | .refused | .started _ | .wrote _ _ => isTrue trivial

/-- No call makes more calls active than the limit. -/
def Log.Within (limit : Nat) (log : Log) : Prop :=
  ∀ event ∈ log, event.Within limit

instance (limit : Nat) (log : Log) : Decidable (log.Within limit) :=
  inferInstanceAs (Decidable (∀ event ∈ log, event.Within limit))

theorem Log.Within.append {limit : Nat} {xs ys : Log} (hx : xs.Within limit)
    (hy : ys.Within limit) : Log.Within limit (xs ++ ys) :=
  List.forall_mem_append.2 ⟨hx, hy⟩

theorem Event.within_of_isFrame {limit : Nat} {event : Event} (h : event.isFrame = true) :
    event.Within limit := by
  cases event <;> trivial

/-- Events of a run, which leaves the calls as they were. -/
structure Ran (s t : Session) (events : Log) : Prop where
  log : t.log = events ++ s.log
  callDepth : t.callDepth = s.callDepth
  maxCallDepth : t.maxCallDepth = s.maxCallDepth

namespace Ran

variable {s t u : Session} {xs ys : Log}

theorem refl (s : Session) : Ran s s [] :=
  ⟨rfl, rfl, rfl⟩

theorem trans (h : Ran s t xs) (h' : Ran t u ys) : Ran s u (ys ++ xs) :=
  ⟨by rw [h'.log, h.log, List.append_assoc], h'.callDepth.trans h.callDepth,
    h'.maxCallDepth.trans h.maxCallDepth⟩

/-- What was added to the log is all that happened. -/
theorem events_eq (h : Ran s t xs) (h' : t.log = ys ++ s.log) : xs = ys :=
  List.append_cancel_right (h.log.symm.trans h')

theorem note (s : Session) (event : Event) : Ran s (s.note event) [event] :=
  ⟨rfl, rfl, rfl⟩

theorem write (s : Session) (text : String) :
    ∃ taken, Ran s (s.write text).1 [.wrote text taken] := by
  unfold Session.write
  cases s.room with
  | none => exact ⟨_, rfl, rfl, rfl⟩
  | some room => exact ⟨_, rfl, rfl, rfl⟩

theorem closeFrame (s : Session) : ∃ event, event.isFrame = true ∧ Ran s s.closeFrame [event] := by
  unfold Session.closeFrame
  cases s.scope.pop? with
  | none => exact ⟨.refused, rfl, rfl, rfl, rfl⟩
  | some scope => exact ⟨.closed, rfl, rfl, rfl, rfl⟩

/-- A run in a frame of its own. -/
theorem inFrame (h : Ran s.openFrame t xs) :
    ∃ event, event.isFrame = true ∧ Ran s t.closeFrame (event :: (xs ++ [.opened])) := by
  obtain ⟨event, he, hc⟩ := closeFrame t
  have ho : Ran s s.openFrame [.opened] := ⟨rfl, rfl, rfl⟩
  exact ⟨event, he, (ho.trans h).trans hc⟩

/-- A run as one more active call. -/
theorem inCall (h : Ran s.enterCall t xs) : Ran s t.leaveCall xs :=
  ⟨h.log, Nat.sub_eq_of_eq_add h.callDepth, h.maxCallDepth⟩

end Ran

theorem Session.closeFrame_limited (s : Session) (limit : Option Nat) :
    (s.limited limit).closeFrame = s.closeFrame.limited limit := by
  unfold closeFrame limited
  cases s.scope.pop? <;> rfl

theorem Session.write_limited (s : Session) (limit : Option Nat) (text : String) :
    (s.limited limit).write text = ((s.write text).1.limited limit, (s.write text).2) := by
  obtain ⟨scope, calls, limit', room, next, log⟩ := s
  cases room <;> rfl

theorem exceeded?_limited (s : Session) (limit : Nat) :
    (s.limited (some limit)).exceeded? = if limit ≤ s.callDepth then some limit else none := by
  by_cases h : limit ≤ s.callDepth <;> simp [Session.exceeded?, Session.limited, Option.filter, h]

/-! ## Runs under a limit -/

/-- A run that is cut off at the first call for which the limit leaves no room; what was open then
is closed. The events are those of the run without a limit. -/
inductive CutOff (limit : Nat) (s : Session) : Log → Result α → Prop
  | intro {later before closings : Log} {name : String} {args : Nat} {t : Session} :
      before.Within limit → (∀ event ∈ closings, event.isFrame = true) →
      Ran (s.limited (some limit)) t (closings ++ before) →
      CutOff limit s (later ++ .called name args limit :: before)
        (.failure (.callDepthExceeded limit), t)

/-- Under the limit, the second computation does what the first does without limit, or it is cut
off. The first one keeps the calls, also where the limit is passed already. -/
def Curbed (limit : Nat) (V : α → β → Prop) (m : Run α) (m' : Run β) : Prop :=
  ∀ s, s.maxCallDepth = none → ∃ outcome events,
    (m s).1.Related V outcome ∧ Ran s (m s).2 events ∧
      (s.callDepth ≤ limit →
        events.Within limit ∧
            m' (s.limited (some limit)) = (outcome, (m s).2.limited (some limit)) ∨
          CutOff limit s events (m' (s.limited (some limit))))

namespace CutOff

variable {limit : Nat} {s t : Session} {xs ys : Log} {r : Result α}

/-- What is cut off does not go on. -/
theorem bind {m : Run α} (h : CutOff limit s xs (m t)) (next : α → Run β) :
    CutOff limit s xs ((m >>= next) t) := by
  rcases hm : m t with ⟨o, u⟩
  rw [hm] at h
  cases h with
  | intro hw hc hran =>
    rw [bind_of_failure hm]
    exact .intro hw hc hran

/-- The run without limit goes on. -/
theorem later (h : CutOff limit s xs r) (ys : Log) : CutOff limit s (ys ++ xs) r := by
  cases h with
  | intro hw hc hran =>
    rw [← List.append_assoc]
    exact .intro hw hc hran

/-- Cut off after a while. -/
theorem after (hran : Ran s t xs) (hw : xs.Within limit) (h : CutOff limit t ys r) :
    CutOff limit s (ys ++ xs) r := by
  cases h with
  | intro hb hc hran' =>
    have hran : Ran (s.limited (some limit)) (t.limited (some limit)) xs :=
      ⟨hran.log, hran.callDepth, rfl⟩
    rw [List.append_assoc, List.cons_append]
    refine .intro (hb.append hw) hc ?_
    rw [← List.append_assoc]
    exact hran.trans hran'

/-- Cut off in a call. -/
theorem inCall (h : CutOff limit s.enterCall xs r) : CutOff limit s xs (r.1, r.2.leaveCall) := by
  cases h with
  | @intro _ before closings _ _ t hw hc hran =>
    have hran : Ran (s.limited (some limit)).enterCall t (closings ++ before) := hran
    exact .intro hw hc hran.inCall

/-- Cut off in a frame. -/
theorem closeFrame (h : CutOff limit s xs r) : CutOff limit s xs (r.1, r.2.closeFrame) := by
  cases h with
  | @intro _ _ _ _ _ t hw hc hran =>
    obtain ⟨event, he, hclose⟩ := Ran.closeFrame t
    exact .intro hw (List.forall_mem_cons.2 ⟨he, hc⟩) (hran.trans hclose)

theorem not_within (h : CutOff limit s xs r) : ¬ xs.Within limit := by
  cases h with
  | @intro _ _ _ name args =>
    intro hw
    exact Nat.lt_irrefl limit (hw (.called name args limit) (by simp))

end CutOff

namespace Curbed

variable {limit : Nat} {V : α → β → Prop} {W : γ → δ → Prop}

/-- A step that does not look at the limit and makes no call. -/
theorem of_step {V : α → α → Prop} {m : Run α} (hV : ∀ a, V a a)
    (h : ∀ s, ∃ events, Ran s (m s).2 events ∧ events.Within limit ∧
      m (s.limited (some limit)) = ((m s).1, (m s).2.limited (some limit))) :
    Curbed limit V m m := by
  intro s _
  obtain ⟨events, hran, hw, he⟩ := h s
  exact ⟨(m s).1, events, .refl hV _, hran, fun _ => .inl ⟨hw, he⟩⟩

/-- A step without events. -/
theorem of_quiet {V : α → α → Prop} {m : Run α} (hV : ∀ a, V a a) (hran : ∀ s, Ran s (m s).2 [])
    (h : ∀ s, m (s.limited (some limit)) = ((m s).1, (m s).2.limited (some limit))) :
    Curbed limit V m m :=
  of_step hV fun s => ⟨[], hran s, by simp [Log.Within], h s⟩

theorem ret {a : α} {b : β} (h : V a b) : Curbed limit V (pure a) (pure b) :=
  fun s _ => ⟨_, [], .value h, .refl s, fun _ => .inl ⟨by simp [Log.Within], rfl⟩⟩

theorem fail (e : RuntimeError) : Curbed limit V (Run.fail e) (Run.fail e) :=
  fun s _ => ⟨_, [], .failure e, .refl s, fun _ => .inl ⟨by simp [Log.Within], rfl⟩⟩

theorem outOfFuel : Curbed limit V Run.outOfFuel Run.outOfFuel :=
  fun s _ => ⟨_, [], .outOfFuel, .refl s, fun _ => .inl ⟨by simp [Log.Within], rfl⟩⟩

theorem bind {m : Run α} {m' : Run β} {next : α → Run γ} {next' : β → Run δ}
    (h : Curbed limit V m m') (hn : ∀ a b, V a b → Curbed limit W (next a) (next' b)) :
    Curbed limit W (m >>= next) (m' >>= next') := by
  intro s hs
  obtain ⟨outcome, xs, ho, hran, hl⟩ := h s hs
  rcases hm : m s with ⟨o, t⟩
  rw [hm] at ho hran hl
  cases ho with
  | @value a b hab =>
    rw [bind_of_value hm]
    obtain ⟨outcome, ys, ho', hran', hl'⟩ := hn a b hab t (hran.maxCallDepth.trans hs)
    refine ⟨outcome, ys ++ xs, ho', hran.trans hran', fun hd => ?_⟩
    rcases hl hd with ⟨hw, he⟩ | hc
    · rw [bind_of_value he]
      rcases hl' (hran.callDepth ▸ hd) with ⟨hw', he'⟩ | hc'
      · exact .inl ⟨hw'.append hw, he'⟩
      · exact .inr (hc'.after hran hw)
    -- the limit ends the run in its first part, while the run without limit goes on
    · exact .inr ((hc.bind next').later ys)
  | failure e =>
    rw [bind_of_failure hm]
    refine ⟨_, xs, .failure e, hran, fun hd => ?_⟩
    rcases hl hd with ⟨hw, he⟩ | hc
    · exact .inl ⟨hw, bind_of_failure he⟩
    · exact .inr (hc.bind next')
  | outOfFuel =>
    rw [bind_of_outOfFuel hm]
    refine ⟨_, xs, .outOfFuel, hran, fun hd => ?_⟩
    rcases hl hd with ⟨hw, he⟩ | hc
    · exact .inl ⟨hw, bind_of_outOfFuel he⟩
    · exact .inr (hc.bind next')

theorem inFrame {m : Run α} {m' : Run β} (h : Curbed limit V m m') :
    Curbed limit V m.inFrame m'.inFrame := by
  intro s hs
  obtain ⟨outcome, xs, ho, hran, hl⟩ := h s.openFrame hs
  obtain ⟨event, he, hran'⟩ := hran.inFrame
  refine ⟨outcome, _, ho, hran', fun hd => ?_⟩
  have hopen : Ran s s.openFrame [.opened] := ⟨rfl, rfl, rfl⟩
  have howithin : Log.Within limit [.opened] := by simp [Log.Within, Event.Within]
  rcases hl hd with ⟨hw, e⟩ | hc
  · refine .inl ⟨List.forall_mem_cons.2 ⟨Event.within_of_isFrame he, hw.append howithin⟩, ?_⟩
    show ((m' (s.openFrame.limited (some limit))).1,
      (m' (s.openFrame.limited (some limit))).2.closeFrame) = _
    rw [e, Session.closeFrame_limited]
    rfl
  · exact .inr ((hc.after hopen howithin).closeFrame.later [event])

/-- A call: the one step that looks at the limit. -/
theorem asCall {V : Value → Value → Prop} (name : String) (args : Nat) {m m' : Run Value}
    (h : Curbed limit V m m') : Curbed limit V (m.asCall name args) (m'.asCall name args) := by
  intro s hs
  generalize he : Event.called name args s.callDepth = event
  have hnote := Ran.note s event
  obtain ⟨outcome, xs, ho, hran, hl⟩ := h (s.note event).enterCall hs
  have hroom : s.exceeded? = none := by rw [Session.exceeded?, hs]; rfl
  rw [asCall_of_room name args m hroom, he, inCall_eq]
  refine ⟨outcome, xs ++ [event], ho, hnote.trans hran.inCall, fun hd => ?_⟩
  rcases Nat.lt_or_eq_of_le hd with hd | hd
  -- room for this call, so both runs go into the body
  · have hroom : (s.limited (some limit)).exceeded? = none := by
      rw [exceeded?_limited, if_neg (Nat.not_le.2 hd)]
    have hw : Log.Within limit [event] := by
      simpa [Log.Within, ← he, Event.Within] using hd
    have hm' : m'.asCall name args (s.limited (some limit)) =
        m'.inCall ((s.note event).limited (some limit)) := by
      rw [asCall_of_room name args m' hroom, ← he]
      rfl
    rw [hm', inCall_eq]
    rcases hl hd with ⟨hx, e⟩ | hc
    · refine .inl ⟨hx.append hw, ?_⟩
      exact congrArg (fun r : Result Value => (r.1, r.2.leaveCall)) e
    · exact .inr (hc.inCall.after hnote hw)
  -- no room, so nothing of the body happens under the limit
  · have hfull : (s.limited (some limit)).exceeded? = some limit := by
      rw [exceeded?_limited, if_pos (Nat.le_of_eq hd.symm)]
    rw [asCall_of_exceeded name args m' hfull]
    rw [← he, hd]
    have hnow : Ran (s.limited (some limit)) (s.limited (some limit)) ([] ++ []) := .refl _
    exact .inr (.intro (by simp [Log.Within]) (by simp) hnow)

theorem lookup (name : String) :
    Curbed limit (Value.Related Eq Eq) (Run.lookup name) (Run.lookup name) := by
  refine of_quiet Value.Related.refl (fun s => ?_) fun s => ?_
  · rw [lookup_session]
    exact .refl s
  · show Run.ofExcept (s.scope.lookup name) (s.limited (some limit)) =
      ((Run.ofExcept (s.scope.lookup name) s).1,
        (Run.ofExcept (s.scope.lookup name) s).2.limited (some limit))
    cases s.scope.lookup name <;> rfl

theorem writeLine (text : String) :
    Curbed limit (fun _ _ => True) (Run.writeLine text) (Run.writeLine text) := by
  refine of_step (fun _ => trivial) fun s => ?_
  obtain ⟨taken, hran⟩ := Ran.write s (text ++ "\n")
  have hw : Log.Within limit [.wrote (text ++ "\n") taken] := by simp [Log.Within, Event.Within]
  rw [← writeLine_session] at hran
  refine ⟨_, hran, hw, ?_⟩
  unfold Run.writeLine
  rw [Session.write_limited]
  rcases s.write (text ++ "\n") with ⟨t, _ | _⟩ <;> rfl

end Curbed

/-- The run under a limit, as a way to compare evaluators. -/
def curbing (limit : Nat) : Comparison Unit where
  Rel V m M := Curbed limit V m (M ())
  ids := Eq
  bodies := Eq
  ret := .ret
  fail := .fail
  bind h hn := h.bind hn
  inFrame h := h.inFrame
  asCall name args _ _ h := h.asCall name args
  lookup := .lookup
  define name v w hv := by
    cases hv.eq
    exact .of_quiet (fun _ => trivial) (fun s => ⟨rfl, rfl, rfl⟩) fun _ => rfl
  assign name v w hv := by
    cases hv.eq
    exact .of_quiet (fun _ => trivial) (fun s => ⟨rfl, rfl, rfl⟩) fun _ => rfl
  freshClosure := .of_quiet (fun _ => rfl) (fun s => ⟨rfl, rfl, rfl⟩) fun _ => rfl
  scopeText := .of_quiet (fun _ => rfl) (fun s => ⟨rfl, rfl, rfl⟩) fun _ => rfl
  writeLine := .writeLine

/-! ## Programs under a limit -/

theorem Log.Within.mono {limit more : Nat} (hle : limit ≤ more) {log : Log}
    (h : log.Within limit) : log.Within more := by
  intro event hm
  have hw := h event hm
  cases event with
  | called name args depth => exact Nat.lt_of_lt_of_le hw hle
  | _ => trivial

theorem Log.output_frames {closings : Log} (h : ∀ event ∈ closings, event.isFrame = true)
    (log : Log) : Log.output (closings ++ log) = log.output := by
  unfold Log.output
  rw [List.foldl_append]
  congr 1
  induction closings with
  | nil => rfl
  | cons event closings ih =>
    obtain ⟨he, hc⟩ := List.forall_mem_cons.1 h
    rw [List.foldl_cons, Event.written_of_isFrame he, String.append_empty]
    exact ih hc

namespace Program

variable (p : Program) {s : Session}

/-- Under a limit, a program does what it does without one, or it is cut off. -/
theorem run_limited (fuel limit : Nat) (hd : s.callDepth ≤ limit) :
    ∃ events, Ran (s.limited none) (p.run fuel (s.limited none)).2 events ∧
      (events.Within limit ∧
          p.run fuel (s.limited (some limit)) =
            ((p.run fuel (s.limited none)).1,
              (p.run fuel (s.limited none)).2.limited (some limit)) ∨
        CutOff limit (s.limited none) events (p.run fuel (s.limited (some limit)))) := by
  have h : Curbed limit (Value.Related Eq Eq) (p.run fuel) (p.run fuel) :=
    Comparison.run_self (C := curbing limit) rfl Curbed.outOfFuel fuel p
  obtain ⟨outcome, events, ho, hran, hl⟩ := h (s.limited none) rfl
  refine ⟨events, hran, (hl hd).imp ?_ id⟩
  rintro ⟨hw, he⟩
  rw [Value.related_eq] at ho
  rw [ho.eq]
  exact ⟨hw, he⟩

variable {p} {r : Result Value} {events : Log} {limit : Nat}

theorem Ends.of_within (h : p.Ends (s.limited none) r) (hd : s.callDepth ≤ limit)
    (hlog : r.2.log = events ++ s.log) (hw : events.Within limit) :
    p.Ends (s.limited (some limit)) (r.1, r.2.limited (some limit)) := by
  obtain ⟨hr, fuel, rfl⟩ := h
  obtain ⟨events', hran, ⟨-, he⟩ | hc⟩ := p.run_limited fuel limit hd
  · exact ⟨hr, fuel, he⟩
  · exact absurd hw (hran.events_eq hlog ▸ hc.not_within)

theorem ends_of_not_within {fuel : Nat} (hd : s.callDepth ≤ limit)
    (hlog : (p.run fuel (s.limited none)).2.log = events ++ s.log) (hw : ¬ events.Within limit) :
    ∃ r, p.Ends (s.limited (some limit)) r ∧ CutOff limit (s.limited none) events r := by
  obtain ⟨events', hran, ⟨hw', -⟩ | hc⟩ := p.run_limited fuel limit hd
  · exact absurd (hran.events_eq hlog ▸ hw') hw
  · rw [hran.events_eq hlog] at hc
    refine ⟨_, ⟨fun hr => ?_, fuel, rfl⟩, hc⟩
    generalize p.run fuel (s.limited (some limit)) = r at hc hr
    cases hc
    cases hr

/-- Where a program is not cut off under a limit, it is not under a higher one either. -/
theorem Ends.raise (h : p.Ends (s.limited (some limit)) r) (hd : s.callDepth ≤ limit)
    (hne : r.1 ≠ .failure (.callDepthExceeded limit)) {more : Option Nat}
    (hmore : ∀ n ∈ more, limit ≤ n) : p.Ends (s.limited more) (r.1, r.2.limited more) := by
  obtain ⟨hr, fuel, rfl⟩ := h
  obtain ⟨events, hran, ⟨hw, he⟩ | hc⟩ := p.run_limited fuel limit hd
  · rw [he] at hr ⊢
    have hfree : p.Ends (s.limited none) (p.run fuel (s.limited none)) := ⟨hr, fuel, rfl⟩
    cases more with
    | none =>
      have hm : (p.run fuel (s.limited none)).2.maxCallDepth = none := hran.maxCallDepth
      exact ⟨hr, fuel, Prod.ext rfl (Session.limited_self hm).symm⟩
    | some n =>
      have hle := hmore n rfl
      exact hfree.of_within (Nat.le_trans hd hle) hran.log (hw.mono hle)
  · generalize p.run fuel (s.limited (some limit)) = r at hc hne
    cases hc
    exact absurd rfl hne

variable (p)

/-- **The limit on calls only cuts runs off, exactly at the limit.** In a session without active
calls, a program that ends without a limit, and never has more calls active than the limit, does
the same under the limit. Where, ending or not, it makes a call that makes one more active, it
ends under the limit at the first such call, with the error that names the limit, after the same
events and the same output, and no call stays active. Raising the limit, or dropping it, does not
change what a program does that did not end with that error. -/
theorem call_limit (hs : s.callDepth = 0) (limit : Nat) :
    (∀ r events, p.Ends (s.limited none) r → r.2.log = events ++ s.log → events.Within limit →
      p.Ends (s.limited (some limit)) (r.1, r.2.limited (some limit))) ∧
    (∀ fuel events, (p.run fuel (s.limited none)).2.log = events ++ s.log →
      ¬ events.Within limit →
      ∃ (later : Log) (name : String) (args : Nat) (before closings : Log) (t : Session),
        events = later ++ .called name args limit :: before ∧ before.Within limit ∧
        p.Ends (s.limited (some limit)) (.failure (.callDepthExceeded limit), t) ∧
        t.callDepth = 0 ∧ t.maxCallDepth = some limit ∧
        t.log = closings ++ before ++ s.log ∧ (∀ event ∈ closings, event.isFrame = true) ∧
        Log.output (closings ++ before) = before.output) ∧
    ∀ (more : Option Nat) (r : Result Value), (∀ n ∈ more, limit ≤ n) →
      p.Ends (s.limited (some limit)) r → r.1 ≠ .failure (.callDepthExceeded limit) →
      p.Ends (s.limited more) (r.1, r.2.limited more) := by
  have hd : s.callDepth ≤ limit := hs ▸ Nat.zero_le limit
  refine ⟨fun r events h hlog hw => h.of_within hd hlog hw, fun fuel events hlog hw => ?_,
    fun more r hmore h hne => h.raise hd hne hmore⟩
  obtain ⟨r, h, hc⟩ := ends_of_not_within hd hlog hw
  cases hc with
  | @intro later before closings name args t hb hcl hran =>
    exact ⟨later, name, args, before, closings, t, rfl, hb, h, hran.callDepth.trans hs,
      hran.maxCallDepth, hran.log, hcl, Log.output_frames hcl before⟩

/-- A function that calls itself until three calls are active. -/
theorem call_limit_recursion :
    ∃ p : Program, parseSource "f=lambda n:if(n<1):{0}else f(n-1);f(2)" = .ok p ∧
      (∃ t, p.Ends (.start (some 2) none) (.failure (.callDepthExceeded 2), t) ∧
        t.callDepth = 0) ∧
      (∃ t, p.Ends (.start (some 3) none) (.value (.int 0), t)) ∧
      ∃ t, p.Ends (.start (some 4) none) (.value (.int 0), t) := by
  let s := Session.start none none
  let events : Log := [.closed, .closed, .closed, .closed, .opened, .opened, .called "f" 1 2,
    .opened, .called "f" 1 1, .opened, .called "f" 1 0]
  obtain ⟨p, hp, hv, hlog⟩ : ∃ p : Program,
      parseSource "f=lambda n:if(n<1):{0}else f(n-1);f(2)" = .ok p ∧
        (p.run 20 s).1 = .value (.int 0) ∧ (p.run 20 s).2.log = events ++ s.log :=
    ⟨_, by cbv, by cbv, by cbv⟩
  refine ⟨p, hp, ?_⟩
  have hends : p.Ends s (p.run 20 s) := ⟨by simp [hv], 20, rfl⟩
  have h₃ := (p.call_limit (s := s) rfl 3).1 _ events hends hlog (by decide)
  have h₄ := (p.call_limit (s := s) rfl 3).2.2 (some 4) _ (by simp) h₃ (by simp [hv])
  obtain ⟨-, -, -, -, -, t, -, -, h₂, ht, -⟩ :=
    (p.call_limit (s := s) rfl 2).2.1 20 events hlog (by decide)
  rw [hv] at h₃ h₄
  exact ⟨⟨t, h₂, ht⟩, ⟨_, h₃⟩, ⟨_, h₄⟩⟩

end Program

end Dynascope
