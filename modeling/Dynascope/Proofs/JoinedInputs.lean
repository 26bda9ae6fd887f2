import Dynascope.Proofs.JoinedSources
import Dynascope.Proofs.Logs

/-! # Inputs one after the other

A program that consists of two does what the first does and then, if that has a value, what the
second does (`Program.Ends.append`). Where the second one stands in its source does not matter
(`Program.Ends.unplaced`), nor what the log holds when it begins. So two sources in one input have
the effect of two inputs, one after the other: `evaluates_joined`.
-/

set_option autoImplicit false

namespace Dynascope

/-! ## Terms without places -/

/-- A term without its place in a source: all spans are empty. -/
def Term.unplaced : Term → Term :=
  Term.move fun _ => 0

theorem Term.move_move (f g : Nat → Nat) (t : Term) : (t.move f).move g = t.move (g ∘ f) := by
  induction t with
  | forLoop span name first limit bodySpan body hf hl hb =>
    rw [move_forLoop, move_forLoop, move_forLoop]
    cases first <;> simp_all [Span.move]
  | _ => simp_all [move, Span.move]

theorem Term.unplaced_move (f : Nat → Nat) (t : Term) : (t.move f).unplaced = t.unplaced :=
  move_move f _ t

theorem Span.move_zero (span : Span) : span.move (fun _ => 0) = default := rfl

theorem Term.mapParts_unplaced (t : Term) : t.mapParts unplaced = t.unplaced := by
  cases t with
  | forLoop => simp [mapParts, unplaced, move_forLoop, Span.move_zero]
  | _ => simp [mapParts, unplaced, move, Span.move_zero]

/-- **Places do not matter**, neither in a term nor in the closures that it calls. -/
theorem follows_unplaced (fuel : Nat) :
    Follows Term.unplaced (fun _ => False) (Term.eval fuel) fun k => Term.eval k := by
  induction fuel with
  | zero => exact fun _ _ _ => .outOfFuel
  | succ fuel ih =>
    intro t u e
    have e : t.mapParts Term.unplaced = u.mapParts Term.unplaced := by
      rw [Term.mapParts_unplaced, Term.mapParts_unplaced, e]
    exact .shift (Tracks.evalWith ih e ⟨fuel, fun _ hk => hk⟩)

/-! ## Programs one after the other -/

theorem evalAll_append (ev : Term → Run Value) (v : Value) (xs ys : List Term) :
    evalAll ev v (xs ++ ys) = evalAll ev v xs >>= fun w => evalAll ev w ys := by
  induction xs generalizing v with
  | nil => rfl
  | cons t xs ih =>
    show (ev t >>= fun w => evalAll ev w (xs ++ ys)) = ev t >>= _ >>= _
    rw [bind_assoc]
    exact congrArg _ (funext fun w => ih w)

namespace Program

variable {p q : Program} {s s' t : Session} {v : Value} {r : Result Value}

theorem run_append (fuel : Nat) (p q : Program) :
    (p ++ q).run fuel = p.run fuel >>= fun v => evalAll (Term.eval fuel) v q.statements :=
  evalAll_append _ _ _ _

/-- Statements after a value have their own value, unless there are none. -/
theorem evalAll_eq_run (fuel : Nat) (v : Value) (s : Session) :
    evalAll (Term.eval fuel) v q.statements s =
      (if q.statements = [] then .value v else (q.run fuel s).1, (q.run fuel s).2) := by
  unfold run
  cases q.statements with
  | nil => rfl
  | cons t ts =>
    rw [if_neg (List.cons_ne_nil t ts)]
    rfl

/-- A failure of the first program is one of both. -/
theorem Ends.append_failure {e : RuntimeError} (h : p.Ends s (.failure e, t)) (q : Program) :
    (p ++ q).Ends s (.failure e, t) := by
  obtain ⟨hr, fuel, hf⟩ := h
  exact ⟨hr, fuel, by rw [run_append, bind_of_failure hf]⟩

/-- The second program goes on where the first one ended with a value. -/
theorem Ends.append (h : p.Ends s (.value v, t)) (h' : q.Ends t r) :
    (p ++ q).Ends s (if q.statements = [] then .value v else r.1, r.2) := by
  obtain ⟨hv, fuel, hf⟩ := h
  obtain ⟨hr, fuel', rfl⟩ := h'
  refine ⟨?_, max fuel fuel', ?_⟩
  · split
    · exact hv
    · exact hr
  · have hp : p.run (max fuel fuel') s = (.value v, t) := by
      rw [run_mono (Nat.le_max_left _ _) (by simp [hf]), hf]
    have hq := run_mono (Nat.le_max_right fuel fuel') hr
    rw [run_append, bind_of_value hp, evalAll_eq_run, hq]

/-- Where both programs end, the first one ends, and the second one after it. -/
theorem Ends.of_append (h : (p ++ q).Ends s r) :
    ∃ r, p.Ends s r ∧ ∀ v t, r = (.value v, t) → ∃ r', q.Ends t r' := by
  obtain ⟨hr, fuel, rfl⟩ := h
  rw [run_append] at hr
  refine ⟨_, ⟨fun ho => hr ?_, fuel, rfl⟩, fun v t hv => ⟨_, fun ho => hr ?_, fuel, rfl⟩⟩
  · rw [bind_of_outOfFuel (Prod.ext ho rfl)]
  · have hne : q.statements ≠ [] := fun hn => by
      rw [run, hn] at ho
      cases ho
    rw [bind_of_value hv, evalAll_eq_run, if_neg hne, ho]

/-- Where a program ends, one ends alike that stands elsewhere. -/
theorem Ends.unplaced (h : p.Ends s r)
    (e : p.statements.map Term.unplaced = q.statements.map Term.unplaced)
    (hs : s.mapBodies Term.unplaced = s'.mapBodies Term.unplaced) :
    ∃ r', q.Ends s' r' ∧ r.1.Related (Value.Same Term.unplaced) r'.1 ∧
      r.2.mapBodies Term.unplaced = r'.2.mapBodies Term.unplaced := by
  obtain ⟨r', h', ha⟩ := h.follow follows_unplaced e hs
  exact ⟨r', h', ha.related⟩

end Program

/-! ## What an input does -/

/-- How a program ends, as the way in which its input ends. -/
def Outcome.asInput {α : Type} : Outcome RuntimeError α → Outcome EvalError α
  | .value a => .value a
  | .failure e => .failure (.runtime e)
  | .outOfFuel => .outOfFuel

section

variable {α β : Type} {o : Outcome RuntimeError α}

@[simp] theorem Outcome.asInput_eq_outOfFuel : o.asInput = .outOfFuel ↔ o = .outOfFuel := by
  cases o <;> simp [asInput]

@[simp] theorem Outcome.asInput_eq_value {a : α} : o.asInput = .value a ↔ o = .value a := by
  cases o <;> simp [asInput]

theorem Outcome.asInput_eq_failure {e : EvalError} :
    o.asInput = .failure e ↔ ∃ e', o = .failure e' ∧ .runtime e' = e := by
  cases o <;> simp [asInput]

theorem Outcome.Related.asInput {V : α → β → Prop} {o' : Outcome RuntimeError β}
    (h : o.Related V o') : o.asInput.Related V o'.asInput := by
  cases h with
  | value h => exact .value h
  | failure e => exact .failure _
  | outOfFuel => exact .outOfFuel

end

/-- How an input ends in a session, and what it leaves behind. -/
def Session.Evaluates (s : Session) (source : String) (r : Outcome EvalError Value × Session) :
    Prop :=
  r.1 ≠ .outOfFuel ∧ ∃ fuel, s.evaluate fuel source = r

theorem evaluate_eq {source : String} {p : Program} (h : parseSource source = .ok p) (fuel : Nat)
    (s : Session) :
    s.evaluate fuel source =
      ((p.run fuel (s.note (.started p.statements.length))).1.asInput,
        (p.run fuel (s.note (.started p.statements.length))).2) := by
  unfold Session.evaluate
  simp only [h]
  rcases p.run fuel (s.note (.started p.statements.length)) with ⟨_ | _ | _, t⟩ <;> rfl

/-- An input does what its program does, after an event that counts the statements. -/
theorem evaluates_iff {source : String} {p : Program} (h : parseSource source = .ok p) {s : Session}
    {r : Outcome EvalError Value × Session} :
    s.Evaluates source r ↔
      ∃ o, p.Ends (s.note (.started p.statements.length)) (o, r.2) ∧ o.asInput = r.1 := by
  constructor
  · rintro ⟨hr, fuel, rfl⟩
    rw [evaluate_eq h] at hr ⊢
    exact ⟨_, ⟨fun ho => hr (Outcome.asInput_eq_outOfFuel.2 ho), fuel, rfl⟩, rfl⟩
  · rintro ⟨o, ⟨ho, fuel, hf⟩, ha⟩
    refine ⟨fun hr => ho (Outcome.asInput_eq_outOfFuel.1 (ha.trans hr)), fuel, ?_⟩
    rw [evaluate_eq h, hf, ha]

/-- The beginning of an input. -/
def Event.isStart : Event → Bool
  | started _ => true
  | _ => false

/-- What happened, without the beginnings of inputs. -/
def Log.work (log : Log) : Log :=
  log.filter (!·.isStart)

theorem Log.work_started (events log : Log) (n : Nat) :
    Log.work (events ++ .started n :: log) = Log.work events ++ Log.work log := by
  simp [work, Event.isStart]

theorem Log.output_work (log : Log) : Log.output log.work = Log.output log := by
  refine output_filter (fun event h => ?_) log
  cases event <;> first | rfl | cases h

/-- Sessions that are equal but for places in the bodies of closures and for how many inputs the log
counts. -/
structure Session.SameEffect (s s' : Session) : Prop where
  state : (s.withLog []).mapBodies Term.unplaced = (s'.withLog []).mapBodies Term.unplaced
  work : s.log.work = s'.log.work
  output : s.log.output = s'.log.output

theorem Session.SameEffect.of_withLog {s s' : Session} {log : Log}
    (hs : (s.withLog log).mapBodies Term.unplaced = s'.mapBodies Term.unplaced)
    (hw : s.log.work = log.work) : s.SameEffect s' := by
  have hlog : log = s'.log := congrArg Session.log hs
  rw [hlog] at hw
  exact ⟨congrArg (·.withLog []) hs, hw, by rw [← Log.output_work, hw, Log.output_work]⟩

/-! ## Two inputs and one -/

namespace Program

variable {p q q' : Program} {s t : Session} {r : Result Value} {v : Value} {log : Log} {n : Nat}

/-- What a program does is the same under another count of statements. -/
theorem Ends.recount (h : p.Ends (s.note (.started n)) r) (k : Nat) :
    ∃ log, p.Ends (s.note (.started k)) (r.1, r.2.withLog log) ∧ r.2.log.work = log.work := by
  obtain ⟨events, hlog, h⟩ := h.withLog (.started k :: s.log)
  have hlog : r.2.log = events ++ .started n :: s.log := hlog
  refine ⟨_, h, ?_⟩
  rw [hlog, Log.work_started, Log.work_started]

/-- A program that goes on within an input does what it does as the next one. -/
theorem Ends.goOn (h : q.Ends (t.note (.started n)) r) (hw : t.log.work = log.work)
    (e : q.statements.map Term.unplaced = q'.statements.map Term.unplaced) :
    ∃ r', q'.Ends (t.withLog log) r' ∧ r.1.Related (Value.Same Term.unplaced) r'.1 ∧
      r.2.SameEffect r'.2 := by
  obtain ⟨events, hlog, h⟩ := h.withLog log
  have hlog : r.2.log = events ++ .started n :: t.log := hlog
  obtain ⟨r', h', ho, hs⟩ := h.unplaced e rfl
  refine ⟨r', h', ho, .of_withLog hs ?_⟩
  rw [hlog, Log.work_started, hw, Log.work, Log.work, Log.work, List.filter_append]

end Program

/-- **Line by line equals all at once.** Two sources that are programs, joined by a line feed and a
`;`, are the program with the statements of both, those of the second moved to where they stand. As
one input it does what the two do one after the other. Where the first fails, it fails with the same
error in the same session, and nothing else happens. Where the first has a value, it ends like the
second, or with that value if the second has no statements, after the same events and the same
output, in a session that is equal but for places in closures. It ends only where the inputs do. -/
theorem evaluates_joined {a b : String} {p q : Program} (ha : parseSource a = .ok p)
    (hb : parseSource b = .ok q) :
    parseSource (joinSources a b) =
      .ok (p ++ ⟨q.statements.map (Term.move (· + (a.utf8ByteSize + 2)))⟩) ∧
    ∀ s : Session,
      (∀ e t, s.Evaluates a (.failure e, t) → ∃ t', s.Evaluates (joinSources a b) (.failure e, t') ∧
        t'.withLog t.log = t ∧ t.SameEffect t') ∧
      (∀ v t r, s.Evaluates a (.value v, t) → t.Evaluates b r →
        ∃ r', s.Evaluates (joinSources a b) r' ∧ r.2.SameEffect r'.2 ∧
          (q.statements ≠ [] → r.1.Related (Value.Same Term.unplaced) r'.1) ∧
          (q.statements = [] → r'.1 = .value v)) ∧
      ∀ r', s.Evaluates (joinSources a b) r' →
        ∃ r, s.Evaluates a r ∧ ∀ v t, r = (.value v, t) → ∃ r, t.Evaluates b r := by
  let q' : Program := ⟨q.statements.map (Term.move (· + (a.utf8ByteSize + 2)))⟩
  have hj : parseSource (joinSources a b) = .ok (p ++ q') := parseSource_joined ha hb
  have hq : q.statements.map Term.unplaced = q'.statements.map Term.unplaced := by
    simp [q', Function.comp_def, Term.unplaced_move]
  have hnil : q'.statements = [] ↔ q.statements = [] := List.map_eq_nil_iff
  refine ⟨hj, fun s => ⟨fun e t h => ?_, fun v t r h h' => ?_, fun r h => ?_⟩⟩
  -- the first input fails
  · obtain ⟨o, hp, ho⟩ := (evaluates_iff ha).1 h
    obtain ⟨e', rfl, rfl⟩ := Outcome.asInput_eq_failure.1 ho
    obtain ⟨log, hp, hw⟩ := hp.recount (p ++ q').statements.length
    exact ⟨t.withLog log, (evaluates_iff hj).2 ⟨_, hp.append_failure q', rfl⟩, rfl,
      .of_withLog rfl hw⟩
  -- the first input has a value, and the second one ends
  · obtain ⟨o, hp, ho⟩ := (evaluates_iff ha).1 h
    cases Outcome.asInput_eq_value.1 ho
    obtain ⟨o', hb, ho'⟩ := (evaluates_iff hb).1 h'
    obtain ⟨log, hp, hw⟩ := hp.recount (p ++ q').statements.length
    obtain ⟨r', hb, hr, hs⟩ := hb.goOn hw hq
    have hends := hp.append hb
    refine ⟨(Outcome.asInput _, r'.2), (evaluates_iff hj).2 ⟨_, hends, rfl⟩, hs, fun hne => ?_,
      fun he => ?_⟩
    · rw [if_neg (mt hnil.1 hne), ← ho']
      exact hr.asInput
    · rw [if_pos (hnil.2 he)]
      rfl
  -- the one input ends
  · obtain ⟨o, h, -⟩ := (evaluates_iff hj).1 h
    obtain ⟨r, hp, hgo⟩ := h.of_append
    obtain ⟨log, hp, -⟩ := hp.recount p.statements.length
    refine ⟨(r.1.asInput, r.2.withLog log), (evaluates_iff ha).2 ⟨_, hp, rfl⟩, fun v t ht => ?_⟩
    obtain ⟨hv, rfl⟩ := Prod.mk.inj ht
    obtain ⟨r', h'⟩ := hgo v r.2 (Prod.ext (Outcome.asInput_eq_value.1 hv) rfl)
    obtain ⟨r', h', -⟩ := h'.unplaced hq.symm rfl
    obtain ⟨events, -, h'⟩ := h'.withLog (.started q.statements.length :: log)
    exact ⟨(r'.1.asInput, _), (evaluates_iff hb).2 ⟨_, h', rfl⟩⟩

/-- A function with a comment after it, and a call of it. -/
theorem evaluates_joined_comment :
    ∃ t, (Session.start none none).Evaluates (joinSources "f = lambda n: n + 1 # next" "f(2)")
      (.value (.int 3), t) := by
  obtain ⟨p, q, hp, hq, hne⟩ : ∃ p q : Program, parseSource "f = lambda n: n + 1 # next" = .ok p ∧
      parseSource "f(2)" = .ok q ∧ q.statements ≠ [] :=
    ⟨_, _, by cbv, by cbv, List.cons_ne_nil _ _⟩
  obtain ⟨⟨o, t⟩, hf, ⟨v, rfl⟩, hw⟩ : ∃ r : Outcome EvalError Value × Session,
      (Session.start none none).evaluate 10 "f = lambda n: n + 1 # next" = r ∧
        (∃ v, r.1 = .value v) ∧ (r.2.evaluate 10 "f(2)").1 = .value (.int 3) :=
    ⟨_, rfl, ⟨_, by cbv⟩, by cbv⟩
  have h₁ : (Session.start none none).Evaluates "f = lambda n: n + 1 # next" (.value v, t) :=
    ⟨by simp, 10, hf⟩
  have h₂ : t.Evaluates "f(2)" (t.evaluate 10 "f(2)") := ⟨by simp [hw], 10, rfl⟩
  obtain ⟨⟨o, u⟩, h, -, hr, -⟩ := ((evaluates_joined hp hq).2 _).2.1 v t _ h₁ h₂
  have hr := hr hne
  rw [hw] at hr
  cases hr with
  | @value _ w hw =>
    cases w <;> cases hw
    exact ⟨u, h⟩

end Dynascope
