import Dynascope.Proofs.FramedRuns
import Dynascope.Proofs.JoinedInputs

/-! # Loops over ranges

A loop over a range has a frame of its own. Its body is a block, so it leaves no name behind there
(`Term.eval_block_kept`), and every round begins with that frame holding the loop variable and
nothing else, whatever the rounds before it did to that variable. So the loop is `roundsOver` its
numbers, one after the other (`forRounds_eq`), and two loops over the parts of a range do what the
one loop does, but for one frame that is closed and opened again: `range_splits`.
-/

set_option autoImplicit false

namespace Dynascope

variable {name : String} {a b c : Int64}

/-! ## The numbers of a range -/

/-- The numbers from `i` on, in order. -/
def numbersFrom (i : Int64) (count : Nat) : List Int64 :=
  (List.range count).map fun k : Nat => Int64.ofInt (i.toInt + k)

/-- The numbers from `a` up to, and not including, `b`, in order. -/
def rangeNumbers (a b : Int64) : List Int64 :=
  numbersFrom a (b.toInt - a.toInt).toNat

theorem numbersFrom_succ (i : Int64) (count : Nat) :
    numbersFrom i (count + 1) = i :: numbersFrom (i + 1) count := by
  have hstep (k : Nat) : Int64.ofInt (i.toInt + (k + 1 : Nat)) =
      Int64.ofInt ((i + 1).toInt + k) := by
    have h1 : (1 : Int64) = Int64.ofInt 1 := rfl
    rw [Int64.ofInt_add, Int64.ofInt_add, Int64.ofInt_toInt, Int64.ofInt_toInt, Int.natCast_add,
      Int64.ofInt_add, Int64.add_assoc, Int64.add_comm 1, h1]
    rfl
  have hzero : Int64.ofInt (i.toInt + (0 : Nat)) = i := by
    rw [Int.natCast_zero, Int.add_zero, Int64.ofInt_toInt]
  rw [numbersFrom, List.range_succ_eq_map, List.map_cons, hzero, List.map_map]
  exact congrArg _ (List.map_congr_left fun k _ => hstep k)

theorem toInt_ofInt_add {k : Nat} (h : k < (b.toInt - a.toInt).toNat) :
    (Int64.ofInt (a.toInt + k)).toInt = a.toInt + k := by
  have ha := Int64.le_toInt a
  have hb := Int64.toInt_lt b
  exact Int64.toInt_ofInt_of_le (by omega) (by omega)

theorem mem_rangeNumbers {n : Int64} : n ∈ rangeNumbers a b ↔ a ≤ n ∧ n < b := by
  rw [Int64.le_iff_toInt_le, Int64.lt_iff_toInt_lt, rangeNumbers, numbersFrom, List.mem_map]
  constructor
  · rintro ⟨k, hk, rfl⟩
    have hk := List.mem_range.1 hk
    rw [toInt_ofInt_add hk]
    omega
  · rintro ⟨ha, hb⟩
    refine ⟨(n.toInt - a.toInt).toNat, List.mem_range.2 (by omega), ?_⟩
    rw [← Int64.ofInt_toInt n]
    congr 1
    rw [Int64.ofInt_toInt]
    omega

theorem pairwise_rangeNumbers (a b : Int64) : (rangeNumbers a b).Pairwise (· < ·) := by
  rw [rangeNumbers, numbersFrom, List.pairwise_map]
  refine List.pairwise_lt_range.imp_of_mem fun hk hm hlt => ?_
  rw [Int64.lt_iff_toInt_lt, toInt_ofInt_add (List.mem_range.1 hk),
    toInt_ofInt_add (List.mem_range.1 hm)]
  omega

theorem rangeNumbers_append (hab : a ≤ b) (hbc : b ≤ c) :
    rangeNumbers a c = rangeNumbers a b ++ rangeNumbers b c := by
  rw [Int64.le_iff_toInt_le] at hab hbc
  have hlen : (c.toInt - a.toInt).toNat =
      (b.toInt - a.toInt).toNat + (c.toInt - b.toInt).toNat := by omega
  rw [rangeNumbers, numbersFrom, hlen, List.range_add, List.map_append, List.map_map]
  congr 1
  refine List.map_congr_left fun k _ => congrArg Int64.ofInt ?_
  show a.toInt + (((b.toInt - a.toInt).toNat + k : Nat) : Int) = b.toInt + k
  omega

theorem rangeNumbers_ne_nil (hab : a < b) : rangeNumbers a b ≠ [] :=
  List.ne_nil_of_mem (mem_rangeNumbers.2 ⟨Int64.le_refl a, hab⟩)

/-! ## Rounds -/

/-- A session in which the innermost frame binds a loop variable and nothing else. -/
def Session.beginRound (name : String) (i : Int64) (s : Session) : Session :=
  { s with scope := { s.scope with inner := Frame.empty.insert name (.int i) } }

/-- One round of a loop for every number, in order. -/
def roundsOver (name : String) (body : Run Value) : List Int64 → Value → Run Value
  | [], last => pure last
  | i :: rest, _ => do
    Run.update (·.beginRound name i)
    let v ← body
    roundsOver name body rest v

/-- A frame that binds no name but one. -/
def Frame.BindsOnly (name : String) (frame : Frame Value) : Prop :=
  frame.names ⊆ [name]

theorem Frame.BindsOnly.insert {frame : Frame Value} (h : frame.BindsOnly name) (v : Value) :
    frame.insert name v = Frame.empty.insert name v := by
  obtain ⟨bindings, sorted⟩ := frame
  refine ext_bindings ?_
  show insertBinding name v bindings = [(name, v)]
  match bindings, sorted, h with
  | [], _, _ => rfl
  | [(x, w)], _, h =>
    have hx : x = name := List.mem_singleton.1 (h (.head _))
    rw [insertBinding, if_pos hx.symm]
  | (x, w) :: (y, u) :: rest, sorted, h =>
    -- two bindings have different names
    have hx : x = name := List.mem_singleton.1 (h (.head _))
    have hy : y = name := List.mem_singleton.1 (h (.tail _ (.head _)))
    have hlt : x < y := List.rel_of_pairwise_cons sorted (.head _)
    rw [hx, hy] at hlt
    exact absurd hlt (String.lt_irrefl name)

section

variable {s t : Session}

theorem Session.define_eq_beginRound (h : s.scope.inner.BindsOnly name) (i : Int64) :
    s.define name (.int i) = s.beginRound name i := by
  rw [define, Scope.define, h.insert]
  rfl

theorem Session.beginRound_bindsOnly (i : Int64) :
    (s.beginRound name i).scope.inner.BindsOnly name :=
  fun _ h => h

/-- The body of a loop sees the number of its round under the loop variable. -/
theorem Session.lookup_beginRound (i : Int64) :
    (s.beginRound name i).openFrame.scope.lookup name = .ok (.int i) := by
  have h : (s.beginRound name i).openFrame.scope.get? name = some (.int i) := by
    simp [Scope.get?, openFrame, Scope.push, beginRound, Frame.get?, Frame.empty, Frame.insert,
      insertBinding, findBinding?]
  rw [Scope.lookup, h]

variable {body : Run Value}

/-- The rounds after one that has a value begin where it ends. -/
theorem roundsOver_append (xs ys : List Int64) (last : Value) :
    roundsOver name body (xs ++ ys) last =
      roundsOver name body xs last >>= roundsOver name body ys := by
  induction xs generalizing last with
  | nil => rfl
  | cons i xs ih =>
    simp only [List.cons_append, roundsOver, bind_assoc]
    exact congrArg _ (funext fun _ => congrArg _ (funext ih))

/-- Rounds do not depend on the frame in which they begin, nor on the value before them. -/
theorem roundsOver_congr (body : Run Value) {numbers : List Int64} (hn : numbers ≠ [])
    (h : ∀ i, s.beginRound name i = t.beginRound name i) (v w : Value) :
    roundsOver name body numbers v s = roundsOver name body numbers w t := by
  obtain ⟨i, rest, rfl⟩ := List.exists_cons_of_ne_nil hn
  show (body >>= roundsOver name body rest) (s.beginRound name i) =
    (body >>= roundsOver name body rest) (t.beginRound name i)
  rw [h]

/-- What rounds keep that every body keeps, and that the begin of a round makes hold. -/
theorem roundsOver_keeps {P : Session → Prop} (hstart : ∀ t i, P t → P (t.beginRound name i))
    (hbody : ∀ t, P t → P (body t).2) (numbers : List Int64) (last : Value) (hs : P s) :
    P (roundsOver name body numbers last s).2 := by
  induction numbers generalizing last s with
  | nil => exact hs
  | cons i rest ih =>
    have hb := hbody _ (hstart s i hs)
    show P ((body >>= roundsOver name body rest) (s.beginRound name i)).2
    rcases hr : body (s.beginRound name i) with ⟨_ | _ | _, t⟩ <;> rw [hr] at hb
    · rw [bind_of_value hr]
      exact ih _ hb
    · rw [bind_of_failure hr]
      exact hb
    · rw [bind_of_outOfFuel hr]
      exact hb

/-- In a frame without other names, a loop is rounds over its numbers if its body leaves no name
behind: so does every round, and the next one begins in such a frame again. -/
theorem forRounds_eq (hb : ∀ s, NamesKept s (body s).2) (count : Nat) (i : Int64) (last : Value)
    (hs : s.scope.inner.BindsOnly name) :
    forRounds name body count i last s = roundsOver name body (numbersFrom i count) last s := by
  induction count generalizing i last s with
  | zero => rfl
  | succ count ih =>
    rw [numbersFrom_succ]
    show (body >>= fun v => forRounds name body count (i + 1) v) (s.define name (.int i)) =
      (body >>= fun v => roundsOver name body (numbersFrom (i + 1) count) v) (s.beginRound name i)
    rw [Session.define_eq_beginRound hs]
    have hk := hb (s.beginRound name i)
    rcases hr : body (s.beginRound name i) with ⟨_ | _ | _, t⟩ <;> rw [hr] at hk
    -- the body may have changed the variable, but its frame still has no other name
    · rw [bind_of_value hr, bind_of_value hr]
      refine ih (i + 1) _ ?_
      rw [Frame.BindsOnly, hk.names]
      exact s.beginRound_bindsOnly i
    · rw [bind_of_failure hr, bind_of_failure hr]
    · rw [bind_of_outOfFuel hr, bind_of_outOfFuel hr]

theorem Relogs.roundsOver (hb : Relogs Eq body body) (numbers : List Int64) (last : Value) :
    Relogs Eq (roundsOver name body numbers last) (roundsOver name body numbers last) := by
  induction numbers generalizing last with
  | nil => exact .ret rfl
  | cons i rest ih =>
    refine Relogs.bind (V := fun _ _ => True) (.of_quiet (fun _ => trivial) fun _ _ => ⟨rfl, rfl⟩)
      fun _ _ _ => Relogs.bind hb ?_
    rintro v _ rfl
    exact ih v

end

/-! ## Ranges with known bounds -/

/-- A loop over the range from `a` to `b`: the bounds are expressions that have these values in
every session and do nothing else. -/
inductive Term.IsRange (name : String) (a b : Int64) (body : List Term) : Term → Prop
  | intro (span : Span) {first : Option Term} {limit : Term} (bodySpan : Span) (k : Nat) :
      (∀ fuel, k ≤ fuel → evalFirst (Term.eval fuel) first = pure a) →
      (∀ fuel, k ≤ fuel → evalInt (Term.eval fuel) limit = pure b) →
      IsRange name a b body (.forLoop span name first limit bodySpan body)

section

variable {body : List Term}

/-- A loop over a range that is given by two literals. -/
theorem Term.IsRange.literal (span firstSpan limitSpan bodySpan : Span) :
    IsRange name a b body
      (.forLoop span name (some (.number firstSpan a)) (.number limitSpan b) bodySpan body) := by
  refine .intro span bodySpan 1 ?_ ?_ <;>
  · rintro (_ | fuel) h
    · cases h
    · rfl

/-- A loop over a range that begins at zero, without a first bound. -/
theorem Term.IsRange.upTo (span limitSpan bodySpan : Span) :
    IsRange name 0 b body (.forLoop span name none (.number limitSpan b) bodySpan body) := by
  refine .intro span bodySpan 1 (fun _ _ => rfl) ?_
  rintro (_ | fuel) h
  · cases h
  · rfl

/-- The rounds of a loop, in its frame. -/
def Term.rangeRounds (fuel : Nat) (name : String) (body : List Term) (a b : Int64) : Run Value :=
  (roundsOver name (evalBlock (Term.eval fuel) body) (rangeNumbers a b) .none).inFrame

theorem evalBlock_kept (fuel : Nat) (body : List Term) (s : Session) :
    NamesKept s (evalBlock (Term.eval fuel) body s).2 :=
  Term.eval_block_kept (fuel + 1) default body s

theorem evalBlock_relogs (fuel : Nat) (body : List Term) :
    Relogs Eq (evalBlock (Term.eval fuel) body) (evalBlock (Term.eval fuel) body) := by
  have h := Comparison.follows_self (C := relogging) rfl Relogs.outOfFuel (fuel + 1)
    (.block default body) _ rfl
  have he : relogging.Same = Eq := Value.related_eq
  rwa [he] at h

/-- A loop over a range is its rounds. -/
theorem Term.IsRange.eval {t : Term} (h : t.IsRange name a b body) (hab : a < b) :
    ∃ k, ∀ fuel, k ≤ fuel → t.eval (fuel + 1) = rangeRounds fuel name body a b := by
  obtain ⟨span, bodySpan, k, ha, hb⟩ := h
  refine ⟨k, fun fuel hk => ?_⟩
  have hne : ¬ b ≤ a := by
    rw [Int64.le_iff_toInt_le]
    rw [Int64.lt_iff_toInt_lt] at hab
    omega
  show (do
    let a ← evalFirst (Term.eval fuel) _
    let b ← evalInt (Term.eval fuel) _
    if b ≤ a then Run.fail (.emptyRange a b)
    else Run.inFrame (forRounds name (evalBlock (Term.eval fuel) body)
      (b.toInt - a.toInt).toNat a .none)) = _
  rw [ha fuel hk, hb fuel hk, pure_bind, pure_bind, if_neg hne]
  funext s
  have hempty : s.openFrame.scope.inner.BindsOnly name := List.nil_subset _
  rw [Run.inFrame, forRounds_eq (evalBlock_kept fuel body) _ a .none hempty]
  rfl

end

/-! ## Two loops for one -/

theorem inFrame_eq {α : Type} {m : Run α} {s t : Session} {o : Outcome RuntimeError α}
    (h : m s.openFrame = (o, t)) : m.inFrame s = (o, t.closeFrame) := by
  rw [Run.inFrame, h]

/-- What happened, without the frames that were opened and closed. -/
def Log.unframed (log : Log) : Log :=
  log.filter (!·.isFrame)

theorem Log.unframed_reopened (events log : Log) :
    Log.unframed (events ++ .opened :: .closed :: log) = Log.unframed (events ++ log) := by
  simp [unframed, Event.isFrame]

theorem Log.output_unframed (log : Log) : log.unframed.output = log.output :=
  output_filter (fun _ h => Event.written_of_isFrame (by simpa using h)) log

/-- Sessions that are equal but for frames of which the log tells. -/
structure Session.Reframed (s t : Session) : Prop where
  state : s.withLog [] = t.withLog []
  acts : s.log.unframed = t.log.unframed
  output : s.log.output = t.log.output

theorem Session.Reframed.refl (s : Session) : s.Reframed s :=
  ⟨rfl, rfl, rfl⟩

theorem Session.Reframed.of_withLog {s : Session} (log : Log)
    (h : s.log.unframed = log.unframed) : s.Reframed (s.withLog log) :=
  ⟨rfl, h, by
    rw [← Log.output_unframed, h, Log.output_unframed]
    rfl⟩

section

variable {body : List Term} {s : Session} {fuel : Nat}

/-- A frame is closed and another one is opened in its place. -/
theorem Session.beginRound_reopened (name : String) (h : s.scope.outer ≠ []) (i : Int64) :
    s.closeFrame.openFrame.beginRound name i =
      (s.withLog (.opened :: .closed :: s.log)).beginRound name i := by
  obtain ⟨⟨inner, _ | ⟨frame, rest⟩⟩, calls, limit, room, next, log⟩ := s
  · exact absurd rfl h
  · rfl

/-- The rounds of a loop keep the frames around its own. -/
theorem roundsOver_outer (fuel : Nat) (name : String) (body : List Term) (s : Session)
    (numbers : List Int64) (v : Value) :
    (roundsOver name (evalBlock (Term.eval fuel) body) numbers v s).2.scope.outer.map Frame.names =
      s.scope.outer.map Frame.names := by
  refine roundsOver_keeps (P := fun t => t.scope.outer.map Frame.names = _)
    (fun _ _ h => h) (fun t h => ?_) numbers v rfl
  rw [(evalBlock_kept fuel body t).outer, h]

/-- Rounds that go on in a frame that is opened anew do what they do in the frame before it. -/
theorem roundsOver_reopened {numbers : List Int64} (hn : numbers ≠ [])
    (hs : s.scope.outer ≠ []) (v w : Value) :
    ∃ t, (roundsOver name (evalBlock (Term.eval fuel) body) numbers w).inFrame s.closeFrame =
        ((roundsOver name (evalBlock (Term.eval fuel) body) numbers v s).1, t) ∧
      (roundsOver name (evalBlock (Term.eval fuel) body) numbers v s).2.closeFrame.Reframed t := by
  have hagain := roundsOver_congr (evalBlock (Term.eval fuel) body) hn
    (Session.beginRound_reopened name hs) w v
  obtain ⟨outcome, events, ho, hlog, he⟩ :=
    (evalBlock_relogs fuel body).roundsOver numbers v s (.opened :: .closed :: s.log)
  cases ho.eq
  rw [he] at hagain
  obtain ⟨event, hc, hc'⟩ := Session.closeFrame_withLog
    (roundsOver name (evalBlock (Term.eval fuel) body) numbers v s).2
    (events ++ .opened :: .closed :: s.log)
  refine ⟨_, ?_, .of_withLog (event :: (events ++ .opened :: .closed :: s.log)) ?_⟩
  · rw [inFrame_eq hagain, hc']
  · rw [hc, hlog, ← List.cons_append, ← List.cons_append, Log.unframed_reopened]

/-- The rounds over a range are those over its parts, in one frame or in two. -/
theorem rangeRounds_split (fuel : Nat) (name : String) (body : List Term) (hab : a < b)
    (hbc : b < c) (s : Session) :
    ∃ t, (Term.rangeRounds fuel name body a b >>= fun _ => Term.rangeRounds fuel name body b c) s =
        ((Term.rangeRounds fuel name body a c s).1, t) ∧
      (Term.rangeRounds fuel name body a c s).2.Reframed t := by
  have hle : a ≤ b ∧ b ≤ c := by
    simp only [Int64.le_iff_toInt_le, Int64.lt_iff_toInt_lt] at *
    omega
  have houter := roundsOver_outer fuel name body s.openFrame (rangeNumbers a b) .none
  unfold Term.rangeRounds
  rw [rangeNumbers_append hle.1 hle.2, roundsOver_append]
  rcases hr : roundsOver name (evalBlock (Term.eval fuel) body) (rangeNumbers a b) .none
    s.openFrame with ⟨o, t⟩
  rw [hr] at houter
  have hf := inFrame_eq hr
  cases o with
  | value v =>
    -- there are frames around that of the loop, so it is really closed before the next is opened
    have ht : t.scope.outer ≠ [] := fun hn => by
      rw [hn] at houter
      exact absurd houter.symm (List.cons_ne_nil _ _)
    have hw : (roundsOver name (evalBlock (Term.eval fuel) body) (rangeNumbers a b) .none >>=
        roundsOver name (evalBlock (Term.eval fuel) body) (rangeNumbers b c)) s.openFrame =
        roundsOver name (evalBlock (Term.eval fuel) body) (rangeNumbers b c) v t := bind_of_value hr
    rw [bind_of_value hf, inFrame_eq hw]
    exact roundsOver_reopened (rangeNumbers_ne_nil hbc) ht v .none
  | failure e =>
    rw [bind_of_failure hf, inFrame_eq (bind_of_failure hr)]
    exact ⟨_, rfl, .refl _⟩
  | outOfFuel =>
    rw [bind_of_outOfFuel hf, inFrame_eq (bind_of_outOfFuel hr)]
    exact ⟨_, rfl, .refl _⟩

end

/-- Two loops over the parts of a range run as the loop over the range does. -/
theorem Term.IsRange.run_split {body : List Term} {whole first second : Term}
    (hw : whole.IsRange name a c body) (hf : first.IsRange name a b body)
    (hs : second.IsRange name b c body) (hab : a < b) (hbc : b < c) :
    ∃ k, ∀ fuel s, k ≤ fuel → ∃ t,
      Program.run fuel ⟨[first, second]⟩ s = ((Program.run fuel ⟨[whole]⟩ s).1, t) ∧
        (Program.run fuel ⟨[whole]⟩ s).2.Reframed t := by
  obtain ⟨kw, hw⟩ := hw.eval (by
    rw [Int64.lt_iff_toInt_lt] at *
    omega)
  obtain ⟨kf, hf⟩ := hf.eval hab
  obtain ⟨ks, hs⟩ := hs.eval hbc
  refine ⟨kw + kf + ks + 1, fun fuel s hle => ?_⟩
  obtain ⟨fuel, rfl⟩ : ∃ n, fuel = n + 1 := ⟨fuel - 1, by omega⟩
  have hone : Program.run (fuel + 1) ⟨[whole]⟩ = rangeRounds fuel name body a c := by
    show (whole.eval (fuel + 1) >>= fun v => pure v) = _
    rw [hw fuel (by omega), bind_pure]
  have htwo : Program.run (fuel + 1) ⟨[first, second]⟩ =
      rangeRounds fuel name body a b >>= fun _ => rangeRounds fuel name body b c := by
    show (first.eval (fuel + 1) >>= fun _ => second.eval (fuel + 1) >>= fun v => pure v) = _
    rw [hf fuel (by omega), hs fuel (by omega), bind_pure]
  rw [hone, htwo]
  exact rangeRounds_split fuel name body hab hbc s

/-- **Loops over ranges can be split anywhere.** Let `a < b < c`. In any session, the loop over the
range from `a` to `c` and the two loops with the same body over the parts of it, one after the
other, end in the same ways: with the same value or the same error, in sessions that are equal, with
the same output, but for frames that the log tells of. With enough fuel, the one loop is a round for
every number from `a` up to `c`, in increasing order, and the body of each begins with the loop
variable bound to its number. -/
theorem range_splits {name : String} {a b c : Int64} (hab : a < b) (hbc : b < c)
    {body : List Term} {whole first second : Term} (hw : whole.IsRange name a c body)
    (hf : first.IsRange name a b body) (hs : second.IsRange name b c body) :
    (∀ s : Session,
      (∀ o t, Program.Ends ⟨[whole]⟩ s (o, t) →
        ∃ t', Program.Ends ⟨[first, second]⟩ s (o, t') ∧ t.Reframed t') ∧
      ∀ o t', Program.Ends ⟨[first, second]⟩ s (o, t') →
        ∃ t, Program.Ends ⟨[whole]⟩ s (o, t) ∧ t.Reframed t') ∧
    (∃ k, ∀ fuel, k ≤ fuel → whole.eval (fuel + 1) =
      (roundsOver name (evalBlock (Term.eval fuel) body) (rangeNumbers a c) .none).inFrame) ∧
    (∀ n, n ∈ rangeNumbers a c ↔ a ≤ n ∧ n < c) ∧ (rangeNumbers a c).Pairwise (· < ·) ∧
    ∀ (s : Session) (i : Int64),
      (s.beginRound name i).openFrame.scope.lookup name = .ok (.int i) := by
  have hac : a < c := by
    rw [Int64.lt_iff_toInt_lt] at *
    omega
  refine ⟨fun s => ?_, hw.eval hac, fun n => mem_rangeNumbers, pairwise_rangeNumbers a c,
    fun s i => s.lookup_beginRound i⟩
  obtain ⟨k, hk⟩ := hw.run_split hf hs hab hbc
  -- an end stays with more fuel, so both sides may be given as much as the split needs
  constructor
  · rintro o t ⟨ho, fuel, h⟩
    obtain ⟨t', h₂, ht⟩ := hk (max fuel k) s (Nat.le_max_right _ _)
    have h₁ : Program.run (max fuel k) ⟨[whole]⟩ s = (o, t) := by
      rw [Program.run_mono (Nat.le_max_left _ _) (by rwa [h]), h]
    rw [h₁] at h₂ ht
    exact ⟨t', ⟨ho, _, h₂⟩, ht⟩
  · rintro o t' ⟨ho, fuel, h⟩
    obtain ⟨u, h₂, ht⟩ := hk (max fuel k) s (Nat.le_max_right _ _)
    have h₁ : Program.run (max fuel k) ⟨[first, second]⟩ s = (o, t') := by
      rw [Program.run_mono (Nat.le_max_left _ _) (by rwa [h]), h]
    obtain ⟨rfl, rfl⟩ := Prod.mk.inj (h₁.symm.trans h₂)
    exact ⟨(Program.run (max fuel k) ⟨[whole]⟩ s).2, ⟨ho, max fuel k, rfl⟩, ht⟩

/-- A loop that changes its variable and prints it: `for i in range(0, 3) {print(i); i=7}`. -/
theorem range_splits_print :
    ∃ t, Program.Ends ⟨[
      .forLoop default "i" none (.number default 1) default
        [.call default "print" [.var default "i"], .assign default "i" (.number default 7)],
      .forLoop default "i" (some (.number default 1)) (.number default 3) default
        [.call default "print" [.var default "i"], .assign default "i" (.number default 7)]]⟩
      (.start none none) (.value (.int 7), t) ∧ t.log.output = "0\n1\n2\n" := by
  let body : List Term := [.call default "print" [.var default "i"],
    .assign default "i" (.number default 7)]
  have hwhole : Term.IsRange "i" 0 3 body _ := .upTo default default default
  have hfirst : Term.IsRange "i" 0 1 body _ := .upTo default default default
  have hsecond : Term.IsRange "i" 1 3 body _ := .literal default default default default
  obtain ⟨t', h, ht⟩ := ((range_splits (by decide) (by decide) hwhole hfirst hsecond).1
    (.start none none)).1 (.value (.int 7)) _ ⟨by simp, 10, rfl⟩
  exact ⟨t', h, ht.output.symm.trans (by cbv)⟩

end Dynascope
