import Dynascope.Proofs.Barriers
import Dynascope.Proofs.BoundValues
import Dynascope.Proofs.JoinedInputs

/-! # The frame of the built-ins

The globals never bind the name of a built-in: an assignment to such a name, at top level as well,
changes the frame of the built-ins (`Session.Reachable.rooted`). All other names that are assigned
at top level are globals afterwards, and the frame of the built-ins is only changed by an assignment
to the name of a built-in: `builtins_frame`.
-/

set_option autoImplicit false

namespace Dynascope

/-! ## Sessions that are rooted -/

/-- The frame of the built-ins is the only one outside of the globals, and these bind none of its
names. -/
structure Session.Rooted (s : Session) : Prop where
  outer : s.scope.outer.map Frame.names = [builtinFrame.names]
  inner : ∀ x ∈ builtinFrame.names, s.scope.inner.contains x = false

namespace Session.Rooted

variable {s t : Session}

theorem initial {s : Session} (h : s.scope = initialScope) : s.Rooted := by
  constructor
  · rw [h]
    rfl
  · rw [h]
    exact fun _ _ => rfl

theorem of_scope (h : s.Rooted) (e : t.scope = s.scope) : t.Rooted :=
  ⟨e ▸ h.outer, e ▸ h.inner⟩

theorem grounded (h : s.Rooted) : s.Grounded :=
  .of_outer h.outer

theorem exists_frame (h : s.Rooted) :
    ∃ frame, s.scope.outer = [frame] ∧ frame.names = builtinFrame.names := by
  obtain ⟨frame, rest, ho, hn, hr⟩ := List.map_eq_cons_iff.1 h.outer
  exact ⟨frame, by rw [ho, List.map_eq_nil_iff.1 hr], hn⟩

theorem kept (h : s.Rooted) (hk : FreshlyKept s t) : t.Rooted where
  outer := hk.outer.trans h.outer
  inner x hx := by
    rw [← Bool.not_eq_true]
    intro ht
    rcases hk.fresh x ht with hs | hs
    · rw [h.inner x hx] at hs
      cases hs
    · -- the frame of the built-ins binds `x`
      obtain ⟨frame, ho, hn⟩ := h.exists_frame
      have hb : frame.contains x = true := Frame.contains_iff.2 (hn ▸ hx)
      rw [Scope.get?_eq, Scope.frames, ho, findSome?_cons_or, findSome?_cons_or,
        Option.or_eq_none_iff, Option.or_eq_none_iff] at hs
      rw [Frame.contains, hs.2.1] at hb
      cases hb

/-- Other names than those of the built-ins are bound as globals or not at all. -/
theorem get?_inner (h : s.Rooted) {x : String} (hx : x ∉ builtinFrame.names) :
    s.scope.get? x = s.scope.inner.get? x := by
  obtain ⟨frame, ho, hn⟩ := h.exists_frame
  have hc : frame.get? x = none := by
    rw [← hn, ← Frame.contains_iff, Frame.contains] at hx
    simpa using hx
  rw [Scope.get?_eq, Scope.frames, ho, findSome?_cons_or, findSome?_cons_or, hc]
  simp

/-- An assignment to the name of a built-in does not go to the globals. -/
theorem assign (h : s.Rooted) {x : String} (hx : x ∈ builtinFrame.names) (v : Value) :
    (s.scope.assign x v).inner = s.scope.inner ∧
      (s.scope.assign x v).outer.map (·.get? x) = [some v] := by
  obtain ⟨frame, ho, hn⟩ := h.exists_frame
  have hc : frame.contains x = true := Frame.contains_iff.2 (hn ▸ hx)
  have e : s.scope.assign x v = ⟨s.scope.inner, [frame.insert x v]⟩ := by
    simp [Scope.assign, h.inner x hx, ho, hc, rebind]
  rw [e]
  simp

theorem note (h : s.Rooted) (event : Event) : (s.note event).Rooted :=
  h.of_scope rfl

theorem evaluate (h : s.Rooted) (fuel : Nat) (source : String) :
    (s.evaluate fuel source).2.Rooted := by
  cases hp : parseSource source with
  | error e =>
    unfold Session.evaluate
    simp only [hp]
    exact h
  | ok p =>
    rw [evaluate_eq hp]
    have hn := h.note (.started p.statements.length)
    exact hn.kept (p.run_freshlyKept hn.grounded fuel)

end Session.Rooted

theorem Session.respond_scope (fuel : Nat) (line : String) (s : Session) :
    (s.respond fuel line).2 = s ∨ (s.respond fuel line).2 = (s.evaluate fuel line).2 := by
  unfold respond
  split
  · exact .inl rfl
  · rcases s.evaluate fuel line with ⟨_ | _ | _, t⟩ <;> exact .inr rfl

/-- Between inputs, a session is rooted. -/
theorem Session.Reachable.rooted {s : Session} (h : s.Reachable) : s.Rooted := by
  induction h with
  | start => exact .initial rfl
  | evaluate fuel source _ ih => exact ih.evaluate fuel source
  | @respond s fuel line _ ih =>
    rcases s.respond_scope fuel line with e | e <;> rw [e]
    · exact ih
    · exact ih.evaluate fuel line
  | run fuel p _ ih => exact ih.kept (p.run_freshlyKept ih.grounded fuel)
  | eval fuel t _ ih => exact ih.kept (t.eval_freshlyKept ih.grounded fuel)
  | reset _ ih => exact .initial rfl
  | setMaxCallDepth _ _ ih => exact ih.of_scope rfl
  | delivered _ ih => exact ih.of_scope rfl

/-! ## Assignments at top level -/

/-- An assignment to `x` at top level, outside of all blocks, ranges and calls. -/
def Scope.AtTop (x : String) (scope : Scope) (name : String) : Prop :=
  name = x ∧ scope.depth = 2

instance (x : String) (scope : Scope) : DecidablePred (scope.AtTop x) :=
  fun _ => inferInstanceAs (Decidable (_ ∧ _))

/-- A name that is assigned at top level is bound from there on. -/
def Barrier.atTop (x : String) : Barrier (Scope.AtTop x) where
  Clear _ _ := True
  Hit scope := scope.depth = 2 ∧ (scope.get? x).isSome = true
  refl _ := trivial
  trans _ _ := trivial
  define _ _ _ := trivial
  assign _ _ _ := trivial
  closeFrame _ _ _ := trivial
  hit {s name} value h := by
    obtain ⟨rfl, hd⟩ := h
    refine ⟨(FramesKept.assign s name value).depth.trans hd, ?_⟩
    show ((s.scope.assign name value).get? name).isSome = true
    rw [Scope.get?_assign]
    rfl
  kept {s t} hk h := by
    refine ⟨hk.depth.trans h.1, ?_⟩
    rw [Option.isSome_iff_ne_none]
    exact fun hn => Option.isSome_iff_ne_none.1 h.2 (hk.get?_eq_none hn)
  hit_closeFrame {s t} hs hk h := by
    -- the frame that is closed is the third one at least
    have hd : t.scope.outer.length + 1 = s.scope.outer.length + 2 := hk.depth
    have h2 : t.scope.outer.length + 1 = 2 := h.1
    have ho : s.scope.outer = [] := List.eq_nil_of_length_eq_zero (by omega)
    rw [Session.Grounded, ho] at hs
    cases hs

/-! ## Assignments to the names of built-ins -/

/-- An assignment to the name of a built-in. -/
def Scope.OfBuiltin (_ : Scope) (name : String) : Prop :=
  name ∈ builtinFrame.names

instance (scope : Scope) : DecidablePred scope.OfBuiltin :=
  fun name => inferInstanceAs (Decidable (name ∈ builtinFrame.names))

/-- The outermost frame stays as it is if no name of a built-in is assigned. -/
def Barrier.ofBuiltin : Barrier Scope.OfBuiltin where
  Clear scope scope' := scope'.outer.getLast? = scope.outer.getLast?
  Hit _ := True
  refl _ := rfl
  trans h h' := h'.trans h
  define _ _ _ := rfl
  assign {s name} value hs hb := by
    show (s.scope.assign name value).outer.getLast? = _
    unfold Scope.assign
    split
    · rfl
    · split
      · obtain ⟨last, hl, hn⟩ := Option.map_eq_some_iff.1 hs
        obtain ⟨frames, hf⟩ := List.getLast?_eq_some_iff.1 hl
        have hc : last.contains name = false := by
          rw [← Bool.not_eq_true, Frame.contains_iff, hn]
          exact hb
        simp only [hf, rebind_concat hc, List.getLast?_concat]
      · rfl
  closeFrame {s t} hs hk h := by
    obtain ⟨frame, rest, ht, -, hr⟩ := List.map_eq_cons_iff.1 hk.outer
    have hc : t.closeFrame.scope = ⟨frame, rest⟩ := by
      rw [Session.closeFrame, Scope.pop?, ht]
    have hrest : rest.getLast?.map Frame.names = some builtinFrame.names := by
      rw [← List.getLast?_map, hr, List.getLast?_map]
      exact hs
    obtain ⟨last, hl, -⟩ := Option.map_eq_some_iff.1 hs
    obtain ⟨last', hl', -⟩ := Option.map_eq_some_iff.1 hrest
    have h : t.scope.outer.getLast? = (s.scope.inner :: s.scope.outer).getLast? := h
    rw [ht, List.getLast?_cons, List.getLast?_cons, hl, hl'] at h
    rw [hc, hl, hl']
    exact h
  hit _ _ := trivial
  kept _ _ := trivial
  hit_closeFrame _ _ _ := trivial

/-! ## The text of the globals -/

/-- The text of the scope stack has one frame, in which the binding of `x` to `v` is listed. -/
def Scope.Lists (scope : Scope) (x : String) (v : Value) : Prop :=
  ∃ before after : List String, scope.text = "[" ++
    ("\x7b" ++ Text.joinWith ", " (before ++ (x ++ ": " ++ v.text) :: after) ++ "\x7d") ++ "]"

/-- The globals are what the text of the scope stack lists. -/
theorem Session.Rooted.lists {s : Session} (h : s.Rooted) {x : String} {v : Value}
    (hv : s.scope.inner.get? x = some v) : s.scope.Lists x v := by
  obtain ⟨before, after, hb⟩ := List.append_of_mem (mem_of_findBinding? hv)
  obtain ⟨frame, ho, -⟩ := h.exists_frame
  have ht : s.scope.text = "[" ++ Scope.frameText s.scope.inner ++ "]" := by
    rw [Scope.text, Scope.userFrames, Scope.frames, ho]
    rfl
  rw [Scope.Lists, ht, Scope.frameText, hb, List.map_append, List.map_cons]
  exact ⟨_, _, rfl⟩

/-! ## Sessions that keep the built-ins -/

/-- What a session can become that has just begun if no input assigns the name of a built-in. -/
inductive Session.Pristine : Session → Prop
  | start (maxCallDepth room : Option Nat) : Pristine (.start maxCallDepth room)
  | evaluates {s : Session} {source : String} {r : Outcome EvalError Value × Session} :
      Pristine s → s.Evaluates source r →
      (∀ p, parseSource source = .ok p →
        ¬ p.Makes Scope.OfBuiltin (s.note (.started p.statements.length))) →
      Pristine r.2
  | reset {s : Session} : Pristine s.reset
  | setMaxCallDepth {s : Session} (limit : Nat) : Pristine s → Pristine (s.setMaxCallDepth limit)
  | delivered {s : Session} : Pristine s → Pristine s.delivered

/-- An input that assigns no name of a built-in leaves the frame of the built-ins as it was. -/
theorem Session.Rooted.outer_eq {s : Session} (h : s.Rooted) {p : Program} {r : Result Value}
    (he : p.Ends s r) (hm : ¬ p.Makes Scope.OfBuiltin s) : r.2.scope.outer = s.scope.outer := by
  have hc : r.2.scope.outer.getLast? = s.scope.outer.getLast? :=
    Barrier.ofBuiltin.clear_of_not_makes h.grounded he hm
  obtain ⟨-, fuel, rfl⟩ := he
  obtain ⟨frame, ho, -⟩ := h.exists_frame
  obtain ⟨frame', ho', -⟩ := (h.kept (p.run_freshlyKept h.grounded fuel)).exists_frame
  rw [ho, ho', List.getLast?_singleton, List.getLast?_singleton, Option.some_inj] at hc
  rw [ho, ho', hc]

theorem Session.Pristine.rooted_and_outer {s : Session} (h : s.Pristine) :
    s.Rooted ∧ s.scope.outer = [builtinFrame] := by
  induction h with
  | start => exact ⟨.initial rfl, rfl⟩
  | @evaluates s source r _ he hm ih =>
    cases hp : parseSource source with
    | error e =>
      obtain ⟨-, fuel, rfl⟩ := he
      unfold evaluate
      simp only [hp]
      exact ih
    | ok p =>
      obtain ⟨o, he', -⟩ := (evaluates_iff hp).1 he
      obtain ⟨-, fuel, rfl⟩ := he
      have hn := ih.1.note (.started p.statements.length)
      exact ⟨ih.1.evaluate fuel source, (hn.outer_eq he' (hm p hp)).trans ih.2⟩
  | reset => exact ⟨.initial rfl, rfl⟩
  | setMaxCallDepth _ _ ih => exact ⟨ih.1.of_scope rfl, ih.2⟩
  | delivered _ ih => exact ⟨ih.1.of_scope rfl, ih.2⟩

/-- A program that begins with an assignment of a number makes it at top level. -/
theorem Program.makes_atTop {span span' : Span} {x : String} {n : Int64} {ts : List Term}
    {s : Session} {r : Result Value} (hs : s.scope.depth = 2)
    (h : Program.Ends ⟨.assign span x (.number span' n) :: ts⟩ s r) :
    Program.Makes ⟨.assign span x (.number span' n) :: ts⟩ (Scope.AtTop x) s := by
  refine ⟨⟨r, h⟩, ?_⟩
  rintro ⟨_, hr, fuel, rfl⟩
  apply hr
  match fuel with
  | 0 => rfl
  | 1 => rfl
  | fuel + 2 =>
    have hb : ((Primitives.barring (Scope.AtTop x)).assign x (.int n) s).1 = .outOfFuel :=
      congrArg Prod.fst (if_pos ⟨rfl, hs⟩)
    have hn : Term.evalBy (.barring (Scope.AtTop x)) (fuel + 1) (.number span' n) s =
        (.value (.int n), s) := rfl
    refine outOfFuel_bind ?_
    show ((Term.evalBy _ (fuel + 1) (.number span' n) >>= fun v => _ >>= fun _ => pure v) s).1 = _
    rw [bind_of_value hn]
    exact outOfFuel_bind hb

/-! ## The globals and the built-ins -/

/-- **The globals bind no name of a built-in.** Between inputs, there is one frame outside of the
globals. It binds the names of the built-ins and no others, and it binds them to the built-ins if no
input assigned one of them; no input but these changes it. The globals bind none of these names:
where one of them is assigned, it is bound in the outer frame. So a name that an input assigned at
top level is a global if and only if it is not the name of a built-in, and the text of the scope
stack lists the globals. -/
theorem builtins_frame {s : Session} (hs : s.Reachable) :
    s.scope.outer.map Frame.names = [["prime", "print", "stack"]] ∧
    (s.Pristine → s.scope.outer = [builtinFrame]) ∧
    (∀ x ∈ builtinFrame.names, s.scope.inner.get? x = none ∧
      ∀ v, (s.scope.assign x v).inner = s.scope.inner ∧
        (s.scope.assign x v).outer.map (·.get? x) = [some v]) ∧
    (∀ x v, s.scope.inner.get? x = some v → s.scope.Lists x v) ∧
    ∀ source p r, parseSource source = .ok p → s.Evaluates source r →
      (¬ p.Makes Scope.OfBuiltin (s.note (.started p.statements.length)) →
        r.2.scope.outer = s.scope.outer) ∧
      ∀ x, p.Makes (Scope.AtTop x) (s.note (.started p.statements.length)) →
        ((∃ v, r.2.scope.inner.get? x = some v ∧ r.2.scope.Lists x v) ↔
          x ∉ builtinFrame.names) := by
  have hr := hs.rooted
  refine ⟨hr.outer, fun h => h.rooted_and_outer.2, fun x hx => ⟨?_, hr.assign hx⟩,
    fun x v => hr.lists, fun source p r hp he => ?_⟩
  · simpa [Frame.contains] using hr.inner x hx
  obtain ⟨o, hends, -⟩ := (evaluates_iff hp).1 he
  have hn := hr.note (.started p.statements.length)
  have ht : r.2.Rooted := by
    obtain ⟨-, fuel, rfl⟩ := he
    exact hr.evaluate fuel source
  refine ⟨hn.outer_eq hends, fun x hm => ⟨?_, fun hx => ?_⟩⟩
  · rintro ⟨v, hv, -⟩ hx
    have hi := ht.inner x hx
    rw [Frame.contains, hv] at hi
    cases hi
  · have hb : (r.2.scope.get? x).isSome = true :=
      ((Barrier.atTop x).hit_of_makes hn.grounded hends hm).2
    rw [ht.get?_inner hx] at hb
    obtain ⟨v, hv⟩ := Option.isSome_iff_exists.1 hb
    exact ⟨v, hv, ht.lists hv⟩

/-- A number that is a global afterwards: `n=5;n`. -/
theorem builtins_frame_global :
    ∃ t, (Session.start none none).Evaluates "n=5;n" (.value (.int 5), t) ∧
      t.scope.outer = [builtinFrame] ∧
      ∃ v, t.scope.inner.get? "n" = some v ∧ t.scope.Lists "n" v := by
  let p : Program := ⟨[.assign ⟨0, 3⟩ "n" (.number ⟨2, 3⟩ 5), .var ⟨4, 5⟩ "n"]⟩
  have hp : parseSource "n=5;n" = .ok p := by cbv
  let s : Session := (Session.start none none).note (.started 2)
  have hv : (p.run 3 s).1 = .value (.int 5) := by cbv
  have he : p.Ends s (.value (.int 5), (p.run 3 s).2) := ⟨by simp, 3, Prod.ext hv rfl⟩
  have hb : (p.runBy (.barring Scope.OfBuiltin) 3 s).1 = .value (.int 5) := by cbv
  have hm : ¬ p.Makes Scope.OfBuiltin s := fun h => h.2 ⟨_, by simp [hb], 3, rfl⟩
  have he' : (Session.start none none).Evaluates "n=5;n" (.value (.int 5), (p.run 3 s).2) :=
    (evaluates_iff hp).2 ⟨_, he, rfl⟩
  obtain ⟨hout, hx⟩ := (builtins_frame (.start none none)).2.2.2.2 _ p _ hp he'
  exact ⟨_, he', hout hm, (hx "n" (Program.makes_atTop rfl he)).2 (by decide)⟩

/-- A name of a built-in is not a global after an assignment to it: `print = 5; print`. -/
theorem builtins_frame_rebound :
    ∃ p t, parseSource "print = 5; print" = .ok p ∧
      (Session.start none none).Evaluates "print = 5; print" (.value (.int 5), t) ∧
      p.Makes (Scope.AtTop "print") ((Session.start none none).note (.started 2)) ∧
      t.scope.outer.map (·.get? "print") = [some (.int 5)] ∧
      t.scope.inner.get? "print" = none ∧ t.scope.text = "[\x7b\x7d]" := by
  let p : Program := ⟨[.assign ⟨0, 9⟩ "print" (.number ⟨8, 9⟩ 5), .var ⟨11, 16⟩ "print"]⟩
  have hp : parseSource "print = 5; print" = .ok p := by cbv
  let s : Session := (Session.start none none).note (.started 2)
  have hv : (p.run 3 s).1 = .value (.int 5) := by cbv
  have he : p.Ends s (.value (.int 5), (p.run 3 s).2) := ⟨by simp, 3, Prod.ext hv rfl⟩
  exact ⟨p, (p.run 3 s).2, hp, (evaluates_iff hp).2 ⟨_, he, rfl⟩, Program.makes_atTop rfl he,
    by cbv, by cbv, by cbv⟩

end Dynascope
