import Dynascope.Proofs.Couplings
import Dynascope.Proofs.FramedRuns
import Dynascope.Proofs.KnownNames
import Dynascope.Proofs.Logs
import Dynascope.Proofs.Termination

/-! # Without assignments nothing changes

Parameters and loop variables are bound in frames that are closed again, so only an assignment can
change a frame that stays. Which closures can be called is a matter of what the frames bind: in a
session in which no closure has an assignment, a program without one only ever calls such
closures, and only ever makes such closures. So its steps leave the scope as it was, but for the
innermost frame where that was opened for them (`Leaves`), which goes through the steps of
evaluation (`unassigning`). The session that is left is then one in which the program does the same
again: `Program.unassigned_runs`.
-/

set_option autoImplicit false

namespace Dynascope

variable {α β γ : Type}

/-! ## Terms and sessions without assignments -/

/-- Whether a term is an assignment. -/
def Term.isAssign : Term → Bool
  | .assign .. => true
  | _ => false

/-- No assignment is in the term. -/
def Term.AssignmentFree (t : Term) : Prop :=
  ∀ u ∈ t.nodes, u.isAssign = false

/-- No assignment is in the body of a closure that is bound. -/
def Session.AssignmentFree (s : Session) : Prop :=
  ∀ v ∈ s.scope.values, v.Body Term.AssignmentFree

instance (t : Term) : Decidable t.AssignmentFree :=
  inferInstanceAs (Decidable (∀ u ∈ t.nodes, u.isAssign = false))

instance (v : Value) : Decidable (v.Body Term.AssignmentFree) :=
  match v with
  | .closure c => inferInstanceAs (Decidable c.body.AssignmentFree)
  | .int _ | .builtin _ | .none => isTrue trivial

instance (s : Session) : Decidable s.AssignmentFree :=
  inferInstanceAs (Decidable (∀ v ∈ s.scope.values, v.Body Term.AssignmentFree))

theorem Term.AssignmentFree.child {t u : Term} (ht : t.AssignmentFree) (h : u ∈ t.children) :
    u.AssignmentFree :=
  fun w hw => ht w (nodes_subset h hw)

theorem Term.AssignmentFree.not_assign {span : Span} {name : String} {value : Term} :
    ¬ (Term.assign span name value).AssignmentFree := by
  intro h
  have hself : Term.assign span name value ∈ (Term.assign span name value).nodes := by
    rw [nodes_eq]
    exact .head _
  cases h _ hself

theorem Session.AssignmentFree.of_scope {s t : Session} (h : s.AssignmentFree)
    (e : t.scope = s.scope) : t.AssignmentFree := by
  unfold AssignmentFree
  rwa [e]

theorem Session.AssignmentFree.define {s : Session} (h : s.AssignmentFree) (name : String)
    {v : Value} (hv : v.Body Term.AssignmentFree) : (s.define name v).AssignmentFree := by
  intro w hw
  rcases Scope.mem_values_define hw with rfl | hw
  · exact hv
  · exact h w hw

/-! ## Steps -/

/-- The result of a computation in the session `s` that assigned nothing: what is seen of the scope
is as it was, no closure that is bound has an assignment, and a value has a property. -/
structure Unassigned (view : Scope → γ) (V : α → Prop) (s : Session) (r : Result α) : Prop where
  scope : view r.2.scope = view s.scope
  free : r.2.AssignmentFree
  value : ∀ a, r.1 = .value a → V a

/-- From any session without assignments, the computation leaves what is seen of the scope as it
was, and no assignments. -/
def Leaves (view : Scope → γ) (V : α → Prop) (m : Run α) : Prop :=
  ∀ s : Session, s.AssignmentFree → Unassigned view V s (m s)

namespace Leaves

variable {view : Scope → γ} {V : α → Prop} {W : β → Prop} {m : Run α}

/-- A step that changes no frame. -/
theorem of_scope (h : ∀ s, (m s).2.scope = s.scope) (hv : ∀ s a, (m s).1 = .value a → V a) :
    Leaves view V m :=
  fun s hs => ⟨congrArg view (h s), hs.of_scope (h s), hv s⟩

theorem ret {a : α} (h : V a) : Leaves view V (pure a) :=
  of_scope (fun _ => rfl) fun _ _ e => by
    cases e
    exact h

theorem fail (e : RuntimeError) : Leaves view V (Run.fail e) :=
  of_scope (fun _ => rfl) fun _ _ e => by cases e

theorem outOfFuel : Leaves view V Run.outOfFuel :=
  of_scope (fun _ => rfl) fun _ _ e => by cases e

theorem bind {next : α → Run β} (h : Leaves view V m) (hn : ∀ a, V a → Leaves view W (next a)) :
    Leaves view W (m >>= next) := by
  intro s hs
  have ht := h s hs
  rcases hm : m s with ⟨o, t⟩
  rw [hm] at ht
  cases o with
  | value a =>
    rw [bind_of_value hm]
    have hu := hn a (ht.value a rfl) t ht.free
    exact ⟨hu.scope.trans ht.scope, hu.free, hu.value⟩
  | failure e =>
    rw [bind_of_failure hm]
    exact ⟨ht.scope, ht.free, fun _ e => by cases e⟩
  | outOfFuel =>
    rw [bind_of_outOfFuel hm]
    exact ⟨ht.scope, ht.free, fun _ e => by cases e⟩

/-- Whoever leaves the whole scope as it was leaves every part of it. -/
theorem part (h : Leaves id V m) : Leaves view V m := by
  intro s hs
  have ht := h s hs
  exact ⟨congrArg view ht.scope, ht.free, ht.value⟩

/-- A frame around steps that leave all other frames as they were. -/
theorem inFrame (h : Leaves Scope.outer V m) : Leaves id V m.inFrame := by
  intro s hs
  have hopen : s.openFrame.AssignmentFree := hs
  have ht := h s.openFrame hopen
  have houter : (m s.openFrame).2.scope.outer = s.scope.inner :: s.scope.outer := ht.scope
  have hclose : (m.inFrame s).2.scope = s.scope := by
    show (m s.openFrame).2.closeFrame.scope = s.scope
    rw [Session.closeFrame, Scope.pop?, houter]
  exact ⟨hclose, hs.of_scope hclose, ht.value⟩

theorem inCall (h : Leaves view V m) : Leaves view V m.inCall := by
  intro s hs
  have ht := h { s with callDepth := s.callDepth + 1 } hs
  exact ⟨ht.scope, ht.free, ht.value⟩

theorem asCall {V : Value → Prop} (name : String) (args : Nat) {m : Run Value}
    (h : Leaves view V m) : Leaves view V (m.asCall name args) := by
  have hread : Leaves view (fun _ => True) (Run.read (·.exceeded?)) :=
    of_scope (fun _ => rfl) fun _ _ _ => trivial
  have hnote : Leaves view (fun _ => True)
      (Run.update fun s => s.note (.called name args s.callDepth)) :=
    of_scope (fun _ => rfl) fun _ _ _ => trivial
  apply hread.bind
  intro limit _
  cases limit with
  | some limit => exact fail _
  | none => exact hnote.bind fun _ _ => h.inCall

theorem lookup (name : String) :
    Leaves view (Value.Body Term.AssignmentFree) (Run.lookup name) := by
  intro s hs
  have hscope : (Run.lookup name s).2.scope = s.scope := by rw [lookup_session]
  refine ⟨congrArg view hscope, hs.of_scope hscope, fun v hv => ?_⟩
  have hv : (Run.ofExcept (s.scope.lookup name) s).1 = .value v := hv
  unfold Scope.lookup at hv
  cases hg : s.scope.get? name with
  | none =>
    rw [hg] at hv
    cases hv
  | some w =>
    rw [hg] at hv
    cases hv
    exact hs _ (Scope.mem_values_of_get? hg)

/-- A definition changes the innermost frame only. -/
theorem define (name : String) {v : Value} (hv : v.Body Term.AssignmentFree) :
    Leaves Scope.outer (fun _ => True) (Run.update (·.define name v)) :=
  fun _ hs => ⟨rfl, hs.define name hv, fun _ _ => trivial⟩

theorem writeLine (text : String) : Leaves view (fun _ => True) (Run.writeLine text) := by
  refine of_scope (fun s => ?_) fun _ _ _ => trivial
  rw [writeLine_session, Session.write]
  split <;> rfl

end Leaves

/-! ## Runs -/

/-- Leaving the scope as it was, as a contract. -/
def unassigning : Contract where
  Keeps := Leaves id
  Own := Leaves Scope.outer
  terms := Term.AssignmentFree
  closures c := c.body.AssignmentFree
  names _ := True
  children ht hu := ht.child hu
  mentioned _ _ := trivial
  builtins _ := trivial
  made _ ht := ht.child (.head _)
  called hc := hc
  ret := .ret
  fail _ := .fail _
  outOfFuel := .outOfFuel
  bind h hn := h.bind hn
  own h := h.part
  ownBind h hn := h.bind hn
  inFrame h := h.inFrame
  asCall name args _ h := h.asCall name args
  lookup _ := .lookup _
  define name _ hv := .define name hv
  assign ht _ := absurd ht Term.AssignmentFree.not_assign
  freshClosure := .of_scope (fun _ => rfl) fun _ _ _ => trivial
  scopeText := .of_scope (fun _ => rfl) fun _ _ _ => trivial
  writeLine := .writeLine

namespace Program

variable {p : Program} {s : Session} {r : Result Value}

/-- Whatever the fuel, a program without assignments leaves the scope as it was. -/
theorem run_scope (hp : ∀ t ∈ p.statements, t.AssignmentFree) (hs : s.AssignmentFree)
    (fuel : Nat) : (p.run fuel s).2.scope = s.scope :=
  (Contract.run (C := unassigning) fuel hp s hs).scope

theorem Ends.scope_eq (h : p.Ends s r) (hp : ∀ t ∈ p.statements, t.AssignmentFree)
    (hs : s.AssignmentFree) : r.2.scope = s.scope := by
  obtain ⟨-, fuel, rfl⟩ := h
  exact run_scope hp hs fuel

/-- Where the scope is as it was, and the output takes everything, a program leaves a session that
is equal to the one before but for the identities of closures and for what happened. -/
theorem Ends.renamed_after (h : p.Ends s r) (hscope : r.2.scope = s.scope) (hroom : s.room = none) :
    Renamed s.log r.2.log s r.2 := by
  obtain ⟨-, fuel, rfl⟩ := h
  have hlimits := p.run_limits fuel s
  exact {
    scope := by rw [hscope]
    callDepth := (p.run_kept fuel s).callDepth.symm
    maxCallDepth := hlimits.maxCallDepth.symm
    room := hroom.trans (hlimits.room hroom).symm
    log := ⟨[], rfl, rfl⟩ }

/-- **Without assignments nothing changes.** There is no assignment in a program, nor in the body of
a closure that some frame binds. However the program ends, the frames are then what they were, with
the same names and the same values. Where the output takes everything, the program ends again when
it is run once more, with the same value, up to the identity of a closure, or with the same error;
the same happens again, the same is written again, and the frames are still what they were. -/
theorem unassigned_runs (hp : ∀ t ∈ p.statements, t.AssignmentFree) (hs : s.AssignmentFree)
    (h : p.Ends s r) : r.2.scope = s.scope ∧
      (s.room = none → ∃ r', p.Ends r.2 r' ∧ r.1.Related Value.Renamed r'.1 ∧
        r'.2.scope = s.scope ∧ ∃ events : Log,
          r.2.log = events ++ s.log ∧ r.2.log.output = s.log.output ++ events.output ∧
          r'.2.log = events ++ r.2.log ∧
          r'.2.log.output = r.2.log.output ++ events.output) := by
  have hscope := h.scope_eq hp hs
  refine ⟨hscope, fun hroom => ?_⟩
  obtain ⟨r', h', ho, ht⟩ := h.renamed (h.renamed_after hscope hroom)
  obtain ⟨events, hlog, hlog'⟩ := ht.log
  refine ⟨r', h', ho, ?_, events, hlog, ?_, hlog', ?_⟩
  · exact (h'.scope_eq hp (hs.of_scope hscope)).trans hscope
  · rw [hlog, Log.output_append]
  · rw [hlog', Log.output_append]

/-- A loop that calls closures, one of them under two names, and then a function that is made: the
program can be run twice after the one that binds the closures, which has assignments. -/
theorem unassigned_runs_range :
    ∃ (q p : Program) (r r' : Result Value),
      parseSource "twice=lambda g,n:g(g(n));show=lambda n:\x7bprint(n);n+1\x7d" = .ok q ∧
      parseSource "for i in range(0,2)\x7btwice(show,i)\x7d;lambda x:show(x)" = .ok p ∧
      p.Ends (q.run 10 (.start none none)).2 r ∧
      r.2.scope.text = "[\x7bshow: <lambda n>, twice: <lambda g, n>\x7d]" ∧
      r.2.log.output = "0\n1\n1\n2\n" ∧ p.Ends r.2 r' ∧ r.1.Related Value.Renamed r'.1 ∧
      r'.2.scope = r.2.scope ∧ r'.2.log.output = "0\n1\n1\n2\n0\n1\n1\n2\n" := by
  have hprograms : ∃ q p : Program,
      parseSource "twice=lambda g,n:g(g(n));show=lambda n:\x7bprint(n);n+1\x7d" = .ok q ∧
      parseSource "for i in range(0,2)\x7btwice(show,i)\x7d;lambda x:show(x)" = .ok p ∧
      (q.run 10 (.start none none)).2.AssignmentFree ∧
      (∀ t ∈ p.statements, t.AssignmentFree) ∧
      (q.run 10 (.start none none)).2.room = none ∧
      (q.run 10 (.start none none)).2.log.output = "" ∧
      (q.run 10 (.start none none)).2.scope.text =
        "[\x7bshow: <lambda n>, twice: <lambda g, n>\x7d]" ∧
      (p.run 20 (q.run 10 (.start none none)).2).2.log.output = "0\n1\n1\n2\n" ∧
      (p.run 20 (q.run 10 (.start none none)).2).1 ≠ .outOfFuel :=
    ⟨_, _, by cbv, by cbv, of_decide_eq_true (by cbv), by decide, by cbv, by cbv, by cbv, by cbv,
      by cbv; simp⟩
  obtain ⟨q, p, hq, hparse, hs, hp, hroom, hbefore, htext, hout, hfuel⟩ := hprograms
  have hends : p.Ends (q.run 10 (.start none none)).2 _ := ⟨hfuel, 20, rfl⟩
  obtain ⟨hscope, hagain⟩ := unassigned_runs hp hs hends
  obtain ⟨r', hends', hvalue, hscope', events, -, hout', -, hout''⟩ := hagain hroom
  rw [hbefore, hout, String.empty_append] at hout'
  refine ⟨q, p, _, r', hq, hparse, hends, by rw [hscope, htext], hout, hends', hvalue,
    hscope'.trans hscope.symm, ?_⟩
  rw [hout'', hout, ← hout']
  rfl

end Program

end Dynascope
