import Dynascope.Proofs.Frames
import Dynascope.Proofs.Similarity

/-! # Runs on related stacks of frames

Two runs may find stacks of frames that are not the same, of different height even. A `Coupling`
says how these are related; the frames that the runs open on top of them bind related values
(`Coupling.Above`). If look-ups and assignments keep to the relation, a program does the same on
both stacks, except for what `stack` writes (`Coupling.ends`), and for this as well if it never gets
to a call of `stack` (`Coupling.ends_quiet`).
-/

set_option autoImplicit false

namespace Dynascope

variable {α β : Type}

/-- Equal values, except for the identities of closures: these are compared by their parameters and
their bodies. -/
abbrev Value.Renamed : Value → Value → Prop :=
  Value.Related (fun _ _ => True) Eq

theorem Value.Renamed.refl (v : Value) : v.Renamed v := by
  cases v with
  | int n => exact .int n
  | closure c => exact .closure trivial rfl
  | builtin b => exact .builtin b
  | none => exact .none

/-! ## Stacks of frames -/

section

variable {S : Value → Value → Prop}

theorem isSome_of_rel {a b : Option Value} (h : Option.Rel S a b) : a.isSome = b.isSome := by
  cases h <;> rfl

theorem rel_or {a a' b b' : Option Value} (h : Option.Rel S a b) (h' : Option.Rel S a' b') :
    Option.Rel S (a.or a') (b.or b') := by
  cases h with
  | some hv => exact .some hv
  | none => exact h'

end

/-- The frames bind these names to related values, or not at all. -/
def Frame.Agree (S : Value → Value → Prop) (names : String → Prop) (f g : Frame Value) : Prop :=
  ∀ x, names x → Option.Rel S (f.get? x) (g.get? x)

namespace Frame.Agree

variable {S : Value → Value → Prop} {names : String → Prop} {f g : Frame Value} {x : String}
  {v w : Value}

theorem empty : Frame.Agree S names Frame.empty Frame.empty :=
  fun _ _ => .none

theorem contains (h : f.Agree S names g) (hx : names x) : f.contains x = g.contains x :=
  isSome_of_rel (h x hx)

theorem insert (h : f.Agree S names g) (x : String) (hv : S v w) :
    (f.insert x v).Agree S names (g.insert x w) := by
  intro y hy
  rw [get?_insert, get?_insert]
  split
  · exact .some hv
  · exact h y hy

/-- Frames one after the other that agree, as one step of a look-up. -/
theorem find_cons {fs gs : List (Frame Value)} (h : f.Agree S names g) (hx : names x)
    (ht : Option.Rel S (fs.findSome? (·.get? x)) (gs.findSome? (·.get? x))) :
    Option.Rel S ((f :: fs).findSome? (·.get? x)) ((g :: gs).findSome? (·.get? x)) := by
  rw [findSome?_cons_or, findSome?_cons_or]
  exact rel_or (h x hx) ht

theorem find {fs gs : List (Frame Value)} (h : List.Forall₂ (Frame.Agree S names) fs gs)
    (hx : names x) :
    Option.Rel S (fs.findSome? (·.get? x)) (gs.findSome? (·.get? x)) := by
  induction h with
  | nil => exact .none
  | cons hf _ ih => exact hf.find_cons hx ih

theorem rebind {fs gs : List (Frame Value)} (h : List.Forall₂ (Frame.Agree S names) fs gs)
    (hx : names x) (hv : S v w) :
    List.Forall₂ (Frame.Agree S names) (rebind x v fs) (rebind x w gs) := by
  induction h with
  | nil => exact .nil
  | cons hf ht ih =>
    unfold Dynascope.rebind
    rw [hf.contains hx]
    split
    · exact .cons (hf.insert x hv) ht
    · exact .cons hf ih

end Frame.Agree

/-! ## Couplings -/

/-- A relation between two stacks of frames, and what it needs to know about names and about the
bodies of closures to be kept by look-ups and assignments. -/
structure Coupling where
  bodies : Term → Term → Prop
  /-- The names that can be looked up and assigned. -/
  names : String → Prop
  Base : List (Frame Value) → List (Frame Value) → Prop
  parts {t u : Term} : bodies t u → t.PartsRelated bodies u ∧ ∀ x ∈ t.mentioned?, names x
  ne_nil {fs gs : List (Frame Value)} : Base fs gs → fs ≠ [] ∧ gs ≠ []
  find {fs gs : List (Frame Value)} {x : String} : Base fs gs → names x →
    Option.Rel (Value.Related (fun _ _ => True) bodies)
      (fs.findSome? (·.get? x)) (gs.findSome? (·.get? x))
  rebind {fs gs : List (Frame Value)} {x : String} {v w : Value} : Base fs gs → names x →
    v.Related (fun _ _ => True) bodies w → Base (rebind x v fs) (rebind x w gs)
  /-- A name that is assigned and that no frame binds goes to the innermost frame. -/
  insert {f g : Frame Value} {fs gs : List (Frame Value)} {x : String} {v w : Value} :
    Base (f :: fs) (g :: gs) → names x → (f :: fs).findSome? (·.get? x) = none →
    v.Related (fun _ _ => True) bodies w → Base (f.insert x v :: fs) (g.insert x w :: gs)

namespace Coupling

variable (C : Coupling)

/-- Values that the coupling takes for equal. -/
abbrev Same : Value → Value → Prop :=
  Value.Related (fun _ _ => True) C.bodies

/-- Related stacks with a number of frames on top of which each agrees with the other one. -/
inductive Above : Nat → List (Frame Value) → List (Frame Value) → Prop
  | base {fs gs : List (Frame Value)} : C.Base fs gs → Above 0 fs gs
  | frame {n : Nat} {f g : Frame Value} {fs gs : List (Frame Value)} :
      f.Agree C.Same C.names g → Above n fs gs → Above (n + 1) (f :: fs) (g :: gs)

variable {C} {n : Nat}

namespace Above

variable {f g : Frame Value} {fs gs : List (Frame Value)} {x : String} {v w : Value}

theorem ne_nil (h : C.Above n fs gs) : fs ≠ [] ∧ gs ≠ [] := by
  cases h with
  | base h => exact C.ne_nil h
  | frame => exact ⟨List.cons_ne_nil _ _, List.cons_ne_nil _ _⟩

theorem find (h : C.Above n fs gs) (hx : C.names x) :
    Option.Rel C.Same (fs.findSome? (·.get? x)) (gs.findSome? (·.get? x)) := by
  induction h with
  | base h => exact C.find h hx
  | frame hf _ ih => exact hf.find_cons hx ih

theorem rebind (h : C.Above n fs gs) (hx : C.names x) (hv : C.Same v w) :
    C.Above n (Dynascope.rebind x v fs) (Dynascope.rebind x w gs) := by
  induction h with
  | base h => exact .base (C.rebind h hx hv)
  | frame hf ht ih =>
    unfold Dynascope.rebind
    rw [hf.contains hx]
    split
    · exact .frame (hf.insert x hv) ht
    · exact .frame hf ih

theorem insert (h : C.Above n (f :: fs) (g :: gs)) (hx : C.names x)
    (hnone : (f :: fs).findSome? (·.get? x) = none) (hv : C.Same v w) :
    C.Above n (f.insert x v :: fs) (g.insert x w :: gs) := by
  cases h with
  | base h => exact .base (C.insert h hx hnone hv)
  | frame hf ht => exact .frame (hf.insert x hv) ht

/-- In a frame that was opened after the runs began, any name can be bound. -/
theorem define (h : C.Above (n + 1) (f :: fs) (g :: gs)) (x : String) (hv : C.Same v w) :
    C.Above (n + 1) (f.insert x v :: fs) (g.insert x w :: gs) := by
  cases h with
  | frame hf ht => exact .frame (hf.insert x hv) ht

end Above

/-! ## Sessions -/

/-- Sessions with related stacks of frames, the same active calls and the same limit on them, of
which the output takes everything. -/
structure Holds (C : Coupling) (Logs : Log → Log → Prop) (n : Nat) (s s' : Session) : Prop where
  frames : C.Above n s.scope.frames s'.scope.frames
  callDepth : s.callDepth = s'.callDepth
  maxCallDepth : s.maxCallDepth = s'.maxCallDepth
  room : s.room = none
  room' : s'.room = none
  logs : Logs s.log s'.log

/-- The events that the first of two logs has more than a log, and the second more than another, are
the same. -/
def Since (before before' : Log) (log log' : Log) : Prop :=
  ∃ events, log = events ++ before ∧ log' = events ++ before'

/-- A relation between logs that the same event keeps. -/
def Extends (Logs : Log → Log → Prop) : Prop :=
  ∀ event log log', Logs log log' → Logs (event :: log) (event :: log')

theorem extends_since (before before' : Log) : Extends (Since before before') := by
  rintro event log log' ⟨events, rfl, rfl⟩
  exact ⟨event :: events, rfl, rfl⟩

theorem extends_true : Extends fun _ _ => True :=
  fun _ _ _ _ => trivial

section

variable {Logs : Log → Log → Prop} {s s' : Session} {x : String} {v w : Value}

theorem Holds.note (h : C.Holds Logs n s s') (hl : Extends Logs) (event : Event) :
    C.Holds Logs n (s.note event) (s'.note event) :=
  { h with logs := hl event _ _ h.logs }

theorem Holds.openFrame (h : C.Holds Logs n s s') (hl : Extends Logs) :
    C.Holds Logs (n + 1) s.openFrame s'.openFrame :=
  { h with
    frames := .frame .empty h.frames
    logs := hl .opened _ _ h.logs }

theorem Holds.closeFrame (h : C.Holds Logs (n + 1) s s') (hl : Extends Logs) :
    C.Holds Logs n s.closeFrame s'.closeFrame := by
  obtain ⟨⟨f, fs⟩, _, _, _, _, _⟩ := s
  obtain ⟨⟨g, gs⟩, _, _, _, _, _⟩ := s'
  have hf := h.frames
  cases hf with
  | frame _ ht =>
    obtain ⟨hfs, hgs⟩ := ht.ne_nil
    obtain ⟨f', fs, rfl⟩ := List.exists_cons_of_ne_nil hfs
    obtain ⟨g', gs, rfl⟩ := List.exists_cons_of_ne_nil hgs
    exact { h with frames := ht, logs := hl .closed _ _ h.logs }

theorem Holds.define (h : C.Holds Logs (n + 1) s s') (x : String) (hv : C.Same v w) :
    C.Holds Logs (n + 1) (s.define x v) (s'.define x w) :=
  { h with frames := h.frames.define x hv }

theorem Holds.get? (h : C.Holds Logs n s s') (hx : C.names x) :
    Option.Rel C.Same (s.scope.get? x) (s'.scope.get? x) := by
  rw [Scope.get?_eq, Scope.get?_eq]
  exact h.frames.find hx

theorem Holds.assign (h : C.Holds Logs n s s') (hx : C.names x) (hv : C.Same v w) :
    C.Holds Logs n (s.assign x v) (s'.assign x w) := by
  refine { h with frames := ?_ }
  show C.Above n (s.scope.assign x v).frames (s'.scope.assign x w).frames
  have hg := h.get? hx
  rw [Scope.frames_assign, Scope.frames_assign, isSome_of_rel hg]
  split
  · exact h.frames.rebind hx hv
  · rename_i hnone
    rw [← isSome_of_rel hg, Scope.get?_eq, Option.not_isSome_iff_eq_none] at hnone
    exact h.frames.insert hx hnone hv

theorem write_of_room (h : s.room = none) (text : String) :
    s.write text = (s.note (.wrote text text.utf8ByteSize), true) := by
  rw [Session.write, h]

end

/-! ## Runs -/

/-- Runs on related stacks, as a correspondence. -/
def correspondence (C : Coupling) {Logs : Log → Log → Prop} (hl : Extends Logs) :
    Correspondence Unit where
  Rel V m M := ∀ n, Lockstep (C.Holds Logs n) V m (M ())
  Own V m M := ∀ n, Lockstep (C.Holds Logs (n + 1)) V m (M ())
  ids _ _ := True
  bodies := C.bodies
  names := C.names
  ret hv _ := .ret hv
  fail e _ := .fail e
  bind h hn n := (h n).bind fun a b hab => hn a b hab n
  own h n := h (n + 1)
  ownBind h hn n := (h n).bind fun a b hab => hn a b hab n
  inFrame h n s s' hs := by
    obtain ⟨ho, ht⟩ := h n _ _ (hs.openFrame hl)
    exact ⟨ho, ht.closeFrame hl⟩
  asCall name args _ _ h n :=
    (h n).asCall_of name args (fun _ _ hs => hs.callDepth) (fun _ _ hs => hs.maxCallDepth)
      (fun _ _ event hs => hs.note hl event) fun _ _ _ hs => { hs with callDepth := rfl }
  lookup _ hx _ := .lookup_of fun _ _ hs => hs.get? hx
  define name _ _ hv _ := .update fun _ _ hs => hs.define name hv
  freshClosure _ _ _ hs := ⟨.value trivial, { hs with }⟩
  writeLine text n := .writeLine_of fun s s' hs => by
    rw [write_of_room hs.room, write_of_room hs.room']
    exact ⟨hs.note hl _, rfl⟩

theorem handles_assign (C : Coupling) {Logs : Log → Log → Prop} (hl : Extends Logs) {x : String}
    {v w : Value} (hx : C.names x) (hv : C.Same v w) :
    (C.correspondence hl).Rel (fun _ _ => True) (Primitives.standard.assign x v)
      fun _ => Primitives.standard.assign x w :=
  fun _ => .update fun _ _ hs => hs.assign hx hv

/-- What `stack` writes may differ. -/
theorem handles_standard (C : Coupling) :
    (C.correspondence extends_true).Handles .standard .standard where
  stack n := by
    refine Lockstep.bind (V := fun _ _ => True) (.read fun _ _ _ => trivial) fun text text' _ => ?_
    refine Lockstep.bind (.writeLine_of fun s s' hs => ?_) fun _ _ _ => .ret .none
    rw [write_of_room hs.room, write_of_room hs.room']
    exact ⟨{ hs with logs := trivial }, rfl⟩
  assign _ _ _ := C.handles_assign extends_true

theorem handles_withoutStack (C : Coupling) {Logs : Log → Log → Prop} (hl : Extends Logs) :
    (C.correspondence hl).Handles .withoutStack .withoutStack where
  stack _ := .outOfFuel
  assign _ _ _ := C.handles_assign hl

section

variable {p q : Program} (e : List.Forall₂ C.bodies p.statements q.statements) {s s' : Session}
include e

/-- **On related stacks, a program does the same**, except for what `stack` writes. -/
theorem run (fuel : Nat) (h : C.Holds (fun _ _ => True) n s s') :
    (p.run fuel s).1.Related C.Same (q.run fuel s').1 ∧
      C.Holds (fun _ _ => True) n (p.run fuel s).2 (q.run fuel s').2 := by
  have hr := (C.correspondence extends_true).runBy C.handles_standard (fun _ => .outOfFuel)
    (fun _ _ => C.parts) fuel e n s s' h
  rwa [Program.runBy_standard, Program.runBy_standard] at hr

section

variable {Logs : Log → Log → Prop} (hl : Extends Logs) (h : C.Holds Logs n s s') (fuel : Nat)
include hl h

/-- One program gets to a call of `stack` if and only if the other does. -/
theorem quiet_iff : (p.runBy .withoutStack fuel s).1 = .outOfFuel ↔
    (q.runBy .withoutStack fuel s').1 = .outOfFuel :=
  ((C.correspondence hl).runBy (C.handles_withoutStack hl) (fun _ => .outOfFuel)
    (fun _ _ => C.parts) fuel e n s s' h).1.outOfFuel_iff

/-- Without a call of `stack`, the same happens. -/
theorem run_quiet (hq : (p.runBy .withoutStack fuel s).1 ≠ .outOfFuel) :
    C.Holds Logs n (p.run fuel s).2 (q.run fuel s').2 := by
  have hq' := mt (quiet_iff e hl h fuel).2 hq
  rw [Program.run_of_runBy Primitives.withoutStack_partial hq,
    Program.run_of_runBy Primitives.withoutStack_partial hq']
  exact ((C.correspondence hl).runBy (C.handles_withoutStack hl) (fun _ => .outOfFuel)
    (fun _ _ => C.parts) fuel e n s s' h).2

end

/-! ### Programs that end -/

section

variable (h : C.Holds (fun _ _ => True) n s s')
include h

theorem ends_iff : (∃ r, p.Ends s r) ↔ ∃ r', q.Ends s' r' := by
  have finished (fuel : Nat) := (run e fuel h).1.outOfFuel_iff
  constructor
  · rintro ⟨_, hne, fuel, rfl⟩
    exact ⟨_, mt (finished fuel).2 hne, fuel, rfl⟩
  · rintro ⟨_, hne, fuel, rfl⟩
    exact ⟨_, mt (finished fuel).1 hne, fuel, rfl⟩

variable {r r' : Result Value} (hr : p.Ends s r) (hr' : q.Ends s' r')
include hr hr'

theorem ends : r.1.Related C.Same r'.1 ∧ C.Holds (fun _ _ => True) n r.2 r'.2 := by
  obtain ⟨hne, fuel, rfl⟩ := hr
  have hrun := run e fuel h
  rwa [hr'.eq_run (mt hrun.1.outOfFuel_iff.2 hne)] at hrun

/-- The same events, if one of the programs never gets to a call of `stack`. -/
theorem ends_quiet (hq : p.EndsBy .withoutStack s r ∨ q.EndsBy .withoutStack s' r') :
    ∃ events, r.2.log = events ++ s.log ∧ r'.2.log = events ++ s'.log := by
  have hs : C.Holds (Since s.log s'.log) n s s' := { h with logs := ⟨[], rfl, rfl⟩ }
  have hl := extends_since s.log s'.log
  -- some fuel with which neither gets to a call of `stack`, and so both end
  obtain ⟨fuel, hquiet⟩ : ∃ fuel, (p.runBy .withoutStack fuel s).1 ≠ .outOfFuel := by
    rcases hq with ⟨hne, fuel, rfl⟩ | ⟨hne, fuel, rfl⟩
    · exact ⟨fuel, hne⟩
    · exact ⟨fuel, mt (quiet_iff e hl hs fuel).1 hne⟩
  have hne : (p.run fuel s).1 ≠ .outOfFuel := by
    rwa [Program.run_of_runBy Primitives.withoutStack_partial hquiet]
  have ht := run_quiet e hl hs fuel hquiet
  rw [hr.eq_run hne, hr'.eq_run (mt (run e fuel h).1.outOfFuel_iff.2 hne)] at ht
  exact ht.logs

end

end

end Coupling

end Dynascope
