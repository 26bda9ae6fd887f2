import Dynascope.Proofs.BoundValues
import Dynascope.Proofs.Contracts

/-! # Where names come from

A run learns no names. If those of its terms and of all closures that are bound are known, then so
are, however it ends, those of the closures that it leaves bound, of a closure that it has for its
value, and the name that its error tells of; the built-ins are always known. The limits of a session
stay what they are. Both are one contract, `knowing`, and hold of all terms, programs and inputs.
-/

set_option autoImplicit false

namespace Dynascope

variable {α β : Type} {names : String → Prop}

/-! ## Known names -/

/-- All names in a term are known. -/
def Term.Knows (names : String → Prop) (t : Term) : Prop :=
  ∀ x ∈ t.names, names x

/-- All names in a closure are known. -/
def Closure.Knows (names : String → Prop) (c : Closure) : Prop :=
  (∀ x ∈ c.params, names x) ∧ c.body.Knows names

/-- All names in the closures that are bound are known. -/
def Session.Knows (names : String → Prop) (s : Session) : Prop :=
  ∀ v ∈ s.scope.values, v.Admitted (Closure.Knows names)

/-- The limits of two sessions are the same, as far as they are not used up. -/
structure LimitsKept (s t : Session) : Prop where
  maxCallDepth : t.maxCallDepth = s.maxCallDepth
  room : s.room = none → t.room = none

theorem LimitsKept.trans {s t u : Session} (h : LimitsKept s t) (h' : LimitsKept t u) :
    LimitsKept s u :=
  ⟨h'.maxCallDepth.trans h.maxCallDepth, fun hs => h'.room (h.room hs)⟩

/-- An end with a value that has a property, with an error that tells of known names only, or
without an answer. -/
inductive Outcome.Tells (names : String → Prop) (V : α → Prop) : Outcome RuntimeError α → Prop
  | value {a : α} : V a → Tells names V (.value a)
  | failure {e : RuntimeError} : (∀ x ∈ e.name?, names x) → Tells names V (.failure e)
  | outOfFuel : Tells names V .outOfFuel

/-! ## Steps -/

section

variable {s t : Session}

/-- What a step keeps: the names that are known, and the limits. -/
structure Session.Learnt (names : String → Prop) (s t : Session) : Prop where
  knows : t.Knows names
  limits : LimitsKept s t

theorem Session.Knows.learnt (h : s.Knows names) : s.Learnt names s :=
  ⟨h, rfl, id⟩

theorem Session.Learnt.trans {u : Session} (h : s.Learnt names t) (h' : t.Learnt names u) :
    s.Learnt names u :=
  ⟨h'.knows, h.limits.trans h'.limits⟩

theorem Session.Learnt.closeFrame (h : s.Learnt names t) : s.Learnt names t.closeFrame := by
  unfold Session.closeFrame
  cases hp : t.scope.pop? with
  | none => exact ⟨h.knows, h.limits.maxCallDepth, h.limits.room⟩
  | some scope =>
    exact ⟨fun v hv => h.knows v (Scope.mem_values_of_pop? hp hv), h.limits.maxCallDepth,
      h.limits.room⟩

theorem Session.Knows.define (h : s.Knows names) (name : String) {v : Value}
    (hv : v.Admitted (Closure.Knows names)) : s.Learnt names (s.define name v) := by
  refine ⟨fun w hw => ?_, rfl, id⟩
  rcases Scope.mem_values_define hw with rfl | hw
  · exact hv
  · exact h w hw

theorem Session.Knows.assign (h : s.Knows names) (name : String) {v : Value}
    (hv : v.Admitted (Closure.Knows names)) : s.Learnt names (s.assign name v) := by
  refine ⟨fun w hw => ?_, rfl, id⟩
  rcases Scope.mem_values_assign hw with rfl | hw
  · exact hv
  · exact h w hw

theorem Session.Knows.write (h : s.Knows names) (text : String) :
    s.Learnt names (s.write text).1 := by
  unfold Session.write
  cases hr : s.room with
  | none => exact ⟨h, rfl, id⟩
  | some room => exact ⟨h, rfl, fun hn => by rw [hr] at hn; cases hn⟩

/-- From any session that knows the names, the computation leaves one that does, with the same
limits, and tells of known names only. -/
def Knowing (names : String → Prop) (V : α → Prop) (m : Run α) : Prop :=
  ∀ s : Session, s.Knows names → s.Learnt names (m s).2 ∧ (m s).1.Tells names V

namespace Knowing

variable {V : α → Prop} {W : β → Prop}

theorem ret {a : α} (h : V a) : Knowing names V (pure a) :=
  fun _ hs => ⟨hs.learnt, .value h⟩

theorem fail {e : RuntimeError} (h : ∀ x ∈ e.name?, names x) : Knowing names V (Run.fail e) :=
  fun _ hs => ⟨hs.learnt, .failure h⟩

theorem bind {m : Run α} {next : α → Run β} (h : Knowing names V m)
    (hn : ∀ a, V a → Knowing names W (next a)) : Knowing names W (m >>= next) := by
  intro s hs
  obtain ⟨ht, ho⟩ := h s hs
  rcases hm : m s with ⟨o, t⟩
  rw [hm] at ho ht
  cases ho with
  | value ha =>
    rw [bind_of_value hm]
    obtain ⟨hu, ho⟩ := hn _ ha t ht.knows
    exact ⟨ht.trans hu, ho⟩
  | failure he =>
    rw [bind_of_failure hm]
    exact ⟨ht, .failure he⟩
  | outOfFuel =>
    rw [bind_of_outOfFuel hm]
    exact ⟨ht, .outOfFuel⟩

theorem update {change : Session → Session}
    (h : ∀ s : Session, s.Knows names → s.Learnt names (change s)) :
    Knowing names (fun _ => True) (Run.update change) :=
  fun s hs => ⟨h s hs, .value trivial⟩

theorem inFrame {m : Run α} (h : Knowing names V m) : Knowing names V m.inFrame := by
  intro s hs
  have hopen : s.openFrame.Knows names := hs
  obtain ⟨ht, ho⟩ := h s.openFrame hopen
  exact ⟨Session.Learnt.closeFrame ⟨ht.knows, ht.limits.maxCallDepth, ht.limits.room⟩, ho⟩

theorem inCall {m : Run α} (h : Knowing names V m) : Knowing names V m.inCall := by
  intro s hs
  obtain ⟨ht, ho⟩ := h { s with callDepth := s.callDepth + 1 } hs
  exact ⟨⟨ht.knows, ht.limits.maxCallDepth, ht.limits.room⟩, ho⟩

theorem asCall {V : Value → Prop} (name : String) (args : Nat) {m : Run Value}
    (h : Knowing names V m) : Knowing names V (m.asCall name args) := by
  have hread : Knowing names (fun _ => True) (Run.read (·.exceeded?)) :=
    fun _ hs => ⟨hs.learnt, .value trivial⟩
  have hnote : Knowing names (fun _ => True)
      (Run.update fun s => s.note (.called name args s.callDepth)) :=
    update fun _ hs => ⟨hs, rfl, id⟩
  refine hread.bind fun limit _ => ?_
  cases limit with
  | some limit => exact fail (by simp [RuntimeError.name?])
  | none => exact hnote.bind fun _ _ => h.inCall

theorem lookup {name : String} (hx : names name) :
    Knowing names (Value.Admitted (Closure.Knows names)) (Run.lookup name) := by
  intro s hs
  show s.Learnt names (Run.ofExcept (s.scope.lookup name) s).2 ∧
    (Run.ofExcept (s.scope.lookup name) s).1.Tells names _
  unfold Scope.lookup
  cases hv : s.scope.get? name with
  | none => exact ⟨hs.learnt, .failure fun x hm => Option.some.inj hm ▸ hx⟩
  | some v => exact ⟨hs.learnt, .value (hs v (Scope.mem_values_of_get? hv))⟩

theorem writeLine (text : String) : Knowing names (fun _ => True) (Run.writeLine text) := by
  intro s hs
  have ht := hs.write (text ++ "\n")
  unfold Run.writeLine
  rcases hw : s.write (text ++ "\n") with ⟨t, _ | _⟩
  · rw [hw] at ht
    exact ⟨ht, .failure (by simp [RuntimeError.name?])⟩
  · rw [hw] at ht
    exact ⟨ht, .value trivial⟩

end Knowing

end

/-! ## Runs -/

section

variable (hb : ∀ b : Builtin, names b.name)

/-- Learning no names and keeping the limits, as a contract. -/
def knowing : Contract where
  Keeps := Knowing names
  Own := Knowing names
  terms := Term.Knows names
  closures := Closure.Knows names
  names := names
  children ht hu x hx := ht x (Term.names_child hu hx)
  mentioned {t x} ht hx := ht x (by cases t <;> cases hx <;> simp [Term.names])
  builtins := hb
  made _ ht := ⟨fun x hx => ht x (List.mem_append_left _ hx),
    fun x hx => ht x (List.mem_append_right _ hx)⟩
  called hc := hc.2
  ret := .ret
  fail := .fail
  outOfFuel _ hs := ⟨hs.learnt, .outOfFuel⟩
  bind h hn := h.bind hn
  own h := h
  ownBind h hn := h.bind hn
  inFrame h := h.inFrame
  asCall name args _ h := h.asCall name args
  lookup := .lookup
  define name _ hv := .update fun _ hs => hs.define name hv
  assign _ hv := .update fun _ hs => hs.assign _ hv
  freshClosure _ hs := ⟨⟨hs, rfl, id⟩, .value trivial⟩
  scopeText _ hs := ⟨hs.learnt, .value trivial⟩
  writeLine := .writeLine

include hb

/-- **A run learns no names.** If those of a program and of the closures that are bound are known,
then so are those that it leaves bound, those of its value, and the name that its error tells of. -/
theorem Program.run_knows {p : Program} (hp : ∀ t ∈ p.statements, t.Knows names) {s : Session}
    (hs : s.Knows names) (fuel : Nat) :
    (p.run fuel s).2.Knows names ∧
      (p.run fuel s).1.Tells names (Value.Admitted (Closure.Knows names)) := by
  obtain ⟨ht, ho⟩ := Contract.run (C := knowing hb) fuel hp s hs
  exact ⟨ht.knows, ho⟩

end

/-- A program keeps the limits, however it ends. -/
theorem Program.run_limits (p : Program) (fuel : Nat) (s : Session) :
    LimitsKept s (p.run fuel s).2 := by
  -- with every name known, only the part on the limits says something
  have hs : s.Knows fun _ => True := by
    intro v _
    cases v with
    | closure c => exact ⟨fun _ _ => trivial, fun _ _ => trivial⟩
    | _ => trivial
  have h := Contract.run (C := knowing fun _ => trivial) fuel
    (p := p) (fun t _ x _ => trivial) s hs
  exact h.1.limits

end Dynascope
