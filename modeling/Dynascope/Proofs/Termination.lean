import Dynascope.Proofs.BoundValues
import Dynascope.Proofs.CallLimit
import Dynascope.Proofs.Flatten

/-! # Everything without `while` ends

A loop over a range has a number of rounds that is known before the first, and a call makes one more
call active, of which there is a limit. So only a `while` can go on for ever: in a session in which
no closure has one, a program without one ends (`Program.ends_of_whileFree`).

The fuel that is needed is bounded (`halts_eval`). Let `size` bound the terms of the program and the
bodies of all closures. Every body that is called was written in one of these, so each of the
`calls` that the limit still allows costs at most `size`, and the parts of a term are smaller than
the term.
-/

set_option autoImplicit false

namespace Dynascope

variable {α β : Type}

/-! ## Terms without `while` -/

/-- Whether a term is a loop under a condition. -/
def Term.isWhile : Term → Bool
  | .whileLoop .. => true
  | _ => false

/-- No loop under a condition is in the term. -/
def Term.WhileFree (t : Term) : Prop :=
  ∀ u ∈ t.nodes, u.isWhile = false

instance (t : Term) : Decidable t.WhileFree :=
  inferInstanceAs (Decidable (∀ u ∈ t.nodes, u.isWhile = false))

instance (v : Value) : Decidable (v.Body Term.WhileFree) :=
  match v with
  | .closure c => inferInstanceAs (Decidable c.body.WhileFree)
  | .int _ | .builtin _ | .none => isTrue trivial

theorem Term.nodes_eq (t : Term) : t.nodes = t :: t.children.flatMap nodes := by
  cases t with
  | forLoop span name first => cases first <;> simp [nodes, children]
  | _ => simp [nodes, children]

/-- The number of terms in a term. -/
def Term.size (t : Term) : Nat :=
  t.nodes.length

theorem Term.size_pos (t : Term) : 0 < t.size := by
  rw [size, nodes_eq]
  exact Nat.succ_pos _

/-- A term without `while` that is not larger than `size`. -/
structure Term.Plain (size : Nat) (t : Term) : Prop where
  whileFree : t.WhileFree
  size_le : t.size ≤ size

/-- A value that, if it is a closure, has such a body. -/
abbrev Value.Plain (size : Nat) : Value → Prop :=
  Value.Body (Term.Plain size)

section

variable {t u : Term}

theorem Term.nodes_subset (h : u ∈ t.children) : u.nodes ⊆ t.nodes := by
  intro w hw
  rw [nodes_eq t]
  exact .tail _ (List.mem_flatMap.2 ⟨u, h, hw⟩)

theorem Term.size_lt (h : u ∈ t.children) : u.size < t.size := by
  obtain ⟨xs, ys, e⟩ := List.append_of_mem h
  rw [size, size, nodes_eq t, e]
  simp only [List.flatMap_append, List.flatMap_cons, List.length_cons, List.length_append]
  omega

theorem Term.Plain.child {size : Nat} (ht : t.Plain size) (h : u ∈ t.children) : u.Plain size :=
  ⟨fun w hw => ht.whileFree w (nodes_subset h hw),
    Nat.le_trans (Nat.le_of_lt (size_lt h)) ht.size_le⟩

end

/-! ## Sessions with calls left -/

/-- The limit leaves room for no more than `calls` further calls, and the bodies of all closures are
without `while` and not larger than `size`. -/
structure Session.Tame (limit size calls : Nat) (s : Session) : Prop where
  maxCallDepth : s.maxCallDepth = some limit
  room : limit ≤ s.callDepth + calls
  bodies : ∀ v ∈ s.scope.values, v.Plain size

namespace Session.Tame

variable {limit size calls : Nat} {s : Session} (h : s.Tame limit size calls)
include h

theorem note (event : Event) : (s.note event).Tame limit size calls :=
  { h with }

theorem openFrame : s.openFrame.Tame limit size calls :=
  { h with }

theorem closeFrame : s.closeFrame.Tame limit size calls := by
  unfold Session.closeFrame
  cases hp : s.scope.pop? with
  | none => exact h.note _
  | some scope => exact { h with bodies := fun v hv => h.bodies v (Scope.mem_values_of_pop? hp hv) }

theorem define {v : Value} (hv : v.Plain size) (name : String) :
    (s.define name v).Tame limit size calls := by
  refine { h with bodies := fun w hw => ?_ }
  rcases Scope.mem_values_define hw with rfl | hw
  · exact hv
  · exact h.bodies w hw

theorem assign {v : Value} (hv : v.Plain size) (name : String) :
    (s.assign name v).Tame limit size calls := by
  refine { h with bodies := fun w hw => ?_ }
  rcases Scope.mem_values_assign hw with rfl | hw
  · exact hv
  · exact h.bodies w hw

theorem write (text : String) : (s.write text).1.Tame limit size calls := by
  unfold Session.write
  split <;> exact { h with }

end Session.Tame

/-! ## Computations that end -/

/-- An end with a value that has a property, or with an error. -/
inductive Outcome.Finished {ε : Type} (V : α → Prop) : Outcome ε α → Prop
  | value {a : α} : V a → Finished V (.value a)
  | failure (e : ε) : Finished V (.failure e)

/-- From any tame session, the computation ends with a value that has a property, or with an error,
and leaves a tame session behind. -/
def Halts (limit size calls : Nat) (V : α → Prop) (m : Run α) : Prop :=
  ∀ s : Session, s.Tame limit size calls →
    (m s).1.Finished V ∧ (m s).2.Tame limit size calls

namespace Halts

variable {limit size calls : Nat} {V : α → Prop} {W : β → Prop}

theorem ret {a : α} (h : V a) : Halts limit size calls V (pure a) :=
  fun _ hs => ⟨.value h, hs⟩

theorem fail (e : RuntimeError) : Halts limit size calls V (Run.fail e) :=
  fun _ hs => ⟨.failure e, hs⟩

theorem bind {m : Run α} {next : α → Run β} (h : Halts limit size calls V m)
    (hn : ∀ a, V a → Halts limit size calls W (next a)) :
    Halts limit size calls W (m >>= next) := by
  intro s hs
  obtain ⟨ho, ht⟩ := h s hs
  rcases hm : m s with ⟨o, t⟩
  rw [hm] at ho ht
  cases ho with
  | value ha =>
    rw [bind_of_value hm]
    exact hn _ ha t ht
  | failure e =>
    rw [bind_of_failure hm]
    exact ⟨.failure e, ht⟩

theorem ofExcept (r : Except RuntimeError α) :
    Halts limit size calls (fun _ => True) (Run.ofExcept r) := by
  cases r with
  | ok a => exact .ret trivial
  | error e => exact .fail e

theorem read (view : Session → α) : Halts limit size calls (fun _ => True) (Run.read view) :=
  fun _ hs => ⟨.value trivial, hs⟩

theorem update {change : Session → Session}
    (h : ∀ s : Session, s.Tame limit size calls → (change s).Tame limit size calls) :
    Halts limit size calls (fun _ => True) (Run.update change) :=
  fun s hs => ⟨.value trivial, h s hs⟩

theorem inFrame {m : Run α} (h : Halts limit size calls V m) : Halts limit size calls V m.inFrame :=
  fun s hs => ⟨(h s.openFrame hs.openFrame).1, (h s.openFrame hs.openFrame).2.closeFrame⟩

theorem inCall {fewer : Nat} {m : Run α} (h : Halts limit size fewer V m) :
    Halts limit size (fewer + 1) V m.inCall := by
  intro s hs
  have hroom := hs.room
  have henter : s.enterCall.Tame limit size fewer :=
    { hs with room := by show limit ≤ s.callDepth + 1 + fewer; omega }
  obtain ⟨ho, ht⟩ := h s.enterCall henter
  rw [inCall_eq]
  refine ⟨ho, { ht with room := ?_ }⟩
  have hroom := ht.room
  show limit ≤ (m s.enterCall).2.callDepth - 1 + (fewer + 1)
  omega

/-- A call takes one of the calls that are left. -/
theorem asCall {V : Value → Prop} (name : String) (args : Nat) {m : Run Value}
    (h : ∀ fewer, calls = fewer + 1 → Halts limit size fewer V m) :
    Halts limit size calls V (m.asCall name args) := by
  intro s hs
  by_cases hd : limit ≤ s.callDepth
  · have hfull : s.exceeded? = some limit := by
      simp [Session.exceeded?, hs.maxCallDepth, Option.filter, hd]
    rw [asCall_of_exceeded name args m hfull]
    exact ⟨.failure _, hs⟩
  · have hroom : s.exceeded? = none := by
      simp [Session.exceeded?, hs.maxCallDepth, Option.filter, hd]
    have hleft := hs.room
    obtain ⟨fewer, rfl⟩ : ∃ fewer, calls = fewer + 1 := ⟨calls - 1, by omega⟩
    rw [asCall_of_room name args m hroom]
    exact (h fewer rfl).inCall _ (hs.note _)

theorem lookup (name : String) :
    Halts limit size calls (Value.Plain size) (Run.lookup name) := by
  intro s hs
  show (Run.ofExcept (s.scope.lookup name) s).1.Finished _ ∧
    (Run.ofExcept (s.scope.lookup name) s).2.Tame limit size calls
  unfold Scope.lookup
  cases hv : s.scope.get? name with
  | none => exact ⟨.failure _, hs⟩
  | some v => exact ⟨.value (hs.bodies v (Scope.mem_values_of_get? hv)), hs⟩

theorem lookupThen {V : α → Prop} (name : String) {next : Value → Run α}
    (hn : ∀ v : Value, v.Plain size → Halts limit size calls V (next v)) :
    Halts limit size calls V
      (do next (← Run.ofExcept (← Run.read (·.scope.lookup name)))) := by
  have h := (lookup name).bind hn
  simpa only [Run.lookup, bind_assoc] using h

theorem writeLine (text : String) :
    Halts limit size calls (fun _ => True) (Run.writeLine text) := by
  intro s hs
  have ht := hs.write (text ++ "\n")
  unfold Run.writeLine
  rcases hw : s.write (text ++ "\n") with ⟨t, _ | _⟩
  · rw [hw] at ht
    exact ⟨.failure _, ht⟩
  · rw [hw] at ht
    exact ⟨.value trivial, ht⟩

theorem freshClosure : Halts limit size calls (fun _ => True) Run.freshClosure :=
  fun _ hs => ⟨.value trivial, { hs with }⟩

/-- Loops over a range have finitely many rounds. -/
theorem forRounds {body : Run Value}
    (hb : Halts limit size calls (Value.Plain size) body) (name : String) (count : Nat)
    (i : Int64) {v : Value} (hv : v.Plain size) :
    Halts limit size calls (Value.Plain size) (forRounds name body count i v) := by
  induction count generalizing i v with
  | zero => exact .ret hv
  | succ count ih =>
    have hi : (Value.int i).Plain size := trivial
    exact (update fun _ hs => hs.define hi name).bind fun _ _ => hb.bind fun _ hv => ih _ hv

theorem bindParams (params : List String) {vs : List Value}
    (hv : ∀ v ∈ vs, v.Plain size) :
    Halts limit size calls (fun _ => True) (Run.update (bindParams params vs)) := by
  induction params generalizing vs with
  | nil => exact .ret trivial
  | cons p ps ih =>
    cases vs with
    | nil => exact .ret trivial
    | cons v vs =>
      obtain ⟨hv, hvs⟩ := List.forall_mem_cons.1 hv
      exact (update fun _ hs => hs.define hv p).bind fun _ _ => ih hvs

theorem callBuiltin (b : Builtin) {vs : List Value} (hv : ∀ v ∈ vs, v.Plain size) :
    Halts limit size calls (Value.Plain size) (b.call vs) := by
  unfold Builtin.call
  split
  · exact (writeLine _).bind fun _ _ => .ret (hv _ (.head _))
  · exact (read _).bind fun _ _ => (writeLine _).bind fun _ _ => .ret trivial
  · exact (ofExcept _).bind fun _ _ => .ret trivial
  · exact .fail _
  · exact .fail _
  · exact .fail _

end Halts

/-! ## The constructs of the language -/

namespace Halts

variable {limit size calls : Nat} {ev : Term → Run Value}

theorem evalInt {t : Term} (h : Halts limit size calls (Value.Plain size) (ev t)) :
    Halts limit size calls (fun _ => True) (evalInt ev t) :=
  h.bind fun _ _ => ofExcept _

theorem evalFirst {first : Option Term}
    (h : ∀ t ∈ first.toList, Halts limit size calls (Value.Plain size) (ev t)) :
    Halts limit size calls (fun _ => True) (evalFirst ev first) := by
  cases first with
  | none => exact .ret trivial
  | some t => exact (h t (.head _)).evalInt

theorem evalAll {ts : List Term}
    (h : ∀ t ∈ ts, Halts limit size calls (Value.Plain size) (ev t)) {v : Value}
    (hv : v.Plain size) :
    Halts limit size calls (Value.Plain size) (evalAll ev v ts) := by
  induction ts generalizing v with
  | nil => exact .ret hv
  | cons t ts ih =>
    obtain ⟨ht, hts⟩ := List.forall_mem_cons.1 h
    exact ht.bind fun _ hv => ih hts hv

theorem evalBlock {ts : List Term}
    (h : ∀ t ∈ ts, Halts limit size calls (Value.Plain size) (ev t)) :
    Halts limit size calls (Value.Plain size) (evalBlock ev ts) := by
  have hv : Value.none.Plain size := trivial
  exact (evalAll h hv).inFrame

theorem evalArgs {ts : List Term}
    (h : ∀ t ∈ ts, Halts limit size calls (Value.Plain size) (ev t)) :
    Halts limit size calls (fun vs => ∀ v ∈ vs, v.Plain size) (evalArgs ev ts) := by
  induction ts with
  | nil => exact .ret (by simp)
  | cons t ts ih =>
    obtain ⟨ht, hts⟩ := List.forall_mem_cons.1 h
    refine ht.bind fun v hv => (ih hts).bind fun vs hvs => .ret ?_
    exact List.forall_mem_cons.2 ⟨hv, hvs⟩

/-- A call ends if the bodies of closures end with the calls that are left for them. -/
theorem callValue
    (h : ∀ fewer, calls = fewer + 1 → ∀ t : Term, t.Plain size →
      Halts limit size fewer (Value.Plain size) (ev t))
    (name : String) {v : Value} (hv : v.Plain size) {vs : List Value}
    (hvs : ∀ v ∈ vs, v.Plain size) :
    Halts limit size calls (Value.Plain size) (v.call ev name vs) := by
  cases v with
  | int | none => exact .fail _
  | builtin b => exact callBuiltin b hvs
  | closure c =>
    simp only [Value.call, Closure.call_eq]
    split
    · exact .fail _
    · refine asCall name _ fun fewer e => inFrame ?_
      exact (bindParams _ hvs).bind fun _ _ => h fewer e c.body hv

/-- Where the parts of a term end, and the bodies of closures with fewer calls, the term ends if it
is no loop under a condition. -/
theorem evalWith {fuel : Nat} {t : Term} (ht : t.Plain size)
    (parts : ∀ u ∈ t.children, Halts limit size calls (Value.Plain size) (ev u))
    (bodies : ∀ fewer, calls = fewer + 1 → ∀ u : Term, u.Plain size →
      Halts limit size fewer (Value.Plain size) (ev u)) :
    Halts limit size calls (Value.Plain size) (t.evalWith fuel ev) := by
  cases t with
  | number span n => exact .ret trivial
  | paren span inner => exact parts inner (.head _)
  | arith span op left right =>
    refine (parts left (by simp [Term.children])).evalInt.bind fun m _ => ?_
    refine (parts right (by simp [Term.children])).evalInt.bind fun n _ => ?_
    cases op.apply m n with
    | ok k => exact .ret trivial
    | error fault => exact .fail _
  | compare span op left right =>
    refine (parts left (by simp [Term.children])).evalInt.bind fun m _ => ?_
    exact (parts right (by simp [Term.children])).evalInt.bind fun n _ => .ret trivial
  | assign span name value =>
    refine (parts value (.head _)).bind fun v hv => ?_
    exact (update fun _ hs => hs.assign hv name).bind fun _ _ => .ret hv
  | var span name => exact lookup name
  | block span body => exact evalBlock parts
  | branch span cond thenSpan thenBody orElse =>
    refine (parts cond (by simp [Term.children])).bind fun v _ => (ofExcept _).bind fun b _ => ?_
    cases b with
    | true => exact evalBlock fun u hu => parts u (by simp [Term.children, hu])
    | false => exact parts orElse (by simp [Term.children])
  | whileLoop span cond bodySpan body =>
    have h := ht.whileFree (.whileLoop span cond bodySpan body) (by simp [Term.nodes])
    cases h
  | forLoop span name first limit bodySpan body =>
    refine (evalFirst fun u hu => parts u (by simp [Term.children, hu])).bind fun a _ => ?_
    refine (parts limit (by simp [Term.children])).evalInt.bind fun b _ => ?_
    split
    · exact .fail _
    · have hb : ∀ u ∈ body, Halts _ size calls (Value.Plain size) (ev u) :=
        fun u hu => parts u (by simp [Term.children, hu])
      have hnone : Value.none.Plain size := trivial
      exact (forRounds (evalBlock hb) name _ a hnone).inFrame
  | lambda span params body =>
    exact freshClosure.bind fun id _ => .ret (ht.child (.head _))
  | call span name args =>
    refine lookupThen name fun v hv => ?_
    exact (evalArgs parts).bind fun vs hvs => callValue bodies name hv hvs

end Halts

/-! ## Enough fuel -/

/-- With fuel for the term and for as many bodies as calls are left, evaluation ends. -/
theorem halts_eval {limit size calls fuel : Nat} {t : Term} (ht : t.Plain size)
    (hf : calls * size + t.size ≤ fuel) :
    Halts limit size calls (Value.Plain size) (t.eval fuel) := by
  have hpos := t.size_pos
  induction fuel generalizing t calls with
  | zero => omega
  | succ fuel ih =>
    refine Halts.evalWith ht (fun u hu => ?_) fun fewer e u hu => ?_
    · have hlt := Term.size_lt hu
      exact ih (ht.child hu) (by omega) u.size_pos
    -- a call less makes room for a whole body
    · have hle := hu.size_le
      rw [e, Nat.succ_mul] at hf
      exact ih hu (by omega) u.size_pos

/-- The size of the body of a closure. -/
def Value.bodySize : Value → Nat
  | .closure c => c.body.size
  | _ => 0

/-- Some size bounds the statements of a program and the bodies of all closures. -/
theorem exists_plain {p : Program} {s : Session} (hp : ∀ t ∈ p.statements, t.WhileFree)
    (hs : ∀ v ∈ s.scope.values, v.Body Term.WhileFree) :
    ∃ size, (∀ t ∈ p.statements, t.Plain size) ∧ ∀ v ∈ s.scope.values, v.Plain size := by
  let sizes := p.statements.map Term.size ++ s.scope.values.map Value.bodySize
  refine ⟨sizes.max?.getD 0, fun t ht => ⟨hp t ht, ?_⟩, fun v hv => ?_⟩
  · have hm : t.size ∈ sizes := List.mem_append_left _ (List.mem_map_of_mem ht)
    exact List.le_max?_getD_of_mem hm
  · have hm : v.bodySize ∈ sizes := List.mem_append_right _ (List.mem_map_of_mem hv)
    have hle := List.le_max?_getD_of_mem (k := 0) hm
    have hfree := hs v hv
    cases v with
    | closure c => exact ⟨hfree, hle⟩
    | _ => trivial

/-- **Everything without `while` ends.** Under any limit on active calls, in any session, a program
ends with a value or an error if there is no `while` in it nor in a closure that some frame
binds. -/
theorem Program.ends_of_whileFree (p : Program) (s : Session) (limit : Nat)
    (hl : s.maxCallDepth = some limit) (hp : ∀ t ∈ p.statements, t.WhileFree)
    (hs : ∀ v ∈ s.scope.values, v.Body Term.WhileFree) : ∃ r, p.Ends s r := by
  obtain ⟨size, hstatements, hvalues⟩ := exists_plain hp hs
  have htame : s.Tame limit size limit := ⟨hl, Nat.le_add_left _ _, hvalues⟩
  have heval : ∀ t ∈ p.statements,
      Halts limit size limit (Value.Plain size) (t.eval (limit * size + size)) := by
    intro t ht
    have hplain := hstatements t ht
    exact halts_eval hplain (Nat.add_le_add_left hplain.size_le _)
  have hnone : Value.none.Plain size := trivial
  obtain ⟨hfinished, -⟩ := Halts.evalAll heval hnone s htame
  refine ⟨_, fun hout => ?_, limit * size + size, rfl⟩
  have hrun : (p.run (limit * size + size) s).1.Finished (Value.Plain size) := hfinished
  rw [hout] at hrun
  cases hrun

/-- A loop of more rounds than anyone waits for, which rebinds its variable to a function, and then
a function that is applied to itself. -/
theorem Program.ends_of_whileFree_range :
    ∃ p, parseSource "f=lambda g:g(g);for i in range(-9,9223372036854775807){i=f};f(f)" = .ok p ∧
      ∃ r, p.Ends (.start (some 10000) none) r := by
  have free : ∀ v ∈ (Session.start (some 10000) none).scope.values, v.Body Term.WhileFree := by
    decide
  refine ⟨_, by cbv, ends_of_whileFree _ _ 10000 rfl ?_ free⟩
  decide

end Dynascope
