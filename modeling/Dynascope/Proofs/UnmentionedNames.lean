import Dynascope.Proofs.BoundValues
import Dynascope.Proofs.Couplings
import Dynascope.Proofs.Logs

/-! # Names that are not mentioned

What a name is bound to does not matter to a program in which it does not occur, if it does not
occur in the closures either that are bound to other names. Two stacks of frames that differ only in
bindings of the name stay so (`agreeBut`), and its bindings stay as they are: all that the program
looks up or assigns has another name, and a loop or a call that binds the name does that in a frame
of its own.
-/

set_option autoImplicit false

namespace Dynascope

/-! ## Terms that do not mention a name -/

/-- Related to itself, if the terms right below it are. -/
theorem Term.PartsRelated.of_children {R : Term → Term → Prop} {t : Term}
    (h : ∀ u ∈ t.children, R u u) : t.PartsRelated R t := by
  have hs {ts : List Term} (ht : ∀ u ∈ ts, u ∈ t.children) : List.Forall₂ R ts ts :=
    List.forall₂_same.2 fun u hu => h u (ht u hu)
  cases t with
  | number span n => exact .number n
  | paren span inner => exact .paren (h _ (.head _))
  | arith span op l r => exact .arith op (h _ (.head _)) (h _ (.tail _ (.head _)))
  | compare span op l r => exact .compare op (h _ (.head _)) (h _ (.tail _ (.head _)))
  | assign span name value => exact .assign name (h _ (.head _))
  | var span name => exact .var name
  | block span body => exact .block (hs fun _ hu => hu)
  | branch span cond thenSpan body orElse =>
    exact .branch (h _ (.head _)) (hs fun _ hu => .tail _ (List.mem_append_left _ hu))
      (h _ (.tail _ (List.mem_append_right _ (.head _))))
  | whileLoop span cond bodySpan body =>
    exact .whileLoop (h _ (.head _)) (hs fun _ hu => .tail _ hu)
  | forLoop span name first limit bodySpan body =>
    have hl (u : Term) (hu : u ∈ limit :: body) : R u u := h u (List.mem_append_right _ hu)
    refine .forLoop name ?_ (hl _ (.head _)) (List.forall₂_same.2 fun u hu => hl u (.tail _ hu))
    cases first with
    | none => exact .none
    | some t => exact .some (h t (List.mem_append_left _ (.head _)))
  | lambda span params body => exact .lambda params (h _ (.head _))
  | call span name args => exact .call name (hs fun _ hu => hu)

theorem Term.mentioned?_mem_names {t : Term} {x : String} (h : x ∈ t.mentioned?) : x ∈ t.names := by
  cases t <;> cases h <;> simp [names]

/-- The same term, in which a name does not occur. -/
def Term.Without (z : String) (t u : Term) : Prop :=
  t = u ∧ z ∉ t.names

theorem Value.related_without_iff {z : String} {v w : Value} :
    v.Related (fun _ _ => True) (Term.Without z) w ↔
      v.Renamed w ∧ v.Body fun t => z ∉ t.names := by
  constructor
  · rintro (_ | _ | _ | ⟨-, rfl, hz⟩)
    · exact ⟨.int _, trivial⟩
    · exact ⟨.builtin _, trivial⟩
    · exact ⟨.none, trivial⟩
    · exact ⟨.closure trivial rfl, hz⟩
  · rintro ⟨_ | _ | _ | ⟨-, rfl⟩, hz⟩
    · exact .int _
    · exact .builtin _
    · exact .none
    · exact .closure trivial ⟨rfl, hz⟩

theorem rel_without_iff {z : String} {a b : Option Value} :
    Option.Rel (Value.Related (fun _ _ => True) (Term.Without z)) a b ↔
      (∀ v, a = some v → v.Body fun t => z ∉ t.names) ∧ Option.Rel Value.Renamed a b := by
  constructor
  · rintro (h | _)
    · obtain ⟨hr, hz⟩ := Value.related_without_iff.1 h
      exact ⟨by rintro _ ⟨⟩; exact hz, .some hr⟩
    · exact ⟨by rintro _ ⟨⟩, .none⟩
  · rintro ⟨hz, h | _⟩
    · exact .some (Value.related_without_iff.2 ⟨h, hz _ rfl⟩)
    · exact .none

/-! ## Bindings of a name -/

/-- What the frames bind a name to. -/
def column (z : String) (fs : List (Frame Value)) : List (Option Value) :=
  fs.map (·.get? z)

section

variable {z x : String} (h : x ≠ z) (v : Value)
include h

theorem column_insert (f : Frame Value) (fs : List (Frame Value)) :
    column z (f.insert x v :: fs) = column z (f :: fs) := by
  unfold column
  rw [List.map_cons, Frame.get?_insert, if_neg h.symm, List.map_cons]

theorem column_rebind (fs : List (Frame Value)) : column z (rebind x v fs) = column z fs := by
  induction fs with
  | nil => rfl
  | cons f fs ih =>
    rw [rebind]
    split
    · exact column_insert h v f fs
    · exact congrArg (f.get? z :: ·) ih

end

/-- Stacks of at least one frame that agree on all names but one, which their frames bind to these
values. -/
structure AgreeBut (z : String) (values values' : List (Option Value))
    (fs gs : List (Frame Value)) : Prop where
  ne_nil : values ≠ []
  agree : List.Forall₂
    (Frame.Agree (Value.Related (fun _ _ => True) (Term.Without z)) (· ≠ z)) fs gs
  left : column z fs = values
  right : column z gs = values'

/-- Runs on stacks that differ in the bindings of a name which the runs do not mention. -/
def agreeBut (z : String) (values values' : List (Option Value)) : Coupling where
  bodies := Term.Without z
  names := (· ≠ z)
  Base := AgreeBut z values values'
  parts := by
    rintro t _ ⟨rfl, hz⟩
    exact ⟨.of_children fun u hu => ⟨rfl, fun hm => hz (Term.names_child hu hm)⟩,
      fun x hx e => hz (e ▸ Term.mentioned?_mem_names hx)⟩
  ne_nil := by
    rintro fs gs ⟨hne, hagree, rfl, -⟩
    cases hagree with
    | nil => exact absurd rfl hne
    | cons => exact ⟨List.cons_ne_nil _ _, List.cons_ne_nil _ _⟩
  find h hx := Frame.Agree.find h.agree hx
  rebind h hx hv :=
    ⟨h.ne_nil, Frame.Agree.rebind h.agree hx hv, (column_rebind hx _ _).trans h.left,
      (column_rebind hx _ _).trans h.right⟩
  insert := by
    rintro f g fs gs x v w ⟨hne, hagree, hl, hr⟩ hx - hv
    cases hagree with
    | cons hf ht =>
      exact ⟨hne, .cons (hf.insert x hv) ht, (column_insert hx _ _ _).trans hl,
        (column_insert hx _ _ _).trans hr⟩

/-! ## Sessions -/

/-- Sessions that differ only in bindings of a name, apart from the identities of closures and from
what happened before. -/
structure Session.SameBut (z : String) (s s' : Session) : Prop where
  frames : List.Forall₂ (Frame.Agree Value.Renamed (· ≠ z)) s.scope.frames s'.scope.frames
  callDepth : s.callDepth = s'.callDepth
  maxCallDepth : s.maxCallDepth = s'.maxCallDepth

/-- A name does not occur in the bodies of the closures that a frame binds to other names. -/
def Frame.Avoids (z : String) (f : Frame Value) : Prop :=
  ∀ x v, x ≠ z → f.get? x = some v → v.Body fun t => z ∉ t.names

/-- A name does not occur in the bodies of the closures that are bound to other names. -/
def Session.Avoids (z : String) (s : Session) : Prop :=
  ∀ f ∈ s.scope.frames, f.Avoids z

theorem Frame.agree_without_iff {z : String} {f g : Frame Value} :
    f.Agree (Value.Related (fun _ _ => True) (Term.Without z)) (· ≠ z) g ↔
      f.Avoids z ∧ f.Agree Value.Renamed (· ≠ z) g := by
  constructor
  · intro h
    exact ⟨fun x v hx hv => (rel_without_iff.1 (h x hx)).1 v hv,
      fun x hx => (rel_without_iff.1 (h x hx)).2⟩
  · rintro ⟨hz, h⟩ x hx
    exact rel_without_iff.2 ⟨fun v hv => hz x v hx hv, h x hx⟩

theorem forall₂_without_iff {z : String} {fs gs : List (Frame Value)} :
    List.Forall₂ (Frame.Agree (Value.Related (fun _ _ => True) (Term.Without z)) (· ≠ z)) fs gs ↔
      (∀ f ∈ fs, f.Avoids z) ∧ List.Forall₂ (Frame.Agree Value.Renamed (· ≠ z)) fs gs := by
  rw [← List.forall₂_and_left]
  exact ⟨fun h => h.imp fun _ _ => Frame.agree_without_iff.1,
    fun h => h.imp fun _ _ => Frame.agree_without_iff.2⟩

/-! ## Runs -/

/-- What runs in two sessions that differ in the bindings of a name leave behind: the same but for
these bindings, which are as they were. -/
structure Program.Unaffected (z : String) (s s' : Session) (r r' : Result Value) : Prop where
  outcome : r.1.Related Value.Renamed r'.1
  sameBut : r.2.SameBut z r'.2
  avoids : r.2.Avoids z
  left : column z r.2.scope.frames = column z s.scope.frames
  right : column z r'.2.scope.frames = column z s'.scope.frames

namespace Program

variable {z : String} {p : Program} {s s' : Session}

theorem statements_without (hz : z ∉ p.names) :
    List.Forall₂ (Term.Without z) p.statements p.statements := by
  rw [names, namesAll_eq] at hz
  exact List.forall₂_same.2 fun t ht => ⟨rfl, fun hm => hz (List.mem_flatMap.2 ⟨t, ht, hm⟩)⟩

theorem unaffected_of_holds {r r' : Result Value}
    (ho : r.1.Related (Value.Related (fun _ _ => True) (Term.Without z)) r'.1)
    (h : (agreeBut z (column z s.scope.frames) (column z s'.scope.frames)).Holds
      (fun _ _ => True) 0 r.2 r'.2) : Unaffected z s s' r r' := by
  have hframes := h.frames
  cases hframes with
  | base hb =>
    obtain ⟨havoids, hagree⟩ := forall₂_without_iff.1 hb.agree
    exact ⟨ho.imp fun _ _ hv => (Value.related_without_iff.1 hv).1,
      ⟨hagree, h.callDepth, h.maxCallDepth⟩, havoids, hb.left, hb.right⟩

section

variable (ha : s.Avoids z) (hs : s.SameBut z s') (hroom : s.room = none) (hroom' : s'.room = none)
include ha hs hroom hroom'

theorem holds_agreeBut :
    (agreeBut z (column z s.scope.frames) (column z s'.scope.frames)).Holds
      (fun _ _ => True) 0 s s' where
  frames := .base ⟨List.cons_ne_nil _ _, forall₂_without_iff.2 ⟨ha, hs.frames⟩, rfl, rfl⟩
  callDepth := hs.callDepth
  maxCallDepth := hs.maxCallDepth
  room := hroom
  room' := hroom'
  logs := trivial

/-- **Names that are not mentioned do not matter.** A program does not mention a name, nor do the
bodies of the closures that are bound to other names. In two sessions that differ only in bindings
of this name, and of which the output takes everything, it ends in both or in none. It ends with the
same value, up to the identity of a closure, or with the same error, and leaves both sessions the
same again but for these bindings, which are as they were. If it never gets to a call of
`stack`, the same happens in both, and the same is written. -/
theorem unmentioned_runs (hz : z ∉ p.names) :
    ((∃ r, p.Ends s r) ↔ ∃ r', p.Ends s' r') ∧
    ∀ r r', p.Ends s r → p.Ends s' r' → Unaffected z s s' r r' ∧
      (p.EndsBy .withoutStack s r → ∃ events : Log,
        r.2.log = events ++ s.log ∧ r.2.log.output = s.log.output ++ events.output ∧
        r'.2.log = events ++ s'.log ∧ r'.2.log.output = s'.log.output ++ events.output) := by
  have e := statements_without hz
  have h := holds_agreeBut ha hs hroom hroom'
  refine ⟨Coupling.ends_iff e h, fun r r' hr hr' => ⟨?_, fun hq => ?_⟩⟩
  · obtain ⟨ho, ht⟩ := Coupling.ends e h hr hr'
    exact unaffected_of_holds ho ht
  · obtain ⟨events, hlog, hlog'⟩ := Coupling.ends_quiet e h hr hr' (.inl hq)
    rw [hlog, hlog']
    exact ⟨events, rfl, Log.output_append _ _, rfl, Log.output_append _ _⟩

end

/-- A call of a closure, where a name is not bound at all and where two frames bind it. -/
theorem unmentioned_runs_call :
    ∃ (p : Program) (s s' : Session) (r r' : Result Value),
      parseSource "y=f(2);print(y)" = .ok p ∧ s.scope.text = "[\x7bf: <lambda x>\x7d]" ∧
      s'.scope.text = "[\x7bf: <lambda x>, z: 7\x7d]" ∧
      p.Ends s r ∧ r.2.scope.text = "[\x7bf: <lambda x>, y: 3\x7d]" ∧
      p.Ends s' r' ∧ r'.2.scope.text = "[\x7bf: <lambda x>, y: 3, z: 7\x7d]" ∧
      Unaffected "z" s s' r r' := by
  let f : Value := .closure ⟨0, ["x"], .arith default .add (.var default "x") (.number default 1)⟩
  let globals : Frame Value := Frame.empty.insert "f" f
  let s : Session := { scope := ⟨globals, [builtinFrame]⟩ }
  let s' : Session :=
    { scope := ⟨globals.insert "z" (.int 7), [builtinFrame.insert "z" .none]⟩ }
  have hp : ∃ p, parseSource "y=f(2);print(y)" = .ok p ∧ "z" ∉ p.names ∧
      (p.run 10 s).1 = .value (.int 3) ∧ (p.run 10 s').1 = .value (.int 3) ∧
      (p.run 10 s).2.scope.text = "[\x7bf: <lambda x>, y: 3\x7d]" ∧
      (p.run 10 s').2.scope.text = "[\x7bf: <lambda x>, y: 3, z: 7\x7d]" :=
    ⟨_, by cbv, by decide, by cbv, by cbv, by cbv, by cbv⟩
  obtain ⟨p, hparse, hz, hv, hv', htext, htext'⟩ := hp
  have ha : s.Avoids "z" := by
    intro frame hframe x v _ hv
    have hm := Frame.mem_values_of_get? hv
    rcases List.mem_cons.1 hframe with rfl | hframe
    · rw [List.mem_singleton.1 (show v ∈ [f] from hm)]
      show "z" ∉ ["x"]
      decide
    · rw [List.mem_singleton.1 hframe] at hm
      have hm : v ∈ [Value.builtin .prime, .builtin .print, .builtin .stack] := hm
      simp only [List.mem_cons, List.not_mem_nil, or_false] at hm
      rcases hm with rfl | rfl | rfl <;> trivial
  have agree (g : Frame Value) (w : Value) :
      g.Agree Value.Renamed (· ≠ "z") (g.insert "z" w) := by
    intro x hx
    rw [Frame.get?_insert, if_neg hx]
    cases g.get? x with
    | none => exact .none
    | some v => exact .some (.refl v)
  have hs : s.SameBut "z" s' := ⟨.cons (agree _ _) (.cons (agree _ _) .nil), rfl, rfl⟩
  have hends : p.Ends s (p.run 10 s) := ⟨by simp [hv], 10, rfl⟩
  have hends' : p.Ends s' (p.run 10 s') := ⟨by simp [hv'], 10, rfl⟩
  exact ⟨p, s, s', _, _, hparse, by cbv, by cbv, hends, htext, hends', htext',
    ((unmentioned_runs ha hs rfl rfl hz).2 _ _ hends hends').1⟩

end Program

end Dynascope
