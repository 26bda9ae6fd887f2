import Dynascope.Proofs.Couplings
import Dynascope.Proofs.Logs

/-! # Programs in blocks

A program in a block does what it does by itself, except that the names it creates are gone
afterwards. In the block there is one more frame: it and the frame around it bind together what one
frame binds without the block (`Beside`), and they never bind the same name, as only an assignment
to a name that no frame binds adds a name to the frame of the block. All else that binds names has
a frame of its own. So the two runs are coupled (`besides`), whatever frames the closures see and
change that they call.
-/

set_option autoImplicit false

namespace Dynascope

/-! ## The frame of a block -/

/-- The frame of a block and the one around it bind together what one frame binds. Around them, the
frames agree. Compared with a scope `s` from before, no frame but that of the block has other names,
and that binds only names that `s` does not bind. -/
inductive Beside (s : Scope) : List (Frame Value) → List (Frame Value) → Prop
  | intro {own around merged : Frame Value} {rest rest' : List (Frame Value)} :
      (∀ x, Option.Rel Value.Renamed ((own.get? x).or (around.get? x)) (merged.get? x)) →
      List.Forall₂ (Frame.Agree Value.Renamed fun _ => True) rest rest' →
      (around :: rest).map Frame.names = s.frames.map Frame.names →
      (∀ x, own.contains x = true → s.get? x = none) →
      Beside s (own :: around :: rest) (merged :: rest')

namespace Beside

variable {s : Scope} {fs gs : List (Frame Value)} {f g : Frame Value} {x : String} {v w : Value}

theorem start (s : Scope) : Beside s s.push.frames s.frames := by
  have refl (o : Option Value) : Option.Rel Value.Renamed o o := by
    cases o with
    | none => exact .none
    | some v => exact .some (.refl v)
  refine .intro (fun x => refl _) ?_ rfl fun x hx => by cases hx
  exact List.forall₂_same.2 fun f _ x _ => refl _

theorem find (h : Beside s fs gs) (x : String) :
    Option.Rel Value.Renamed (fs.findSome? (·.get? x)) (gs.findSome? (·.get? x)) := by
  cases h with
  | intro hm hr _ _ =>
    rw [findSome?_cons_or, findSome?_cons_or, findSome?_cons_or, ← Option.or_assoc]
    exact rel_or (hm x) (Frame.Agree.find hr trivial)

section

variable {own around merged : Frame Value} {rest rest' : List (Frame Value)}

/-- A name that no frame bound, or the frame of the block already does. -/
theorem insert_own (h : Beside s (own :: around :: rest) (merged :: rest'))
    (hx : own.contains x = true ∨ s.get? x = none) (hv : v.Renamed w) :
    Beside s (own.insert x v :: around :: rest) (merged.insert x w :: rest') := by
  cases h with
  | intro hm hr hn ho =>
    refine .intro (fun y => ?_) hr hn fun y hy => ?_
    · rw [Frame.get?_insert, Frame.get?_insert]
      split
      · exact .some hv
      · exact hm y
    · rw [Frame.contains, Frame.get?_insert] at hy
      by_cases hyx : y = x
      · subst hyx
        exact hx.elim (ho y) id
      · rw [if_neg hyx] at hy
        exact ho y hy

theorem insert_around (h : Beside s (own :: around :: rest) (merged :: rest'))
    (ho : own.contains x = false) (ha : around.contains x = true) (hv : v.Renamed w) :
    Beside s (own :: around.insert x v :: rest) (merged.insert x w :: rest') := by
  cases h with
  | intro hm hr hn hnone =>
    refine .intro (fun y => ?_) hr ?_ hnone
    · rw [Frame.get?_insert, Frame.get?_insert]
      by_cases hyx : y = x
      · have ho : own.get? x = none := by simpa [Frame.contains] using ho
        rw [if_pos hyx, if_pos hyx, hyx, ho]
        exact .some hv
      · rw [if_neg hyx, if_neg hyx]
        exact hm y
    · rw [List.map_cons, Frame.names_insert_of_contains ha]
      exact hn

end

theorem rebind (h : Beside s fs gs) (x : String) (hv : v.Renamed w) :
    Beside s (rebind x v fs) (rebind x w gs) := by
  cases h with
  | @intro own around merged rest rest' hm hr hn ho =>
    have h := Beside.intro hm hr hn ho
    have hc : merged.contains x = (own.contains x || around.contains x) := by
      unfold Frame.contains
      rw [← isSome_of_rel (hm x)]
      cases own.get? x <;> rfl
    simp only [Dynascope.rebind]
    cases hown : own.contains x with
    | true =>
      rw [hown, Bool.true_or] at hc
      simpa [hc] using h.insert_own (.inl hown) hv
    | false =>
      rw [hown, Bool.false_or] at hc
      cases harr : around.contains x with
      | true =>
        rw [harr] at hc
        simpa [hc] using h.insert_around hown harr hv
      | false =>
        rw [harr] at hc
        have hn' : (around :: Dynascope.rebind x v rest).map Frame.names =
            s.frames.map Frame.names := by
          rw [List.map_cons, rebind_names, ← List.map_cons, hn]
        simpa [hc] using Beside.intro hm (Frame.Agree.rebind hr trivial hv) hn' ho

theorem insert (h : Beside s (f :: fs) (g :: gs)) (hnone : (f :: fs).findSome? (·.get? x) = none)
    (hv : v.Renamed w) : Beside s (f.insert x v :: fs) (g.insert x w :: gs) := by
  cases h with
  | @intro own around merged rest rest' hm hr hn ho =>
    have hx : s.get? x = none := by
      rw [findSome?_cons_or, Option.or_eq_none_iff] at hnone
      have he := isSome_find_of_names hn x
      rw [hnone.2] at he
      rw [Scope.get?_eq]
      simpa using he.symm
    exact (Beside.intro hm hr hn ho).insert_own (.inr hx) hv

end Beside

/-- A program in a block and the same program without the block. -/
def besides (s : Scope) : Coupling where
  bodies := Eq
  names _ := True
  Base := Beside s
  parts := by
    rintro t _ rfl
    exact ⟨.of_refl (fun _ => rfl) t, fun _ _ => trivial⟩
  ne_nil := by
    rintro _ _ ⟨⟩
    exact ⟨List.cons_ne_nil _ _, List.cons_ne_nil _ _⟩
  find h _ := h.find _
  rebind h _ hv := h.rebind _ hv
  insert h _ hnone hv := h.insert hnone hv

/-! ## Programs in blocks -/

/-- What a program leaves behind in a block and by itself, run in the same session. -/
structure Session.Enclosed (s : Session) (r r' : Result Value) : Prop where
  outcome : r.1.Related Value.Renamed r'.1
  /-- no frame has other names than before, after the program in a block -/
  names : r.2.scope.frames.map Frame.names = s.scope.frames.map Frame.names
  /-- the names that the innermost frame bound before have the same values -/
  inner : ∀ x, s.scope.inner.contains x = true →
    Option.Rel Value.Renamed (r.2.scope.inner.get? x) (r'.2.scope.inner.get? x)
  /-- all names have the same values in the frames around it -/
  outer : List.Forall₂ (Frame.Agree Value.Renamed fun _ => True) r.2.scope.outer r'.2.scope.outer
  /-- a name that the innermost frame did not bind before is bound only without the block, and was
  not bound at all before -/
  created : ∀ x, r'.2.scope.inner.contains x = true → s.scope.inner.contains x = false →
    s.scope.get? x = none ∧ r.2.scope.get? x = none
  callDepth : r.2.callDepth = r'.2.callDepth

namespace Program

variable (p : Program) (span : Span)

/-- A program as the one statement of a program, in braces. -/
def inBlock : Program :=
  ⟨[.block span p.statements]⟩

theorem run_inBlock (fuel : Nat) : (p.inBlock span).run (fuel + 1) = (p.run fuel).inFrame := by
  show (p.run fuel).inFrame >>= (fun v => pure v) = _
  rw [bind_pure]

section

variable {p span} {s : Session} {r r' : Result Value}

theorem ends_inBlock_iff : (p.inBlock span).Ends s r ↔
    ∃ o t, p.Ends s.openFrame (o, t) ∧ r = (o, t.closeFrame) := by
  constructor
  · rintro ⟨hr, fuel, rfl⟩
    cases fuel with
    | zero => exact absurd rfl hr
    | succ fuel =>
      rw [run_inBlock] at hr ⊢
      exact ⟨(p.run fuel s.openFrame).1, (p.run fuel s.openFrame).2, ⟨hr, fuel, rfl⟩, rfl⟩
  · rintro ⟨o, t, ⟨hr, fuel, hf⟩, rfl⟩
    refine ⟨hr, fuel + 1, ?_⟩
    rw [run_inBlock]
    unfold Run.inFrame
    rw [hf]

theorem holds_besides (hroom : s.room = none) :
    (besides s.scope).Holds (fun _ _ => True) 0 s.openFrame s where
  frames := .base (.start s.scope)
  callDepth := rfl
  maxCallDepth := rfl
  room := hroom
  room' := hroom
  logs := trivial

/-- The frame of the block is closed, and the innermost frame of the program by itself stays. -/
theorem enclosed_of_holds {t t' : Session} {o o' : Outcome RuntimeError Value}
    (ho : o.Related Value.Renamed o')
    (h : (besides s.scope).Holds (fun _ _ => True) 0 t t') :
    s.Enclosed (o, t.closeFrame) (o', t') := by
  obtain ⟨⟨own, outer⟩, _, _, _, _, _⟩ := t
  obtain ⟨⟨merged, outer'⟩, _, _, _, _, _⟩ := t'
  cases h.frames with
  | base hb =>
    cases hb with
    | @intro _ around _ rest _ hm hr hn hown =>
      have hi : around.names = s.scope.inner.names := (List.cons.inj hn).1
      have hnone {x : String} (hx : s.scope.get? x = none) :
          (around :: rest).findSome? (·.get? x) = none := by
        have he := isSome_find_of_names hn x
        rw [Scope.get?_eq] at hx
        rw [hx] at he
        simpa using he
      refine ⟨ho, hn, fun x hx => ?_, hr, fun x hx hxs => ?_, h.callDepth⟩
      · -- the frame of the block does not bind a name that was bound before
        have hg := hm x
        cases hw : own.get? x with
        | none => rwa [hw, Option.none_or] at hg
        | some w =>
          have hs := hown x (by simp [Frame.contains, hw])
          rw [Scope.get?_eq, Scope.frames, findSome?_cons_or, Option.or_eq_none_iff] at hs
          simp [Frame.contains, hs.1] at hx
      · have hg := hm x
        have ha : around.get? x = none := by
          rw [← Frame.contains_eq_of_names hi] at hxs
          simpa [Frame.contains] using hxs
        have hx : own.contains x = true := by
          rw [ha, Option.or_none] at hg
          rw [Frame.contains, isSome_of_rel hg]
          exact hx
        have hs := hown x hx
        refine ⟨hs, ?_⟩
        rw [Scope.get?_eq]
        exact hnone hs

theorem log_closeFrame_of_holds {Logs : Log → Log → Prop} {t t' : Session}
    (h : (besides s.scope).Holds Logs 0 t t') : t.closeFrame.log = .closed :: t.log := by
  obtain ⟨⟨own, outer⟩, _, _, _, _, _⟩ := t
  cases h.frames with
  | base hb =>
    cases hb
    rfl

/-- **A block changes nothing but what is visible.** In a session of which the output takes
everything, a program in a block ends if and only if it ends by itself, and then with the same
value, up to the identity of a closure, or the same error. The frames are the same afterwards, up
to the names that the program by itself created: none of these was bound before, and the
program in the block leaves none. If it never gets to a call of `stack`, the same happens in the
frame of the block, and the same is written. -/
theorem block_runs (hroom : s.room = none) (p : Program) (span : Span) :
    ((∃ r, (p.inBlock span).Ends s r) ↔ ∃ r', p.Ends s r') ∧
    ∀ r r', (p.inBlock span).Ends s r → p.Ends s r' → s.Enclosed r r' ∧
      (p.EndsBy .withoutStack s r' → r.2.log.output = r'.2.log.output ∧
        ∃ events, r'.2.log = events ++ s.log ∧
          r.2.log = .closed :: (events ++ .opened :: s.log)) := by
  have e : List.Forall₂ (besides s.scope).bodies p.statements p.statements :=
    List.forall₂_same.2 fun _ _ => rfl
  have h := holds_besides hroom
  refine ⟨?_, fun r r' hr hr' => ?_⟩
  · rw [← Coupling.ends_iff e h]
    constructor
    · rintro ⟨r, hr⟩
      obtain ⟨o, t, ht, -⟩ := ends_inBlock_iff.1 hr
      exact ⟨_, ht⟩
    · rintro ⟨⟨o, t⟩, ht⟩
      exact ⟨_, ends_inBlock_iff.2 ⟨o, t, ht, rfl⟩⟩
  · obtain ⟨o, t, ht, rfl⟩ := ends_inBlock_iff.1 hr
    obtain ⟨ho, hh⟩ := Coupling.ends e h ht hr'
    refine ⟨enclosed_of_holds ho hh, fun hq => ?_⟩
    obtain ⟨events, hlog, hlog'⟩ := Coupling.ends_quiet e h ht hr' (.inr hq)
    have hclosed : t.closeFrame.log = .closed :: (events ++ .opened :: s.log) := by
      rw [log_closeFrame_of_holds hh, hlog]
      rfl
    refine ⟨?_, events, hlog', hclosed⟩
    -- opening and closing a frame writes nothing
    have hframe {event : Event} (he : event.written = "") (log : Log) :
        Log.output (event :: log) = log.output := by
      rw [← List.singleton_append, Log.output_append]
      simp [Log.output, he]
    rw [hlog', hclosed, hframe rfl, Log.output_append, Log.output_append, hframe rfl]

end

/-- A closure that assigns to a name from before, called from a block and without it. -/
theorem block_runs_call :
    ∃ (p : Program) (s : Session) (r r' : Result Value),
      parseSource "f=lambda:n=n+1;f();print(m=n)" = .ok p ∧ s.scope.text = "[\x7bn: 1\x7d]" ∧
      (p.inBlock default).Ends s r ∧ r.2.scope.text = "[\x7bn: 2\x7d]" ∧
      p.Ends s r' ∧ r'.2.scope.text = "[\x7bf: <lambda>, m: 2, n: 2\x7d]" ∧
      s.Enclosed r r' ∧ r.2.log.output = r'.2.log.output := by
  let s : Session := { scope := ⟨Frame.empty.insert "n" (.int 1), [builtinFrame]⟩ }
  have hp : ∃ p, parseSource "f=lambda:n=n+1;f();print(m=n)" = .ok p ∧
      (p.runBy .withoutStack 10 s).1 = .value (.int 2) ∧
      ((p.inBlock default).run 10 s).1 = .value (.int 2) ∧
      ((p.inBlock default).run 10 s).2.scope.text = "[\x7bn: 2\x7d]" ∧
      (p.run 10 s).2.scope.text = "[\x7bf: <lambda>, m: 2, n: 2\x7d]" :=
    ⟨_, by cbv, by cbv, by cbv, by cbv, by cbv⟩
  obtain ⟨p, hparse, hquiet, hblock, htext, htext'⟩ := hp
  have hq : p.EndsBy .withoutStack s (p.runBy .withoutStack 10 s) := ⟨by simp [hquiet], 10, rfl⟩
  have e := run_of_runBy Primitives.withoutStack_partial hq.1
  rw [← e] at hq
  have hends : (p.inBlock default).Ends s ((p.inBlock default).run 10 s) :=
    ⟨by simp [hblock], 10, rfl⟩
  have hends' := hq.ends Primitives.withoutStack_partial
  obtain ⟨henclosed, hlog⟩ := (block_runs rfl p default).2 _ _ hends hends'
  exact ⟨p, s, _, _, hparse, by cbv, hends, htext, hends', htext', henclosed, (hlog hq).1⟩

end Program

end Dynascope
