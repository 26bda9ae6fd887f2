import Dynascope.Proofs.Frames

/-! # Laws of the scope stack

Frames are numbered from the outermost one, which is frame 0. A bracket is a `push`, steps among
which every frame that is pushed is popped, and the `pop` of the first frame. Whatever happens
inside, every frame from before has its names after it, and the value of each of them is the last
one that was assigned at a moment when no inner frame bound the name: `bracket_laws`.
-/

set_option autoImplicit false

namespace Dynascope

/-! ## Assignment among frames -/

/-- Only the frames up to the nearest that binds the name matter. -/
theorem rebind_append (x : String) (v : Value) (as bs : List (Frame Value)) :
    rebind x v (as ++ bs) =
      if as.any (·.contains x) then rebind x v as ++ bs else as ++ rebind x v bs := by
  induction as with
  | nil => rfl
  | cons a as ih =>
    rw [List.cons_append, rebind, rebind, ih]
    by_cases h : a.contains x = true
    · simp [h]
    · rw [Bool.not_eq_true] at h
      by_cases h' : as.any (·.contains x) = true <;> simp [h, h']

theorem length_rebind (x : String) (v : Value) (fs : List (Frame Value)) :
    (rebind x v fs).length = fs.length := by
  simpa using congrArg List.length (rebind_names x v fs)

theorem find_rebind_of_ne {x y : String} (h : y ≠ x) (v : Value) (fs : List (Frame Value)) :
    (rebind x v fs).findSome? (·.get? y) = fs.findSome? (·.get? y) := by
  induction fs with
  | nil => rfl
  | cons f fs ih =>
    rw [rebind]
    split
    · rw [findSome?_cons_or, findSome?_cons_or, Frame.get?_insert, if_neg h]
    · rw [findSome?_cons_or, findSome?_cons_or, ih]

namespace Scope

/-! ## Single steps -/

section

variable (s : Scope) (x : String) (v : Value)

theorem get?_define : (s.define x v).get? x = some v := by
  simp [get?, define]

theorem get?_define_of_ne {y : String} (h : y ≠ x) : (s.define x v).get? y = s.get? y := by
  simp [get?, define, h]

theorem get?_assign_of_ne {y : String} (h : y ≠ x) : (s.assign x v).get? y = s.get? y := by
  rw [get?_eq, get?_eq, frames_assign]
  split
  · exact find_rebind_of_ne h v s.frames
  · rw [findSome?_cons_or, Frame.get?_insert, if_neg h]
    exact (findSome?_cons_or s.inner s.outer y).symm

theorem contains_eq : s.contains x = (s.get? x).isSome := by
  rw [contains, any_contains_eq, get?_eq]

theorem lookup_eq_ok_iff : s.lookup x = .ok v ↔ s.get? x = some v := by
  unfold lookup
  cases s.get? x <;> simp

theorem lookup_congr {s t : Scope} {x : String} (h : s.get? x = t.get? x) :
    s.lookup x = t.lookup x := by
  rw [lookup, lookup, h]

end

/-! ## Steps in sequence -/

/-- What can be done with a scope stack. -/
inductive Step where
  | push
  | pop
  | define (name : String) (value : Value)
  | assign (name : String) (value : Value)
  | lookup (name : String)

/-- The scope stack after a step. The last frame cannot be popped; a look-up changes nothing,
whether it finds a value or not. -/
def Step.apply : Step → Scope → Option Scope
  | push, s => some s.push
  | pop, s => s.pop?
  | define x v, s => some (s.define x v)
  | assign x v, s => some (s.assign x v)
  | lookup _, s => some s

/-- The scope stack after several steps. -/
def run (s : Scope) : List Step → Option Scope
  | [] => some s
  | step :: steps => (step.apply s).bind (·.run steps)

/-- Each of several steps with the scope stack just before it. -/
def moments (s : Scope) : List Step → List (Scope × Step)
  | [] => []
  | step :: steps =>
    (s, step) :: match step.apply s with
      | some t => t.moments steps
      | none => []

/-- A frame by its number. -/
def frame? (s : Scope) (i : Nat) : Option (Frame Value) :=
  s.frames.reverse[i]?

/-- The frames inside a frame. -/
def inside (s : Scope) (i : Nat) : List (Frame Value) :=
  s.frames.take (s.depth - (i + 1))

/-- What a step assigns to a name while no frame inside frame `i` binds it. -/
def assigned? (i : Nat) (x : String) : Scope × Step → Option Value
  | (s, .assign y v) => if y = x ∧ ∀ f ∈ s.inside i, f.contains x = false then some v else none
  | _ => none

/-- The values that several steps assign to a name while no frame inside frame `i` binds it, in
order. -/
def assignments (s : Scope) (steps : List Step) (i : Nat) (x : String) : List Value :=
  (s.moments steps).filterMap (assigned? i x)

/-- Steps between a push and a pop. -/
def bracket (inner : List Step) : List Step :=
  .push :: (inner ++ [.pop])

/-- Steps among which every frame that is pushed is popped, and no other one. If the steps of a
bracket are balanced, its pop matches its push. -/
inductive Balanced : List Step → Prop
  | nil : Balanced []
  | cons {step : Step} {steps : List Step} : step ≠ .push → step ≠ .pop → Balanced steps →
      Balanced (step :: steps)
  | frame {inner steps : List Step} : Balanced inner → Balanced steps →
      Balanced (bracket inner ++ steps)

/-! ## Frames by their numbers -/

theorem length_frames (s : Scope) : s.frames.length = s.depth := rfl

theorem frame?_eq_some_iff {s : Scope} {i : Nat} {f : Frame Value} :
    s.frame? i = some f ↔ ∃ as bs, s.frames = as ++ f :: bs ∧ bs.length = i := by
  unfold frame?
  constructor
  · intro h
    obtain ⟨hlt, hf⟩ := List.getElem?_eq_some_iff.1 h
    have hsplit := List.take_append_drop i s.frames.reverse
    rw [List.drop_eq_getElem_cons hlt, hf] at hsplit
    refine ⟨(s.frames.reverse.drop (i + 1)).reverse, (s.frames.reverse.take i).reverse, ?_, ?_⟩
    · simpa using (congrArg List.reverse hsplit).symm
    · rw [List.length_reverse, List.length_take]
      omega
  · rintro ⟨as, bs, e, rfl⟩
    rw [e]
    simp

theorem inside_eq {s : Scope} {as bs : List (Frame Value)} {f : Frame Value}
    (e : s.frames = as ++ f :: bs) : s.inside bs.length = as := by
  have hl := congrArg List.length e
  rw [length_frames, List.length_append, List.length_cons] at hl
  rw [inside, e, List.take_left']
  omega

/-! ## What a step does to a frame -/

theorem frames_of_pop? {s t : Scope} (h : s.pop? = some t) : t.frames = s.outer := by
  unfold pop? at h
  split at h <;> cases h
  rename_i e
  exact e.symm

/-- An assignment binds the name again in a frame that binds it if no frame inside does. Apart from
that, only an innermost frame gets a name. -/
theorem frames_assign_split {s : Scope} {as bs : List (Frame Value)} {f : Frame Value}
    (e : s.frames = as ++ f :: bs) (hne : as ≠ []) (x : String) (v : Value) :
    ∃ as' bs', bs'.length = bs.length ∧ (s.assign x v).frames = as' ++
      (if f.contains x = true ∧ ∀ a ∈ as, a.contains x = false then f.insert x v else f) :: bs' := by
  rw [frames_assign]
  split
  · rw [e, rebind_append]
    by_cases has : as.any (·.contains x) = true
    · have hno : ¬∀ a ∈ as, a.contains x = false := by simpa using has
      rw [if_pos has, if_neg fun h => hno h.2]
      exact ⟨_, bs, rfl, rfl⟩
    · have hall : ∀ a ∈ as, a.contains x = false := by simpa using has
      rw [if_neg has, rebind]
      by_cases hf : f.contains x = true
      · rw [if_pos hf, if_pos ⟨hf, hall⟩]
        exact ⟨as, bs, rfl, rfl⟩
      · rw [if_neg hf, if_neg fun h => hf h.1]
        exact ⟨as, _, length_rebind x v bs, rfl⟩
  · rename_i hx
    have hf : ¬f.contains x = true := fun hf => hx <| by
      rw [← contains_eq, contains, e]
      simp [hf]
    obtain ⟨a, as, rfl⟩ := List.exists_cons_of_ne_nil hne
    obtain ⟨-, ho⟩ := List.cons.inj e
    rw [if_neg fun h => hf h.1]
    exact ⟨s.inner.insert x v :: as, bs, rfl, congrArg (s.inner.insert x v :: ·) ho⟩

/-- A step leaves the names of a frame alone that is not the innermost, and their values but for an
assignment that no frame inside keeps from it. -/
theorem Step.apply_frame? {s t : Scope} {step : Step} {i : Nat} {f : Frame Value}
    (h : step.apply s = some t) (hi : i + 1 < s.depth) (hf : s.frame? i = some f) :
    ∃ g, t.frame? i = some g ∧ g.names = f.names ∧
      ∀ x, f.contains x = true → g.get? x = (assigned? i x (s, step)).or (f.get? x) := by
  obtain ⟨as, bs, e, rfl⟩ := frame?_eq_some_iff.1 hf
  obtain ⟨a, as, rfl⟩ : ∃ a as', as = a :: as' := by
    refine List.exists_cons_of_ne_nil ?_
    rintro rfl
    have hl := congrArg List.length e
    rw [length_frames, List.nil_append, List.length_cons] at hl
    omega
  obtain ⟨ha, ho⟩ := List.cons.inj e
  have same : ∀ as' bs', bs'.length = bs.length → t.frames = as' ++ f :: bs' →
      (∀ x, f.contains x = true → assigned? bs.length x (s, step) = none) →
      ∃ g, t.frame? bs.length = some g ∧ g.names = f.names ∧ ∀ x, f.contains x = true →
        g.get? x = (assigned? bs.length x (s, step)).or (f.get? x) := fun as' bs' hl et hno =>
    ⟨f, frame?_eq_some_iff.2 ⟨as', bs', et, hl⟩, rfl, fun x hx => by rw [hno x hx, Option.none_or]⟩
  cases step with
  | push =>
    cases h
    exact same (Frame.empty :: a :: as) bs rfl (congrArg (Frame.empty :: ·) e) fun _ _ => rfl
  | pop => exact same as bs rfl ((frames_of_pop? h).trans ho) fun _ _ => rfl
  | define y v =>
    cases h
    exact same (s.inner.insert y v :: as) bs rfl (congrArg (s.inner.insert y v :: ·) ho)
      fun _ _ => rfl
  | lookup y =>
    cases h
    exact same (a :: as) bs rfl e fun _ _ => rfl
  | assign y v =>
    cases h
    obtain ⟨as', bs', hl, et⟩ := frames_assign_split e (List.cons_ne_nil a as) y v
    have hw : ∀ x, assigned? bs.length x (s, .assign y v) =
        if y = x ∧ ∀ b ∈ a :: as, b.contains x = false then some v else none := fun x => by
      rw [assigned?, inside_eq e]
    split at et
    · rename_i hy
      refine ⟨_, frame?_eq_some_iff.2 ⟨as', bs', et, hl⟩, Frame.names_insert_of_contains hy.1 v,
        fun x hx => ?_⟩
      rw [hw, Frame.get?_insert]
      by_cases hxy : x = y
      · subst hxy
        rw [if_pos rfl, if_pos ⟨rfl, hy.2⟩, Option.some_or]
      · rw [if_neg hxy, if_neg fun h => hxy h.1.symm, Option.none_or]
    · rename_i hy
      refine same as' bs' hl et fun x hx => ?_
      rw [hw, if_neg]
      rintro ⟨rfl, hno⟩
      exact hy ⟨hx, hno⟩

/-! ## What a run does to a frame -/

theorem run_append (s : Scope) (xs ys : List Step) :
    s.run (xs ++ ys) = (s.run xs).bind (·.run ys) := by
  induction xs generalizing s with
  | nil => rfl
  | cons x xs ih =>
    rw [List.cons_append, run, run]
    cases x.apply s with
    | none => rfl
    | some t => exact ih t

theorem moments_append {s t : Scope} {xs : List Step} (h : s.run xs = some t) (ys : List Step) :
    s.moments (xs ++ ys) = s.moments xs ++ t.moments ys := by
  induction xs generalizing s with
  | nil =>
    cases h
    rfl
  | cons x xs ih =>
    obtain ⟨u, hu, h⟩ := Option.bind_eq_some_iff.1 h
    rw [List.cons_append, moments, moments, hu]
    exact congrArg ((s, x) :: ·) (ih h)

theorem assignments_cons {s t : Scope} {step : Step} (h : step.apply s = some t)
    (steps : List Step) (i : Nat) (x : String) :
    s.assignments (step :: steps) i x =
      (assigned? i x (s, step)).toList ++ t.assignments steps i x := by
  rw [assignments, moments, h, List.filterMap_cons]
  cases assigned? i x (s, step) <;> rfl

/-- In a run during which a frame is never the innermost, the last value that is assigned to a name
of it is the value of the name after the run. -/
theorem run_frame? {s t : Scope} {steps : List Step} {i : Nat} {f : Frame Value}
    (h : s.run steps = some t) (hi : ∀ m ∈ s.moments steps, i + 1 < m.1.depth)
    (hf : s.frame? i = some f) :
    ∃ g, t.frame? i = some g ∧ g.names = f.names ∧
      ∀ x, f.contains x = true → g.get? x = (s.assignments steps i x).getLast?.or (f.get? x) := by
  induction steps generalizing s f with
  | nil =>
    cases h
    exact ⟨f, hf, rfl, fun _ _ => rfl⟩
  | cons step steps ih =>
    obtain ⟨u, hu, h⟩ := Option.bind_eq_some_iff.1 h
    rw [moments, hu] at hi
    obtain ⟨hstep, hsteps⟩ := List.forall_mem_cons.1 hi
    obtain ⟨e, he, hen, hev⟩ := Step.apply_frame? hu hstep hf
    obtain ⟨g, hg, hgn, hgv⟩ := ih h hsteps he
    refine ⟨g, hg, hgn.trans hen, fun x hx => ?_⟩
    have hx' : e.contains x = true := (Frame.contains_eq_of_names hen x).trans hx
    rw [hgv x hx', hev x hx, assignments_cons hu, List.getLast?_append, ← Option.or_assoc]
    cases assigned? i x (s, step) <;> rfl

/-! ## Balanced steps -/

theorem Step.apply_depth {step : Step} (hpush : step ≠ .push) (hpop : step ≠ .pop) (s : Scope) :
    ∃ t, step.apply s = some t ∧ t.depth = s.depth := by
  cases step with
  | push => exact absurd rfl hpush
  | pop => exact absurd rfl hpop
  | define x v => exact ⟨_, rfl, rfl⟩
  | lookup x => exact ⟨s, rfl, rfl⟩
  | assign x v =>
    refine ⟨_, rfl, ?_⟩
    rw [← length_frames, frames_assign]
    split
    · exact length_rebind x v s.frames
    · rfl

theorem exists_pop? {s : Scope} (h : 1 < s.depth) :
    ∃ t, s.pop? = some t ∧ t.depth + 1 = s.depth := by
  obtain ⟨inner, _ | ⟨f, rest⟩⟩ := s
  · exact absurd h (Nat.lt_irrefl 1)
  · exact ⟨⟨f, rest⟩, rfl, rfl⟩

/-- A run that never pops a frame from before and leaves as many frames as there were. -/
structure Returns (s t : Scope) (steps : List Step) : Prop where
  run : s.run steps = some t
  depth : t.depth = s.depth
  above : ∀ m ∈ s.moments steps, s.depth ≤ m.1.depth

theorem Returns.append {s t u : Scope} {xs ys : List Step} (h : Returns s t xs)
    (h' : Returns t u ys) : Returns s u (xs ++ ys) where
  run := by rw [run_append, h.run, Option.bind_some, h'.run]
  depth := h'.depth.trans h.depth
  above := by
    rw [moments_append h.run]
    exact List.forall_mem_append.2 ⟨h.above, h.depth ▸ h'.above⟩

/-- Between the push and the pop of a bracket all frames from before have a frame inside. -/
theorem Returns.close {s t : Scope} {inner : List Step} (h : Returns s.push t inner) :
    ∃ u, s.push.run (inner ++ [.pop]) = some u ∧ u.depth = s.depth ∧
      ∀ m ∈ s.push.moments (inner ++ [.pop]), s.depth < m.1.depth := by
  have hd : t.depth = s.depth + 1 := h.depth
  have hs : 0 < s.depth := Nat.succ_pos _
  obtain ⟨u, hu, hud⟩ := exists_pop? (s := t) (by omega)
  refine ⟨u, ?_, by omega, ?_⟩
  · rw [run_append, h.run, Option.bind_some, Scope.run, Step.apply, hu]
    rfl
  · rw [moments_append h.run]
    refine List.forall_mem_append.2 ⟨h.above, ?_⟩
    have hlt : s.depth < t.depth := by omega
    rw [moments, Step.apply, hu]
    exact List.forall_mem_singleton.2 hlt

theorem Returns.bracket {s t : Scope} {inner : List Step} (h : Returns s.push t inner) :
    ∃ u, Returns s u (bracket inner) := by
  obtain ⟨u, hu, hd, hm⟩ := h.close
  exact ⟨u, hu, hd, List.forall_mem_cons.2 ⟨Nat.le_refl _, fun m h => Nat.le_of_lt (hm m h)⟩⟩

theorem Balanced.returns {steps : List Step} (h : Balanced steps) (s : Scope) :
    ∃ t, Returns s t steps := by
  induction h generalizing s with
  | nil => exact ⟨s, rfl, rfl, by simp [moments]⟩
  | @cons step steps hpush hpop _ ih =>
    obtain ⟨u, hu, hd⟩ := step.apply_depth hpush hpop s
    obtain ⟨t, ht⟩ := ih u
    refine ⟨t, ?_, ht.depth.trans hd, ?_⟩
    · rw [Scope.run, hu, Option.bind_some, ht.run]
    · rw [moments, hu]
      exact List.forall_mem_cons.2 ⟨Nat.le_refl _, hd ▸ ht.above⟩
  | frame _ _ ihi ihs =>
    obtain ⟨t, ht⟩ := ihi s.push
    obtain ⟨u, hu⟩ := ht.bracket
    obtain ⟨v, hv⟩ := ihs u
    exact ⟨v, hu.append hv⟩

/-! ## Brackets -/

theorem lt_depth_of_frame? {s : Scope} {i : Nat} {f : Frame Value} (h : s.frame? i = some f) :
    i < s.depth := by
  obtain ⟨hlt, -⟩ := List.getElem?_eq_some_iff.1 h
  rwa [List.length_reverse] at hlt

theorem names_eq_of_frame? {s t : Scope} (hd : t.depth = s.depth)
    (h : ∀ i f, s.frame? i = some f → ∃ g, t.frame? i = some g ∧ g.names = f.names) :
    t.frames.map Frame.names = s.frames.map Frame.names := by
  rw [← List.reverse_inj, ← List.map_reverse, ← List.map_reverse]
  refine List.ext_getElem? fun i => ?_
  rw [List.getElem?_map, List.getElem?_map]
  cases hf : s.frames.reverse[i]? with
  | none =>
    rw [List.getElem?_eq_none_iff, List.length_reverse, length_frames] at hf
    rw [List.getElem?_eq_none (by rwa [List.length_reverse, length_frames, hd])]
  | some f =>
    obtain ⟨g, hg, hn⟩ := h i f hf
    have hg : t.frames.reverse[i]? = some g := hg
    rw [hg, Option.map_some, Option.map_some, hn]

theorem frame?_push {s : Scope} {i : Nat} {f : Frame Value} (h : s.frame? i = some f) :
    s.push.frame? i = some f := by
  obtain ⟨as, bs, e, hl⟩ := frame?_eq_some_iff.1 h
  exact frame?_eq_some_iff.2 ⟨Frame.empty :: as, bs, congrArg (Frame.empty :: ·) e, hl⟩

/-- At every moment of a bracket, every frame from before has its names, and the value of each is
the last one that was assigned to it. -/
theorem Balanced.run_bracket_frame? {inner steps : List Step} (h : Balanced inner)
    (hs : steps <+: bracket inner) (s : Scope) :
    ∃ t, s.run steps = some t ∧ ∀ i f, s.frame? i = some f →
      ∃ g, t.frame? i = some g ∧ g.names = f.names ∧ ∀ x, f.contains x = true →
        g.get? x = (s.assignments steps i x).getLast?.or (f.get? x) := by
  cases steps with
  | nil => exact ⟨s, rfl, fun i f hf => ⟨f, hf, rfl, fun _ _ => rfl⟩⟩
  | cons step steps =>
    obtain ⟨rfl, rest, hrest⟩ := List.cons_prefix_cons.1 hs
    obtain ⟨t, ht⟩ := h.returns s.push
    obtain ⟨u, hu, -, habove⟩ := ht.close
    rw [← hrest, run_append] at hu
    obtain ⟨t, ht, -⟩ := Option.bind_eq_some_iff.1 hu
    rw [← hrest, moments_append ht] at habove
    refine ⟨t, ht, fun i f hf => run_frame? (s := s.push) ht (fun m hm => ?_) (frame?_push hf)⟩
    exact Nat.lt_of_le_of_lt (lt_depth_of_frame? hf) (habove m (List.mem_append_left _ hm))

/-- **Laws of the scope stack.** After a bracket there are as many frames as before it, with the same
names. At every moment of it, a name that a frame from before binds has the value there that was
last assigned to the name while no frame inside bound it, or else the one from before. In any
scope stack, a name is bound if looking it up succeeds; a definition and an assignment give their
name its value and no other name another. -/
theorem bracket_laws (s : Scope) :
    (∀ inner, Balanced inner →
      (∃ t, s.run (bracket inner) = some t ∧
        t.frames.map Frame.names = s.frames.map Frame.names) ∧
      ∀ steps, steps <+: bracket inner → ∃ t, s.run steps = some t ∧
        ∀ i f, s.frame? i = some f → ∃ g, t.frame? i = some g ∧ ∀ x, f.contains x = true →
          g.get? x = (s.assignments steps i x).getLast?.or (f.get? x)) ∧
    (∀ x, s.contains x = true ↔ ∃ v, s.lookup x = .ok v) ∧
    ∀ x v, (s.assign x v).lookup x = .ok v ∧ (s.define x v).lookup x = .ok v ∧
      ∀ y, y ≠ x → (s.assign x v).lookup y = s.lookup y ∧
        (s.define x v).lookup y = s.lookup y := by
  refine ⟨fun inner hb => ⟨?_, fun steps hs => ?_⟩, fun x => ?_, fun x v => ⟨?_, ?_, fun y h => ?_⟩⟩
  · obtain ⟨t, ht, hf⟩ := hb.run_bracket_frame? List.prefix_rfl s
    obtain ⟨u, hu⟩ := hb.returns s.push
    obtain ⟨u, hu⟩ := hu.bracket
    cases ht.symm.trans hu.run
    refine ⟨t, ht, names_eq_of_frame? hu.depth fun i f h => ?_⟩
    obtain ⟨g, hg, hn, -⟩ := hf i f h
    exact ⟨g, hg, hn⟩
  · obtain ⟨t, ht, hf⟩ := hb.run_bracket_frame? hs s
    refine ⟨t, ht, fun i f h => ?_⟩
    obtain ⟨g, hg, -, hv⟩ := hf i f h
    exact ⟨g, hg, hv⟩
  · rw [contains_eq, Option.isSome_iff_exists]
    simp only [lookup_eq_ok_iff]
  · rw [lookup_eq_ok_iff, get?_assign]
  · rw [lookup_eq_ok_iff, get?_define]
  · exact ⟨lookup_congr (get?_assign_of_ne s x v h), lookup_congr (get?_define_of_ne s x v h)⟩

/-- A bracket that shadows `x` before it assigns to it, and assigns to `y` first in its own frame and
then, while another frame shadows `y`, in that one. -/
theorem bracket_laws_shadowed :
    Balanced [.define "x" (.int 5), .assign "x" (.int 6), .assign "y" (.int 7), .push,
      .assign "y" (.int 8), .define "y" (.int 9), .assign "y" (.int 10), .pop] ∧
    ∃ t, (Scope.mk (Frame.empty.insert "y" (.int 2)) [Frame.empty.insert "x" (.int 1)]).run
        (bracket [.define "x" (.int 5), .assign "x" (.int 6), .assign "y" (.int 7), .push,
          .assign "y" (.int 8), .define "y" (.int 9), .assign "y" (.int 10), .pop]) = some t ∧
      (∃ g, t.frame? 0 = some g ∧ g.get? "x" = some (.int 1)) ∧
      ∃ g, t.frame? 1 = some g ∧ g.get? "y" = some (.int 8) := by
  have hb : Balanced [.define "x" (.int 5), .assign "x" (.int 6), .assign "y" (.int 7), .push,
      .assign "y" (.int 8), .define "y" (.int 9), .assign "y" (.int 10), .pop] := by
    have hdefine (x : String) (v : Value) {steps : List Step} (h : Balanced steps) :
        Balanced (.define x v :: steps) := .cons Step.noConfusion Step.noConfusion h
    have hassign (x : String) (v : Value) {steps : List Step} (h : Balanced steps) :
        Balanced (.assign x v :: steps) := .cons Step.noConfusion Step.noConfusion h
    exact hdefine _ _ (hassign _ _ (hassign _ _
      (.frame (hassign _ _ (hdefine _ _ (hassign _ _ .nil))) .nil)))
  obtain ⟨t, ht, hf⟩ := ((bracket_laws (Scope.mk (Frame.empty.insert "y" (.int 2))
    [Frame.empty.insert "x" (.int 1)])).1 _ hb).2 _ List.prefix_rfl
  obtain ⟨g, hg, hx⟩ := hf 0 _ rfl
  obtain ⟨g', hg', hy⟩ := hf 1 _ rfl
  refine ⟨hb, t, ht, ⟨g, hg, (hx "x" rfl).trans ?_⟩, g', hg', (hy "y" rfl).trans ?_⟩
  · rfl
  · rfl

end Scope

end Dynascope
