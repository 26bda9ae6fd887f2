import Dynascope.Eval

/-! # What steps do to the frames

`FramesKept s t`: between the sessions `s` and `t` every frame that was opened was closed and no
other one was, calls that began are over, and no frame but the innermost got or lost a name. The
steps that evaluation consists of keep the frames, and a frame that is opened and closed around
such steps leaves the names of all frames as they were: `FramesKept.closeFrame`.
-/

set_option autoImplicit false

namespace Dynascope

/-! ## Names of frames -/

/-- The names that a frame binds, in order. -/
def Frame.names {α : Type} (frame : Frame α) : List String :=
  frame.bindings.map (·.1)

theorem mem_names_of_findBinding? {α : Type} {name : String} {bs : List (String × α)}
    (h : (findBinding? name bs).isSome) : name ∈ bs.map (·.1) := by
  induction bs with
  | nil => cases h
  | cons b rest ih =>
    obtain ⟨other, old⟩ := b
    rw [findBinding?] at h
    split at h
    · rename_i e
      exact e ▸ .head _
    · exact .tail _ (ih h)

theorem findBinding?_isSome_of_mem {α : Type} {name : String} {bs : List (String × α)}
    (h : name ∈ bs.map (·.1)) : (findBinding? name bs).isSome = true := by
  induction bs with
  | nil => cases h
  | cons b rest ih =>
    obtain ⟨other, old⟩ := b
    rw [findBinding?]
    split
    · rfl
    · rename_i hne
      exact ih ((List.mem_cons.1 h).resolve_left hne)

theorem insertBinding_map_fst {α : Type} {name : String} {value : α} {bs : List (String × α)}
    (hs : bs.Pairwise fun a b => a.1 < b.1) (h : name ∈ bs.map (·.1)) :
    (insertBinding name value bs).map (·.1) = bs.map (·.1) := by
  induction bs with
  | nil => cases h
  | cons b rest ih =>
    obtain ⟨other, old⟩ := b
    obtain ⟨head, tail⟩ := List.pairwise_cons.1 hs
    rw [insertBinding]
    split
    · rename_i e
      rw [e]
      rfl
    · rename_i ne
      have h : name ∈ rest.map (·.1) := (List.mem_cons.1 h).resolve_left ne
      obtain ⟨x, hx, rfl⟩ := List.mem_map.1 h
      rw [if_neg (String.lt_asymm (head x hx)), List.map_cons, ih tail h, List.map_cons]

theorem subset_insertBinding {α : Type} (name : String) (value : α) (bs : List (String × α)) :
    bs.map (·.1) ⊆ (insertBinding name value bs).map (·.1) := by
  induction bs with
  | nil => simp
  | cons b rest ih =>
    obtain ⟨other, old⟩ := b
    rw [insertBinding]
    split
    · rename_i e
      rw [e]
      exact fun _ h => h
    · split
      · exact fun _ h => .tail _ h
      · exact List.cons_subset_cons _ ih

namespace Frame

variable {α : Type} {frame : Frame α} {name : String}

/-- Binding a bound name again changes no names. -/
theorem names_insert_of_contains (h : frame.contains name = true) (value : α) :
    (frame.insert name value).names = frame.names :=
  insertBinding_map_fst frame.sorted (mem_names_of_findBinding? h)

theorem names_subset_insert (frame : Frame α) (name : String) (value : α) :
    frame.names ⊆ (frame.insert name value).names :=
  subset_insertBinding name value frame.bindings

end Frame

theorem Frame.contains_iff {α : Type} {f : Frame α} {x : String} :
    f.contains x = true ↔ x ∈ f.names :=
  ⟨mem_names_of_findBinding?, findBinding?_isSome_of_mem⟩

theorem Frame.contains_eq_of_names {f g : Frame Value} (h : f.names = g.names) (x : String) :
    f.contains x = g.contains x := by
  rw [Bool.eq_iff_iff, contains_iff, contains_iff, h]

theorem rebind_names (name : String) (value : Value) (frames : List (Frame Value)) :
    (rebind name value frames).map Frame.names = frames.map Frame.names := by
  induction frames with
  | nil => rfl
  | cons frame rest ih =>
    rw [rebind]
    split
    · rename_i h
      rw [List.map_cons, Frame.names_insert_of_contains h, List.map_cons]
    · rw [List.map_cons, ih, List.map_cons]

/-! ## Stacks of frames -/

theorem findSome?_cons_or (f : Frame Value) (fs : List (Frame Value)) (x : String) :
    (f :: fs).findSome? (·.get? x) = (f.get? x).or (fs.findSome? (·.get? x)) := by
  rw [List.findSome?_cons]
  cases f.get? x <;> rfl

theorem any_contains_eq (fs : List (Frame Value)) (x : String) :
    fs.any (·.contains x) = (fs.findSome? (·.get? x)).isSome := by
  induction fs with
  | nil => rfl
  | cons f fs ih =>
    rw [List.any_cons, ih, findSome?_cons_or, Frame.contains]
    cases f.get? x <;> rfl

theorem find_rebind_self {name : String} {value : Value} {frames : List (Frame Value)}
    (h : (frames.findSome? (·.get? name)).isSome = true) :
    (rebind name value frames).findSome? (·.get? name) = some value := by
  induction frames with
  | nil => cases h
  | cons frame rest ih =>
    rw [rebind]
    split
    · rw [findSome?_cons_or, Frame.get?_insert, if_pos rfl]
      rfl
    · rename_i hc
      have hn : frame.get? name = none := by simpa [Frame.contains] using hc
      rw [findSome?_cons_or, hn] at h ⊢
      exact ih h

theorem rebind_concat {name : String} {last : Frame Value} (h : last.contains name = false)
    (value : Value) (frames : List (Frame Value)) :
    rebind name value (frames ++ [last]) = rebind name value frames ++ [last] := by
  induction frames with
  | nil => simp [rebind, h]
  | cons frame rest ih =>
    rw [List.cons_append, rebind, rebind, ih]
    split <;> rfl

namespace Scope

variable (s : Scope) (x : String) (v : Value)

theorem get?_eq : s.get? x = s.frames.findSome? (·.get? x) := by
  rw [frames, findSome?_cons_or, get?]
  cases s.inner.get? x <;> rfl

/-- An assignment goes to the nearest frame that binds the name, or else to the innermost. -/
theorem frames_assign : (s.assign x v).frames =
    if (s.get? x).isSome then rebind x v s.frames else s.inner.insert x v :: s.outer := by
  have e : s.frames = s.inner :: s.outer := rfl
  rw [get?_eq, e, findSome?_cons_or, rebind]
  unfold assign
  rw [any_contains_eq]
  unfold Frame.contains
  cases s.inner.get? x with
  | some w => simp [define, frames]
  | none => cases s.outer.findSome? (·.get? x) <;> simp [define, frames]

/-- An assignment binds its name. -/
theorem get?_assign : (s.assign x v).get? x = some v := by
  rw [get?_eq, frames_assign]
  split
  · rename_i h
    exact find_rebind_self (s.get?_eq x ▸ h)
  · rw [findSome?_cons_or, Frame.get?_insert, if_pos rfl]
    rfl

end Scope

/-- Whether some frame binds a name is a matter of the names of frames. -/
theorem isSome_find_of_names {fs gs : List (Frame Value)}
    (h : fs.map Frame.names = gs.map Frame.names) (x : String) :
    (fs.findSome? (·.get? x)).isSome = (gs.findSome? (·.get? x)).isSome := by
  have e (fs : List (Frame Value)) :
      fs.any (·.contains x) = (fs.map Frame.names).any fun names => decide (x ∈ names) := by
    rw [List.any_map]
    congr 1
    funext f
    rw [Bool.eq_iff_iff, Frame.contains_iff]
    simp
  rw [← any_contains_eq, ← any_contains_eq, e, e, h]

/-! ## Events of frames -/

/-- Whether an event is about frames. -/
def Event.isFrame : Event → Bool
  | cleared | opened | closed | refused => true
  | _ => false

theorem Event.written_of_isFrame {event : Event} (h : event.isFrame = true) :
    event.written = "" := by
  cases event <;> first | rfl | cases h

/-- Events, the last one first, among which every frame that was opened was closed, and no other
one, and no closing was refused. -/
inductive Bracketed : Log → Prop
  | nil : Bracketed []
  | cons {event : Event} {log : Log} : event.isFrame = false → Bracketed log →
      Bracketed (event :: log)
  | frame {inner log : Log} : Bracketed inner → Bracketed log →
      Bracketed (.closed :: (inner ++ .opened :: log))

theorem Bracketed.append {xs ys : Log} (hx : Bracketed xs) (hy : Bracketed ys) :
    Bracketed (xs ++ ys) := by
  induction hx with
  | nil => exact hy
  | cons he _ ih => exact .cons he ih
  | frame hi _ _ ih =>
    rw [List.cons_append, List.append_assoc, List.cons_append]
    exact .frame hi ih

theorem Bracketed.refused_notMem {log : Log} (h : Bracketed log) : .refused ∉ log := by
  induction h with
  | nil => simp
  | cons he _ ih =>
    rintro (_ | ⟨_, hm⟩)
    · cases he
    · exact ih hm
  | frame _ _ ihi ihl => simp [ihi, ihl]

/-! ## Steps -/

/-- What the steps of an evaluation keep. -/
structure FramesKept (s t : Session) : Prop where
  outer : t.scope.outer.map Frame.names = s.scope.outer.map Frame.names
  inner : s.scope.inner.names ⊆ t.scope.inner.names
  callDepth : t.callDepth = s.callDepth
  events : ∃ events, t.log = events ++ s.log ∧ Bracketed events

/-- What the steps of a block keep. -/
structure NamesKept (s t : Session) : Prop extends FramesKept s t where
  names : t.scope.inner.names = s.scope.inner.names

namespace FramesKept

variable {s t u : Session}

theorem refl (s : Session) : FramesKept s s :=
  ⟨rfl, fun _ h => h, rfl, [], rfl, .nil⟩

theorem trans (h : FramesKept s t) (h' : FramesKept t u) : FramesKept s u where
  outer := h'.outer.trans h.outer
  inner := fun _ hx => h'.inner (h.inner hx)
  callDepth := h'.callDepth.trans h.callDepth
  events := by
    obtain ⟨es, e, hb⟩ := h.events
    obtain ⟨es', e', hb'⟩ := h'.events
    exact ⟨es' ++ es, by rw [e', e, List.append_assoc], hb'.append hb⟩

theorem depth (h : FramesKept s t) : t.scope.depth = s.scope.depth := by
  have hl := congrArg List.length h.outer
  rw [List.length_map, List.length_map] at hl
  rw [Scope.depth, Scope.depth, hl]

theorem refused_notMem (h : FramesKept s t) (hs : .refused ∉ s.log) : .refused ∉ t.log := by
  obtain ⟨es, e, hb⟩ := h.events
  rw [e, List.mem_append, not_or]
  exact ⟨hb.refused_notMem, hs⟩

theorem define (s : Session) (name : String) (value : Value) :
    FramesKept s (s.define name value) :=
  ⟨rfl, Frame.names_subset_insert _ _ _, rfl, [], rfl, .nil⟩

theorem assign (s : Session) (name : String) (value : Value) :
    FramesKept s (s.assign name value) := by
  have hd := define s name value
  unfold Session.assign Scope.assign
  split
  · exact hd
  · split
    · exact ⟨rebind_names name value _, fun _ h => h, rfl, [], rfl, .nil⟩
    · exact hd

theorem note (s : Session) {event : Event} (h : event.isFrame = false) :
    FramesKept s (s.note event) :=
  ⟨rfl, fun _ h => h, rfl, [event], rfl, .cons h .nil⟩

theorem write (s : Session) (text : String) : FramesKept s (s.write text).1 := by
  unfold Session.write
  split
  · exact note s rfl
  · exact ⟨rfl, fun _ h => h, rfl, [_], rfl, .cons rfl .nil⟩

/-- A call around steps that keep the frames keeps them. -/
theorem endCall (h : FramesKept { s with callDepth := s.callDepth + 1 } t) :
    FramesKept s { t with callDepth := t.callDepth - 1 } where
  outer := h.outer
  inner := h.inner
  callDepth := by
    have hc : t.callDepth = s.callDepth + 1 := h.callDepth
    exact Nat.sub_eq_of_eq_add hc
  events := h.events

/-- A frame around steps that keep the frames leaves all names as they were. -/
theorem closeFrame (h : FramesKept s.openFrame t) : NamesKept s t.closeFrame := by
  have ho : t.scope.outer.map Frame.names =
      s.scope.inner.names :: s.scope.outer.map Frame.names := h.outer
  obtain ⟨frame, rest, hf, hn, hr⟩ := List.map_eq_cons_iff.1 ho
  obtain ⟨es, e, hb⟩ := h.events
  have hc : t.closeFrame = { t with scope := ⟨frame, rest⟩, log := .closed :: t.log } := by
    rw [Session.closeFrame, Scope.pop?, hf]
  rw [hc]
  refine ⟨⟨hr, fun _ hx => hn.symm ▸ hx, h.callDepth, .closed :: (es ++ [.opened]), ?_, ?_⟩, hn⟩
  · rw [e]
    simp [Session.openFrame]
  · exact .frame hb .nil

end FramesKept

end Dynascope
