import Dynascope.Eval

/-! # Bound values

`Scope.values` lists the values that some frame of a scope stack binds. A definition and an
assignment add no value but their own, opening and closing a frame add none, and what a name stands
for is one of them. So a property of all bound values is kept by whatever binds only values that
have it.
-/

set_option autoImplicit false

namespace Dynascope

/-! ## Frames -/

/-- The values that a frame binds, in the order of their names. -/
def Frame.values {α : Type} (frame : Frame α) : List α :=
  frame.bindings.map (·.2)

theorem mem_insertBinding {α : Type} {name : String} {value : α} {bs : List (String × α)}
    {b : String × α} (h : b ∈ insertBinding name value bs) : b = (name, value) ∨ b ∈ bs := by
  induction bs with
  | nil => exact .inl (List.mem_singleton.1 h)
  | cons other rest ih =>
    rw [insertBinding] at h
    split at h
    · exact (List.mem_cons.1 h).imp id (.tail _)
    · split at h
      · exact List.mem_cons.1 h
      · rcases List.mem_cons.1 h with rfl | h
        · exact .inr (.head _)
        · exact (ih h).imp id (.tail _)

theorem mem_of_findBinding? {α : Type} {name : String} {value : α} {bs : List (String × α)}
    (h : findBinding? name bs = some value) : (name, value) ∈ bs := by
  induction bs with
  | nil => cases h
  | cons b rest ih =>
    rw [findBinding?] at h
    split at h
    · rename_i e
      cases e
      cases h
      exact .head _
    · exact .tail _ (ih h)

namespace Frame

variable {α : Type} {frame : Frame α} {name : String} {v value : α}

theorem mem_values_insert (h : v ∈ (frame.insert name value).values) :
    v = value ∨ v ∈ frame.values := by
  obtain ⟨b, hb, rfl⟩ := List.mem_map.1 h
  rcases mem_insertBinding hb with rfl | hb
  · exact .inl rfl
  · exact .inr (List.mem_map_of_mem hb)

theorem mem_values_of_get? (h : frame.get? name = some value) : value ∈ frame.values :=
  List.mem_map.2 ⟨_, mem_of_findBinding? h, rfl⟩

end Frame

theorem mem_values_rebind {name : String} {v value : Value} {frames : List (Frame Value)}
    (h : v ∈ (rebind name value frames).flatMap Frame.values) :
    v = value ∨ v ∈ frames.flatMap Frame.values := by
  induction frames with
  | nil => exact .inr h
  | cons frame rest ih =>
    rw [rebind] at h
    split at h
    · rw [List.flatMap_cons, List.mem_append] at h ⊢
      rcases h with h | h
      · exact (Frame.mem_values_insert h).imp id .inl
      · exact .inr (.inr h)
    · rw [List.flatMap_cons, List.mem_append] at h ⊢
      rcases h with h | h
      · exact .inr (.inl h)
      · exact (ih h).imp id .inr

/-! ## Scope stacks -/

namespace Scope

/-- The values that the frames bind, those of the innermost frame first. -/
def values (s : Scope) : List Value :=
  s.frames.flatMap Frame.values

theorem values_eq (s : Scope) : s.values = s.inner.values ++ s.outer.flatMap Frame.values := rfl

variable {s t : Scope} {name : String} {v value : Value}

theorem mem_values_of_pop? (h : s.pop? = some t) (hv : v ∈ t.values) : v ∈ s.values := by
  obtain ⟨inner, outer⟩ := s
  cases outer with
  | nil => cases h
  | cons frame rest =>
    cases h
    exact List.mem_append_right _ hv

theorem mem_values_define (h : v ∈ (s.define name value).values) : v = value ∨ v ∈ s.values := by
  rw [values_eq, List.mem_append] at h ⊢
  rcases h with h | h
  · exact (Frame.mem_values_insert h).imp id .inl
  · exact .inr (.inr h)

theorem mem_values_assign (h : v ∈ (s.assign name value).values) : v = value ∨ v ∈ s.values := by
  unfold assign at h
  split at h
  · exact mem_values_define h
  · split at h
    · rw [values_eq, List.mem_append] at h ⊢
      rcases h with h | h
      · exact .inr (.inl h)
      · exact (mem_values_rebind h).imp id .inr
    · exact mem_values_define h

theorem mem_values_of_get? (h : s.get? name = some value) : value ∈ s.values := by
  rw [values_eq, List.mem_append]
  unfold get? at h
  split at h
  · rename_i hv
    cases h
    exact .inl (Frame.mem_values_of_get? hv)
  · obtain ⟨frame, hf, hv⟩ := List.exists_of_findSome?_eq_some h
    exact .inr (List.mem_flatMap.2 ⟨frame, hf, Frame.mem_values_of_get? hv⟩)

end Scope

/-- A value that, if it is a closure, has a body with a property. -/
def Value.Body (P : Term → Prop) : Value → Prop
  | .closure c => P c.body
  | _ => True

end Dynascope
