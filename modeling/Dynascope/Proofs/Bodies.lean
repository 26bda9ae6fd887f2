import Dynascope.Eval

/-! # Sessions up to the bodies of closures

`Session.mapBodies f` applies `f` to the bodies of all closures that a session has bound.
Everything that a session offers to a running program commutes with it, as nothing but a call
looks into a body.
-/

set_option autoImplicit false

namespace Dynascope

/-! ## Values and frames -/

def Closure.mapBody (f : Term → Term) (c : Closure) : Closure :=
  { c with body := f c.body }

def Value.mapBody (f : Term → Term) : Value → Value
  | .closure c => .closure (c.mapBody f)
  | v => v

section

variable (f : Term → Term)

@[simp] theorem Value.text_mapBody (v : Value) : (v.mapBody f).text = v.text := by
  cases v <;> rfl

@[simp] theorem Value.kind_mapBody (v : Value) : (v.mapBody f).kind = v.kind := by
  cases v <;> rfl

end

/-- A function applied to the bound values. -/
def Frame.map {α β : Type} (g : α → β) (frame : Frame α) : Frame β :=
  ⟨frame.bindings.map fun b => (b.1, g b.2), List.pairwise_map.2 frame.sorted⟩

theorem Frame.ext_bindings {α : Type} {a b : Frame α} (h : a.bindings = b.bindings) : a = b := by
  cases a
  cases b
  cases h
  rfl

section

variable {α β : Type} (g : α → β)

@[simp] theorem Frame.get?_map (frame : Frame α) (name : String) :
    (frame.map g).get? name = (frame.get? name).map g := by
  obtain ⟨bs, sorted⟩ := frame
  simp only [get?, map]
  induction bs with
  | nil => rfl
  | cons b rest ih =>
    rw [List.map_cons, findBinding?, findBinding?]
    split
    · rfl
    · exact ih (List.pairwise_cons.1 sorted).2

@[simp] theorem Frame.contains_map (frame : Frame α) (name : String) :
    (frame.map g).contains name = frame.contains name := by
  simp [contains]

theorem Frame.map_map {γ : Type} (h : β → γ) (frame : Frame α) :
    (frame.map g).map h = frame.map (h ∘ g) := by
  apply ext_bindings
  simp [map, Function.comp_def]

@[simp] theorem Frame.map_insert (frame : Frame α) (name : String) (value : α) :
    (frame.insert name value).map g = (frame.map g).insert name (g value) := by
  apply ext_bindings
  obtain ⟨bs, sorted⟩ := frame
  simp only [insert, map]
  clear sorted
  induction bs with
  | nil => rfl
  | cons b rest ih =>
    obtain ⟨other, old⟩ := b
    simp only [insertBinding, List.map_cons]
    split
    · rfl
    · split
      · rfl
      · rw [List.map_cons, ih]

end

/-! ## Scopes -/

namespace Scope

/-- A function applied to the values of all names. -/
def mapValues (g : Value → Value) (s : Scope) : Scope :=
  ⟨s.inner.map g, s.outer.map (Frame.map g)⟩

def mapBodies (f : Term → Term) (s : Scope) : Scope :=
  ⟨s.inner.map (Value.mapBody f), s.outer.map (Frame.map (Value.mapBody f))⟩

section

variable (g : Value → Value)

theorem mapValues_mapValues (h : Value → Value) (s : Scope) :
    (s.mapValues g).mapValues h = s.mapValues (h ∘ g) := by
  simp [mapValues, Frame.map_map, Function.comp_def]

theorem rebind_map (name : String) (value : Value) (frames : List (Frame Value)) :
    (rebind name value frames).map (Frame.map g) =
      rebind name (g value) (frames.map (Frame.map g)) := by
  induction frames with
  | nil => rfl
  | cons frame rest ih =>
    simp only [rebind, List.map_cons, Frame.contains_map]
    split
    · rw [List.map_cons, Frame.map_insert]
    · rw [List.map_cons, ih]

@[simp] theorem mapValues_push (s : Scope) : s.push.mapValues g = (s.mapValues g).push := rfl

@[simp] theorem pop?_mapValues (s : Scope) : (s.mapValues g).pop? = s.pop?.map (mapValues g) := by
  obtain ⟨inner, outer⟩ := s
  cases outer <;> rfl

@[simp] theorem mapValues_define (s : Scope) (name : String) (value : Value) :
    (s.define name value).mapValues g = (s.mapValues g).define name (g value) := by
  simp [define, mapValues]

@[simp] theorem get?_mapValues (s : Scope) (name : String) :
    (s.mapValues g).get? name = (s.get? name).map g := by
  simp only [get?, mapValues, Frame.get?_map]
  cases s.inner.get? name with
  | some value => rfl
  | none =>
    simp only [Option.map_none]
    induction s.outer with
    | nil => rfl
    | cons frame rest ih =>
      rw [List.map_cons, List.findSome?_cons, List.findSome?_cons, Frame.get?_map]
      cases frame.get? name with
      | none => exact ih
      | some value => rfl

@[simp] theorem mapValues_assign (s : Scope) (name : String) (value : Value) :
    (s.assign name value).mapValues g = (s.mapValues g).assign name (g value) := by
  have ho : ((s.mapValues g).outer.any (·.contains name)) = s.outer.any (·.contains name) := by
    simp [mapValues, List.any_map, Function.comp_def]
  have hi : (s.mapValues g).inner.contains name = s.inner.contains name := Frame.contains_map _ _ _
  unfold assign
  rw [ho, hi]
  split
  · rw [mapValues_define]
  · split
    · simp [mapValues, rebind_map]
    · rw [mapValues_define]

theorem text_mapValues {g : Value → Value} (hg : ∀ v, (g v).text = v.text) (s : Scope) :
    (s.mapValues g).text = s.text := by
  have hf : ∀ frame : Frame Value, frameText (frame.map g) = frameText frame := by
    intro frame
    simp [frameText, Frame.map, Function.comp_def, hg]
  have hu : (s.mapValues g).userFrames = s.userFrames.map (Frame.map g) := by
    simp only [userFrames, frames, mapValues, List.map_reverse]
    rw [List.map_dropLast, List.map_cons]
  simp [text, hu, Function.comp_def, hf]

end

section

variable (f : Term → Term)

@[simp] theorem pop?_mapBodies (s : Scope) :
    (s.mapBodies f).pop? = s.pop?.map (mapBodies f) :=
  pop?_mapValues _ s

@[simp] theorem mapBodies_define (s : Scope) (name : String) (value : Value) :
    (s.define name value).mapBodies f = (s.mapBodies f).define name (value.mapBody f) :=
  mapValues_define _ s name value

@[simp] theorem get?_mapBodies (s : Scope) (name : String) :
    (s.mapBodies f).get? name = (s.get? name).map (Value.mapBody f) :=
  get?_mapValues _ s name

@[simp] theorem mapBodies_assign (s : Scope) (name : String) (value : Value) :
    (s.assign name value).mapBodies f = (s.mapBodies f).assign name (value.mapBody f) :=
  mapValues_assign _ s name value

@[simp] theorem text_mapBodies (s : Scope) : (s.mapBodies f).text = s.text :=
  text_mapValues (Value.text_mapBody f) s

end

end Scope

/-! ## Sessions -/

namespace Session

def mapBodies (f : Term → Term) (s : Session) : Session :=
  { s with scope := s.scope.mapBodies f }

variable (f : Term → Term)

@[simp] theorem mapBodies_openFrame (s : Session) :
    s.openFrame.mapBodies f = (s.mapBodies f).openFrame := rfl

@[simp] theorem mapBodies_closeFrame (s : Session) :
    s.closeFrame.mapBodies f = (s.mapBodies f).closeFrame := by
  simp only [closeFrame, mapBodies, Scope.pop?_mapBodies]
  cases s.scope.pop? <;> rfl

@[simp] theorem mapBodies_define (s : Session) (name : String) (value : Value) :
    (s.define name value).mapBodies f = (s.mapBodies f).define name (value.mapBody f) := by
  simp [define, mapBodies]

@[simp] theorem mapBodies_assign (s : Session) (name : String) (value : Value) :
    (s.assign name value).mapBodies f = (s.mapBodies f).assign name (value.mapBody f) := by
  simp [assign, mapBodies]

@[simp] theorem mapBodies_note (s : Session) (event : Event) :
    (s.note event).mapBodies f = (s.mapBodies f).note event := rfl

theorem write_mapBodies (s : Session) (text : String) :
    (s.mapBodies f).write text = ((s.write text).1.mapBodies f, (s.write text).2) := by
  obtain ⟨scope, calls, limit, room, next, log⟩ := s
  cases room <;> rfl

end Session

end Dynascope
