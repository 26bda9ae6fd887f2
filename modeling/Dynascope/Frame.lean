/-! # Frames

A frame binds names to values. Its bindings are kept in the order of the names, at most one for
each name, so two frames with the same bindings are equal. `Frame.get?` is the view: what
`insert` does to it is `get?_insert`.
-/

set_option autoImplicit false

namespace Dynascope

/-- Puts a binding in its place among bindings ordered by name; an older binding of the name is
replaced. -/
def insertBinding {α : Type} (name : String) (value : α) :
    List (String × α) → List (String × α)
  | [] => [(name, value)]
  | (other, old) :: rest =>
    if name = other then (name, value) :: rest
    else if name < other then (name, value) :: (other, old) :: rest
    else (other, old) :: insertBinding name value rest

/-- The value bound to a name. -/
def findBinding? {α : Type} (name : String) : List (String × α) → Option α
  | [] => none
  | (other, value) :: rest => if name = other then some value else findBinding? name rest

theorem insertBinding_names {α : Type} {name : String} {value : α} {bs : List (String × α)}
    {x : String × α} (h : x ∈ insertBinding name value bs) : x.1 = name ∨ x ∈ bs := by
  induction bs with
  | nil => simp_all [insertBinding]
  | cons b rest ih =>
    rw [insertBinding] at h
    split at h
    · rcases List.mem_cons.1 h with rfl | h
      · exact .inl rfl
      · exact .inr (.tail _ h)
    · split at h
      · rcases List.mem_cons.1 h with rfl | h
        · exact .inl rfl
        · exact .inr h
      · rcases List.mem_cons.1 h with rfl | h
        · exact .inr (.head _)
        · exact (ih h).imp id (.tail _)

theorem insertBinding_sorted {α : Type} (name : String) (value : α) {bs : List (String × α)}
    (h : bs.Pairwise fun a b => a.1 < b.1) :
    (insertBinding name value bs).Pairwise fun a b => a.1 < b.1 := by
  induction bs with
  | nil => simp [insertBinding]
  | cons b rest ih =>
    obtain ⟨head, tail⟩ := List.pairwise_cons.1 h
    rw [insertBinding]
    split
    · rename_i e
      exact List.pairwise_cons.2 ⟨fun x hx => e ▸ head x hx, tail⟩
    · split
      · rename_i lt
        refine List.pairwise_cons.2 ⟨fun x hx => ?_, h⟩
        rcases List.mem_cons.1 hx with rfl | hx
        · exact lt
        · exact String.lt_trans lt (head x hx)
      · rename_i ne nlt
        refine List.pairwise_cons.2 ⟨fun x hx => ?_, ih tail⟩
        rcases insertBinding_names hx with e | hx
        · rw [e]
          exact String.not_le.1 fun le => ne (String.le_antisymm le (String.not_lt.1 nlt))
        · exact head x hx

/-- One level of bindings, in the order of their names. -/
structure Frame (α : Type) where
  bindings : List (String × α)
  sorted : bindings.Pairwise fun a b => a.1 < b.1

namespace Frame

variable {α : Type}

/-- The frame without bindings. -/
def empty : Frame α :=
  ⟨[], .nil⟩

instance : Inhabited (Frame α) :=
  ⟨empty⟩

/-- The value bound to a name. -/
def get? (frame : Frame α) (name : String) : Option α :=
  findBinding? name frame.bindings

/-- Whether a name is bound. -/
def contains (frame : Frame α) (name : String) : Bool :=
  (frame.get? name).isSome

/-- Binds a name, in place of what it was bound to before. -/
def insert (frame : Frame α) (name : String) (value : α) : Frame α :=
  ⟨insertBinding name value frame.bindings, insertBinding_sorted name value frame.sorted⟩

theorem findBinding?_insertBinding (name x : String) (value : α) (bs : List (String × α)) :
    findBinding? x (insertBinding name value bs)
      = if x = name then some value else findBinding? x bs := by
  induction bs with
  | nil => simp [insertBinding, findBinding?]
  | cons b rest ih =>
    obtain ⟨other, old⟩ := b
    rw [insertBinding]
    split
    · rename_i e
      subst e
      by_cases hx : x = name <;> simp [findBinding?, hx]
    · rename_i ne
      split
      · by_cases hx : x = name <;> simp [findBinding?, hx]
      · by_cases hx : x = name
        · subst hx
          simp [findBinding?, ih, ne]
        · simp [findBinding?, ih, hx]

@[simp] theorem get?_empty (x : String) : (empty : Frame α).get? x = none := rfl

/-- Binding a name gives it the value and leaves every other name alone. -/
@[simp] theorem get?_insert (frame : Frame α) (name x : String) (value : α) :
    (frame.insert name value).get? x = if x = name then some value else frame.get? x :=
  findBinding?_insertBinding name x value frame.bindings

end Frame

end Dynascope
