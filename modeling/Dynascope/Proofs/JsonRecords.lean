import Mathlib.Data.List.Forall2
import Dynascope.Proofs.JsonTexts
import Dynascope.TermJson

/-! # Records in JSON data

`Json.Reordered` is the order of fields left aside. A record is read by the names of its fields, so
from a reordering of it the same fields are read (`record?_reordered`), with reorderings of their
values. What is read of a value is bounded by its depth, and a part is less deep than the whole.
-/

set_option autoImplicit false

namespace Dynascope

/-! ## Lists read item by item -/

section

variable {α β : Type}

theorem mapM_of_forall₂ {f : α → Option β} {xs : List α} {ys : List β}
    (h : List.Forall₂ (fun x y => f x = some y) xs ys) : xs.mapM f = some ys := by
  induction h with
  | nil => rfl
  | cons hx _ ih => simp [List.mapM_cons, hx, ih]

theorem exists_of_mem_right {R : α → β → Prop} {xs : List α} {ys : List β}
    (h : List.Forall₂ R xs ys) {y : β} (hy : y ∈ ys) : ∃ x ∈ xs, R x y := by
  induction h with
  | nil => cases hy
  | cons hx _ ih =>
    rcases List.mem_cons.1 hy with rfl | hy
    · exact ⟨_, .head _, hx⟩
    · obtain ⟨x, hm, hr⟩ := ih hy
      exact ⟨x, .tail _ hm, hr⟩

end

namespace Json

/-! ## Data with its fields in another order -/

/-- The same data, in which the fields of any object may have another order. -/
inductive Reordered : Json → Json → Prop
  | null : Reordered null null
  | bool (b : Bool) : Reordered (bool b) (bool b)
  | integer (n : Int) : Reordered (integer n) (integer n)
  | decimal (text : String) : Reordered (decimal text) (decimal text)
  | string (s : String) : Reordered (string s) (string s)
  | array {items items' : List Json} : List.Forall₂ Reordered items items' →
      Reordered (array items) (array items')
  | object {fs gs hs : List (String × Json)} : fs.map Prod.fst = gs.map Prod.fst →
      List.Forall₂ Reordered (fs.map Prod.snd) (gs.map Prod.snd) → gs.Perm hs →
      Reordered (object fs) (object hs)

theorem Plain.reordered {json json' : Json} (h : json.Plain) (hr : json.Reordered json') :
    json'.Plain := by
  induction h generalizing json' with
  | null => cases hr; exact .null
  | bool b => cases hr; exact .bool b
  | integer n => cases hr; exact .integer n
  | string s => cases hr; exact .string s
  | array _ ih =>
    cases hr with
    | array hi =>
      refine .array fun item hm => ?_
      obtain ⟨item', hm', hr⟩ := exists_of_mem_right hi hm
      exact ih item' hm' hr
  | object _ ih =>
    cases hr with
    | object hk hv hp =>
      refine .object fun field hm => ?_
      obtain ⟨value, hm', hr⟩ := exists_of_mem_right hv (List.mem_map_of_mem (hp.mem_iff.2 hm))
      obtain ⟨field', hf, rfl⟩ := List.mem_map.1 hm'
      exact ih field' hf hr

theorem Reordered.object_of_perm {fs gs : List (String × Json)}
    (h : ∀ field ∈ fs, field.2.Reordered field.2) (hp : fs.Perm gs) :
    (Json.object fs).Reordered (Json.object gs) := by
  refine .object rfl (List.forall₂_same.2 fun value hv => ?_) hp
  obtain ⟨field, hf, rfl⟩ := List.mem_map.1 hv
  exact h field hf

/-- Data is a reordering of itself. -/
theorem Plain.reordered_self {json : Json} (h : json.Plain) : json.Reordered json := by
  induction h with
  | null => exact .null
  | bool b => exact .bool b
  | integer n => exact .integer n
  | string s => exact .string s
  | array _ ih => exact .array (List.forall₂_same.2 ih)
  | object _ ih => exact .object_of_perm ih (.refl _)

/-! ## Depth -/

theorem depth_lt_array {item : Json} {items : List Json} (h : item ∈ items) :
    item.depth < (array items).depth := by
  rw [depth, Nat.lt_succ_iff]
  induction items with
  | nil => cases h
  | cons first rest ih =>
    rw [itemsDepth]
    rcases List.mem_cons.1 h with rfl | h
    · exact Nat.le_max_left _ _
    · exact Nat.le_trans (ih h) (Nat.le_max_right _ _)

theorem depth_lt_object {field : String × Json} {fields : List (String × Json)}
    (h : field ∈ fields) : field.2.depth < (object fields).depth := by
  rw [depth, Nat.lt_succ_iff]
  induction fields with
  | nil => cases h
  | cons first rest ih =>
    rw [fieldsDepth]
    rcases List.mem_cons.1 h with rfl | h
    · exact Nat.le_max_left _ _
    · exact Nat.le_trans (ih h) (Nat.le_max_right _ _)

end Json

/-! ## Records -/

open Json

/-- Among fields with different keys, one has a given key. -/
theorem filter_of_nodup {fs : List (String × Json)} (hn : (fs.map Prod.fst).Nodup) {key : String}
    {value : Json} (h : (key, value) ∈ fs) : fs.filter (·.1 == key) = [(key, value)] := by
  induction fs with
  | nil => cases h
  | cons f fs ih =>
    obtain ⟨hf, hn⟩ := List.nodup_cons.1 hn
    rcases List.mem_cons.1 h with rfl | h
    · have hrest : fs.filter (·.1 == key) = [] := by
        refine List.filter_eq_nil_iff.2 fun g hg hk => hf ?_
        exact List.mem_map.2 ⟨g, hg, beq_iff_eq.1 hk⟩
      rw [List.filter_cons, if_pos (beq_self_eq_true key), hrest]
    · have hne : ¬ (f.1 == key) = true := fun hk =>
        hf (List.mem_map.2 ⟨_, h, (beq_iff_eq.1 hk).symm⟩)
      rw [List.filter_cons, if_neg hne]
      exact ih hn h

/-- A key stands for its value, in whatever order the fields are. -/
theorem field?_of_nodup {fs gs : List (String × Json)} (hn : (fs.map Prod.fst).Nodup)
    (hp : fs.Perm gs) {key : String} {value : Json} (h : (key, value) ∈ fs) :
    field? gs key = some (some value) := by
  have hperm : gs.filter (·.1 == key) = [(key, value)] :=
    List.perm_singleton.1 (filter_of_nodup hn h ▸ (hp.filter _).symm)
  rw [field?, valuesOf, hperm]
  rfl

/-- A reordering of a record is read by its keys: to values that are reorderings of those of the
record. -/
theorem record?_reordered {fs : List (String × Json)} {json : Json}
    (hn : (fs.map Prod.fst).Nodup) (h : (object fs).Reordered json) :
    ∃ values, record? (fs.map Prod.fst) json = some (values.map some) ∧
      List.Forall₂ Reordered (fs.map Prod.snd) values ∧ ∀ v ∈ values, v.depth < json.depth := by
  cases h with
  | @object _ gs hs hk hv hp =>
    refine ⟨gs.map Prod.snd, ?_, hv, fun v hm => ?_⟩
    · rw [hk] at hn ⊢
      refine mapM_of_forall₂ ?_
      rw [List.map_map, List.forall₂_map_left_iff, List.forall₂_map_right_iff]
      exact List.forall₂_same.2 fun g hg => field?_of_nodup hn hp hg
    · obtain ⟨g, hg, rfl⟩ := List.mem_map.1 hm
      exact depth_lt_object (hp.mem_iff.1 hg)

section

variable {a b c json : Json} {j k l : String}

theorem record?_one (h : (object [(k, a)]).Reordered json) :
    ∃ a', record? [k] json = some [some a'] ∧ a.Reordered a' ∧ a'.depth < json.depth := by
  have hn : ([(k, a)].map Prod.fst).Nodup := by simp
  obtain ⟨values, hr, hv, hd⟩ := record?_reordered hn h
  simp only [List.map_cons, List.map_nil] at hv
  obtain ⟨a', _, ha, hv₁, rfl⟩ := List.forall₂_cons_left_iff.1 hv
  cases hv₁
  exact ⟨a', hr, ha, hd a' (.head _)⟩

theorem record?_two (hk : k ≠ l) (h : (object [(k, a), (l, b)]).Reordered json) :
    ∃ a' b', record? [k, l] json = some [some a', some b'] ∧ a.Reordered a' ∧ b.Reordered b' ∧
      a'.depth < json.depth ∧ b'.depth < json.depth := by
  have hn : ([(k, a), (l, b)].map Prod.fst).Nodup := by simpa using hk
  obtain ⟨values, hr, hv, hd⟩ := record?_reordered hn h
  simp only [List.map_cons, List.map_nil] at hv
  obtain ⟨a', _, ha, hv₁, rfl⟩ := List.forall₂_cons_left_iff.1 hv
  obtain ⟨b', _, hb, hv₂, rfl⟩ := List.forall₂_cons_left_iff.1 hv₁
  cases hv₂
  exact ⟨a', b', hr, ha, hb, hd a' (.head _), hd b' (.tail _ (.head _))⟩

theorem record?_three (hk : [j, k, l].Nodup)
    (h : (object [(j, a), (k, b), (l, c)]).Reordered json) :
    ∃ a' b' c', record? [j, k, l] json = some [some a', some b', some c'] ∧ a.Reordered a' ∧
      b.Reordered b' ∧ c.Reordered c' ∧ a'.depth < json.depth ∧ b'.depth < json.depth ∧
      c'.depth < json.depth := by
  have hn : ([(j, a), (k, b), (l, c)].map Prod.fst).Nodup := hk
  obtain ⟨values, hr, hv, hd⟩ := record?_reordered hn h
  simp only [List.map_cons, List.map_nil] at hv
  obtain ⟨a', _, ha, hv₁, rfl⟩ := List.forall₂_cons_left_iff.1 hv
  obtain ⟨b', _, hb, hv₂, rfl⟩ := List.forall₂_cons_left_iff.1 hv₁
  obtain ⟨c', _, hc, hv₃, rfl⟩ := List.forall₂_cons_left_iff.1 hv₂
  cases hv₃
  exact ⟨a', b', c', hr, ha, hb, hc, hd a' (.head _), hd b' (.tail _ (.head _)),
    hd c' (.tail _ (.tail _ (.head _)))⟩

/-- The only field of an object keeps its place. -/
theorem form?_reordered (h : (formJson k a).Reordered json) :
    ∃ a', json.form? = some (k, a') ∧ a.Reordered a' ∧ a'.depth < json.depth := by
  cases h with
  | @object _ gs hs hk hv hp =>
    obtain ⟨⟨k', a'⟩, rfl⟩ : ∃ g, gs = [g] :=
      List.length_eq_one_iff.1 (by simpa using (congrArg List.length hk).symm)
    obtain rfl := List.perm_singleton.1 hp.symm
    obtain rfl : k = k' := by simpa using hk
    cases hv with
    | cons ha _ => exact ⟨a', rfl, ha, depth_lt_object (List.mem_singleton_self (k, a'))⟩

end

/-! ## Data without parts -/

theorem string?_reordered {s : String} {json : Json} (h : (Json.string s).Reordered json) :
    json.string? = some s := by
  cases h
  rfl

theorem tag?_reordered {s : String} {json : Json} (h : (Json.string s).Reordered json) :
    json.tag? = some s := by
  cases h
  rfl

theorem int64?_reordered {i : Int64} {json : Json} (h : (integer i.toInt).Reordered json) :
    json.int64? = some i := by
  cases h
  exact word?_toInt i

end Dynascope
