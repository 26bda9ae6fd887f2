import Dynascope.Arith

/-! # Checked arithmetic is exact

`ArithOp.exact` is an operation on integers of any size. The checked operation on words has the
exact value if a word has it, and overflows otherwise: `ArithOp.apply_eq`.
-/

set_option autoImplicit false

namespace Dynascope

/-- The exact value of an operation: a quotient is rounded toward negative infinity, and there is
none by zero. -/
def ArithOp.exact (op : ArithOp) (a b : Int) : Option Int :=
  match op with
  | .add => some (a + b)
  | .sub => some (a - b)
  | .mul => some (a * b)
  | .div => if b = 0 then none else some (a.fdiv b)

theorem word?_toInt (n : Int64) : Text.word? n.toInt = some n := by
  have h₁ := n.le_toInt
  have h₂ := n.toInt_lt
  rw [Text.word?, if_pos (by omega), Int64.ofInt_toInt]

theorem word?_eq_some {k : Int} {n : Int64} (h : Text.word? k = some n) : n.toInt = k := by
  unfold Text.word? at h
  split at h
  · cases h
    exact Int64.toInt_ofInt_of_le (by omega) (by omega)
  · cases h

theorem toInt_eq_zero {b : Int64} : b.toInt = 0 ↔ b = 0 := by
  rw [← Int64.toInt_zero, Int64.toInt_inj]

/-- The truncated quotient of two words is a word but for one pair. -/
theorem toInt_div {a b : Int64} (h : ¬(a = Int64.minValue ∧ b = -1)) :
    (a / b).toInt = a.toInt.tdiv b.toInt := by
  by_cases ha : a = Int64.minValue
  · exact Int64.toInt_div_of_ne_right a b fun hb => h ⟨ha, hb⟩
  · exact Int64.toInt_div_of_ne_left a b ha

/-- The floor is one below the truncated quotient where there is a remainder and the signs
differ. -/
theorem fdiv_eq_tdiv_sub {a b : Int} (hb : b ≠ 0) :
    a.fdiv b = a.tdiv b - if a.tmod b ≠ 0 ∧ (decide (a < 0) != decide (b < 0)) then 1 else 0 := by
  have hd : b ∣ a ↔ a.tmod b = 0 := ⟨Int.tmod_eq_zero_of_dvd, Int.dvd_of_tmod_eq_zero⟩
  rw [Int.fdiv_eq_tdiv]
  simp only [hd]
  by_cases hr : a.tmod b = 0
  · simp [hr]
  · rcases Int.lt_or_lt_of_ne hb with hb | hb
    · have hs : b.sign = -1 := Int.sign_eq_neg_one_of_neg hb
      by_cases ha : a < 0 <;> simp [hr, ha, hb, hs] <;> omega
    · have hs : b.sign = 1 := Int.sign_eq_one_of_pos hb
      by_cases ha : a < 0 <;> simp [hr, ha, hs] <;> omega

/-- A quotient with a remainder is far from the bounds of a word. -/
theorem tdiv_bounds {a b : Int} (ha : -9223372036854775808 ≤ a)
    (ha' : a ≤ 9223372036854775807) (hb : b ≠ 0) (hr : a.tmod b ≠ 0) :
    -4611686018427387904 ≤ a.tdiv b ∧ a.tdiv b ≤ 4611686018427387904 := by
  have hb2 : 2 ≤ b.natAbs := by
    have h1 : b.natAbs ≠ 1 := fun h1 => hr (by
      rcases Int.natAbs_eq b with e | e <;> rw [e, h1] <;> simp)
    omega
  have hq : (a.tdiv b).natAbs ≤ 4611686018427387904 := by
    rw [Int.natAbs_tdiv]
    show a.natAbs / b.natAbs ≤ 4611686018427387904
    have h2 : a.natAbs / b.natAbs ≤ a.natAbs / 2 := Nat.div_le_div_left hb2 (by decide)
    omega
  omega

theorem floorDiv?_eq {a b : Int64} (hb : b ≠ 0) :
    floorDiv? a b = Text.word? (a.toInt.fdiv b.toInt) := by
  have hb' : b.toInt ≠ 0 := fun h => hb (toInt_eq_zero.1 h)
  by_cases h : a = Int64.minValue ∧ b = -1
  · obtain ⟨rfl, rfl⟩ := h
    rfl
  · have hq := toInt_div h
    have hm : a % b ≠ 0 ↔ a.toInt.tmod b.toInt ≠ 0 := by
      rw [← Int64.toInt_mod, Ne, Ne, toInt_eq_zero]
    have hs : ((decide (a < 0)) != decide (b < 0)) =
        (decide (a.toInt < 0) != decide (b.toInt < 0)) := by
      simp [Int64.lt_iff_toInt_lt]
    have hf := fdiv_eq_tdiv_sub (a := a.toInt) hb'
    unfold floorDiv?
    rw [if_neg (by simp [hb, h])]
    simp only [hm, hs]
    split
    · rename_i hc
      rw [if_pos hc] at hf
      have := tdiv_bounds a.le_toInt (Int.le_of_lt_add_one a.toInt_lt) hb' hc.1
      have e : (a / b - 1).toInt = a.toInt.fdiv b.toInt := by
        rw [Int64.toInt_sub, hq, Int64.toInt_one, hf, Int.bmod_eq_of_le (by omega) (by omega)]
      rw [← e, word?_toInt]
    · rename_i hc
      rw [if_neg hc, Int.sub_zero] at hf
      rw [hf, ← hq, word?_toInt]

/-- **Checked arithmetic is exact**: an operation has its exact value if a word has it, fails if
there is none, and overflows otherwise. -/
theorem ArithOp.apply_eq (op : ArithOp) (a b : Int64) :
    op.apply a b =
      match op.exact a.toInt b.toInt with
      | none => .error .divisionByZero
      | some k =>
        match Text.word? k with
        | some n => .ok n
        | none => .error (.overflow op a b) := by
  unfold apply
  cases op with
  | div =>
    by_cases hb : b = 0
    · simp [exact, hb]
    · have hb' : b.toInt ≠ 0 := fun h => hb (toInt_eq_zero.1 h)
      have he : exact .div a.toInt b.toInt = some (a.toInt.fdiv b.toInt) := if_neg hb'
      have hv : value? .div a b = Text.word? (a.toInt.fdiv b.toInt) := floorDiv?_eq hb
      rw [he, if_neg fun h => hb h.2]
      cases hw : Text.word? (a.toInt.fdiv b.toInt) <;> simp only [hv, hw]
  | _ => rfl

end Dynascope
