import Mathlib.Data.Rat.Floor
import Dynascope.Proofs.ExactArith

/-! # Steps that have a value

The operations on words wrap around where the exact value is no word, and give some word where
there is no exact value. `Word.add?`, `Word.sub?`, `Word.div?` and `Word.rem?` refuse there, so a
computation that is made of them and ends with a value has met no such operands. Floor division is
one: `floorDivChecked_eq`. With it, all of arithmetic is exact: `ArithOp.apply_exact`.
-/

set_option autoImplicit false

namespace Dynascope

/-! ## Single steps -/

namespace Word

/-- A sum, if it is a word. -/
def add? (a b : Int64) : Option Int64 :=
  Text.word? (a.toInt + b.toInt)

/-- A difference, if it is a word. -/
def sub? (a b : Int64) : Option Int64 :=
  Text.word? (a.toInt - b.toInt)

/-- A truncated quotient, if there is one and it is a word. -/
def div? (a b : Int64) : Option Int64 :=
  if b = 0 then none else Text.word? (a.toInt.tdiv b.toInt)

/-- What a division leaves, if its quotient has a value. -/
def rem? (a b : Int64) : Option Int64 :=
  (div? a b).bind fun _ => Text.word? (a.toInt.tmod b.toInt)

variable {a b : Int64}

theorem add?_eq (h : -9223372036854775808 ≤ a.toInt + b.toInt)
    (h' : a.toInt + b.toInt ≤ 9223372036854775807) : add? a b = some (a + b) := by
  rw [add?, ← word?_toInt, Int64.toInt_add, Int.bmod_eq_of_le (by omega) (by omega)]

theorem sub?_eq (h : -9223372036854775808 ≤ a.toInt - b.toInt)
    (h' : a.toInt - b.toInt ≤ 9223372036854775807) : sub? a b = some (a - b) := by
  rw [sub?, ← word?_toInt, Int64.toInt_sub, Int.bmod_eq_of_le (by omega) (by omega)]

/-- There are two ways for a division to fail. -/
theorem div?_eq_none (h : b = 0 ∨ (a = Int64.minValue ∧ b = -1)) : div? a b = none := by
  rcases h with rfl | ⟨rfl, rfl⟩ <;> rfl

theorem div?_eq (h : ¬(b = 0 ∨ (a = Int64.minValue ∧ b = -1))) : div? a b = some (a / b) := by
  rw [not_or] at h
  rw [div?, if_neg h.1, ← toInt_div h.2, word?_toInt]

theorem rem?_eq (h : ¬(b = 0 ∨ (a = Int64.minValue ∧ b = -1))) : rem? a b = some (a % b) := by
  rw [rem?, div?_eq h, Option.bind_some, ← Int64.toInt_mod, word?_toInt]

end Word

/-! ## Floor division -/

/-- Floor division of which every step is checked: `none` if one has no value, and otherwise the
result. The first division is checked in any case. -/
def floorDivChecked (left right : Int64) : Option (Option Int64) :=
  match Word.div? left right with
  | none => some none
  | some quotient => do
    let remainder ← Word.rem? left right
    if remainder ≠ 0 ∧ (decide (left < 0) != decide (right < 0)) then
      let less ← Word.sub? quotient 1
      some (some less)
    else some (some quotient)

/-- The quotient that floor division takes one from has a predecessor. -/
theorem sub?_quotient {a b : Int64} (h : ¬(b = 0 ∨ (a = Int64.minValue ∧ b = -1)))
    (hr : a % b ≠ 0) : Word.sub? (a / b) 1 = some (a / b - 1) := by
  rw [not_or] at h
  have hb : b.toInt ≠ 0 := fun e => h.1 (toInt_eq_zero.1 e)
  have hr : a.toInt.tmod b.toInt ≠ 0 := by rwa [← Int64.toInt_mod, Ne, toInt_eq_zero]
  have hq := tdiv_bounds a.le_toInt (Int.le_of_lt_add_one a.toInt_lt) hb hr
  rw [← toInt_div h.2] at hq
  apply Word.sub?_eq <;> rw [Int64.toInt_one] <;> omega

/-- **No step of floor division fails.** -/
theorem floorDivChecked_eq (a b : Int64) : floorDivChecked a b = some (floorDiv? a b) := by
  unfold floorDivChecked floorDiv?
  by_cases h : b = 0 ∨ (a = Int64.minValue ∧ b = -1)
  · rw [Word.div?_eq_none h, if_pos h]
  · rw [Word.div?_eq h, if_neg h]
    simp only [Word.rem?_eq h, Option.bind_eq_bind, Option.bind_some]
    split
    · rename_i hc
      rw [sub?_quotient h hc.1, Option.bind_some]
    · rfl

/-! ## All operators -/

/-- Division with `Int.fdiv` rounds the rational quotient down. -/
theorem fdiv_eq_floor (a b : Int) : a.fdiv b = ⌊(a : ℚ) / b⌋ := by
  rcases Int.le_total 0 b with hb | hb
  · obtain ⟨d, rfl⟩ := Int.eq_ofNat_of_zero_le hb
    rw [Int.fdiv_eq_ediv_of_nonneg a hb, Int.cast_natCast, Rat.floor_intCast_div_natCast]
  · obtain ⟨d, hd⟩ := Int.eq_ofNat_of_zero_le (Int.neg_nonneg.2 hb)
    obtain rfl : b = -d := by omega
    have e : (a : ℚ) / ((-d : ℤ) : ℚ) = ((-a : ℤ) : ℚ) / (d : ℕ) := by
      push_cast
      rw [div_neg, neg_div]
    rw [e, Rat.floor_intCast_div_natCast, ← Int.neg_neg a, Int.neg_fdiv_neg, Int.neg_neg,
      Int.fdiv_eq_ediv_of_nonneg _ (Int.natCast_nonneg d)]

theorem word?_eq_none {k : Int} :
    Text.word? k = none ↔ k < -9223372036854775808 ∨ 9223372036854775807 < k := by
  unfold Text.word?
  split <;> simp <;> omega

/-- The ways in which an operation ends. -/
theorem ArithOp.apply_cases (op : ArithOp) (a b : Int64) :
    (op.exact a.toInt b.toInt = none ∧ (op = .div ∧ b = 0) ∧
      op.apply a b = .error .divisionByZero) ∨
    (∃ n, op.exact a.toInt b.toInt = some n.toInt ∧ ¬(op = .div ∧ b = 0) ∧ op.apply a b = .ok n) ∨
    ∃ k, op.exact a.toInt b.toInt = some k ∧ ¬(op = .div ∧ b = 0) ∧
      (k < -9223372036854775808 ∨ 9223372036854775807 < k) ∧
      op.apply a b = .error (.overflow op a b) := by
  have hzero : op.exact a.toInt b.toInt = none ↔ op = .div ∧ b = 0 := by
    rw [← toInt_eq_zero]
    cases op <;> simp [exact]
  rw [apply_eq, ← hzero]
  cases he : op.exact a.toInt b.toInt with
  | none => exact .inl ⟨rfl, rfl, rfl⟩
  | some k =>
    cases hw : Text.word? k with
    | none => exact .inr (.inr ⟨k, rfl, by simp, word?_eq_none.1 hw, by simp only [hw]⟩)
    | some n =>
      cases word?_eq_some hw
      exact .inr (.inl ⟨n, rfl, by simp, by simp only [hw]⟩)

/-- **Arithmetic on words is exact.** An operation returns the exact value where a word has it,
with quotients rounded down. It fails for a division by zero, and for an overflow just where there
is an exact value outside the range of words; nothing else can go wrong, and no step of a floor
division fails. -/
theorem ArithOp.apply_exact (op : ArithOp) (a b : Int64) :
    (∀ n, op.apply a b = .ok n ↔ op.exact a.toInt b.toInt = some n.toInt) ∧
    (op.apply a b = .error .divisionByZero ↔ op = .div ∧ b = 0) ∧
    (op.apply a b = .error (.overflow op a b) ↔ ∃ k, op.exact a.toInt b.toInt = some k ∧
      (k < -9223372036854775808 ∨ 9223372036854775807 < k)) ∧
    ((∃ n, op.apply a b = .ok n) ∨ op.apply a b = .error .divisionByZero ∨
      op.apply a b = .error (.overflow op a b)) ∧
    ArithOp.exact .div a.toInt b.toInt = (if b = 0 then none else some ⌊(a.toInt : ℚ) / b.toInt⌋) ∧
    floorDivChecked a b = some (floorDiv? a b) := by
  have hdiv : ArithOp.exact .div a.toInt b.toInt =
      if b = 0 then none else some ⌊(a.toInt : ℚ) / b.toInt⌋ := by
    simp only [exact, toInt_eq_zero, fdiv_eq_floor]
  have hsteps := floorDivChecked_eq a b
  rcases op.apply_cases a b with ⟨he, hz, ha⟩ | ⟨n, he, hz, ha⟩ | ⟨k, he, hz, hk, ha⟩
  · exact ⟨by simp [he, ha], ⟨fun _ => hz, fun _ => ha⟩, by simp [he, ha], by simp [ha], hdiv,
      hsteps⟩
  · have hlo := n.le_toInt
    have hhi := n.toInt_lt
    have hn : ¬(n.toInt < -9223372036854775808 ∨ 9223372036854775807 < n.toInt) := by omega
    exact ⟨by simp [he, ha, Int64.toInt_inj], by simp [ha, hz], by simp [he, ha, hn], by simp [ha],
      hdiv, hsteps⟩
  · have hn : ∀ n : Int64, k ≠ n.toInt := by
      rintro n rfl
      have hlo := n.le_toInt
      have hhi := n.toInt_lt
      omega
    exact ⟨by simp [he, ha, hn], by simp [ha, hz], by simp [he, ha, hk], by simp [ha], hdiv,
      hsteps⟩

/-- Where the divisor is minus one, the least word has no remainder that could be computed; floor
division stops before it. -/
example : Word.rem? Int64.minValue (-1) = none ∧ floorDivChecked Int64.minValue (-1) = some none := by
  decide

end Dynascope
