/-! # Primality by trial division

`isPrime` tries two and three and then the numbers next to the multiples of six, as long as the
divisor is at most the quotient. Everything is done on signed 64-bit integers; the bound on the
divisor keeps every step in range.
-/

set_option autoImplicit false

namespace Dynascope

/-- A divisor that is at most the quotient has a square in range, so the next candidates are in
range as well and the candidates grow. -/
private theorem next_candidate {n i : Int64} (pos : 0 < i) (small : i ≤ n / i) :
    (n.toInt + 1 - (i + 6).toInt).toNat < (n.toInt + 1 - i.toInt).toNat := by
  rw [Int64.lt_iff_toInt_lt] at pos
  rw [Int64.le_iff_toInt_le, Int64.toInt_div] at small
  have hn := n.toInt_lt
  have hn' := n.le_toInt
  have hi := i.toInt_lt
  rw [Int64.toInt_add]
  have six : (6 : Int64).toInt = 6 := rfl
  have zero : (0 : Int64).toInt = 0 := rfl
  rw [zero] at pos
  rw [six]
  generalize n.toInt = m at *
  generalize i.toInt = a at *
  have nonneg : 0 ≤ m := by
    refine Int.not_lt.1 fun neg => ?_
    have h1 : m.tdiv a ≤ 0 := by
      rw [← Int.neg_neg m, Int.neg_tdiv]
      have := Int.tdiv_nonneg (show 0 ≤ -m by omega) (show 0 ≤ a by omega)
      omega
    have h2 : -2 ^ 63 ≤ m.tdiv a := by
      rw [← Int.neg_neg m, Int.neg_tdiv]
      have := Int.tdiv_le_self (a := -m) a (by omega)
      omega
    rw [Int.bmod_eq_of_le (by omega) (by omega)] at small
    omega
  have bounded : m.tdiv a ≤ m := Int.tdiv_le_self a nonneg
  have low : 0 ≤ m.tdiv a := Int.tdiv_nonneg nonneg (by omega)
  rw [Int.bmod_eq_of_le (by omega) (by omega), Int.tdiv_eq_ediv_of_nonneg nonneg,
    Int.le_ediv_iff_mul_le pos] at small
  have square : a < 2 ^ 32 := by
    refine Int.not_le.1 fun big => ?_
    have := Int.mul_le_mul big big (by decide) (by omega)
    omega
  have grow : a * 1 ≤ a * a := Int.mul_le_mul_of_nonneg_left (by omega) (by omega)
  rw [Int.bmod_eq_of_le (by omega) (by omega)]
  omega

/-- No candidate `i`, `i + 2`, `i + 6`, `i + 8`, … that is at most its quotient divides `n`. -/
def noDivisorFrom (n i : Int64) : Bool :=
  if h : 0 < i ∧ i ≤ n / i then
    if n % i = 0 ∨ n % (i + 2) = 0 then false else noDivisorFrom n (i + 6)
  else true
termination_by (n.toInt + 1 - i.toInt).toNat
decreasing_by exact next_candidate h.1 h.2

/-- Whether an integer is a prime number. Nothing up to one is. -/
def isPrime (n : Int64) : Bool :=
  if n ≤ 1 then false
  else if n ≤ 3 then true
  else if n % 2 = 0 ∨ n % 3 = 0 then false
  else noDivisorFrom n 5

end Dynascope
