import Mathlib.Data.Nat.Prime.Basic
import Mathlib.Data.Nat.Sqrt
import Dynascope.Eval
import Dynascope.Proofs.CheckedSteps

/-! # Trial division decides primality

A prime above three is next to a multiple of six. So a number that neither two nor three divides
is prime if no number next to a multiple of six divides it, where the square of the smaller
neighbour is at most the number: `prime_iff_noCandidate`. The loop of `isPrime` tries just these, a
pair in each round (`noDivisorFrom_iff`). No step of it overflows or divides by zero, and there are
not many more rounds than a sixth of the square root (`isPrimeChecked_eq`). Main statement:
`prime_decides`.
-/

set_option autoImplicit false

namespace Dynascope

/-! ## Divisors next to multiples of six -/

/-- Neither `d`, `d + 6`, `d + 12`, … with a square that is at most `m` nor the number two above such
a one divides `m`. -/
def NoCandidate (m d : Nat) : Prop :=
  ∀ k, (d + 6 * k) * (d + 6 * k) ≤ m → ¬(d + 6 * k) ∣ m ∧ ¬(d + 6 * k + 2) ∣ m

theorem noCandidate_of_lt {m d : Nat} (h : m < d * d) : NoCandidate m d := fun k hk => by
  have := Nat.mul_le_mul (Nat.le_add_right d (6 * k)) (Nat.le_add_right d (6 * k))
  omega

theorem noCandidate_round {m d : Nat} (h : d * d ≤ m) :
    NoCandidate m d ↔ (¬d ∣ m ∧ ¬d + 2 ∣ m) ∧ NoCandidate m (d + 6) := by
  have shift : ∀ k, d + 6 + 6 * k = d + 6 * (k + 1) := fun k => by omega
  constructor
  · intro hc
    refine ⟨by simpa using hc 0 (by simpa using h), fun k hk => ?_⟩
    rw [shift] at hk ⊢
    exact hc (k + 1) hk
  · rintro ⟨hd, hc⟩ k hk
    cases k with
    | zero => simpa using hd
    | succ k =>
      rw [← shift] at hk ⊢
      exact hc k hk

theorem prime_iff_noCandidate {m : Nat} (h3 : 3 < m) (hm2 : ¬2 ∣ m) (hm3 : ¬3 ∣ m) :
    m.Prime ↔ NoCandidate m 5 := by
  constructor
  · intro hp k hk
    have hlt : 5 + 6 * k + 2 < m := by nlinarith
    have hno : ∀ d, d ∣ m → 1 < d → d < m → False := fun d hd h1 hm =>
      ((Nat.dvd_prime hp).1 hd).elim (by omega) (by omega)
    exact ⟨fun hd => hno _ hd (by omega) (by omega), fun hd => hno _ hd (by omega) hlt⟩
  · intro h
    by_contra hp
    -- the least divisor is next to a multiple of six, as it is neither two nor three
    have hprime := Nat.minFac_prime (show m ≠ 1 by omega)
    have hdvd := Nat.minFac_dvd m
    have hsq := Nat.minFac_sq_le_self (by omega) hp
    generalize m.minFac = p at hprime hdvd hsq
    have hp2 : p % 2 = 1 := hprime.eq_two_or_odd.resolve_left fun e => hm2 (e ▸ hdvd)
    have hp3 : p % 3 ≠ 0 := fun e => by
      have hd : 3 ∣ p := Nat.dvd_of_mod_eq_zero e
      exact hm3 (hd.trans hdvd)
    have h2 := hprime.two_le
    rw [pow_two] at hsq
    rcases (by omega : p % 6 = 5 ∨ p % 6 = 1) with h6 | h6
    · obtain ⟨k, rfl⟩ : ∃ k, p = 5 + 6 * k := ⟨p / 6, by omega⟩
      exact (h k hsq).1 hdvd
    · obtain ⟨k, rfl⟩ : ∃ k, p = 5 + 6 * k + 2 := ⟨(p - 7) / 6, by omega⟩
      exact (h k (by nlinarith)).2 hdvd

/-! ## One round -/

/-- At most a number of rounds of the loop, from a candidate on and with every step checked: `none`
if a step has no value, or if there are more rounds. -/
def noDivisorChecked (n : Int64) : Nat → Int64 → Option Bool
  | 0, _ => none
  | rounds + 1, i => do
    let quotient ← Word.div? n i
    if i ≤ quotient then
      let remainder ← Word.rem? n i
      if remainder = 0 then some false
      else
        let neighbour ← Word.add? i 2
        let remainder ← Word.rem? n neighbour
        if remainder = 0 then some false
        else
          let next ← Word.add? i 6
          noDivisorChecked n rounds next
    else some true

section

variable {n i : Int64} {m d : Nat} (hn : n.toInt = m) (hi : i.toInt = d)
include hn hi

theorem rem_eq_zero_iff_dvd : n % i = 0 ↔ d ∣ m := by
  rw [← toInt_eq_zero, Int64.toInt_mod, hn, hi, ← Int.ofNat_tmod, Nat.dvd_iff_mod_eq_zero]
  omega

variable (hd : 0 < d)
include hd

theorem can_divide : ¬(i = 0 ∨ (n = Int64.minValue ∧ i = -1)) := by
  have hone : (-1 : Int64).toInt = -1 := rfl
  rintro (rfl | ⟨rfl, rfl⟩)
  · rw [Int64.toInt_zero] at hi
    omega
  · omega

theorem le_div_iff_mul_le : i ≤ n / i ↔ d * d ≤ m := by
  rw [Int64.le_iff_toInt_le, toInt_div fun h => can_divide hn hi hd (.inr h), hn, hi,
    ← Int.ofNat_tdiv, Int.ofNat_le, Nat.le_div_iff_mul_le hd]

theorem noDivisorFrom_end (hsq : m < d * d) : noDivisorFrom n i = true := by
  have hle := mt (le_div_iff_mul_le hn hi hd).1 (Nat.not_le.2 hsq)
  rw [noDivisorFrom, dif_neg fun h => hle h.2]

theorem noDivisorChecked_end (hsq : m < d * d) (rounds : Nat) :
    noDivisorChecked n (rounds + 1) i = some true := by
  have hle := mt (le_div_iff_mul_le hn hi hd).1 (Nat.not_le.2 hsq)
  simp only [noDivisorChecked, Word.div?_eq (can_divide hn hi hd), Option.bind_eq_bind,
    Option.bind_some, hle, if_false]

variable (hsq : d * d ≤ m)
include hsq

/-- A candidate with a square that is a word is far from the largest word. -/
theorem add?_candidate {c : Int64} {k : Nat} (hc : c.toInt = k) (hk : k ≤ 6) :
    Word.add? i c = some (i + c) ∧ (i + c).toInt = (d + k : Nat) := by
  have hm := n.toInt_lt
  have hsmall : d < 4294967296 := by
    by_contra hbig
    have := Nat.mul_le_mul (Nat.not_lt.1 hbig) (Nat.not_lt.1 hbig)
    omega
  refine ⟨Word.add?_eq (by omega) (by omega), ?_⟩
  rw [Int64.toInt_add, Int.bmod_eq_of_le (by omega) (by omega)]
  omega

theorem noDivisorFrom_round :
    noDivisorFrom n i = if d ∣ m ∨ d + 2 ∣ m then false else noDivisorFrom n (i + 6) := by
  have hpos : 0 < i := Int64.lt_iff_toInt_lt.2 (by rw [Int64.toInt_zero]; omega)
  obtain ⟨-, htwo⟩ := add?_candidate hn hi hd hsq (c := 2) (k := 2) rfl (by decide)
  rw [noDivisorFrom, dif_pos ⟨hpos, (le_div_iff_mul_le hn hi hd).2 hsq⟩]
  simp only [rem_eq_zero_iff_dvd hn hi, rem_eq_zero_iff_dvd hn htwo]

theorem noDivisorChecked_round (rounds : Nat) :
    noDivisorChecked n (rounds + 1) i =
      if d ∣ m ∨ d + 2 ∣ m then some false else noDivisorChecked n rounds (i + 6) := by
  obtain ⟨htwo, hi2⟩ := add?_candidate hn hi hd hsq (c := 2) (k := 2) rfl (by decide)
  obtain ⟨hsix, -⟩ := add?_candidate hn hi hd hsq (c := 6) (k := 6) rfl (by decide)
  have hle := (le_div_iff_mul_le hn hi hd).2 hsq
  have hcan := can_divide hn hi hd
  have hcan2 := can_divide hn hi2 (by omega)
  simp only [noDivisorChecked, Word.div?_eq hcan, Word.rem?_eq hcan, Word.rem?_eq hcan2, htwo, hsix,
    Option.bind_eq_bind, Option.bind_some, hle, if_true, rem_eq_zero_iff_dvd hn hi,
    rem_eq_zero_iff_dvd hn hi2]
  by_cases h : d ∣ m <;> by_cases h' : d + 2 ∣ m <;> simp [h, h']

end

/-! ## The loop -/

section

variable {n i : Int64} {m d : Nat} (hn : n.toInt = m) (hi : i.toInt = d) (hd : 0 < d)
include hn hi hd

/-- The loop ends within the rounds after which the square of the candidate is too large, and no
step of it fails. -/
theorem noDivisorChecked_eq {rounds : Nat} (hr : m < (d + 6 * rounds) * (d + 6 * rounds)) :
    noDivisorChecked n (rounds + 1) i = some (noDivisorFrom n i) := by
  induction rounds generalizing i d with
  | zero => rw [noDivisorChecked_end hn hi hd hr, noDivisorFrom_end hn hi hd hr]
  | succ rounds ih =>
    rcases Nat.lt_or_ge m (d * d) with hsq | hsq
    · rw [noDivisorChecked_end hn hi hd hsq, noDivisorFrom_end hn hi hd hsq]
    · obtain ⟨-, hi6⟩ := add?_candidate hn hi hd hsq (c := 6) (k := 6) rfl (by decide)
      have hshift : d + 6 * (rounds + 1) = d + 6 + 6 * rounds := by omega
      rw [hshift] at hr
      rw [noDivisorChecked_round hn hi hd hsq, noDivisorFrom_round hn hi hd hsq,
        ih hi6 (by omega) hr]
      split <;> rfl

/-- The loop answers that there is no divisor if no candidate is one. -/
theorem noDivisorFrom_iff : noDivisorFrom n i = true ↔ NoCandidate m d := by
  -- the candidates grow up to the square root
  induction hr : m + 1 - d using Nat.strong_induction_on generalizing i d with
  | _ r ih =>
    rcases Nat.lt_or_ge m (d * d) with hsq | hsq
    · simp [noDivisorFrom_end hn hi hd hsq, noCandidate_of_lt hsq]
    · obtain ⟨-, hi6⟩ := add?_candidate hn hi hd hsq (c := 6) (k := 6) rfl (by decide)
      have hdm : d ≤ m := (Nat.le_mul_self d).trans hsq
      have ih := ih (m + 1 - (d + 6)) (by omega) hi6 (by omega) rfl
      rw [noDivisorFrom_round hn hi hd hsq, noCandidate_round hsq, ← ih, ← not_or]
      split <;> simp [*]

end

/-! ## Primality -/

/-- Trial division of which every step is checked: `none` if one has no value, or if the loop has
more rounds than that. -/
def isPrimeChecked (rounds : Nat) (n : Int64) : Option Bool :=
  if n ≤ 1 then some false
  else if n ≤ 3 then some true
  else do
    let remainder ← Word.rem? n 2
    if remainder = 0 then some false
    else
      let remainder ← Word.rem? n 3
      if remainder = 0 then some false
      else noDivisorChecked n rounds 5

theorem le_one_iff {n : Int64} : n ≤ 1 ↔ n.toInt ≤ 1 := by
  rw [Int64.le_iff_toInt_le, Int64.toInt_one]

theorem le_three_iff {n : Int64} : n ≤ 3 ↔ n.toInt ≤ 3 := by
  have e : (3 : Int64).toInt = 3 := rfl
  rw [Int64.le_iff_toInt_le, e]

section

variable {n : Int64} (h3 : n.toInt ≤ 3)
include h3

theorem isPrime_small : isPrime n = decide (1 < n.toInt) := by
  unfold isPrime
  simp only [le_one_iff, le_three_iff, h3, if_true]
  split <;> simp <;> omega

theorem isPrimeChecked_small (rounds : Nat) : isPrimeChecked rounds n = some (isPrime n) := by
  unfold isPrimeChecked isPrime
  simp only [le_three_iff, h3, if_true]
  split <;> rfl

end

section

variable {n : Int64} {m : Nat} (hn : n.toInt = m) (h3 : 3 < m)
include hn h3

theorem isPrime_large :
    isPrime n = if 2 ∣ m ∨ 3 ∣ m then false else noDivisorFrom n 5 := by
  have h1 : ¬n ≤ 1 := by rw [le_one_iff]; omega
  have h3' : ¬n ≤ 3 := by rw [le_three_iff]; omega
  rw [isPrime, if_neg h1, if_neg h3']
  simp only [rem_eq_zero_iff_dvd hn (i := 2) (d := 2) rfl,
    rem_eq_zero_iff_dvd hn (i := 3) (d := 3) rfl]

theorem isPrimeChecked_large (rounds : Nat) : isPrimeChecked rounds n =
    if 2 ∣ m ∨ 3 ∣ m then some false else noDivisorChecked n rounds 5 := by
  have h1 : ¬n ≤ 1 := by rw [le_one_iff]; omega
  have h3' : ¬n ≤ 3 := by rw [le_three_iff]; omega
  have htwo := can_divide hn (i := 2) (d := 2) rfl (by decide)
  have hthree := can_divide hn (i := 3) (d := 3) rfl (by decide)
  simp only [isPrimeChecked, h1, h3', if_false, Word.rem?_eq htwo, Word.rem?_eq hthree,
    Option.bind_eq_bind, Option.bind_some, rem_eq_zero_iff_dvd hn (i := 2) (d := 2) rfl,
    rem_eq_zero_iff_dvd hn (i := 3) (d := 3) rfl]
  by_cases h : 2 ∣ m <;> by_cases h' : 3 ∣ m <;> simp [h, h']

end

theorem isPrime_iff {n : Int64} : isPrime n = true ↔ n.toInt.toNat.Prime := by
  rcases lt_or_ge 3 n.toInt with h3 | h3
  · obtain ⟨m, hn⟩ := Int.eq_ofNat_of_zero_le (show 0 ≤ n.toInt by omega)
    have h3 : 3 < m := by omega
    have hcomposite : ∀ p, 1 < p → p ≤ 3 → p ∣ m → ¬m.Prime := fun p h1 hp hd hm =>
      ((Nat.dvd_prime hm).1 hd).elim (by omega) (by omega)
    rw [isPrime_large hn h3, hn, Int.toNat_natCast]
    split
    · rename_i hd
      simpa using hd.elim (hcomposite 2 (by decide) (by decide))
        (hcomposite 3 (by decide) (by decide))
    · rename_i hd
      rw [not_or] at hd
      rw [noDivisorFrom_iff hn (d := 5) rfl (by decide), prime_iff_noCandidate h3 hd.1 hd.2]
  · rw [isPrime_small h3, decide_eq_true_iff]
    rcases lt_or_ge 1 n.toInt with h1 | h1
    · rcases (by omega : n.toInt = 2 ∨ n.toInt = 3) with e | e <;> rw [e] <;> decide
    · have hlt : n.toInt.toNat < 2 := by omega
      exact iff_of_false (by omega) fun hp => Nat.not_le.2 hlt hp.two_le

/-- **No step of trial division fails**, and the loop ends. -/
theorem isPrimeChecked_eq {n : Int64} {rounds : Nat} (h : n.toInt.toNat.sqrt / 6 + 2 ≤ rounds) :
    isPrimeChecked rounds n = some (isPrime n) := by
  rcases lt_or_ge 3 n.toInt with h3 | h3
  · obtain ⟨m, hn⟩ := Int.eq_ofNat_of_zero_le (show 0 ≤ n.toInt by omega)
    rw [hn, Int.toNat_natCast] at h
    obtain ⟨r, rfl⟩ : ∃ r, rounds = r + 1 := ⟨rounds - 1, by omega⟩
    have hr : m < (5 + 6 * r) * (5 + 6 * r) := Nat.sqrt_lt.1 (by omega)
    rw [isPrimeChecked_large hn (by omega), isPrime_large hn (by omega),
      noDivisorChecked_eq hn (d := 5) rfl (by decide) hr]
    split <;> rfl
  · exact isPrimeChecked_small h3 rounds

/-- **Trial division decides primality.** The built-in `prime` returns zero for a prime number and
one for any other, those up to one and below zero included, and changes nothing in the session. No
step of it overflows or divides by zero, and its loop ends after a number of rounds that is at most
a sixth of the square root and two. -/
theorem prime_decides (n : Int64) :
    isPrime n = decide n.toInt.toNat.Prime ∧
    (∀ s, Builtin.prime.call [.int n] s =
      (.value (.int (if n.toInt.toNat.Prime then 0 else 1)), s)) ∧
    ∀ more, isPrimeChecked (n.toInt.toNat.sqrt / 6 + 2 + more) n = some (isPrime n) := by
  have hprime : isPrime n = decide n.toInt.toNat.Prime := by
    rw [Bool.eq_iff_iff, isPrime_iff, decide_eq_true_iff]
  refine ⟨hprime, fun s => ?_, fun more => isPrimeChecked_eq (Nat.le_add_right _ more)⟩
  show (Outcome.value (Value.ofRelation (isPrime n)), s) = _
  rw [hprime, Value.ofRelation]
  simp only [decide_eq_true_eq]

end Dynascope
