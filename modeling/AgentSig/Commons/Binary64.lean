import AgentSig.Commons.Rounding
import Mathlib.Data.Int.Log
import Mathlib.Data.Rat.Floor
import Mathlib.Tactic.NormNum
import Mathlib.Tactic.GCongr

/-!
# Numbers of the binary64 format

The finite values of a binary64 number, and the rounding of a rational number to one of them: to
the nearest multiple of its quantum, ties to even, and to no finite value when the result is too
large.

## Main definitions

* `Representable q`: `q` is a finite value of the format
* `binary64 q`: `q` rounded to the format, or none when it overflows
* `Double`: a finite value

## Main results

* `binary64_of_representable`: rounding keeps a finite value
* `representable_binary64`: rounding gives a finite value
-/

namespace Commons

/-- A finite value: a significand of 53 bits and an exponent in range. -/
def Representable (q : ℚ) : Prop :=
  ∃ m e : ℤ, |m| < 2 ^ 53 ∧ -1074 ≤ e ∧ e ≤ 971 ∧ q = m * 2 ^ e

/-- The exponent of the last place of a number, which is bounded below. -/
def quantum (q : ℚ) : ℤ := max (Int.log 2 |q| - 52) (-1074)

/-- A number rounded to the last place, ties to even. -/
def roundedValue (q : ℚ) : ℚ := roundHalfEven (q / 2 ^ quantum q) * 2 ^ quantum q

/-- The finite value that a number rounds to, unless it is too large. -/
def binary64 (q : ℚ) : Option ℚ :=
  if |roundedValue q| < 2 ^ (1024 : ℤ) then some (roundedValue q) else none

/-- A finite value of the format; both zeros have the value zero. -/
structure Double where
  value : ℚ
  representable : Representable value

@[ext] theorem Double.ext {x y : Double} (h : x.value = y.value) : x = y := by
  cases x
  cases y
  cases h
  rfl

theorem representable_zero : Representable 0 := ⟨0, 0, by norm_num⟩

theorem Representable.neg {q : ℚ} (h : Representable q) : Representable (-q) := by
  obtain ⟨m, e, hm, hlow, hhigh, rfl⟩ := h
  refine ⟨-m, e, by rwa [abs_neg], hlow, hhigh, ?_⟩
  push_cast
  ring

/-- The zero of the format. -/
def Double.zero : Double := ⟨0, representable_zero⟩

/-- A value with its sign changed. -/
def Double.neg (x : Double) : Double := ⟨-x.value, x.representable.neg⟩

theorem zpow_two_pos (e : ℤ) : (0 : ℚ) < 2 ^ e := zpow_pos two_pos e

theorem zpow_two_add (a b : ℤ) : (2 : ℚ) ^ (a + b) = 2 ^ a * 2 ^ b := zpow_add₀ two_ne_zero a b

theorem zpow_two_le {a b : ℤ} (h : a ≤ b) : (2 : ℚ) ^ a ≤ 2 ^ b :=
  zpow_le_zpow_right₀ one_le_two h

theorem roundHalfEven_intCast (n : ℤ) : roundHalfEven (n : ℚ) = n := by
  rw [roundHalfEven_eq_iff]
  constructor
  · simp
  · intro h
    norm_num at h

/-- A number that is an integer multiple of its quantum is kept. -/
theorem roundedValue_of_multiple {q : ℚ} {n : ℤ} (h : q = n * 2 ^ quantum q) :
    roundedValue q = q := by
  have hdiv : q / 2 ^ quantum q = n := by
    rw [div_eq_iff (zpow_two_pos _).ne']
    exact h
  rw [roundedValue, hdiv, roundHalfEven_intCast]
  exact h.symm

/-- The quantum of a number that the format can hold is no larger than its exponent. -/
theorem quantum_le {m e : ℤ} (hm : |m| < 2 ^ 53) (hne : m ≠ 0) (he : -1074 ≤ e) :
    quantum (m * 2 ^ e) ≤ e := by
  have hpos : (0 : ℚ) < |(m * 2 ^ e : ℚ)| := by
    rw [abs_pos]
    exact mul_ne_zero (by exact_mod_cast hne) (zpow_two_pos e).ne'
  have hlt : |(m * 2 ^ e : ℚ)| < ((2 : ℕ) : ℚ) ^ (53 + e) := by
    have hm' : |(m : ℚ)| < 2 ^ (53 : ℤ) := by exact_mod_cast hm
    rw [abs_mul, abs_of_pos (zpow_two_pos e), Nat.cast_ofNat, zpow_two_add]
    exact mul_lt_mul_of_pos_right hm' (zpow_two_pos e)
  have hlog := (Int.lt_zpow_iff_log_lt (by norm_num) hpos).mp hlt
  rw [quantum, max_le_iff]
  omega

/-- Rounding keeps a finite value. -/
theorem binary64_of_representable {q : ℚ} (h : Representable q) : binary64 q = some q := by
  obtain ⟨m, e, hm, hlow, hhigh, rfl⟩ := h
  have hm' : |(m : ℚ)| < 2 ^ (53 : ℤ) := by exact_mod_cast hm
  have hkept : roundedValue (m * 2 ^ e) = m * 2 ^ e := by
    by_cases hne : m = 0
    · subst hne
      exact roundedValue_of_multiple (n := 0) (by simp)
    · have hle := quantum_le hm hne hlow
      obtain ⟨k, hk⟩ := Int.eq_ofNat_of_zero_le (show 0 ≤ e - quantum (m * 2 ^ e) by omega)
      have hsplit : e = k + quantum (m * 2 ^ e) := by omega
      have hpow : (2 : ℚ) ^ e = 2 ^ k * 2 ^ quantum (m * 2 ^ e) := by
        rw [← zpow_natCast, ← zpow_two_add, ← hsplit]
      apply roundedValue_of_multiple (n := m * 2 ^ k)
      push_cast
      rw [mul_assoc, ← hpow]
  have hsmall : |(m * 2 ^ e : ℚ)| < 2 ^ (1024 : ℤ) :=
    calc |(m * 2 ^ e : ℚ)| = |(m : ℚ)| * 2 ^ e := by rw [abs_mul, abs_of_pos (zpow_two_pos e)]
      _ < 2 ^ (53 : ℤ) * 2 ^ e := mul_lt_mul_of_pos_right hm' (zpow_two_pos e)
      _ = 2 ^ (53 + e) := (zpow_two_add 53 e).symm
      _ ≤ 2 ^ (1024 : ℤ) := zpow_two_le (by omega)
  rw [binary64, hkept, if_pos hsmall]

/-! ## The result of rounding -/

/-- A number is below the power of two that its significand may not reach. -/
theorem abs_div_quantum_lt (q : ℚ) : |q / 2 ^ quantum q| < 2 ^ (53 : ℤ) := by
  have hlog := Int.lt_zpow_succ_log_self (b := 2) (by norm_num) |q|
  rw [Nat.cast_ofNat] at hlog
  have hle : Int.log 2 |q| + 1 ≤ 53 + quantum q := by
    rw [quantum]
    omega
  rw [abs_div, abs_of_pos (zpow_two_pos _), div_lt_iff₀ (zpow_two_pos _), ← zpow_two_add]
  exact hlog.trans_le (zpow_two_le hle)

/-- The last place of a large number leaves a significand with all its bits. -/
theorem le_abs_div_quantum {q : ℚ} (h : 0 ≤ quantum q) : 2 ^ (52 : ℤ) ≤ |q / 2 ^ quantum q| := by
  have hquantum : quantum q = Int.log 2 |q| - 52 := by
    rw [quantum] at h ⊢
    omega
  have hq : 0 < |q| := by
    rw [abs_pos]
    rintro rfl
    rw [hquantum, abs_zero, Int.log_zero_right] at h
    omega
  have hlog := Int.zpow_log_le_self (b := 2) (by norm_num) hq
  have hsplit : Int.log 2 |q| = 52 + quantum q := by omega
  rw [hsplit, Nat.cast_ofNat, zpow_two_add] at hlog
  rw [abs_div, abs_of_pos (zpow_two_pos _), le_div_iff₀ (zpow_two_pos _)]
  exact hlog

theorem abs_roundHalfEven_le {x : ℚ} {n : ℤ} (h : |x| < n) : |roundHalfEven x| ≤ n := by
  have hnear := (nearestEven_roundHalfEven x).near
  have htriangle : |(roundHalfEven x : ℚ)| ≤ |x| + |x - roundHalfEven x| := by
    have := abs_sub x (x - roundHalfEven x)
    simpa using this
  have hlt : |(roundHalfEven x : ℚ)| < n + 1 := by linarith
  have hlt' : |roundHalfEven x| < n + 1 := by exact_mod_cast hlt
  omega

theorem le_abs_roundHalfEven {x : ℚ} {n : ℤ} (h : n ≤ |x|) : n ≤ |roundHalfEven x| := by
  have hnear := (nearestEven_roundHalfEven x).near
  have htriangle : |x| ≤ |x - roundHalfEven x| + |(roundHalfEven x : ℚ)| := by
    have := abs_add_le (x - roundHalfEven x) (roundHalfEven x : ℚ)
    simpa using this
  have hlt : (n : ℚ) < |(roundHalfEven x : ℚ)| + 1 := by linarith
  have hlt' : (n : ℤ) < |roundHalfEven x| + 1 := by exact_mod_cast hlt
  omega

/-- A rounded number that did not overflow is a finite value. -/
theorem representable_of_significand {n e : ℤ} (hle : |n| ≤ 2 ^ 53) (hlow : -1074 ≤ e)
    (hlead : 0 ≤ e → 2 ^ 52 ≤ |n|) (hsmall : |(n : ℚ)| * 2 ^ e < 2 ^ (1024 : ℤ)) :
    Representable (n * 2 ^ e) := by
  have hexponent : ∀ {k : ℤ}, 2 ^ k ≤ |(n : ℚ)| → k + e < 1024 := by
    intro k hk
    have hprod : (2 : ℚ) ^ (k + e) < 2 ^ (1024 : ℤ) := by
      rw [zpow_two_add]
      exact (mul_le_mul_of_nonneg_right hk (zpow_two_pos e).le).trans_lt hsmall
    exact (zpow_lt_zpow_iff_right₀ one_lt_two).mp hprod
  rcases hle.lt_or_eq with hlt | heq
  · refine ⟨n, e, hlt, hlow, ?_, rfl⟩
    by_contra hbig
    have hlead' : (2 : ℚ) ^ (52 : ℤ) ≤ |(n : ℚ)| := by exact_mod_cast hlead (by omega)
    have := hexponent hlead'
    omega
  · -- the significand has grown to a power of two, so its exponent is one more
    have habs : (2 : ℚ) ^ (53 : ℤ) ≤ |(n : ℚ)| := by exact_mod_cast heq.ge
    have := hexponent habs
    have hhalf : n = n / 2 * 2 := by
      rcases abs_choice n with h | h <;> omega
    refine ⟨n / 2, e + 1, ?_, by omega, by omega, ?_⟩
    · rcases abs_choice n with h | h <;> rw [abs_lt] <;> omega
    · have hhalf' : (n : ℚ) = (n / 2 : ℤ) * 2 := by exact_mod_cast hhalf
      rw [zpow_two_add, zpow_one, mul_comm (2 ^ e), ← mul_assoc, ← hhalf']

/-- Rounding gives a finite value. -/
theorem representable_binary64 {q r : ℚ} (h : binary64 q = some r) : Representable r := by
  have hsmall : |roundedValue q| < 2 ^ (1024 : ℤ) := by
    by_contra hnot
    rw [binary64, if_neg hnot] at h
    cases h
  rw [binary64, if_pos hsmall] at h
  cases h
  rw [roundedValue, abs_mul, abs_of_pos (zpow_two_pos _)] at hsmall
  apply representable_of_significand _ (le_max_right _ _) _ hsmall
  · apply abs_roundHalfEven_le
    exact_mod_cast abs_div_quantum_lt q
  · intro hquantum
    apply le_abs_roundHalfEven
    exact_mod_cast le_abs_div_quantum hquantum

end Commons
