import Mathlib.Algebra.Order.Floor.Ring
import Mathlib.Algebra.Order.Archimedean.Basic
import Mathlib.Algebra.Ring.Int.Parity
import Mathlib.Tactic.Linarith
import Mathlib.Tactic.Push
import Mathlib.Tactic.Ring

/-!
# Rounding half to even

The integer nearest to a number, and the even one of the two when both neighbours are equally
near.

## Main definitions

* `NearestEven x n`: `n` is nearest to `x`, and even in a tie
* `roundHalfEven x`: the integer nearest to `x`, ties to even

## Main results

* `roundHalfEven_eq_iff`: `roundHalfEven x` is the one integer that is nearest to `x`, ties to even
* `roundHalfEven_neg`: rounding commutes with negation
* `roundHalfEven_add_div`: rounding an integer and a proper fraction
-/

namespace Commons

variable {K : Type*} [Field K] [LinearOrder K]

/-- `n` is nearest to `x`, and even if another integer is as near. -/
structure NearestEven (x : K) (n : ℤ) : Prop where
  near : |x - n| ≤ 1 / 2
  tie : |x - n| = 1 / 2 → Even n

theorem NearestEven.neg {x : K} {n : ℤ} (h : NearestEven x n) : NearestEven (-x) (-n) := by
  have hdist : |-x - (-n : ℤ)| = |x - n| := by
    rw [Int.cast_neg, ← abs_neg]
    congr 1
    ring
  constructor
  · rw [hdist]
    exact h.near
  · intro htie
    rw [hdist] at htie
    exact (h.tie htie).neg

variable [IsStrictOrderedRing K]

/-- Two nearest integers are one apart at most, and then both are ties. -/
theorem NearestEven.unique {x : K} {n m : ℤ} (hn : NearestEven x n) (hm : NearestEven x m) :
    n = m := by
  by_contra hne
  wlog hlt : n < m generalizing n m
  · exact this hm hn (Ne.symm hne) (by omega)
  obtain ⟨hn₁, hn₂⟩ := abs_le.mp hn.near
  obtain ⟨hm₁, hm₂⟩ := abs_le.mp hm.near
  have hstep : (n : K) + 1 ≤ m := by exact_mod_cast hlt
  have hhalf : x - n = 1 / 2 := by linarith
  have hhalf' : x - m = -(1 / 2) := by linarith
  have hnext : m = n + 1 := by
    have : (m : K) = (n + 1 : ℤ) := by
      push_cast
      linarith
    exact_mod_cast this
  -- One of two neighbours is odd.
  have heven : Even n := hn.tie (by rw [hhalf, abs_of_pos (by norm_num)])
  have heven' : Even m := hm.tie (by rw [hhalf', abs_neg, abs_of_pos (by norm_num)])
  rw [hnext, Int.even_add_one] at heven'
  exact heven' heven

/-- An integer and a fraction below a half. -/
theorem NearestEven.floor {x : K} {n : ℤ} (hn : n ≤ x) (hx : 2 * (x - n) ≤ 1)
    (htie : 2 * (x - n) = 1 → Even n) : NearestEven x n := by
  have habs : |x - n| = x - n := abs_of_nonneg (by linarith)
  constructor
  · rw [habs]
    linarith
  · intro h
    rw [habs] at h
    exact htie (by linarith)

/-- An integer and a fraction above a half. -/
theorem NearestEven.ceil {x : K} {n : ℤ} (hn : x ≤ n + 1) (hx : 1 ≤ 2 * (x - n))
    (htie : 2 * (x - n) = 1 → ¬ Even n) : NearestEven x (n + 1) := by
  have habs : |x - (n + 1 : ℤ)| = n + 1 - x := by
    rw [abs_of_nonpos] <;> push_cast <;> linarith
  constructor
  · rw [habs]
    linarith
  · intro h
    rw [habs] at h
    rw [Int.even_add_one]
    exact htie (by linarith)

variable [FloorRing K]

/-- The integer nearest to `x`, ties to even. -/
def roundHalfEven (x : K) : ℤ :=
  if 1 < 2 * Int.fract x ∨ 2 * Int.fract x = 1 ∧ ¬ Even ⌊x⌋ then ⌊x⌋ + 1 else ⌊x⌋

theorem nearestEven_roundHalfEven (x : K) : NearestEven x (roundHalfEven x) := by
  have hfract : x - ⌊x⌋ = Int.fract x := rfl
  have hle := Int.floor_le x
  have hlt := (Int.lt_floor_add_one x).le
  unfold roundHalfEven
  split
  · rename_i h
    refine .ceil hlt ?_ ?_
    · rw [hfract]
      rcases h with h | h
      · exact h.le
      · exact h.1.ge
    · intro htie
      rw [hfract] at htie
      rcases h with h | h
      · exact absurd htie h.ne'
      · exact h.2
  · rename_i h
    push Not at h
    refine .floor hle ?_ ?_
    · rw [hfract]
      exact h.1
    · intro htie
      rw [hfract] at htie
      exact h.2 htie

/-- **Rounding half to even** is the one integer that is nearest, and even in a tie. -/
theorem roundHalfEven_eq_iff {x : K} {n : ℤ} : roundHalfEven x = n ↔ NearestEven x n := by
  constructor
  · rintro rfl
    exact nearestEven_roundHalfEven x
  · intro h
    exact (nearestEven_roundHalfEven x).unique h

theorem roundHalfEven_neg (x : K) : roundHalfEven (-x) = -roundHalfEven x :=
  roundHalfEven_eq_iff.mpr (nearestEven_roundHalfEven x).neg

/-- An integer and a proper fraction, rounded. -/
theorem roundHalfEven_add_div (n : ℤ) {a b : ℕ} (h : a < b) :
    roundHalfEven (n + (a / b : K)) = if b < 2 * a ∨ 2 * a = b ∧ ¬ Even n then n + 1 else n := by
  have hb : (0 : K) < b := by exact_mod_cast (Nat.zero_le a).trans_lt h
  have hsub : (n + (a / b : K)) - n = a / b := by ring
  have hone : (a / b : K) ≤ 1 := by
    rw [div_le_one hb]
    exact_mod_cast h.le
  have htwo : 2 * (a / b : K) = (2 * a : ℕ) / b := by
    push_cast
    ring
  apply roundHalfEven_eq_iff.mpr
  split
  · rename_i hup
    refine .ceil (by linarith) ?_ ?_
    · rw [hsub, htwo, one_le_div hb]
      rcases hup with hup | hup
      · exact_mod_cast hup.le
      · exact_mod_cast hup.1.ge
    · intro htie
      rw [hsub, htwo, div_eq_one_iff_eq hb.ne'] at htie
      rcases hup with hup | hup
      · exact absurd (by exact_mod_cast htie) hup.ne'
      · exact hup.2
  · rename_i hdown
    push Not at hdown
    refine .floor (by linarith [div_nonneg (Nat.cast_nonneg (α := K) a) hb.le]) ?_ ?_
    · rw [hsub, htwo, div_le_one hb]
      exact_mod_cast hdown.1
    · intro htie
      rw [hsub, htwo, div_eq_one_iff_eq hb.ne'] at htie
      exact hdown.2 (by exact_mod_cast htie)

end Commons
