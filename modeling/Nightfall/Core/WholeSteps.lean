import Mathlib.Algebra.Order.Floor.Ring
import Mathlib.Tactic.Linarith
import Mathlib.Tactic.FieldSimp
import Mathlib.Tactic.Ring

/-!
# Whole steps of a distance

`wholeSteps t a` is how many whole steps of length `t` fit into the signed distance `a`,
rounded towards zero and with the sign of `a`. A step taken off `a` in the direction of `a`
takes one off the count (`wholeSteps_sub_self`, `wholeSteps_add_self`), and what is left
below one step counts nothing (`wholeSteps_eq_zero`).
-/
namespace Nightfall.Core

variable {K : Type*} [Field K] [LinearOrder K] [FloorRing K]

def wholeSteps (t a : K) : Int := if 0 ≤ a then ⌊a / t⌋ else -⌊-a / t⌋

variable {t a : K}

theorem wholeSteps_of_nonneg (ha : 0 ≤ a) : wholeSteps t a = ⌊a / t⌋ := if_pos ha

variable [IsStrictOrderedRing K]

theorem wholeSteps_neg (t a : K) : wholeSteps t (-a) = -wholeSteps t a := by
  rcases lt_trichotomy a 0 with ha | rfl | ha
  · have hn : 0 ≤ -a := by linarith
    rw [wholeSteps_of_nonneg hn, wholeSteps, if_neg (not_le.mpr ha), neg_neg]
  · simp [wholeSteps]
  · have hn : ¬ 0 ≤ -a := by linarith
    rw [wholeSteps, if_neg hn, neg_neg, wholeSteps_of_nonneg ha.le]

theorem wholeSteps_of_nonpos (ha : a ≤ 0) : wholeSteps t a = -⌊-a / t⌋ := by
  have hn : 0 ≤ -a := by linarith
  rw [← wholeSteps_of_nonneg hn, wholeSteps_neg, neg_neg]

theorem wholeSteps_pos (ht : 0 < t) (ha : t ≤ a) : 0 < wholeSteps t a := by
  rw [wholeSteps_of_nonneg (ht.le.trans ha), Int.floor_pos]
  exact (one_le_div ht).mpr ha

theorem wholeSteps_lt_zero (ht : 0 < t) (ha : a ≤ -t) : wholeSteps t a < 0 := by
  have h := wholeSteps_pos ht (a := -a) (by linarith)
  rw [wholeSteps_neg] at h
  omega

/-- Below one step in either direction. -/
theorem wholeSteps_eq_zero (ht : 0 < t) (ha : |a| < t) : wholeSteps t a = 0 := by
  obtain ⟨hlo, hhi⟩ := abs_lt.mp ha
  rcases le_total 0 a with h | h
  · rw [wholeSteps_of_nonneg h, Int.floor_eq_zero_iff]
    exact ⟨div_nonneg h ht.le, (div_lt_one ht).mpr hhi⟩
  · rw [wholeSteps_of_nonpos h, neg_eq_zero, Int.floor_eq_zero_iff]
    exact ⟨div_nonneg (by linarith) ht.le, (div_lt_one ht).mpr (by linarith)⟩

/-- One step forward taken off. -/
theorem wholeSteps_sub_self (ht : 0 < t) (ha : t ≤ a) :
    wholeSteps t (a - t) = wholeSteps t a - 1 := by
  have hdiv : (a - t) / t = a / t - 1 := by field_simp
  rw [wholeSteps_of_nonneg (sub_nonneg.mpr ha), wholeSteps_of_nonneg (ht.le.trans ha), hdiv,
    Int.floor_sub_one]

/-- One step backward taken off. -/
theorem wholeSteps_add_self (ht : 0 < t) (ha : a ≤ -t) :
    wholeSteps t (a + t) = wholeSteps t a + 1 := by
  have h := wholeSteps_sub_self ht (a := -a) (by linarith)
  have hneg : -a - t = -(a + t) := by ring
  rw [hneg, wholeSteps_neg, wholeSteps_neg] at h
  omega

/-- What is left once all whole steps are taken off is less than one step. -/
theorem abs_sub_wholeSteps_mul_lt (ht : 0 < t) (a : K) : |a - wholeSteps t a * t| < t := by
  have hfloor : ∀ b : K, 0 ≤ b - ⌊b / t⌋ * t ∧ b - ⌊b / t⌋ * t < t := by
    intro b
    have hle := (le_div_iff₀ ht).mp (Int.floor_le (b / t))
    have hlt := (div_lt_iff₀ ht).mp (Int.lt_floor_add_one (b / t))
    exact ⟨by linarith, by linarith⟩
  rcases le_total 0 a with h | h
  · obtain ⟨hlo, hhi⟩ := hfloor a
    rw [wholeSteps_of_nonneg h, abs_of_nonneg hlo]
    exact hhi
  · obtain ⟨hlo, hhi⟩ := hfloor (-a)
    have hneg : a - ((-⌊-a / t⌋ : Int) : K) * t = -(-a - ⌊-a / t⌋ * t) := by
      push_cast
      ring
    rw [wholeSteps_of_nonpos h, hneg, abs_neg, abs_of_nonneg hlo]
    exact hhi

end Nightfall.Core
