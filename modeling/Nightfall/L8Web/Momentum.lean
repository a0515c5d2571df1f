import Nightfall.Core.WholeSteps
import Mathlib.Data.Rat.Floor

/-!
# Momentum of the photo wheel

`stepMomentumFrame` over the rationals. The loop takes whole steps off the accumulator,
one item a step, until less than one is left or the next item would be past an end;
`momentumLoop` has a bound on the tests of its condition and is `none` when it runs out.

`momentumLoop_eq`: with more tests than steps the loop ends where `momentumEnd` says, which
is the motion kept (`stepMomentumFrame_conserves`) or the nearest end of the list.
-/
namespace Nightfall.Web.PhotoWheel
open Nightfall.Core

/-- mirrors webui/src/lib/components/staging/photowheel-momentum.ts:3-5 -/
def momentumFriction : ℚ := 92 / 100
def momentumMinVelocityPxPerMs : ℚ := 5 / 100
def momentumStepThresholdPx : ℚ := 60

inductive ActiveIndexState where
  | idle | step | tracking | transitioning | momentum
  deriving DecidableEq, Repr

structure MomentumFrameInput where
  activeIndex : Int
  itemCount : Int
  velocityPxPerMs : ℚ
  accumulatorPx : ℚ
  dtMs : ℚ
  friction : Option ℚ
  minVelocityPxPerMs : Option ℚ
  stepThresholdPx : Option ℚ

structure MomentumFrameResult where
  activeIndex : Int
  velocityPxPerMs : ℚ
  accumulatorPx : ℚ
  state : ActiveIndexState
  cancelledByBoundary : Bool
  deriving DecidableEq, Repr

/-- mirrors webui/src/lib/components/staging/photowheel-input.ts:26-29 -/
def clampIndex (index itemCount : Int) : Int :=
  if itemCount ≤ 0 then 0 else max 0 (min index (itemCount - 1))

/-- mirrors webui/src/lib/components/staging/photowheel-momentum.ts:68-92 -/
def momentumLoop (stepThreshold : ℚ) (itemCount : Int) (velocity : ℚ) :
    Nat → Int → ℚ → Option MomentumFrameResult
  | 0, _, _ => none
  | fuel + 1, nextIndex, accumulator =>
    if stepThreshold ≤ |accumulator| then
      let direction : Int := if 0 < accumulator then 1 else -1
      let bounded := clampIndex (nextIndex + direction) itemCount
      if bounded = nextIndex then some ⟨nextIndex, 0, 0, .idle, true⟩
      else momentumLoop stepThreshold itemCount velocity fuel bounded
        (accumulator - direction * stepThreshold)
    else some ⟨nextIndex, velocity, accumulator, .momentum, false⟩

/-- mirrors webui/src/lib/components/staging/photowheel-momentum.ts:39-93 -/
def stepMomentumFrame (fuel : Nat) (input : MomentumFrameInput) : Option MomentumFrameResult :=
  let friction := input.friction.getD momentumFriction
  let minVelocity := input.minVelocityPxPerMs.getD momentumMinVelocityPxPerMs
  let stepThreshold := input.stepThresholdPx.getD momentumStepThresholdPx
  if input.itemCount ≤ 0 then some ⟨0, 0, 0, .idle, false⟩
  else
    let velocity := input.velocityPxPerMs * friction
    if |velocity| < minVelocity then some ⟨input.activeIndex, 0, 0, .idle, false⟩
    else momentumLoop stepThreshold input.itemCount velocity fuel input.activeIndex
      (input.accumulatorPx + velocity * input.dtMs)

/-! ## One step -/

theorem clampIndex_self {i n : Int} (hn : 0 < n) : clampIndex i n = i ↔ 0 ≤ i ∧ i < n := by
  unfold clampIndex
  rw [if_neg (by omega)]
  omega

theorem clampIndex_mem (i : Int) {n : Int} (hn : 0 < n) :
    0 ≤ clampIndex i n ∧ clampIndex i n < n := by
  unfold clampIndex
  rw [if_neg (by omega)]
  omega

/-- One item on from inside the list: the index stays only at the last item, and then every
index further on is clamped to it. -/
theorem clampIndex_forward {i n : Int} (h0 : 0 ≤ i) (hn : i < n) :
    clampIndex (i + 1) n = i + 1 ∨
      clampIndex (i + 1) n = i ∧ ∀ k, 0 < k → clampIndex (i + k) n = i := by
  unfold clampIndex
  rw [if_neg (by omega)]
  by_cases hlast : i = n - 1
  · refine .inr ⟨by omega, fun k hk => ?_⟩
    rw [if_neg (by omega)]
    omega
  · exact .inl (by omega)

theorem clampIndex_backward {i n : Int} (h0 : 0 ≤ i) (hn : i < n) :
    clampIndex (i + -1) n = i + -1 ∨
      clampIndex (i + -1) n = i ∧ ∀ k, k < 0 → clampIndex (i + k) n = i := by
  unfold clampIndex
  rw [if_neg (by omega)]
  by_cases hfirst : i = 0
  · refine .inr ⟨by omega, fun k hk => ?_⟩
    rw [if_neg (by omega)]
    omega
  · exact .inl (by omega)

/-- Where the loop ends: all whole steps taken, or at the end of the list they lead past. -/
def momentumEnd (t : ℚ) (n : Int) (v : ℚ) (i : Int) (a : ℚ) : MomentumFrameResult :=
  let k := wholeSteps t a
  if clampIndex (i + k) n = i + k then ⟨i + k, v, a - k * t, .momentum, false⟩
  else ⟨clampIndex (i + k) n, 0, 0, .idle, true⟩

section
variable {t v a : ℚ} {n i : Int}

/-- A step that is taken and counted leaves the end where it was. -/
theorem momentumEnd_step {d : Int} (h : wholeSteps t (a - d * t) = wholeSteps t a - d) :
    momentumEnd t n v (i + d) (a - d * t) = momentumEnd t n v i a := by
  have hi : i + d + (wholeSteps t a - d) = i + wholeSteps t a := by ring
  have hrest : a - d * t - ((wholeSteps t a - d : Int) : ℚ) * t = a - wholeSteps t a * t := by
    push_cast
    ring
  simp only [momentumEnd, h, hi, hrest]

/-- No step can be taken: the index is at the end that the steps lead past. -/
theorem momentumEnd_stuck (hk : wholeSteps t a ≠ 0)
    (hclamp : clampIndex (i + wholeSteps t a) n = i) :
    momentumEnd t n v i a = ⟨i, 0, 0, .idle, true⟩ := by
  have hne : ¬ i = i + wholeSteps t a := by omega
  simp only [momentumEnd, hclamp, if_neg hne]

theorem momentumEnd_rest (ht : 0 < t) (hn : 0 < n) (h0 : 0 ≤ i) (hin : i < n) (ha : |a| < t) :
    momentumEnd t n v i a = ⟨i, v, a, .momentum, false⟩ := by
  have hself := (clampIndex_self hn).mpr ⟨h0, hin⟩
  simp [momentumEnd, wholeSteps_eq_zero ht ha, hself]

/-! ## The loop -/

/-- By induction on the tests left. The direction of a step is the sign of the steps still
to take, so that a step taken lowers their number and a step refused is refused for good. -/
theorem momentumLoop_eq (ht : 0 < t) (hn : 0 < n) :
    ∀ (fuel : Nat) (i : Int) (a : ℚ), 0 ≤ i → i < n → (wholeSteps t a).natAbs < fuel →
      momentumLoop t n v fuel i a = some (momentumEnd t n v i a) := by
  intro fuel
  induction fuel with
  | zero => intro i a _ _ hfuel; omega
  | succ fuel ih =>
    intro i a h0 hin hfuel
    rw [momentumLoop]
    by_cases hbig : t ≤ |a|
    · rw [if_pos hbig]
      by_cases hpos : 0 < a
      · rw [abs_of_pos hpos] at hbig
        have hk := wholeSteps_pos ht hbig
        have hstep : wholeSteps t (a - (1 : Int) * t) = wholeSteps t a - 1 := by
          simpa using wholeSteps_sub_self ht hbig
        simp only [if_pos hpos]
        rcases clampIndex_forward h0 hin with hnext | ⟨hstay, hstuck⟩
        · have hmem := (clampIndex_self hn).mp hnext
          rw [hnext, if_neg (by omega), ih (i + 1) _ hmem.1 hmem.2 (by omega),
            momentumEnd_step hstep]
        · rw [hstay, if_pos rfl, momentumEnd_stuck (by omega) (hstuck _ hk)]
      · rw [abs_of_nonpos (not_lt.mp hpos)] at hbig
        have hlow : a ≤ -t := by linarith
        have hk := wholeSteps_lt_zero ht hlow
        have hstep : wholeSteps t (a - (-1 : Int) * t) = wholeSteps t a - -1 := by
          simpa using wholeSteps_add_self ht hlow
        simp only [if_neg hpos]
        rcases clampIndex_backward h0 hin with hnext | ⟨hstay, hstuck⟩
        · have hmem := (clampIndex_self hn).mp hnext
          rw [hnext, if_neg (by omega), ih (i + -1) _ hmem.1 hmem.2 (by omega),
            momentumEnd_step hstep]
        · rw [hstay, if_pos rfl, momentumEnd_stuck (by omega) (hstuck _ hk)]
    · rw [if_neg hbig, momentumEnd_rest ht hn h0 hin (not_le.mp hbig)]

theorem momentumEnd_mem (hn : 0 < n) :
    0 ≤ (momentumEnd t n v i a).activeIndex ∧ (momentumEnd t n v i a).activeIndex < n := by
  have hmem := clampIndex_mem (i + wholeSteps t a) hn
  unfold momentumEnd
  dsimp only
  split
  · next h => rwa [h] at hmem
  · exact hmem

theorem momentumEnd_conserves (ht : 0 < t) (hstate : (momentumEnd t n v i a).state = .momentum) :
    |(momentumEnd t n v i a).accumulatorPx| < t ∧
      ((momentumEnd t n v i a).activeIndex - i) * t + (momentumEnd t n v i a).accumulatorPx
        = a := by
  unfold momentumEnd at hstate ⊢
  dsimp only at hstate ⊢
  split at hstate
  · next h =>
    rw [if_pos h]
    refine ⟨abs_sub_wholeSteps_mul_lt ht a, ?_⟩
    push_cast
    ring
  · cases hstate

theorem momentumEnd_cancelled (hn : 0 < n) :
    (momentumEnd t n v i a).cancelledByBoundary = true ↔
      i + wholeSteps t a < 0 ∨ n ≤ i + wholeSteps t a := by
  have hself := clampIndex_self hn (i := i + wholeSteps t a)
  unfold momentumEnd
  dsimp only
  split
  · next h =>
    have hmem := hself.mp h
    simp only [Bool.false_eq_true, false_iff]
    omega
  · next h =>
    rw [hself] at h
    simp only [true_iff]
    omega

end

/-! ## One frame -/

/-- A frame of velocity too low for momentum is idle where it was; any other is the loop. -/
theorem stepMomentumFrame_eq (input : MomentumFrameInput) (hcount : 1 ≤ input.itemCount)
    (hlo : 0 ≤ input.activeIndex) (hhi : input.activeIndex < input.itemCount)
    (ht : 0 < input.stepThresholdPx.getD momentumStepThresholdPx) {fuel : Nat}
    (hfuel : (wholeSteps (input.stepThresholdPx.getD momentumStepThresholdPx)
      (input.accumulatorPx + input.velocityPxPerMs * input.friction.getD momentumFriction *
        input.dtMs)).natAbs < fuel) :
    stepMomentumFrame fuel input = some
      (if |input.velocityPxPerMs * input.friction.getD momentumFriction| <
          input.minVelocityPxPerMs.getD momentumMinVelocityPxPerMs then
        ⟨input.activeIndex, 0, 0, .idle, false⟩
      else
        momentumEnd (input.stepThresholdPx.getD momentumStepThresholdPx) input.itemCount
          (input.velocityPxPerMs * input.friction.getD momentumFriction) input.activeIndex
          (input.accumulatorPx + input.velocityPxPerMs * input.friction.getD momentumFriction *
            input.dtMs)) := by
  have hn : 0 < input.itemCount := by omega
  unfold stepMomentumFrame
  dsimp only
  rw [if_neg (by omega)]
  split
  · rfl
  · exact momentumLoop_eq ht hn fuel _ _ hlo hhi hfuel

/-- A frame returns, at an index of the list. In momentum less than one step is left over
and index and accumulator together have moved by the velocity times the time; unless the
velocity is below the least, the frame is cancelled exactly if the whole steps lead past an
end. -/
theorem stepMomentumFrame_conserves (input : MomentumFrameInput) (hcount : 1 ≤ input.itemCount)
    (hlo : 0 ≤ input.activeIndex) (hhi : input.activeIndex < input.itemCount)
    (ht : 0 < input.stepThresholdPx.getD momentumStepThresholdPx) :
    let friction := input.friction.getD momentumFriction
    let minVelocity := input.minVelocityPxPerMs.getD momentumMinVelocityPxPerMs
    let stepThreshold := input.stepThresholdPx.getD momentumStepThresholdPx
    let moved := input.accumulatorPx + input.velocityPxPerMs * friction * input.dtMs
    ∃ r : MomentumFrameResult,
      (∃ enough, ∀ fuel, enough ≤ fuel → stepMomentumFrame fuel input = some r) ∧
      (0 ≤ r.activeIndex ∧ r.activeIndex < input.itemCount) ∧
      (r.state = .momentum → |r.accumulatorPx| < stepThreshold ∧
        (r.activeIndex - input.activeIndex) * stepThreshold + r.accumulatorPx = moved) ∧
      (minVelocity ≤ |input.velocityPxPerMs * friction| →
        (r.cancelledByBoundary = true ↔
          input.activeIndex + wholeSteps stepThreshold moved < 0 ∨
            input.itemCount ≤ input.activeIndex + wholeSteps stepThreshold moved)) := by
  intro friction minVelocity stepThreshold moved
  have hn : 0 < input.itemCount := by omega
  refine ⟨_, ⟨_, fun fuel hfuel => stepMomentumFrame_eq input hcount hlo hhi ht
    (Nat.lt_of_succ_le hfuel)⟩, ?_⟩
  by_cases hslow : |input.velocityPxPerMs * friction| < minVelocity
  · rw [if_pos hslow]
    exact ⟨⟨hlo, hhi⟩, nofun, fun h => absurd hslow (not_lt.mpr h)⟩
  · rw [if_neg hslow]
    exact ⟨momentumEnd_mem hn, momentumEnd_conserves ht, fun _ => momentumEnd_cancelled hn⟩

/-- The second of five items, at one pixel a millisecond for 200 milliseconds. -/
def threeStepFling : MomentumFrameInput where
  activeIndex := 1
  itemCount := 5
  velocityPxPerMs := 1
  accumulatorPx := 0
  dtMs := 200
  friction := none
  minVelocityPxPerMs := none
  stepThresholdPx := none

theorem threeStepFling_conserves :
    stepMomentumFrame 4 threeStepFling = some ⟨4, 92 / 100, 4, .momentum, false⟩ ∧
    ∃ r, (∃ enough, ∀ fuel, enough ≤ fuel → stepMomentumFrame fuel threeStepFling = some r) ∧
      (0 ≤ r.activeIndex ∧ r.activeIndex < 5) ∧
      (r.state = .momentum → |r.accumulatorPx| < 60 ∧
        (r.activeIndex - (1 : Int)) * 60 + r.accumulatorPx = 0 + 1 * (92 / 100) * 200) ∧
      ((5 / 100 : ℚ) ≤ |1 * (92 / 100)| →
        (r.cancelledByBoundary = true ↔ 1 + wholeSteps (60 : ℚ) (0 + 1 * (92 / 100) * 200) < 0 ∨
          5 ≤ 1 + wholeSteps (60 : ℚ) (0 + 1 * (92 / 100) * 200))) :=
  ⟨by decide +kernel, stepMomentumFrame_conserves threeStepFling (by decide) (by decide)
    (by decide) (by decide +kernel)⟩

end Nightfall.Web.PhotoWheel
