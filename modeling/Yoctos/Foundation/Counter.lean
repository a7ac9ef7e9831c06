import Mathlib.Algebra.BigOperators.Group.List.Basic
import Mathlib.Algebra.Ring.Int.Defs
import Mathlib.Data.List.Induction

/-! # A counter that stops at zero

Each step adds to the counter or takes from it, but never takes it below zero.
Where it stands is decided by the best of the sums that end now.
-/

namespace Yoctos.Counter

def clamped (steps : List Int) : Int :=
  steps.foldl (fun count step => max 0 (count + step)) 0

@[simp] theorem clamped_concat (steps : List Int) (step : Int) :
    clamped (steps ++ [step]) = max 0 (clamped steps + step) := by
  rw [clamped, List.foldl_append]
  rfl

theorem clamped_nonneg (steps : List Int) : 0 ≤ clamped steps := by
  induction steps using List.reverseRecOn with
  | nil => exact Int.le_refl 0
  | append_singleton steps step induction =>
      rw [clamped_concat]
      exact Int.le_max_left _ _

/-- The counter is the largest sum of a final stretch of the steps. -/
theorem clamped_le_iff (steps : List Int) (bound : Int) :
    clamped steps ≤ bound ↔ ∀ tail, tail <:+ steps → tail.sum ≤ bound := by
  induction steps using List.reverseRecOn generalizing bound with
  | nil => simp [clamped]
  | append_singleton steps step induction =>
      have shifted : clamped steps + step ≤ bound ↔ clamped steps ≤ bound - step := by omega
      rw [clamped_concat, Int.max_le, shifted, induction]
      constructor
      · rintro ⟨positive, below⟩ tail suffix
        rcases List.suffix_concat_iff.mp suffix with rfl | ⟨earlier, rfl, inside⟩
        · simpa using positive
        · have sum := below earlier inside
          rw [List.sum_append, List.sum_singleton]
          omega
      · intro below
        refine ⟨by simpa using below [] List.nil_suffix, fun tail suffix => ?_⟩
        have sum := below (tail ++ [step]) (List.suffix_concat_iff.mpr (.inr ⟨tail, rfl, suffix⟩))
        rw [List.sum_append, List.sum_singleton] at sum
        omega

/-- The counter stays below a bound as long as no stretch of the steps adds up
to more. -/
theorem clamped_prefix_le_iff (steps : List Int) (bound : Int) :
    (∀ earlier, earlier <+: steps → clamped earlier ≤ bound) ↔
      ∀ stretch, stretch <:+: steps → stretch.sum ≤ bound := by
  simp only [clamped_le_iff, List.infix_iff_suffix_prefix]
  constructor
  · rintro below stretch ⟨earlier, suffix, isPrefix⟩
    exact below earlier isPrefix stretch suffix
  · intro below earlier isPrefix tail suffix
    exact below tail ⟨earlier, suffix, isPrefix⟩

end Yoctos.Counter
