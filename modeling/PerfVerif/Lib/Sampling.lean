import Mathlib.Probability.Distributions.Uniform

/-!
# Bins of equal size

Division by the size of a bin sorts the numbers below a multiple of it into bins that all have this
many elements. A map whose fibers are all of one size takes a uniform distribution to a uniform
distribution.
-/

namespace Sampling

open scoped ENNReal

/-- The bin of a number is the quotient. -/
theorem div_eq_iff_mem_bin {size value x : Nat} (positive : 0 < size) :
    x / size = value ↔ x ∈ Finset.Ico (value * size) (value * size + size) := by
  rw [Finset.mem_Ico, Nat.div_eq_iff positive]
  omega

/-- Every bin has the same number of elements. -/
theorem card_bin {size bins value : Nat} (positive : 0 < size) (inside : value < bins) :
    ((Finset.range (size * bins)).filter fun x => x / size = value).card = size := by
  have within : (value + 1) * size ≤ size * bins := by
    rw [Nat.mul_comm size]
    exact Nat.mul_le_mul_right _ inside
  have bin : ((Finset.range (size * bins)).filter fun x => x / size = value) =
      Finset.Ico (value * size) (value * size + size) := by
    ext x
    rw [Finset.mem_filter, Finset.mem_range, div_eq_iff_mem_bin positive, and_iff_right_iff_imp,
      Finset.mem_Ico]
    rw [Nat.succ_mul] at within
    omega
  rw [bin, Nat.card_Ico, Nat.add_sub_cancel_left]

/-- A finite set whose fibers have one size is as large as all of them. -/
theorem card_eq_of_fibers {α β : Type} [DecidableEq β] {source : Finset α} {target : Finset β}
    {f : α → β} {size : Nat} (maps : ∀ a ∈ source, f a ∈ target)
    (fibers : ∀ b ∈ target, (source.filter fun a => f a = b).card = size) :
    source.card = target.card * size := by
  rw [Finset.card_eq_sum_card_fiberwise maps, Finset.sum_congr rfl fibers, Finset.sum_const,
    smul_eq_mul]

/-- The image of a uniform distribution under a map with fibers of one size is uniform. -/
theorem uniform_map {α β : Type} [DecidableEq β] {source : Finset α} {target : Finset β}
    {f : α → β} {size : Nat} (maps : ∀ a ∈ source, f a ∈ target)
    (fibers : ∀ b ∈ target, (source.filter fun a => f a = b).card = size) (positive : 0 < size)
    (nonempty : source.Nonempty) (targetNonempty : target.Nonempty) :
    (PMF.uniformOfFinset source nonempty).map f = PMF.uniformOfFinset target targetNonempty := by
  classical
  have total := card_eq_of_fibers maps fibers
  ext b
  have mass : ((PMF.uniformOfFinset source nonempty).map f) b =
      (source.filter fun a => f a = b).card / source.card := by
    rw [← PMF.toOuterMeasure_apply_singleton, PMF.toOuterMeasure_map_apply,
      PMF.toOuterMeasure_uniformOfFinset_apply]
    simp only [Set.mem_preimage, Set.mem_singleton_iff]
  rw [mass]
  by_cases inside : b ∈ target
  · have finite : (size : ℝ≥0∞) ≠ ⊤ := ENNReal.natCast_ne_top size
    have nonzero : (size : ℝ≥0∞) ≠ 0 := Nat.cast_ne_zero.mpr (Nat.ne_of_gt positive)
    have share : (size : ℝ≥0∞) / (target.card * size) = 1 / target.card := by
      simpa only [one_mul] using ENNReal.mul_div_mul_right 1 (target.card : ℝ≥0∞) nonzero finite
    rw [fibers b inside, PMF.uniformOfFinset_apply_of_mem _ inside, total, Nat.cast_mul, share,
      one_div]
  · have empty : source.filter (fun a => f a = b) = ∅ := by
      apply Finset.filter_eq_empty_iff.mpr
      intro a member same
      exact inside (same ▸ maps a member)
    rw [empty, PMF.uniformOfFinset_apply_of_notMem _ inside, Finset.card_empty, Nat.cast_zero,
      ENNReal.zero_div]

end Sampling
