import PerfVerif.Lib.Sampling
import PerfVerif.Buffers

/-!
# `random_at_most`

The three close and rename tests choose a buffer with `random_at_most`, which divides the values of
`random()` into bins of one size and draws again when a value lies behind the last bin. A draw is a
`long` that is not negative; it may be larger than `RAND_MAX`. The variables are `unsigned long`s,
and `RAND_MAX` is a parameter.
-/

namespace PerfVerif.RandomAtMost

open Buffers (toLongLong)

/-- `RAND_MAX` and the argument, which is assumed to be between 0 and `RAND_MAX`. -/
structure Params where
  randMax : Nat
  max : Nat
  randMax_pos : 1 ≤ randMax
  randMax_lt : randMax < 2 ^ 63 - 1
  max_le : max ≤ randMax

namespace Params

variable (p : Params)

/-- `num_bins`. -/
def numBins : UInt64 := UInt64.ofNat p.max + 1

/-- `num_rand`. -/
def numRand : UInt64 := UInt64.ofNat p.randMax + 1

/-- `bin_size`. -/
def binSize : UInt64 := p.numRand / p.numBins

/-- `defect`. -/
def defect : UInt64 := p.numRand % p.numBins

/-- The condition of the loop, for a value of `random()`. -/
def again (x : Nat) : Bool := p.numRand - p.defect ≤ UInt64.ofNat x

/-- The value that is returned for the last draw, as a `long`. -/
def result (x : Nat) : Int := toLongLong (UInt64.ofNat x / p.binSize).toNat

/-- `random_at_most`, for the values that `random()` returns; `none` when more are needed. -/
def randomAtMost : List Nat → Option Int
  | [] => none
  | x :: rest => if p.again x then randomAtMost rest else some (p.result x)

/-- The draws that end the loop. -/
def accepted : Finset Nat := (Finset.range (2 ^ 63)).filter fun x => p.again x = false

/-- No operation loses anything: the sums and the difference are the exact ones, the divisors are
not zero, and the quotient is a `long`. -/
structure Exact : Prop where
  numBins : p.numBins.toNat = p.max + 1
  numRand : p.numRand.toNat = p.randMax + 1
  numBins_ne : p.numBins ≠ 0
  binSize_ne : p.binSize ≠ 0
  difference : (p.numRand - p.defect).toNat = p.numRand.toNat - p.defect.toNat
  defect_le : p.defect.toNat ≤ p.numRand.toNat
  quotient : ∀ x < 2 ^ 63, p.result x = (x / p.binSize.toNat : Nat)

/-- There is one bin for each value. -/
theorem numBins_toNat : p.numBins.toNat = p.max + 1 := by
  have fits := p.randMax_lt
  have least := p.max_le
  rw [numBins, UInt64.toNat_add, UInt64.toNat_ofNat', UInt64.toNat_one]
  omega

/-- There are `RAND_MAX + 1` values to divide. -/
theorem numRand_toNat : p.numRand.toNat = p.randMax + 1 := by
  have fits := p.randMax_lt
  rw [numRand, UInt64.toNat_add, UInt64.toNat_ofNat', UInt64.toNat_one]
  omega

/-- The size of a bin is the exact quotient. -/
theorem binSize_toNat : p.binSize.toNat = (p.randMax + 1) / (p.max + 1) := by
  rw [binSize, UInt64.toNat_div, numRand_toNat, numBins_toNat]

/-- The defect is the exact remainder. -/
theorem defect_toNat : p.defect.toNat = (p.randMax + 1) % (p.max + 1) := by
  rw [defect, UInt64.toNat_mod, numRand_toNat, numBins_toNat]

/-- No bin is empty. -/
theorem binSize_pos : 0 < p.binSize.toNat := by
  rw [binSize_toNat]
  exact Nat.div_pos (Nat.succ_le_succ p.max_le) (Nat.succ_pos _)

/-- The defect is a part of the values. -/
theorem defect_le : p.defect ≤ p.numRand := by
  rw [UInt64.le_iff_toNat_le, defect_toNat, numRand_toNat]
  exact Nat.mod_le _ _

/-- The values in front of the defect are the bins. -/
theorem threshold_toNat : (p.numRand - p.defect).toNat = p.binSize.toNat * (p.max + 1) := by
  have parts := Nat.div_add_mod (p.randMax + 1) (p.max + 1)
  rw [UInt64.toNat_sub_of_le _ _ p.defect_le, numRand_toNat, defect_toNat, binSize_toNat,
    Nat.mul_comm]
  omega

/-- The bins are no more than the values. -/
theorem bins_le : p.binSize.toNat * (p.max + 1) ≤ p.randMax + 1 := by
  rw [binSize_toNat]
  exact Nat.div_mul_le_self _ _

/-- A draw is kept by the conversion to `unsigned long`. -/
theorem draw_toNat {x : Nat} (draw : x < 2 ^ 63) : (UInt64.ofNat x).toNat = x := by
  have size : UInt64.size = 2 ^ 64 := rfl
  exact UInt64.toNat_ofNat_of_lt' (by omega)

/-- A draw ends the loop when it is in one of the bins. -/
theorem again_eq_false_iff {x : Nat} (draw : x < 2 ^ 63) :
    p.again x = false ↔ x < p.binSize.toNat * (p.max + 1) := by
  rw [again, decide_eq_false_iff_not, UInt64.le_iff_toNat_le, threshold_toNat, draw_toNat draw,
    Nat.not_le]

/-- The value returned is the number of the bin. -/
theorem result_eq {x : Nat} (draw : x < 2 ^ 63) : p.result x = (x / p.binSize.toNat : Nat) := by
  have bound : x / p.binSize.toNat < 2 ^ 63 := Nat.lt_of_le_of_lt (Nat.div_le_self _ _) draw
  rw [result, UInt64.toNat_div, draw_toNat draw, Buffers.toLongLong_natCast bound]

/-- What ends the loop are the numbers in the bins, however large a draw may be. -/
theorem accepted_eq : p.accepted = Finset.range (p.binSize.toNat * (p.max + 1)) := by
  have bins := p.bins_le
  have fits := p.randMax_lt
  ext x
  rw [accepted, Finset.mem_filter, Finset.mem_range, Finset.mem_range]
  constructor
  · intro ⟨draw, ends⟩
    exact (p.again_eq_false_iff draw).mp ends
  · intro inside
    have draw : x < 2 ^ 63 := by omega
    exact ⟨draw, (p.again_eq_false_iff draw).mpr inside⟩

/-- A draw that ends the loop gives a value that was asked for. -/
theorem result_mem {x : Nat} (ends : x ∈ p.accepted) : p.result x ∈ Finset.Icc (0 : Int) p.max := by
  have draw := Finset.mem_range.mp (Finset.mem_filter.mp ends).1
  rw [accepted_eq, Finset.mem_range] at ends
  have bin : x / p.binSize.toNat < p.max + 1 :=
    (Nat.div_lt_iff_lt_mul p.binSize_pos).mpr (by rwa [Nat.mul_comm])
  rw [p.result_eq draw, Finset.mem_Icc]
  exact ⟨Int.natCast_nonneg _, Int.ofNat_le.mpr (Nat.le_of_lt_succ bin)⟩

/-- Every value is the result of as many draws as a bin has elements. -/
theorem card_result {value : Int} (asked : value ∈ Finset.Icc (0 : Int) p.max) :
    (p.accepted.filter fun x => p.result x = value).card = p.binSize.toNat := by
  have ⟨least, most⟩ := Finset.mem_Icc.mp asked
  have bins := p.bins_le
  have fits := p.randMax_lt
  have bin := Sampling.card_bin p.binSize_pos (show value.toNat < p.max + 1 by omega)
  have same : ((Finset.range (p.binSize.toNat * (p.max + 1))).filter fun x => p.result x = value) =
      (Finset.range (p.binSize.toNat * (p.max + 1))).filter
        fun x => x / p.binSize.toNat = value.toNat := by
    apply Finset.filter_congr
    intro x member
    have inside := Finset.mem_range.mp member
    rw [p.result_eq (by omega)]
    omega
  rw [accepted_eq, same, bin]

/-- The loop returns for the first draw that ends it. -/
theorem randomAtMost_eq_some_iff (draws : List Nat) (value : Int) :
    p.randomAtMost draws = some value ↔
      ∃ before x after, draws = before ++ x :: after ∧ (∀ y ∈ before, p.again y = true) ∧
        p.again x = false ∧ p.result x = value := by
  induction draws with
  | nil => simp [randomAtMost]
  | cons first rest ih =>
    rw [randomAtMost]
    cases rejected : p.again first with
    | true =>
      rw [if_pos rfl, ih]
      constructor
      · intro ⟨before, x, after, split, all, ends⟩
        exact ⟨first :: before, x, after, congrArg (List.cons first) split,
          List.forall_mem_cons.mpr ⟨rejected, all⟩, ends⟩
      · intro ⟨before, x, after, split, all, ends, value⟩
        cases before with
        | nil =>
          obtain ⟨rfl, _⟩ := List.cons.inj split
          rw [rejected] at ends
          contradiction
        | cons other before =>
          exact ⟨before, x, after, (List.cons.inj split).2, (List.forall_mem_cons.mp all).2, ends,
            value⟩
    | false =>
      rw [if_neg Bool.false_ne_true, Option.some.injEq]
      constructor
      · intro value
        exact ⟨[], first, rest, rfl, by simp, rejected, value⟩
      · intro ⟨before, x, after, split, all, _, value⟩
        cases before with
        | nil =>
          obtain ⟨rfl, _⟩ := List.cons.inj split
          exact value
        | cons other before =>
          obtain ⟨rfl, _⟩ := List.cons.inj split
          have again := all first List.mem_cons_self
          exact absurd (rejected.symm.trans again) Bool.false_ne_true

/-- The arithmetic of the function is exact. -/
theorem exactly (p : Params) : p.Exact where
  numBins := p.numBins_toNat
  numRand := p.numRand_toNat
  numBins_ne zero := by
    have bins := p.numBins_toNat
    rw [zero] at bins
    contradiction
  binSize_ne zero := by
    have positive := p.binSize_pos
    rw [zero] at positive
    contradiction
  difference := UInt64.toNat_sub_of_le _ _ p.defect_le
  defect_le := UInt64.le_iff_toNat_le.mp p.defect_le
  quotient _ draw := p.result_eq draw

section Draws

variable {x : Nat} (rest : List Nat)

/-- A draw in one of the bins is the last one. -/
theorem randomAtMost_of_accepted (draw : x < 2 ^ 63) (inside : x < p.binSize.toNat * (p.max + 1)) :
    p.randomAtMost (x :: rest) = some ((x / p.binSize.toNat : Nat) : Int) := by
  have ends := (p.again_eq_false_iff draw).mpr inside
  rw [randomAtMost, ends, if_neg Bool.false_ne_true, p.result_eq draw]

/-- A draw behind the bins is dropped. -/
theorem randomAtMost_of_rejected (draw : x < 2 ^ 63) (behind : p.binSize.toNat * (p.max + 1) ≤ x) :
    p.randomAtMost (x :: rest) = p.randomAtMost rest := by
  have again := eq_true_of_ne_false (mt (p.again_eq_false_iff draw).mp (Nat.not_lt.mpr behind))
  rw [randomAtMost, again, if_pos rfl]

/-- Each value that is asked for is returned for as many first draws as a bin has elements. -/
theorem card_returned {value : Int} (asked : value ∈ Finset.Icc (0 : Int) p.max) :
    (p.accepted.filter fun x => p.randomAtMost (x :: rest) = some value).card =
      p.binSize.toNat := by
  have same : (p.accepted.filter fun x => p.randomAtMost (x :: rest) = some value) =
      p.accepted.filter fun x => p.result x = value := by
    apply Finset.filter_congr
    intro x member
    have ends := (Finset.mem_filter.mp member).2
    rw [randomAtMost, ends, if_neg Bool.false_ne_true, Option.some.injEq]
  rw [same, p.card_result asked]

end Draws

end Params

/-- For every `RAND_MAX` and every argument the arithmetic is exact. A draw ends the loop of
`random_at_most` when it is below `bin_size * (max + 1)`, and is dropped otherwise. What is returned
is between 0 and the argument, and each of these values is returned for `bin_size` of the draws that
end the loop, so that draws that are equiprobable among them give a uniform result. -/
theorem random_at_most_uniform (p : Params) :
    p.Exact ∧
      (∀ x < 2 ^ 63, p.again x = false ↔ x < p.binSize.toNat * (p.max + 1)) ∧
      (p.randomAtMost [] = none ∧ ∀ x < 2 ^ 63, ∀ rest,
        (x < p.binSize.toNat * (p.max + 1) →
          p.randomAtMost (x :: rest) = some ((x / p.binSize.toNat : Nat) : Int)) ∧
        (p.binSize.toNat * (p.max + 1) ≤ x →
          p.randomAtMost (x :: rest) = p.randomAtMost rest)) ∧
      (∀ draws value, p.randomAtMost draws = some value ↔
        ∃ before x after, draws = before ++ x :: after ∧ (∀ y ∈ before, p.again y = true) ∧
          p.again x = false ∧ p.result x = value) ∧
      (∀ draws value, (∀ x ∈ draws, x < 2 ^ 63) → p.randomAtMost draws = some value →
        0 ≤ value ∧ value ≤ p.max) ∧
      (∀ value : Int, 0 ≤ value → value ≤ p.max →
        (p.accepted.filter fun x => p.result x = value).card = p.binSize.toNat ∧
          ∀ rest, (p.accepted.filter fun x => p.randomAtMost (x :: rest) = some value).card =
            p.binSize.toNat) ∧
      ∃ some all, (PMF.uniformOfFinset p.accepted some).map p.result =
        PMF.uniformOfFinset (Finset.Icc (0 : Int) p.max) all := by
  refine ⟨p.exactly, fun x draw => p.again_eq_false_iff draw, ⟨rfl, ?_⟩,
    p.randomAtMost_eq_some_iff, ?_, ?_, ?_⟩
  · intro x draw rest
    exact ⟨p.randomAtMost_of_accepted rest draw, p.randomAtMost_of_rejected rest draw⟩
  · intro draws value bounded returned
    have ⟨before, x, after, split, _, ends, same⟩ :=
      (p.randomAtMost_eq_some_iff draws value).mp returned
    have draw := bounded x (by simp [split])
    have member : x ∈ p.accepted := Finset.mem_filter.mpr ⟨Finset.mem_range.mpr draw, ends⟩
    exact Finset.mem_Icc.mp (same ▸ p.result_mem member)
  · intro value least most
    have asked := Finset.mem_Icc.mpr ⟨least, most⟩
    exact ⟨p.card_result asked, fun rest => p.card_returned rest asked⟩
  · have values : (Finset.Icc (0 : Int) p.max).Nonempty :=
      ⟨0, Finset.mem_Icc.mpr ⟨Int.le_refl _, Int.natCast_nonneg _⟩⟩
    have draws : p.accepted.Nonempty := by
      rw [Params.accepted_eq]
      exact Finset.nonempty_range_iff.mpr
        (Nat.ne_of_gt (Nat.mul_pos p.binSize_pos (Nat.succ_pos _)))
    exact ⟨draws, values, Sampling.uniform_map (fun _ => p.result_mem) (fun _ => p.card_result)
      p.binSize_pos draws values⟩

end PerfVerif.RandomAtMost
