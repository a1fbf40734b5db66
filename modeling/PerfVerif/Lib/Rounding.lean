import Mathlib.Algebra.GroupWithZero.Nat
import Mathlib.Algebra.Order.Floor.Div
import Mathlib.Data.Nat.ModEq
import Mathlib.Order.Bounds.Basic

/-!
# Rounding and counting round

Clearing the low bits of a word rounds it down to a multiple of a power of two. A counter that
starts again at a bound is addition modulo the bound, and passes every value below it in turn.
-/

namespace Rounding

/-- A word without its low bits is rounded down. -/
theorem toNat_clear {w : Nat} (word : BitVec w) (k : Nat) :
    (word &&& ~~~BitVec.ofNat w (2 ^ k - 1)).toNat = word.toNat / 2 ^ k * 2 ^ k := by
  have cleared : word &&& ~~~BitVec.ofNat w (2 ^ k - 1) = (word >>> k) <<< k := by
    apply BitVec.eq_of_getLsbD_eq
    intro i small
    rw [BitVec.getLsbD_and, BitVec.getLsbD_not, BitVec.getLsbD_ofNat, BitVec.getLsbD_shiftLeft,
      BitVec.getLsbD_ushiftRight, Nat.testBit_two_pow_sub_one, decide_eq_true small,
      Bool.true_and, Bool.true_and, Bool.true_and]
    by_cases low : i < k
    · simp [low]
    · simp [low, Nat.add_sub_cancel' (Nat.not_lt.mp low)]
  have bound : word.toNat / 2 ^ k * 2 ^ k < 2 ^ w :=
    Nat.lt_of_le_of_lt (Nat.div_mul_le_self _ _) word.isLt
  rw [cleared, BitVec.toNat_shiftLeft, BitVec.toNat_ushiftRight, Nat.shiftRight_eq_div_pow,
    Nat.shiftLeft_eq, Nat.mod_eq_of_lt bound]

/-- The quotient rounded up gives the least multiple that is not below a number. -/
theorem isLeast_ceilDiv {size : Nat} (positive : 0 < size) (value : Nat) :
    IsLeast {n | size ∣ n ∧ value ≤ n} (size * (value ⌈/⌉ size)) := by
  constructor
  · exact ⟨Nat.dvd_mul_right _ _, (ceilDiv_le_iff_le_mul positive).mp (Nat.le_refl _)⟩
  · rintro _ ⟨⟨count, rfl⟩, above⟩
    exact Nat.mul_le_mul_left _ ((ceilDiv_le_iff_le_mul positive).mpr above)

/-- The next value of a counter that starts again at a bound. -/
def cycle (bound value : Nat) : Nat := if value + 1 < bound then value + 1 else 0

section Cycle

variable {bound start : Nat}

/-- Below the bound a step adds one modulo the bound. -/
theorem cycle_eq (below : start < bound) : cycle bound start = (start + 1) % bound := by
  rw [cycle]
  by_cases inside : start + 1 < bound
  · rw [if_pos inside, Nat.mod_eq_of_lt inside]
  · have last : start + 1 = bound := Nat.le_antisymm below (Nat.not_lt.mp inside)
    rw [if_neg inside, last, Nat.mod_self]

/-- Below the bound several steps add their number modulo the bound. -/
theorem cycle_iterate (below : start < bound) (count : Nat) :
    (cycle bound)^[count] start = (start + count) % bound := by
  induction count with
  | zero => exact (Nat.mod_eq_of_lt below).symm
  | succ count ih =>
    have least : (start + count) % bound < bound := Nat.mod_lt _ (Nat.zero_lt_of_lt below)
    rw [Function.iterate_succ_apply', ih, cycle_eq least, Nat.mod_add_mod, Nat.add_assoc]

/-- Each value below the bound comes once in as many steps. -/
theorem cycle_visits (below : start < bound) {value : Nat} (inside : value < bound) :
    ∃! count, count < bound ∧ (cycle bound)^[count] start = value := by
  refine ⟨(value + (bound - start)) % bound, ⟨Nat.mod_lt _ (Nat.zero_lt_of_lt below), ?_⟩, ?_⟩
  · rw [cycle_iterate below, Nat.add_mod_mod, Nat.add_left_comm,
      Nat.add_sub_cancel' (Nat.le_of_lt below), Nat.add_mod_right, Nat.mod_eq_of_lt inside]
  · rintro count ⟨least, rfl⟩
    rw [cycle_iterate below, Nat.mod_add_mod, Nat.add_right_comm,
      Nat.add_sub_cancel' (Nat.le_of_lt below), Nat.add_mod_left, Nat.mod_eq_of_lt least]

end Cycle

end Rounding
