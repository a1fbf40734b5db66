import PerfVerif.Lib.Rounding

/-!
# The rounding helpers

`align_up` rounds a size up to a multiple of a power of two with a mask, and `round_robin` counts
round below a bound. Both compute in the machine words of their arguments.
-/

namespace PerfVerif.Utility

open Rounding (cycle)

/-- A `Size` that the compile-time assertion of `align_up` accepts. -/
structure Alignment where
  size : UInt64
  powerOfTwo : size &&& (size - 1) = 0

/-- `align_up`. -/
def alignUp (alignment : Alignment) (value : UInt64) : UInt64 :=
  (value + (alignment.size - 1)) &&& ~~~(alignment.size - 1)

/-- `round_robin` on an unsigned type, with the cast of `maxValue` to it. -/
def roundRobin {w : Nat} (maxValue : Nat) (data : BitVec w) : BitVec w :=
  let data := data + 1
  if BitVec.ofNat w maxValue ≤ data then 0 else data

section Align

/-- The assertion accepts the powers of two and zero. -/
theorem Alignment.size_cases (alignment : Alignment) :
    alignment.size = 0 ∨ ∃ k, alignment.size.toNat = 2 ^ k := by
  by_cases zero : alignment.size = 0
  · exact Or.inl zero
  · have positive : alignment.size.toNat ≠ 0 := fun none => zero (UInt64.toNat_inj.mp none)
    have accepted := congrArg UInt64.toNat alignment.powerOfTwo
    have least : (1 : UInt64) ≤ alignment.size := Nat.pos_of_ne_zero positive
    rw [UInt64.toNat_and, UInt64.toNat_sub_of_le _ _ least] at accepted
    exact Or.inr ((Nat.and_sub_one_eq_zero_iff_isPowerOfTwo positive).mp accepted)

/-- With a power of two the sum is rounded down. -/
theorem toNat_alignUp {alignment : Alignment} {k : Nat} (size : alignment.size.toNat = 2 ^ k)
    (value : UInt64) :
    (alignUp alignment value).toNat = (value.toNat + (2 ^ k - 1)) % 2 ^ 64 / 2 ^ k * 2 ^ k := by
  have least : (1 : UInt64) ≤ alignment.size := by
    change 1 ≤ alignment.size.toNat
    rw [size]
    exact Nat.two_pow_pos k
  have rest : (alignment.size - 1).toNat = 2 ^ k - 1 := by
    rw [UInt64.toNat_sub_of_le _ _ least, size]
    rfl
  have low : (alignment.size - 1).toBitVec = BitVec.ofNat 64 (2 ^ k - 1) := by
    apply BitVec.eq_of_toNat_eq
    rw [BitVec.toNat_ofNat, ← rest, UInt64.toNat_toBitVec, Nat.mod_eq_of_lt (UInt64.toNat_lt _)]
  change ((value + (alignment.size - 1)).toBitVec &&& ~~~(alignment.size - 1).toBitVec).toNat = _
  rw [low, Rounding.toNat_clear, UInt64.toNat_toBitVec, UInt64.toNat_add, rest]

/-- Where the sum fits into a word, the quotient is rounded up. -/
theorem toNat_alignUp_of_le {alignment : Alignment} {k : Nat}
    (size : alignment.size.toNat = 2 ^ k) {value : UInt64}
    (fits : value.toNat + 2 ^ k ≤ 2 ^ 64) :
    (alignUp alignment value).toNat = 2 ^ k * (value.toNat ⌈/⌉ 2 ^ k) := by
  have positive : 0 < 2 ^ k := Nat.two_pow_pos k
  have small : value.toNat + (2 ^ k - 1) < 2 ^ 64 := by omega
  rw [toNat_alignUp size, Nat.mod_eq_of_lt small, Nat.ceilDiv_eq_add_pred_div, Nat.mul_comm,
    Nat.add_sub_assoc positive]

/-- Where the sum wraps around, nothing is left of it but zero. -/
theorem toNat_alignUp_of_lt {alignment : Alignment} {k : Nat}
    (size : alignment.size.toNat = 2 ^ k) {value : UInt64}
    (wraps : 2 ^ 64 < value.toNat + 2 ^ k) : (alignUp alignment value).toNat = 0 := by
  have word := value.toNat_lt
  have least : 2 ^ 64 ≤ value.toNat + (2 ^ k - 1) := by omega
  have width : 2 ^ k < 2 ^ 64 := size ▸ alignment.size.toNat_lt
  have left : value.toNat + (2 ^ k - 1) - 2 ^ 64 < 2 ^ k := by omega
  rw [toNat_alignUp size, Nat.mod_eq_sub_mod least, Nat.mod_eq_of_lt (Nat.lt_trans left width),
    Nat.div_eq_of_lt left, Nat.zero_mul]

/-- The values for which there is a least multiple and it fits a word. -/
def Alignment.Reaches (alignment : Alignment) (value : UInt64) : Prop :=
  value = 0 ∨ alignment.size ≠ 0 ∧ value.toNat + alignment.size.toNat ≤ 2 ^ 64

/-- The zero of a `Size` that is zero masks every value. -/
theorem alignUp_of_zero {alignment : Alignment} (zero : alignment.size = 0) (value : UInt64) :
    alignUp alignment value = 0 := by
  rw [alignUp, zero, show ~~~((0 : UInt64) - 1) = 0 by decide, UInt64.and_zero]

/-- `align_up` gives the least multiple where there is one that fits a word. -/
theorem isLeast_alignUp {alignment : Alignment} {value : UInt64}
    (reaches : alignment.Reaches value) :
    IsLeast {n | alignment.size.toNat ∣ n ∧ value.toNat ≤ n} (alignUp alignment value).toNat := by
  rcases alignment.size_cases with zero | ⟨k, size⟩
  · obtain rfl : value = 0 := reaches.resolve_right fun other => other.1 zero
    rw [alignUp_of_zero zero, zero]
    exact ⟨⟨Nat.dvd_refl 0, Nat.le_refl 0⟩, fun _ _ => Nat.zero_le _⟩
  · have positive : 0 < 2 ^ k := Nat.two_pow_pos k
    have fits : value.toNat + 2 ^ k ≤ 2 ^ 64 := by
      rcases reaches with rfl | ⟨-, fits⟩
      · have width := alignment.size.toNat_lt
        rw [size] at width
        change 0 + 2 ^ k ≤ _
        omega
      · exact size ▸ fits
    rw [size, toNat_alignUp_of_le size fits]
    exact Rounding.isLeast_ceilDiv positive _

/-- `align_up` gives zero where no least multiple fits a word. -/
theorem alignUp_eq_zero {alignment : Alignment} {value : UInt64}
    (lost : ¬ alignment.Reaches value) : (alignUp alignment value).toNat = 0 := by
  rcases alignment.size_cases with zero | ⟨k, size⟩
  · rw [alignUp_of_zero zero]
    rfl
  · apply toNat_alignUp_of_lt size
    have ⟨_, wraps⟩ := not_or.mp lost
    have nonzero : alignment.size ≠ 0 := by
      intro zero
      rw [zero] at size
      exact absurd size (Nat.ne_of_lt (Nat.two_pow_pos k))
    rw [← size]
    exact Nat.lt_of_not_le fun fits => wraps ⟨nonzero, fits⟩

end Align

/-- For every `Size` that the assertion accepts, `align_up` gives the least multiple that is not
below the value exactly for the value zero, and with a `Size` that is not zero for the values up to
the last multiple that a word has. For every other value the result is below the value. -/
theorem align_up_least_iff (alignment : Alignment) (value : UInt64) :
    (IsLeast {n | alignment.size.toNat ∣ n ∧ value.toNat ≤ n} (alignUp alignment value).toNat ↔
      value = 0 ∨ alignment.size ≠ 0 ∧ value.toNat + alignment.size.toNat ≤ 2 ^ 64) ∧
    (¬ (value = 0 ∨ alignment.size ≠ 0 ∧ value.toNat + alignment.size.toNat ≤ 2 ^ 64) →
      (alignUp alignment value).toNat < value.toNat) := by
  have below (lost : ¬ alignment.Reaches value) :
      (alignUp alignment value).toNat < value.toNat := by
    rw [alignUp_eq_zero lost]
    exact Nat.pos_of_ne_zero fun none => lost (Or.inl (UInt64.toNat_inj.mp none))
  refine ⟨⟨?_, isLeast_alignUp⟩, below⟩
  intro least
  by_contra lost
  exact absurd least.1.2 (Nat.not_le.mpr (below lost))

section Counting

variable {w : Nat}

/-- Where the cast keeps the bound, a call is a step of the counter, also where the increment wraps
around. -/
theorem toNat_roundRobin {maxValue : Nat} (kept : maxValue < 2 ^ w) (data : BitVec w) :
    (roundRobin maxValue data).toNat = cycle maxValue data.toNat := by
  have bound : (BitVec.ofNat w maxValue).toNat = maxValue := by
    rw [BitVec.toNat_ofNat, Nat.mod_eq_of_lt kept]
  have next : (data + 1).toNat = (data.toNat + 1) % 2 ^ w := by
    rw [BitVec.toNat_add, BitVec.ofNat_eq_ofNat, BitVec.toNat_ofNat, Nat.add_mod_mod]
  have test : BitVec.ofNat w maxValue ≤ data + 1 ↔ maxValue ≤ (data.toNat + 1) % 2 ^ w := by
    rw [BitVec.le_def, bound, next]
  have zero : (0 : BitVec w).toNat = 0 := by
    rw [BitVec.ofNat_eq_ofNat, BitVec.toNat_ofNat, Nat.zero_mod]
  rw [roundRobin, cycle]
  by_cases inside : data.toNat + 1 < maxValue
  · have word := Nat.mod_eq_of_lt (Nat.lt_trans inside kept)
    rw [word] at next test
    rw [if_neg (mt test.mp (Nat.not_le.mpr inside)), if_pos inside, next]
  · rw [if_neg inside]
    by_cases word : data.toNat + 1 < 2 ^ w
    · rw [Nat.mod_eq_of_lt word] at test
      rw [if_pos (test.mpr (Nat.not_lt.mp inside)), zero]
    · -- the increment wraps around, to the zero that the function is to return
      have last : data.toNat + 1 = 2 ^ w := Nat.le_antisymm data.isLt (Nat.not_lt.mp word)
      rw [last, Nat.mod_self] at next
      split
      · exact zero
      · exact next

/-- Where the cast keeps the bound, several calls are as many steps of the counter. -/
theorem toNat_iterate {maxValue : Nat} (kept : maxValue < 2 ^ w) (data : BitVec w) (calls : Nat) :
    ((roundRobin maxValue)^[calls] data).toNat = (cycle maxValue)^[calls] data.toNat := by
  induction calls with
  | zero => rfl
  | succ calls ih =>
    rw [Function.iterate_succ_apply', Function.iterate_succ_apply', toNat_roundRobin kept, ih]

/-- Where the cast loses the bound, some call is no step of the counter. -/
theorem roundRobin_ne_cycle (wide : 0 < w) {maxValue : Nat} (lost : 2 ^ w ≤ maxValue) :
    ∃ data : BitVec w, (roundRobin maxValue data).toNat ≠ cycle maxValue data.toNat := by
  by_cases exact : maxValue = 2 ^ w
  · refine ⟨0, ?_⟩
    have one : 1 < 2 ^ w := Nat.one_lt_two_pow (Nat.ne_of_gt wide)
    have zero : BitVec.ofNat w maxValue = 0 := by
      apply BitVec.eq_of_toNat_eq
      rw [BitVec.toNat_ofNat, exact, Nat.mod_self, BitVec.ofNat_eq_ofNat, BitVec.toNat_ofNat,
        Nat.zero_mod]
    have returned : roundRobin maxValue (0 : BitVec w) = 0 := by
      rw [roundRobin, zero]
      exact if_pos (Nat.zero_le _)
    rw [returned, BitVec.ofNat_eq_ofNat, BitVec.toNat_ofNat, Nat.zero_mod, cycle, Nat.zero_add,
      exact, if_pos one]
    exact Nat.zero_ne_one
  · -- the counter leaves the words
    refine ⟨BitVec.allOnes w, ?_⟩
    have last : (BitVec.allOnes w).toNat + 1 = 2 ^ w := by
      rw [BitVec.toNat_allOnes, Nat.sub_add_cancel (Nat.two_pow_pos w)]
    rw [cycle, last, if_pos (Nat.lt_of_le_of_ne lost (Ne.symm exact))]
    exact Nat.ne_of_lt (BitVec.isLt _)

end Counting

/-- In every run the calls of `round_robin` count up to the bound and start again at zero exactly
when the unsigned type has the bound. Then as many values in a row as the bound are each of those
below it once. -/
theorem round_robin_cycles_iff (w : Nat) (wide : 0 < w) (maxValue : Nat) :
    ((∀ (data : BitVec w) (calls : Nat),
        ((roundRobin maxValue)^[calls] data).toNat = (cycle maxValue)^[calls] data.toNat) ↔
      maxValue < 2 ^ w) ∧
    (maxValue < 2 ^ w → ∀ (data : BitVec w) (calls value : Nat), data.toNat < maxValue →
      value < maxValue → ∃! count, count < maxValue ∧
        ((roundRobin maxValue)^[count + calls] data).toNat = value) := by
  constructor
  · constructor
    · intro counts
      by_contra lost
      obtain ⟨data, differs⟩ := roundRobin_ne_cycle wide (Nat.not_lt.mp lost)
      exact differs (counts data 1)
    · intro kept data calls
      exact toNat_iterate kept data calls
  · intro kept data calls value below inside
    have later : ((roundRobin maxValue)^[calls] data).toNat < maxValue := by
      rw [toNat_iterate kept, Rounding.cycle_iterate below]
      exact Nat.mod_lt _ (Nat.zero_lt_of_lt below)
    have behind (count : Nat) : ((roundRobin maxValue)^[count + calls] data).toNat =
        (cycle maxValue)^[count] ((roundRobin maxValue)^[calls] data).toNat := by
      rw [Function.iterate_add_apply, toNat_iterate kept]
    simp only [behind]
    exact Rounding.cycle_visits later inside

/-- Below three, the two comes once in three calls. -/
theorem round_robin_cycles_iff_three :
    ∃! count, count < 3 ∧ ((roundRobin 3)^[count + 5] (1 : BitVec 32)).toNat = 2 :=
  (round_robin_cycles_iff 32 (by decide) 3).2 (by decide) 1 5 2 (by decide) (by decide)

end PerfVerif.Utility
