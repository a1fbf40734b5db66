import PerfVerif.Lib.Memory
import Mathlib.Algebra.Group.Nat.Defs
import Mathlib.Data.List.Induction

/-!
# Bit arrays in memory

The bits from an address on are numbered from the left: bit `n` has weight `2 ^ (7 - n % 8)` in
byte `n / 8`. Memory from the address on and the bits determine each other, so an operation on
bytes is known by what it does to the bits. A set of numbers is encoded by the bytes whose bits
they are.
-/

namespace BitArray

/-- The bit with this number. -/
def bit (memory : Nat → UInt8) (addr n : Nat) : Bool :=
  (memory (addr + n / 8)).toNat.testBit (7 - n % 8)

/-- The number with these digits to base two, the highest in front. -/
def ofDigits (digits : List Bool) : Nat :=
  digits.foldl (fun value digit => 2 * value + digit.toNat) 0

/-- The byte with these bits, the first of them in front. -/
def encodeByte (bits : Nat → Bool) (index : Nat) : UInt8 :=
  UInt8.ofNat (ofDigits ((List.range 8).map fun j => bits (8 * index + j)))

/-- The big-endian encoding of a number of bits, in bytes. -/
def encode (bits : Nat → Bool) (length : Nat) : List UInt8 :=
  (List.range length).map (encodeByte bits)

section Bytes

variable {memory other : Nat → UInt8} {addr : Nat}

/-- Eight bits determine a byte. -/
theorem byte_ext {a b : UInt8} (same : ∀ j < 8, a.toNat.testBit j = b.toNat.testBit j) :
    a = b := by
  apply UInt8.toNat_inj.mp
  apply Nat.eq_of_testBit_eq
  intro j
  by_cases small : j < 8
  · exact same j small
  · have high : 2 ^ 8 ≤ 2 ^ j := Nat.pow_le_pow_right (by decide) (Nat.le_of_not_lt small)
    rw [Nat.testBit_lt_two_pow (Nat.lt_of_lt_of_le a.toNat_lt high),
      Nat.testBit_lt_two_pow (Nat.lt_of_lt_of_le b.toNat_lt high)]

/-- A bit of a byte, by the numbers of both. -/
theorem bit_of_byte (memory : Nat → UInt8) (addr index : Nat) {j : Nat} (small : j < 8) :
    bit memory addr (8 * index + (7 - j)) = (memory (addr + index)).toNat.testBit j := by
  have byte : (8 * index + (7 - j)) / 8 = index := by omega
  have place : 7 - (8 * index + (7 - j)) % 8 = j := by omega
  rw [bit, byte, place]

/-- Memories with the same bits have the same bytes. -/
theorem byte_eq_of_bits {index : Nat}
    (same : ∀ n, n / 8 = index → bit memory addr n = bit other addr n) :
    memory (addr + index) = other (addr + index) := by
  apply byte_ext
  intro j small
  rw [← bit_of_byte memory addr index small, ← bit_of_byte other addr index small]
  exact same _ (by omega)

/-- Memories that agree in front of the address and in all bits are the same. -/
theorem eq_of_bits (front : ∀ address < addr, memory address = other address)
    (same : bit memory addr = bit other addr) : memory = other := by
  funext address
  by_cases before : address < addr
  · exact front address before
  · have split : address = addr + (address - addr) := by omega
    rw [split]
    exact byte_eq_of_bits fun n _ => congrFun same n

/-- The digits of a number from the back are its bits. -/
theorem testBit_ofDigits (digits : List Bool) (j : Nat) :
    (ofDigits digits).testBit j = digits.reverse[j]?.getD false := by
  induction digits using List.reverseRecOn generalizing j with
  | nil => simp [ofDigits]
  | append_singleton front last ih =>
    have step : ofDigits (front ++ [last]) = 2 * ofDigits front + last.toNat := by
      simp [ofDigits]
    have small := last.toNat_lt
    rw [step, List.reverse_append, List.reverse_singleton, List.singleton_append]
    cases j with
    | zero =>
      rw [Nat.testBit_zero, List.getElem?_cons_zero, Option.getD_some, Nat.mul_add_mod]
      cases last <;> rfl
    | succ j =>
      have half : (2 * ofDigits front + last.toNat) / 2 = ofDigits front := by omega
      rw [Nat.testBit_add_one, half, ih, List.getElem?_cons_succ]

/-- The first bit of an encoded byte has the highest weight. -/
theorem testBit_encodeByte (bits : Nat → Bool) (index : Nat) {j : Nat} (small : j < 8) :
    (encodeByte bits index).toNat.testBit j = bits (8 * index + (7 - j)) := by
  rw [encodeByte, UInt8.toNat_ofNat', Nat.testBit_mod_two_pow, decide_eq_true small,
    Bool.true_and, testBit_ofDigits, List.getElem?_reverse (by simpa using small)]
  simp only [List.length_map, List.length_range, List.getElem?_map]
  rw [List.getElem?_range (by omega)]
  rfl

/-- A block of memory is the encoding of the bits that it has. -/
theorem load_eq_encode {bits : Nat → Bool} {length : Nat}
    (same : ∀ n < 8 * length, bit memory addr n = bits n) :
    Memory.load memory addr length = encode bits length := by
  rw [Memory.load, encode, List.range'_eq_map_range, List.map_map]
  apply List.map_congr_left
  intro index member
  have inside := List.mem_range.mp member
  apply byte_ext
  intro j small
  rw [testBit_encodeByte _ _ small, ← same _ (by omega), bit_of_byte memory addr index small]
  rfl

end Bytes

end BitArray
