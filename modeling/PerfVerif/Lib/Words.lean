import Mathlib.Algebra.Group.Nat.Defs
import Mathlib.Data.Nat.Basic

/-!
# Machine words: packing and byte order

Two 32-bit words packed in one 64-bit word, and a 32-bit word as the four bytes a copy of
its storage produces on a host of either byte order.
-/

namespace Words

/-- The high word shifted over the low word is a positional pair. -/
theorem pack_toNat (high low : UInt32) :
    (low.toUInt64 ||| high.toUInt64 <<< 32).toNat = high.toNat * 2 ^ 32 + low.toNat := by
  have highBound := high.toNat_lt
  have lowBound := low.toNat_lt
  have shifted : (high.toUInt64 <<< 32).toNat = high.toNat <<< 32 := by
    rw [UInt64.toNat_shiftLeft, UInt32.toNat_toUInt64]
    change high.toNat <<< 32 % 2 ^ 64 = _
    rw [Nat.shiftLeft_eq]
    exact Nat.mod_eq_of_lt (by omega)
  rw [UInt64.toNat_or, shifted, UInt32.toNat_toUInt64, Nat.or_comm,
    ← Nat.shiftLeft_add_eq_or_of_lt lowBound, Nat.shiftLeft_eq]

/-- The shifted-out high word is the quotient. -/
theorem high_toNat (word : UInt64) : (word >>> 32).toUInt32.toNat = word.toNat / 2 ^ 32 := by
  have bound := word.toNat_lt
  rw [UInt64.toNat_toUInt32, UInt64.toNat_shiftRight]
  change word.toNat >>> 32 % 2 ^ 32 = _
  rw [Nat.shiftRight_eq_div_pow]
  exact Nat.mod_eq_of_lt (by omega)

/-- The masked low word is the remainder. -/
theorem low_toNat (word : UInt64) :
    (word &&& 0xFFFFFFFF).toUInt32.toNat = word.toNat % 2 ^ 32 := by
  rw [UInt64.toNat_toUInt32, UInt64.toNat_and]
  change (word.toNat &&& (2 ^ 32 - 1)) % 2 ^ 32 = _
  rw [Nat.and_two_pow_sub_one_eq_mod, Nat.mod_mod]

/-- The order in which the bytes of a word lie in memory. -/
inductive ByteOrder where
  | little
  | big
  deriving DecidableEq, Repr

/-- The bytes of a word from the least significant one. -/
def digits (word : UInt32) : List UInt8 :=
  [word.toUInt8, (word >>> 8).toUInt8, (word >>> 16).toUInt8, (word >>> 24).toUInt8]

/-- The word of a list of bytes from the least significant one. -/
def ofDigits (bytes : List UInt8) : UInt32 :=
  UInt32.ofNat (bytes.foldr (fun byte rest => byte.toNat + 256 * rest) 0)

/-- The four bytes of a word in memory order. -/
def ByteOrder.encode : ByteOrder → UInt32 → List UInt8
  | .little, word => digits word
  | .big, word => (digits word).reverse

/-- The word that bytes in memory order denote. -/
def ByteOrder.decode : ByteOrder → List UInt8 → UInt32
  | .little, bytes => ofDigits bytes
  | .big, bytes => ofDigits bytes.reverse

/-- The digits of a word denote it. -/
theorem ofDigits_digits (word : UInt32) : ofDigits (digits word) = word := by
  have bound := word.toNat_lt
  apply UInt32.toNat.inj
  simp only [ofDigits, digits, List.foldr_cons, List.foldr_nil, UInt32.toNat_ofNat',
    UInt32.toNat_toUInt8, UInt32.toNat_shiftRight]
  change (word.toNat % 256 + 256 * (word.toNat >>> 8 % 256 + 256 * (word.toNat >>> 16 % 256 +
    256 * (word.toNat >>> 24 % 256 + 256 * 0)))) % 2 ^ 32 = word.toNat
  simp only [Nat.shiftRight_eq_div_pow]
  omega

/-- Every word takes four bytes. -/
@[simp] theorem ByteOrder.length_encode (order : ByteOrder) (word : UInt32) :
    (order.encode word).length = 4 := by
  cases order <;> rfl

/-- A host reads back the word it stored. -/
@[simp] theorem ByteOrder.decode_encode (order : ByteOrder) (word : UInt32) :
    order.decode (order.encode word) = word := by
  cases order with
  | little => exact ofDigits_digits word
  | big =>
    simp only [encode, decode, List.reverse_reverse]
    exact ofDigits_digits word

end Words
