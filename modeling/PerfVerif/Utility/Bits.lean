import PerfVerif.Lib.BitArray
import Mathlib.Data.Finset.Basic

/-!
# The bit helpers

`set_bit`, `clr_bit` and `test_bit` count bits from the left. Each of them computes its mask and
the address of its byte. Bytes are promoted to a 32-bit `int` before an operation, and the result
is converted back when it is stored.
-/

namespace PerfVerif.Utility

open BitArray (bit)

/-- The integer promotion of a byte. -/
def promote (byte : UInt8) : BitVec 32 := byte.toBitVec.setWidth 32

/-- The conversion of an `int` to a byte. -/
def narrow (value : BitVec 32) : UInt8 := ⟨value.setWidth 8⟩

/-- `(uint8_t(1) << 7) >> (nr & 7)`. -/
def mask (nr : UInt32) : UInt8 := narrow ((promote 1 <<< 7).sshiftRight (nr &&& 7).toNat)

/-- The address of the byte with this bit. -/
def byteOf (addr : Nat) (nr : UInt32) : Nat := addr + (nr >>> 3).toNat

/-- Store a byte. -/
def put (memory : Nat → UInt8) (address : Nat) (byte : UInt8) : Nat → UInt8 :=
  Function.update memory address byte

/-- `set_bit(addr, nr)`. -/
def setBit (memory : Nat → UInt8) (addr : Nat) (nr : UInt32) : Nat → UInt8 :=
  let p := byteOf addr nr
  put memory p (narrow (promote (memory p) ||| promote (mask nr)))

/-- The integer promotion of a `bool`. -/
def promoteBool (set : Bool) : BitVec 32 := if set then 1 else 0

/-- `set_bit(addr, nr, set)`. -/
def setBitTo (memory : Nat → UInt8) (addr : Nat) (nr : UInt32) (set : Bool) : Nat → UInt8 :=
  let p := byteOf addr nr
  put memory p (narrow ((promote (memory p) &&& ~~~promote (mask nr)) |||
    (-promoteBool set &&& promote (mask nr))))

/-- `clr_bit(addr, nr)`. -/
def clrBit (memory : Nat → UInt8) (addr : Nat) (nr : UInt32) : Nat → UInt8 :=
  let p := byteOf addr nr
  put memory p (narrow (promote (memory p) &&& ~~~promote (mask nr)))

/-- `test_bit(addr, nr)`. -/
def testBit (memory : Nat → UInt8) (addr : Nat) (nr : UInt32) : Bool :=
  promote (memory (byteOf addr nr)) &&& promote (mask nr) != 0#32

/-- A call of one of the helpers that change a bit. -/
inductive Update where
  | set (nr : UInt32)
  | setTo (nr : UInt32) (flag : Bool)
  | clr (nr : UInt32)
  deriving DecidableEq, Repr

/-- The bit that is changed. -/
def Update.nr : Update → UInt32
  | .set nr => nr
  | .setTo nr _ => nr
  | .clr nr => nr

/-- The value that the bit gets. -/
def Update.value : Update → Bool
  | .set _ => true
  | .setTo _ flag => flag
  | .clr _ => false

/-- The memory after the call. -/
def Update.apply (addr : Nat) (memory : Nat → UInt8) : Update → Nat → UInt8
  | .set nr => setBit memory addr nr
  | .setTo nr flag => setBitTo memory addr nr flag
  | .clr nr => clrBit memory addr nr

/-- The memory after several calls. -/
def applyAll (addr : Nat) (memory : Nat → UInt8) (updates : List Update) : Nat → UInt8 :=
  updates.foldl (Update.apply addr) memory

/-- The set of bit numbers after a call. -/
def Update.toSet (numbers : Finset Nat) (update : Update) : Finset Nat :=
  if update.value then insert update.nr.toNat numbers else numbers.erase update.nr.toNat

section Masks

/-- The byte is the one that the number divided by eight says. -/
theorem byteOf_eq (addr : Nat) (nr : UInt32) : byteOf addr nr = addr + nr.toNat / 8 := by
  rw [byteOf, UInt32.toNat_shiftRight, Nat.shiftRight_eq_div_pow]
  rfl

/-- The shift is the remainder of the number. -/
theorem shift_eq (nr : UInt32) : (nr &&& 7).toNat = nr.toNat % 8 := by
  rw [UInt32.toNat_and]
  exact Nat.and_two_pow_sub_one_eq_mod nr.toNat 3

/-- The shifted masks have one bit. -/
theorem getLsbD_shifted :
    ∀ k < 8, ∀ j < 8, ((promote 1 <<< 7).sshiftRight k).getLsbD j = decide (j = 7 - k) := by
  decide

/-- The mask has the bit of the number and no other. -/
theorem testBit_mask (nr : UInt32) {j : Nat} (small : j < 8) :
    (mask nr).toNat.testBit j = decide (j = 7 - nr.toNat % 8) := by
  change ((_ : BitVec 32).setWidth 8).getLsbD j = _
  rw [BitVec.getLsbD_setWidth, decide_eq_true small, Bool.true_and, shift_eq]
  exact getLsbD_shifted _ (Nat.mod_lt _ (by decide)) j small

/-- A promoted byte has the bits of the byte. -/
theorem getLsbD_promote (byte : UInt8) {j : Nat} (small : j < 8) :
    (promote byte).getLsbD j = byte.toNat.testBit j := by
  rw [promote, BitVec.getLsbD_setWidth, decide_eq_true (Nat.lt_trans small (by decide)),
    Bool.true_and]
  rfl

/-- The complement of a promoted byte has the other bits. -/
theorem getLsbD_not_promote (byte : UInt8) {j : Nat} (small : j < 8) :
    (~~~promote byte).getLsbD j = !byte.toNat.testBit j := by
  rw [BitVec.getLsbD_not, getLsbD_promote _ small, decide_eq_true (Nat.lt_trans small (by decide)),
    Bool.true_and]

/-- The conversion to a byte keeps the lowest bits. -/
theorem testBit_narrow (value : BitVec 32) {j : Nat} (small : j < 8) :
    (narrow value).toNat.testBit j = value.getLsbD j := by
  change (value.setWidth 8).getLsbD j = _
  rw [BitVec.getLsbD_setWidth, decide_eq_true small, Bool.true_and]

/-- The negative of a promoted `bool` has the bit everywhere. -/
theorem getLsbD_neg_promoteBool (set : Bool) {j : Nat} (small : j < 8) :
    (-promoteBool set).getLsbD j = set := by
  have each : ∀ set, ∀ j < 8, (-promoteBool set).getLsbD j = set := by decide
  exact each set j small

end Masks

section Laws

variable {memory : Nat → UInt8} {addr : Nat}

/-- A byte that differs only under the mask changes the bit of the number and no other. -/
theorem bit_put {nr : UInt32} {byte : UInt8} {value : Bool}
    (differs : ∀ j < 8, byte.toNat.testBit j =
      if (mask nr).toNat.testBit j then value else (memory (byteOf addr nr)).toNat.testBit j) :
    bit (put memory (byteOf addr nr) byte) addr =
      Function.update (bit memory addr) nr.toNat value := by
  funext n
  rw [byteOf_eq] at differs ⊢
  by_cases same : n / 8 = nr.toNat / 8
  · rw [bit, put, same, Function.update_self, differs _ (by omega), testBit_mask nr (by omega)]
    by_cases equal : n = nr.toNat
    · rw [if_pos (by rw [equal, decide_eq_true rfl]), equal, Function.update_self]
    · rw [decide_eq_false (by omega), if_neg Bool.false_ne_true, Function.update_of_ne equal, bit,
        same]
  · have other : n ≠ nr.toNat := fun equal => same (congrArg (· / 8) equal)
    rw [bit, put, Function.update_of_ne (by omega), Function.update_of_ne other, bit]

/-- `set_bit` without a flag sets the bit. -/
theorem bit_setBit (memory : Nat → UInt8) (addr : Nat) (nr : UInt32) :
    bit (setBit memory addr nr) addr = Function.update (bit memory addr) nr.toNat true := by
  apply bit_put
  intro j small
  rw [testBit_narrow _ small, BitVec.getLsbD_or, getLsbD_promote _ small, getLsbD_promote _ small]
  cases (mask nr).toNat.testBit j with
  | true => rw [if_pos rfl, Bool.or_true]
  | false => rw [if_neg Bool.false_ne_true, Bool.or_false]

/-- `set_bit` with a flag gives the bit its value. -/
theorem bit_setBitTo (memory : Nat → UInt8) (addr : Nat) (nr : UInt32) (set : Bool) :
    bit (setBitTo memory addr nr set) addr = Function.update (bit memory addr) nr.toNat set := by
  apply bit_put
  intro j small
  rw [testBit_narrow _ small, BitVec.getLsbD_or, BitVec.getLsbD_and, BitVec.getLsbD_and,
    getLsbD_not_promote _ small, getLsbD_promote _ small, getLsbD_promote _ small,
    getLsbD_neg_promoteBool set small]
  cases (mask nr).toNat.testBit j with
  | true => rw [if_pos rfl, Bool.not_true, Bool.and_false, Bool.false_or, Bool.and_true]
  | false =>
    rw [if_neg Bool.false_ne_true, Bool.not_false, Bool.and_true, Bool.and_false, Bool.or_false]

/-- `clr_bit` clears the bit. -/
theorem bit_clrBit (memory : Nat → UInt8) (addr : Nat) (nr : UInt32) :
    bit (clrBit memory addr nr) addr = Function.update (bit memory addr) nr.toNat false := by
  apply bit_put
  intro j small
  rw [testBit_narrow _ small, BitVec.getLsbD_and, getLsbD_not_promote _ small,
    getLsbD_promote _ small]
  cases (mask nr).toNat.testBit j with
  | true => rw [if_pos rfl, Bool.not_true, Bool.and_false]
  | false => rw [if_neg Bool.false_ne_true, Bool.not_false, Bool.and_true]

/-- What `test_bit` compares with zero has at most the bit of the number. -/
theorem getLsbD_tested (byte : UInt8) (nr : UInt32) (j : Nat) :
    (promote byte &&& promote (mask nr)).getLsbD j =
      (decide (j = 7 - nr.toNat % 8) && byte.toNat.testBit j) := by
  rw [BitVec.getLsbD_and]
  by_cases small : j < 8
  · rw [getLsbD_promote _ small, getLsbD_promote _ small, testBit_mask nr small, Bool.and_comm]
  · have high : (promote (mask nr)).getLsbD j = false := by
      rw [promote, BitVec.getLsbD_setWidth, BitVec.getLsbD_of_ge _ _ (Nat.le_of_not_lt small),
        Bool.and_false]
    have place : j ≠ 7 - nr.toNat % 8 := by omega
    rw [high, decide_eq_false place, Bool.and_false, Bool.false_and]

/-- `test_bit` returns the bit. -/
theorem testBit_eq (memory : Nat → UInt8) (addr : Nat) (nr : UInt32) :
    testBit memory addr nr = bit memory addr nr.toNat := by
  rw [testBit, byteOf_eq, bit]
  have tested := getLsbD_tested (memory (addr + nr.toNat / 8)) nr
  cases value : (memory (addr + nr.toNat / 8)).toNat.testBit (7 - nr.toNat % 8) with
  | true =>
    have here := tested (7 - nr.toNat % 8)
    rw [value, decide_eq_true rfl, Bool.and_true] at here
    apply bne_iff_ne.mpr
    intro zero
    rw [zero, BitVec.getLsbD_zero] at here
    contradiction
  | false =>
    apply bne_eq_false_iff_eq.mpr
    apply BitVec.eq_of_getLsbD_eq
    intro j _
    rw [tested j, BitVec.getLsbD_zero]
    by_cases place : j = 7 - nr.toNat % 8
    · rw [place, value, Bool.and_false]
    · rw [decide_eq_false place, Bool.false_and]

/-- A call changes the bit of its number and no other. -/
theorem bit_apply (update : Update) (memory : Nat → UInt8) (addr : Nat) :
    bit (update.apply addr memory) addr =
      Function.update (bit memory addr) update.nr.toNat update.value := by
  cases update with
  | set nr => exact bit_setBit memory addr nr
  | setTo nr flag => exact bit_setBitTo memory addr nr flag
  | clr nr => exact bit_clrBit memory addr nr

/-- A call writes no byte but that of its bit. -/
theorem apply_outside (update : Update) (memory : Nat → UInt8) {address : Nat}
    (outside : address ≠ addr + update.nr.toNat / 8) :
    update.apply addr memory address = memory address := by
  cases update with
  | set nr => exact Function.update_of_ne (byteOf_eq addr nr ▸ outside) _ _
  | setTo nr flag => exact Function.update_of_ne (byteOf_eq addr nr ▸ outside) _ _
  | clr nr => exact Function.update_of_ne (byteOf_eq addr nr ▸ outside) _ _

/-- A call writes no byte in front of the buffer. -/
theorem apply_front (update : Update) (memory : Nat → UInt8) {address : Nat}
    (early : address < addr) : update.apply addr memory address = memory address :=
  apply_outside update memory (by omega)

/-- Calls that do the same to the bits do the same to the memory. -/
theorem apply_eq_of_bits {before other : Nat → UInt8} {left right : Update}
    (front : ∀ address < addr, before address = other address)
    (same : bit (left.apply addr before) addr = bit (right.apply addr other) addr) :
    left.apply addr before = right.apply addr other := by
  apply BitArray.eq_of_bits
  · intro address early
    rw [apply_front left before early, apply_front right other early]
    exact front address early
  · exact same

/-- Calls for different bits commute. -/
theorem apply_comm (left right : Update) (memory : Nat → UInt8) (addr : Nat)
    (different : left.nr ≠ right.nr) :
    right.apply addr (left.apply addr memory) = left.apply addr (right.apply addr memory) := by
  have numbers : left.nr.toNat ≠ right.nr.toNat := fun same => different (UInt32.toNat_inj.mp same)
  apply apply_eq_of_bits
  · intro address early
    rw [apply_front left memory early, apply_front right memory early]
  · rw [bit_apply, bit_apply, bit_apply, bit_apply, Function.update_comm numbers]

/-- `set_bit` with a true flag is `set_bit` without one. -/
theorem setBitTo_true (memory : Nat → UInt8) (addr : Nat) (nr : UInt32) :
    setBitTo memory addr nr true = setBit memory addr nr := by
  apply @apply_eq_of_bits addr memory memory (.setTo nr true) (.set nr) (fun _ _ => rfl)
  rw [bit_apply, bit_apply]
  rfl

/-- `set_bit` with a false flag is `clr_bit`. -/
theorem setBitTo_false (memory : Nat → UInt8) (addr : Nat) (nr : UInt32) :
    setBitTo memory addr nr false = clrBit memory addr nr := by
  apply @apply_eq_of_bits addr memory memory (.setTo nr false) (.clr nr) (fun _ _ => rfl)
  rw [bit_apply, bit_apply]
  rfl

/-- After a call `test_bit` returns the value given for the bit of the call, and what it returned
before for any other. -/
theorem testBit_apply (update : Update) (memory : Nat → UInt8) (addr : Nat) (nr : UInt32) :
    testBit (update.apply addr memory) addr nr =
      if nr = update.nr then update.value else testBit memory addr nr := by
  rw [testBit_eq, testBit_eq, bit_apply, Function.update_apply]
  simp only [UInt32.toNat_inj]

/-- Calls for different bits can be made in any order. -/
theorem applyAll_perm {updates other : List Update} (memory : Nat → UInt8) (addr : Nat)
    (reordered : updates.Perm other) (different : (updates.map Update.nr).Nodup) :
    applyAll addr memory updates = applyAll addr memory other := by
  apply reordered.foldl_eq'
  intro first firstMember second secondMember memory
  by_cases same : first = second
  · rw [same]
  · apply apply_comm
    intro equal
    exact same (List.inj_on_of_nodup_map different firstMember secondMember equal)

/-- A call changes the set of bit numbers as it changes the bits. -/
theorem mem_toSet (update : Update) (numbers : Finset Nat) (n : Nat) :
    decide (n ∈ update.toSet numbers) =
      if n = update.nr.toNat then update.value else decide (n ∈ numbers) := by
  rw [Update.toSet]
  by_cases same : n = update.nr.toNat
  · cases value : update.value with
    | true => simp [same]
    | false => simp [same]
  · cases value : update.value with
    | true => simp [same]
    | false => simp [same]

/-- After some calls the bits of the buffer are those of the resulting set. -/
theorem applyAll_bits {length : Nat} (updates : List Update) (memory : Nat → UInt8)
    (numbers : Finset Nat) (represents : ∀ n < 8 * length, bit memory addr n = decide (n ∈ numbers)) :
    ∀ n < 8 * length, bit (applyAll addr memory updates) addr n =
      decide (n ∈ updates.foldl Update.toSet numbers) := by
  induction updates generalizing memory numbers with
  | nil => exact represents
  | cons update rest ih =>
    apply ih (update.apply addr memory) (update.toSet numbers)
    intro n below
    rw [bit_apply, Function.update_apply, represents n below, mem_toSet]

/-- Calls for bits of a buffer change nothing outside of it. -/
theorem applyAll_outside {length : Nat} (updates : List Update)
    (inside : ∀ update ∈ updates, update.nr.toNat < 8 * length) (memory : Nat → UInt8)
    (address : Nat) (outside : address < addr ∨ addr + length ≤ address) :
    applyAll addr memory updates address = memory address := by
  induction updates generalizing memory with
  | nil => rfl
  | cons update rest ih =>
    have ⟨first, others⟩ := List.forall_mem_cons.mp inside
    exact (ih others (update.apply addr memory)).trans (apply_outside update memory (by omega))

/-- A zeroed buffer has no bit. -/
theorem bit_zeroed {length : Nat}
    (zeroed : Memory.load memory addr length = List.replicate length 0) :
    ∀ n < 8 * length, bit memory addr n = decide (n ∈ (∅ : Finset Nat)) := by
  intro n below
  have byte : n / 8 < length := by omega
  have value : memory (addr + n / 8) = 0 := by
    have same := congrArg (fun bytes : List UInt8 => bytes[n / 8]?) zeroed
    simpa [Memory.load, byte] using same
  rw [bit, value]
  simp

/-- A zeroed buffer becomes the encoding of the resulting set. -/
theorem applyAll_encodes {length : Nat} (updates : List Update)
    (zeroed : Memory.load memory addr length = List.replicate length 0) :
    Memory.load (applyAll addr memory updates) addr length =
      BitArray.encode (fun n => decide (n ∈ updates.foldl Update.toSet ∅)) length :=
  BitArray.load_eq_encode (applyAll_bits updates memory ∅ (bit_zeroed zeroed))

end Laws

/-- The helpers are one array of bits, numbered from the left: each of them changes one bit, the
two forms of `set_bit` agree, the order of changes to different bits does not matter, and a zeroed
buffer becomes the big-endian encoding of the bits that are set. -/
theorem bit_helpers_agree (memory : Nat → UInt8) (addr : Nat) :
    (∀ n m, testBit (setBit memory addr n) addr m = if m = n then true else testBit memory addr m) ∧
      (∀ n flag m, testBit (setBitTo memory addr n flag) addr m =
        if m = n then flag else testBit memory addr m) ∧
      (∀ n m, testBit (clrBit memory addr n) addr m =
        if m = n then false else testBit memory addr m) ∧
      (∀ n, setBitTo memory addr n true = setBit memory addr n ∧
        setBitTo memory addr n false = clrBit memory addr n) ∧
      (∀ updates other, updates.Perm other → (updates.map Update.nr).Nodup →
        applyAll addr memory updates = applyAll addr memory other) ∧
      (∀ n, testBit memory addr n =
        decide ((memory (addr + n.toNat / 8)).toNat / 2 ^ (7 - n.toNat % 8) % 2 = 1)) ∧
      ∀ length updates, (∀ update ∈ updates, update.nr.toNat < 8 * length) →
        (∀ address, (address < addr ∨ addr + length ≤ address) →
          applyAll addr memory updates address = memory address) ∧
        (Memory.load memory addr length = List.replicate length 0 →
          Memory.load (applyAll addr memory updates) addr length =
            BitArray.encode (fun n => decide (n ∈ updates.foldl Update.toSet ∅)) length) := by
  refine ⟨fun n m => testBit_apply (.set n) memory addr m,
    fun n flag m => testBit_apply (.setTo n flag) memory addr m,
    fun n m => testBit_apply (.clr n) memory addr m,
    fun n => ⟨setBitTo_true memory addr n, setBitTo_false memory addr n⟩,
    fun updates other reordered different => applyAll_perm memory addr reordered different, ?_, ?_⟩
  · intro n
    rw [testBit_eq, bit, Nat.testBit_eq_decide_div_mod_eq]
  · intro length updates inside
    exact ⟨applyAll_outside updates inside memory, applyAll_encodes updates⟩

end PerfVerif.Utility
