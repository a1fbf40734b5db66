import PerfVerif.Aio.Invariant

/-!
# The random buffers

`main` has `buffer_initialize` allocate and fill `BUFFER_COUNT` buffers, and the drivers take the
bytes of each write from one of them. To the drivers a block size is a `long long`;
`buffer_initialize` takes it as an `int` and multiplies it in 32 bits. Addresses are offsets from
the base of the allocation. What `open` and `read` of `/dev/urandom` return is a parameter: the
results of `read` are not looked at, and a read may fail or fall short.
-/

namespace PerfVerif.Buffers

open Aio (toInt toUnsignedLong)

/-- Conversion to a 64-bit `long long`. -/
def toLongLong (value : Int) : Int := value.bmod (2 ^ 64)

/-- `malloc`, which may refuse any size and has no object larger than `PTRDIFF_MAX`. -/
structure Allocator where
  grants : Nat → Bool
  grants_lt : ∀ size, grants size = true → size < 2 ^ 63

/-- `/dev/urandom`: the descriptor from `open`, and what `read` returns for the call of each round
and a number of bytes. This is `-1` or the number of bytes that were read, and `-1` without a
descriptor. -/
structure Device where
  randfd : Int
  read : Nat → Nat → Int
  read_ge : ∀ i nbytes, -1 ≤ read i nbytes
  read_le : ∀ i nbytes, read i nbytes ≤ nbytes
  read_closed : randfd = -1 → ∀ i nbytes, read i nbytes = -1

/-- Each of the reads of a number of bytes delivers all of them. -/
def Device.Complete (device : Device) (bufferCount nbytes : Nat) : Prop :=
  ∀ i < bufferCount, device.read i nbytes = nbytes

/-- The number of buffers and the block size that `main` passes on. -/
structure Config where
  bufferCount : Nat
  blocksize : Nat
  bufferCount_pos : 0 < bufferCount
  bufferCount_lt : bufferCount < 2 ^ 31
  blocksize_pos : 0 < blocksize
  blocksize_lt : blocksize < 2 ^ 63

/-- Consecutive bytes from an offset on. -/
structure Range where
  offset : Int
  nbytes : Nat
  deriving DecidableEq, Repr

/-- The byte belongs to the range. -/
def Range.Contains (range : Range) (byte : Int) : Prop :=
  range.offset ≤ byte ∧ byte < range.offset + range.nbytes

/-- The allocation and what has been read into it. -/
structure Allocation where
  size : Nat
  reads : List Range
  deriving DecidableEq, Repr

/-- The byte is allocated and filled. -/
def Allocation.Initialized (buffers : Allocation) (byte : Int) : Prop :=
  0 ≤ byte ∧ byte < buffers.size ∧ ∃ range ∈ buffers.reads, range.Contains byte

/-- The fill loop: round `i` asks for `bufsize` bytes at `i * bufsize`. -/
def fill (device : Device) (bufsize : Int) (bufferCount : Nat) : List Range :=
  (List.range bufferCount).map fun i : Nat =>
    ⟨toInt (i * bufsize), (device.read i (toUnsignedLong bufsize)).toNat⟩

/-- `buffer_initialize`; `none` when `malloc` returns `NULL`, and when the program ends at the test
of the descriptor, which takes zero for a failure of `open`. -/
def bufferInitialize (malloc : Allocator) (device : Device) (bufferCount : Nat) (bufsize : Int) :
    Option Allocation :=
  let size := toUnsignedLong (toInt (bufferCount * bufsize))
  if malloc.grants size then
    if device.randfd = 0 then none else some ⟨size, fill device bufsize bufferCount⟩
  else none

/-- The call that `main` makes, which converts the block size to an `int`. -/
def Config.allocate (cfg : Config) (malloc : Allocator) (device : Device) : Option Allocation :=
  bufferInitialize malloc device cfg.bufferCount (toInt cfg.blocksize)

/-- The bytes that each of the three drivers writes next, `buffer_number * blocksize` behind the
base, for a value of `rand()`. -/
def Config.source (cfg : Config) (rand : Nat) : Range :=
  ⟨toLongLong ((rand % cfg.bufferCount : Nat) * cfg.blocksize), cfg.blocksize⟩

/-- Whatever `rand()` returns, which is a non-negative `int`, the bytes to write are
initialized. -/
def Config.SourcesInitialized (cfg : Config) (buffers : Allocation) : Prop :=
  ∀ rand < 2 ^ 31, ∀ byte, (cfg.source rand).Contains byte → buffers.Initialized byte

section Allocation

variable {cfg : Config} {malloc : Allocator} {device : Device} {buffers : Allocation}

/-- What a successful `malloc` gives is the 32-bit product, which is not negative. -/
theorem allocate_size (allocated : cfg.allocate malloc device = some buffers) :
    (buffers.size : Int) = toInt (cfg.bufferCount * toInt cfg.blocksize) ∧
      buffers.reads = fill device (toInt cfg.blocksize) cfg.bufferCount := by
  have ⟨least, most⟩ := Aio.toInt_range (cfg.bufferCount * toInt cfg.blocksize)
  obtain ⟨granted, opened⟩ := Option.ite_none_right_eq_some.mp allocated
  obtain ⟨_, filled⟩ := Option.ite_none_left_eq_some.mp opened
  have limit := malloc.grants_lt _ granted
  obtain rfl := Option.some.inj filled
  refine ⟨?_, rfl⟩
  simp only [toUnsignedLong] at limit ⊢
  omega

/-- No allocation has more bytes than an `int` counts. -/
theorem allocate_size_lt (allocated : cfg.allocate malloc device = some buffers) :
    buffers.size < 2 ^ 31 := by
  have ⟨least, most⟩ := Aio.toInt_range (cfg.bufferCount * toInt cfg.blocksize)
  have ⟨size, _⟩ := allocate_size allocated
  omega

/-- One block is not larger than all of them. -/
theorem Config.blocksize_le (cfg : Config) : cfg.blocksize ≤ cfg.bufferCount * cfg.blocksize :=
  Nat.le_mul_of_pos_left _ cfg.bufferCount_pos

/-- Where the product fits an `int`, nothing is lost: the buffers have all the bytes, and each is
filled from its start, as far as the read of its round goes. -/
theorem allocate_exact (allocated : cfg.allocate malloc device = some buffers)
    (fits : cfg.bufferCount * cfg.blocksize < 2 ^ 31) :
    buffers.size = cfg.bufferCount * cfg.blocksize ∧
      ∀ range, range ∈ buffers.reads ↔ ∃ slot < cfg.bufferCount,
        range = ⟨(slot * cfg.blocksize : Nat), (device.read slot cfg.blocksize).toNat⟩ := by
  have ⟨size, reads⟩ := allocate_size allocated
  have block := cfg.blocksize_le
  have bufsize : toInt cfg.blocksize = cfg.blocksize := Aio.toInt_of_range (by omega) (by omega)
  constructor
  · rw [bufsize, ← Int.natCast_mul, Aio.toInt_of_range (by omega) (by omega)] at size
    exact Int.natCast_inj.mp size
  · have count : toUnsignedLong cfg.blocksize = cfg.blocksize := by
      simp only [toUnsignedLong]
      omega
    have round : ∀ slot < cfg.bufferCount, toInt (slot * cfg.blocksize) =
        (slot * cfg.blocksize : Nat) := by
      intro slot inside
      have before : slot * cfg.blocksize ≤ cfg.bufferCount * cfg.blocksize :=
        Nat.mul_le_mul_right _ (Nat.le_of_lt inside)
      rw [← Int.natCast_mul]
      exact Aio.toInt_of_range (by omega) (by omega)
    intro range
    rw [reads, bufsize, fill, List.mem_map]
    constructor
    · rintro ⟨slot, member, rfl⟩
      have inside := List.mem_range.mp member
      exact ⟨slot, inside, by rw [round slot inside, count]⟩
    · rintro ⟨slot, inside, rfl⟩
      exact ⟨slot, List.mem_range.mpr inside, by rw [round slot inside, count]⟩

/-- A number that is small enough is kept. -/
theorem toLongLong_natCast {value : Nat} (inside : value < 2 ^ 63) : toLongLong value = value := by
  simp only [toLongLong, Int.bmod]
  omega

/-- A block whose start fits a `long long` is read from that start. -/
theorem Config.source_eq (cfg : Config) {rand : Nat}
    (fits : rand % cfg.bufferCount * cfg.blocksize < 2 ^ 63) :
    cfg.source rand = ⟨(rand % cfg.bufferCount * cfg.blocksize : Nat), cfg.blocksize⟩ := by
  rw [Config.source, ← Int.natCast_mul, toLongLong_natCast fits]

/-- Where the product fits an `int` and every read is complete, every block to write is one that has
been filled. -/
theorem sources_initialized (allocated : cfg.allocate malloc device = some buffers)
    (fits : cfg.bufferCount * cfg.blocksize < 2 ^ 31)
    (complete : device.Complete cfg.bufferCount cfg.blocksize) :
    cfg.SourcesInitialized buffers := by
  intro rand _ byte contained
  have ⟨size, filled⟩ := allocate_exact allocated fits
  have slot : rand % cfg.bufferCount < cfg.bufferCount := Nat.mod_lt _ cfg.bufferCount_pos
  have last : (rand % cfg.bufferCount + 1) * cfg.blocksize ≤
      cfg.bufferCount * cfg.blocksize := Nat.mul_le_mul_right _ slot
  rw [Nat.succ_mul] at last
  rw [cfg.source_eq (by omega)] at contained
  have member := (filled _).mpr ⟨_, slot, rfl⟩
  rw [complete _ slot, Int.toNat_natCast] at member
  have ⟨least, most⟩ := contained
  dsimp only at least most
  refine ⟨?_, ?_, _, member, contained⟩
  all_goals omega

/-- Where the product fits an `int`, the last byte of a block is filled only by a complete read in
the round of the block. -/
theorem reads_complete (allocated : cfg.allocate malloc device = some buffers)
    (fits : cfg.bufferCount * cfg.blocksize < 2 ^ 31)
    (initialized : cfg.SourcesInitialized buffers) :
    device.Complete cfg.bufferCount cfg.blocksize := by
  intro i inside
  have ⟨_, filled⟩ := allocate_exact allocated fits
  have few := cfg.bufferCount_lt
  have block := cfg.blocksize_pos
  have slot : i % cfg.bufferCount = i := Nat.mod_eq_of_lt inside
  have before : (i + 1) * cfg.blocksize ≤ cfg.bufferCount * cfg.blocksize :=
    Nat.mul_le_mul_right _ inside
  rw [Nat.succ_mul] at before
  have source := @Config.source_eq cfg i (by rw [slot]; omega)
  rw [slot] at source
  have last : (cfg.source i).Contains (i * cfg.blocksize + (cfg.blocksize - 1) : Nat) := by
    rw [source]
    constructor
    all_goals dsimp only
    all_goals omega
  obtain ⟨_, _, range, member, contained⟩ := initialized i (by omega) _ last
  obtain ⟨j, _, rfl⟩ := (filled range).mp member
  have most := device.read_le j cfg.blocksize
  have ⟨starts, ends⟩ := contained
  dsimp only at starts ends
  -- the ranges of other rounds are in front of the block or behind it
  have least : j < i + 1 := by
    apply Nat.lt_of_mul_lt_mul_right (a := cfg.blocksize)
    rw [Nat.succ_mul]
    omega
  have greatest : i < j + 1 := by
    apply Nat.lt_of_mul_lt_mul_right (a := cfg.blocksize)
    rw [Nat.succ_mul]
    omega
  obtain rfl : j = i := by omega
  omega

/-- A block larger than an `int` is not in the buffers, whichever it is. -/
theorem large_block_outside (allocated : cfg.allocate malloc device = some buffers)
    (large : 2 ^ 31 ≤ cfg.blocksize) : ¬ cfg.SourcesInitialized buffers := by
  intro initialized
  have short := allocate_size_lt allocated
  have first := @Config.source_eq cfg 0 (by simp)
  rw [Nat.zero_mod, Nat.zero_mul] at first
  have last : (cfg.source 0).Contains (cfg.blocksize - 1 : Nat) := by
    rw [first]
    constructor
    all_goals dsimp only
    all_goals omega
  have ⟨_, inside, _⟩ := initialized 0 (by decide) _ last
  omega

/-- The last of the buffers does not end in the allocation when the product does not fit. -/
theorem last_block_outside (allocated : cfg.allocate malloc device = some buffers)
    (small : cfg.blocksize < 2 ^ 31) (large : 2 ^ 31 ≤ cfg.bufferCount * cfg.blocksize) :
    ¬ cfg.SourcesInitialized buffers := by
  intro initialized
  have short := allocate_size_lt allocated
  have positive := cfg.bufferCount_pos
  have block := cfg.blocksize_pos
  have few := cfg.bufferCount_lt
  have slot : (cfg.bufferCount - 1) % cfg.bufferCount = cfg.bufferCount - 1 :=
    Nat.mod_eq_of_lt (by omega)
  have ends : (cfg.bufferCount - 1) * cfg.blocksize + cfg.blocksize =
      cfg.bufferCount * cfg.blocksize := by
    rw [← Nat.succ_mul]
    congr 1
    omega
  have product : cfg.bufferCount * cfg.blocksize ≤ 2 ^ 31 * 2 ^ 31 :=
    Nat.mul_le_mul (by omega) (by omega)
  have source := @Config.source_eq cfg (cfg.bufferCount - 1) (by rw [slot]; omega)
  rw [slot] at source
  have last : (cfg.source (cfg.bufferCount - 1)).Contains
      (cfg.bufferCount * cfg.blocksize - 1 : Nat) := by
    rw [source]
    constructor
    all_goals dsimp only
    all_goals omega
  have ⟨_, inside, _⟩ := initialized (cfg.bufferCount - 1) (by omega) _ last
  omega

end Allocation

/-- The bytes to write are initialized exactly when the buffers together are as large as an `int`
can say and every read delivers the bytes of its block. -/
theorem source_ranges_initialized_iff (cfg : Config) (malloc : Allocator) (device : Device)
    (buffers : Allocation) (allocated : cfg.allocate malloc device = some buffers) :
    cfg.SourcesInitialized buffers ↔
      cfg.bufferCount * cfg.blocksize < 2 ^ 31 ∧
        device.Complete cfg.bufferCount cfg.blocksize := by
  constructor
  · intro initialized
    have small := Nat.lt_of_not_le fun large => large_block_outside allocated large initialized
    have fits := Nat.lt_of_not_le fun many => last_block_outside allocated small many initialized
    exact ⟨fits, reads_complete allocated fits initialized⟩
  · intro ⟨fits, complete⟩
    exact sources_initialized allocated fits complete

/-- A `malloc` that grants what a 32-bit process has. -/
def smallMalloc : Allocator where
  grants size := decide (size < 2 ^ 31)
  grants_lt := by
    intro size granted
    have small := of_decide_eq_true granted
    omega

/-- A device that delivers what it is asked for. -/
def fullDevice : Device where
  randfd := 3
  read _ nbytes := nbytes
  read_ge _ nbytes := Int.le_trans (by decide) (Int.natCast_nonneg nbytes)
  read_le _ _ := Int.le_refl _
  read_closed closed := absurd closed (by decide)

/-- Blocks of 1024 bytes. -/
def kilobytes : Config := ⟨200, 1024, by decide, by decide, by decide, by decide⟩

/-- Any of the 200 blocks of a kilobyte is initialized. -/
theorem source_ranges_initialized_iff_kilobytes :
    ∃ buffers, kilobytes.allocate smallMalloc fullDevice = some buffers ∧
      kilobytes.SourcesInitialized buffers :=
  ⟨⟨204800, fill fullDevice 1024 200⟩, by decide +kernel,
    (source_ranges_initialized_iff kilobytes smallMalloc fullDevice
      ⟨204800, fill fullDevice 1024 200⟩ (by decide +kernel)).mpr ⟨by decide, fun _ _ => rfl⟩⟩

/-- Blocks of `2 ^ 32 + 1` bytes, for each of which one byte is allocated. -/
def hugeBlocks : Config := ⟨200, 2 ^ 32 + 1, by decide, by decide, by decide, by decide⟩

/-- The huge blocks are written from outside of the 200 bytes that are initialized, though every
read is complete. -/
theorem huge_blocks_not_initialized :
    hugeBlocks.allocate smallMalloc fullDevice = some ⟨200, fill fullDevice 1 200⟩ ∧
      ¬ hugeBlocks.SourcesInitialized ⟨200, fill fullDevice 1 200⟩ := by
  have allocated : hugeBlocks.allocate smallMalloc fullDevice =
      some ⟨200, fill fullDevice 1 200⟩ := by
    decide +kernel
  exact ⟨allocated, large_block_outside allocated (by decide)⟩

end PerfVerif.Buffers
