import PerfVerif.Lib.Memory
import Mathlib.Algebra.GroupWithZero.Nat

/-!
# `shm_copy`

The workload sets and then copies memory of two shared segments, in operations whose sizes come
from two tables. Each operation starts at a slot of 512 bytes that `rand()` chooses, whatever its
size is. A segment is modelled with the memory behind it; the values of `rand()` are a function
from the number of the call.
-/

namespace PerfVerif.Shm

/-- `SHM_SIZE`. -/
def shmSize : Nat := 64 * 1024 * 1024

/-- `sizeof(memblock_t)`. -/
def memblockSize : Nat := 512

/-- `struct_count`. -/
def structCount : Nat := shmSize / memblockSize

/-- The size of an operation and how often it is repeated. -/
structure Row where
  size : Nat
  count : Nat
  deriving DecidableEq, Repr

/-- The table `memsets`. -/
def memsets : List Row :=
  [⟨32, 71668⟩, ⟨64, 34432⟩, ⟨128, 25⟩, ⟨256, 64334⟩, ⟨512, 711446⟩, ⟨1024, 30707⟩, ⟨2048, 163⟩,
    ⟨4096, 163⟩]

/-- The table `memcpys`. -/
def memcpys : List Row :=
  [⟨1, 2109⟩, ⟨2, 73⟩, ⟨4, 5407⟩, ⟨8, 267⟩, ⟨32, 34677⟩, ⟨64, 6558⟩, ⟨128, 44834⟩, ⟨256, 34134⟩,
    ⟨512, 785408⟩, ⟨1024, 61⟩]

/-- The two loops. -/
inductive Kind where
  | memset
  | memcpy
  deriving DecidableEq, Repr

/-- The segment that is read by the copies, and the one they write. -/
inductive Segment where
  | src
  | dst
  deriving DecidableEq, Repr

/-- A call of `memset` or `memcpy`. -/
structure Op where
  kind : Kind
  slot : Nat
  size : Nat
  deriving DecidableEq, Repr

/-- Where the operation starts in a segment. -/
def Op.offset (op : Op) : Nat := op.slot * memblockSize

/-- The operation reads or writes this byte of the segment. -/
def Op.Touches (op : Op) (segment : Segment) (byte : Nat) : Prop :=
  (segment = .src ∨ op.kind = .memcpy) ∧ op.offset ≤ byte ∧ byte < op.offset + op.size

/-- Everything that the operation touches belongs to the segments. -/
def Op.Inside (op : Op) : Prop := ∀ segment byte, op.Touches segment byte → byte < shmSize

/-- The slot of a call of `rand()`. -/
def slotOf (value : Nat) : Nat := value % structCount

/-- The inner loop for a row of a table, which uses the calls of `rand()` from `first` on. -/
def rowOps (kind : Kind) (rand : Nat → Nat) (first : Nat) (row : Row) : List Op :=
  (List.range row.count).map fun turn => ⟨kind, slotOf (rand (first + turn)), row.size⟩

/-- The outer loop for the rows of a table. -/
def tableOps (kind : Kind) (rand : Nat → Nat) : Nat → List Row → List Op
  | _, [] => []
  | first, row :: rows =>
    rowOps kind rand first row ++ tableOps kind rand (first + row.count) rows

/-- The calls of `rand()` that a table needs. -/
def draws (table : List Row) : Nat := (table.map Row.count).sum

/-- The operations of `main`. -/
def workload (rand : Nat → Nat) : List Op :=
  tableOps .memset rand 0 memsets ++ tableOps .memcpy rand (draws memsets) memcpys

/-- The bytes from the bases of the two segments on. -/
structure Segments where
  src : Nat → UInt8
  dst : Nat → UInt8

/-- `memset` stores the character `'0'`. -/
def Op.apply (op : Op) (memory : Segments) : Segments :=
  match op.kind with
  | .memset =>
    { memory with src := Memory.store memory.src op.offset (List.replicate op.size 48) }
  | .memcpy =>
    { memory with
      dst := Memory.store memory.dst op.offset (Memory.load memory.src op.offset op.size) }

/-- The memory after some operations. -/
def runOps (ops : List Op) (memory : Segments) : Segments :=
  ops.foldl (fun memory op => op.apply memory) memory

section Bounds

variable {kind : Kind} {rand : Nat → Nat}

/-- An operation is inside when it ends inside. -/
theorem inside_iff {op : Op} (positive : 0 < op.size) :
    op.Inside ↔ op.offset + op.size ≤ shmSize := by
  constructor
  · intro inside
    have last := inside .src (op.offset + op.size - 1) ⟨Or.inl rfl, by omega, by omega⟩
    omega
  · intro ends segment byte touches
    have ⟨_, _, below⟩ := touches
    omega

/-- The operations of a row are inside when all its slots leave room for the size. -/
theorem rowOps_inside_iff (first : Nat) {row : Row} (positive : 0 < row.size) :
    (∀ op ∈ rowOps kind rand first row, op.Inside) ↔
      ∀ turn < row.count, slotOf (rand (first + turn)) * memblockSize + row.size ≤ shmSize := by
  rw [rowOps, List.forall_mem_map]
  constructor
  · intro inside turn below
    exact (@inside_iff ⟨kind, _, row.size⟩ positive).mp (inside turn (List.mem_range.mpr below))
  · intro fits turn member
    exact (@inside_iff ⟨kind, _, row.size⟩ positive).mpr (fits turn (List.mem_range.mp member))

/-- A slot is one of the segment. -/
theorem slotOf_lt (value : Nat) : slotOf value < structCount :=
  Nat.mod_lt _ (by decide)

/-- An operation that is not larger than a slot is always inside. -/
theorem small_row_inside (first : Nat) {row : Row} (positive : 0 < row.size)
    (small : row.size ≤ memblockSize) : ∀ op ∈ rowOps kind rand first row, op.Inside := by
  apply (rowOps_inside_iff first positive).mpr
  intro turn _
  have slot := slotOf_lt (rand (first + turn))
  have slots : structCount * memblockSize = shmSize := by decide
  have room := Nat.mul_le_mul_right memblockSize (Nat.succ_le_of_lt slot)
  rw [Nat.succ_mul] at room
  omega

/-- The operations of a table are inside when those of its first row and of the other rows are. -/
theorem tableOps_cons_inside (first : Nat) (row : Row) (rows : List Row) :
    (∀ op ∈ tableOps kind rand first (row :: rows), op.Inside) ↔
      (∀ op ∈ rowOps kind rand first row, op.Inside) ∧
        ∀ op ∈ tableOps kind rand (first + row.count) rows, op.Inside := by
  rw [tableOps, List.forall_mem_append]

/-- Rows of small operations can be left out. -/
theorem tableOps_small_inside (first : Nat) {row : Row} {rows : List Row} (positive : 0 < row.size)
    (small : row.size ≤ memblockSize) :
    (∀ op ∈ tableOps kind rand first (row :: rows), op.Inside) ↔
      ∀ op ∈ tableOps kind rand (first + row.count) rows, op.Inside := by
  rw [tableOps_cons_inside]
  exact and_iff_right (small_row_inside first positive small)

/-- In this many calls of `rand()` from `first` on, the slot is none of the last ones. -/
def Avoids (rand : Nat → Nat) (first count last : Nat) : Prop :=
  ∀ turn < count, slotOf (rand (first + turn)) + last < structCount

/-- A row of operations of several slots is inside when its calls avoid as many slots less one. -/
theorem large_row_inside_iff (first count slots : Nat) :
    (∀ op ∈ rowOps kind rand first ⟨(slots + 1) * memblockSize, count⟩, op.Inside) ↔
      Avoids rand first count slots := by
  have whole : structCount * memblockSize = shmSize := by decide
  rw [rowOps_inside_iff first (Nat.mul_pos (Nat.succ_pos _) (by decide)), Avoids]
  have each (turn : Nat) :
      slotOf (rand (first + turn)) * memblockSize + (slots + 1) * memblockSize ≤ shmSize ↔
        slotOf (rand (first + turn)) + slots < structCount := by
    rw [← Nat.add_mul, ← whole, Nat.mul_le_mul_right_iff (by decide)]
    omega
  simp only [each]

/-- The first loop needs room for the operations of two, four and eight slots. -/
theorem memsets_inside_iff :
    (∀ op ∈ tableOps .memset rand 0 memsets, op.Inside) ↔
      Avoids rand 881905 30707 1 ∧ Avoids rand 912612 163 3 ∧ Avoids rand 912775 163 7 := by
  rw [memsets]
  repeat rw [tableOps_small_inside _ (by decide) (by decide)]
  rw [tableOps_cons_inside, tableOps_cons_inside, tableOps_cons_inside]
  have last : ∀ op ∈ tableOps .memset rand 912938 [], op.Inside := by simp [tableOps]
  exact and_congr (large_row_inside_iff 881905 30707 1)
    (and_congr (large_row_inside_iff 912612 163 3)
      ((and_iff_left last).trans (large_row_inside_iff 912775 163 7)))

/-- The second loop needs room for the operations of two slots. -/
theorem memcpys_inside_iff :
    (∀ op ∈ tableOps .memcpy rand (draws memsets) memcpys, op.Inside) ↔
      Avoids rand 1826405 61 1 := by
  rw [memcpys]
  repeat rw [tableOps_small_inside _ (by decide) (by decide)]
  rw [tableOps_cons_inside]
  have last : ∀ op ∈ tableOps .memcpy rand 1826466 [], op.Inside := by simp [tableOps]
  exact (and_iff_left last).trans (large_row_inside_iff 1826405 61 1)

/-- Small values of `rand()` avoid the last slots. -/
theorem avoids_of_le {first count last : Nat} (bound : ∀ call, rand call ≤ 32767)
    (few : last < 98304) : Avoids rand first count last := by
  intro turn _
  have slots : structCount = 131072 := rfl
  have small := bound (first + turn)
  have slot : slotOf (rand (first + turn)) ≤ rand (first + turn) := Nat.mod_le _ _
  omega

/-- Where `RAND_MAX` is 32767, the least value it can have, the workload is always inside. -/
theorem workload_inside_of_le (bound : ∀ call, rand call ≤ 32767) :
    ∀ op ∈ workload rand, op.Inside := by
  rw [workload, List.forall_mem_append, memsets_inside_iff, memcpys_inside_iff]
  exact ⟨⟨avoids_of_le bound (by decide), avoids_of_le bound (by decide),
    avoids_of_le bound (by decide)⟩, avoids_of_le bound (by decide)⟩

/-- An operation inside the segments changes nothing behind them. -/
theorem apply_behind {op : Op} (inside : op.Inside) (memory : Segments) {byte : Nat}
    (behind : shmSize ≤ byte) :
    (op.apply memory).src byte = memory.src byte ∧ (op.apply memory).dst byte = memory.dst byte := by
  have outside (segment : Segment) (touched : segment = .src ∨ op.kind = .memcpy) :
      byte < op.offset ∨ op.offset + op.size ≤ byte := by
    by_contra within
    have below := inside segment byte ⟨touched, by omega, by omega⟩
    omega
  rw [Op.apply]
  split
  · exact ⟨Memory.store_outside _ _ _ _ (by simpa using outside .src (Or.inl rfl)), rfl⟩
  · rename_i copies
    exact ⟨rfl, Memory.store_outside _ _ _ _ (by simpa using outside .dst (Or.inr copies))⟩

/-- Operations inside the segments leave the memory behind them as it was. -/
theorem runOps_behind {ops : List Op} (inside : ∀ op ∈ ops, op.Inside) (memory : Segments)
    {byte : Nat} (behind : shmSize ≤ byte) :
    (runOps ops memory).src byte = memory.src byte ∧
      (runOps ops memory).dst byte = memory.dst byte := by
  induction ops generalizing memory with
  | nil => exact ⟨rfl, rfl⟩
  | cons op rest ih =>
    have ⟨first, others⟩ := List.forall_mem_cons.mp inside
    have ⟨src, dst⟩ := ih others (op.apply memory)
    have ⟨src', dst'⟩ := apply_behind first memory behind
    exact ⟨src.trans src', dst.trans dst'⟩

end Bounds

/-- The workload stays inside its segments exactly when the calls of `rand()` for the operations
of two, four and eight slots do not choose one of the last slots. -/
theorem workload_inside_iff (rand : Nat → Nat) :
    (∀ op ∈ workload rand, op.Inside) ↔
      Avoids rand 881905 30707 1 ∧ Avoids rand 912612 163 3 ∧ Avoids rand 912775 163 7 ∧
        Avoids rand 1826405 61 1 := by
  rw [workload, List.forall_mem_append, memsets_inside_iff, memcpys_inside_iff]
  simp only [and_assoc]

/-- When every call of `rand()` returns 131071, the operations of several slots start at the last
slot. -/
theorem last_slot_not_inside : ¬ ∀ op ∈ workload fun _ => 131071, op.Inside := by
  rw [workload, List.forall_mem_append, memsets_inside_iff]
  intro ⟨⟨avoids, _⟩, _⟩
  exact absurd (avoids 0 (by decide)) (by decide)

end PerfVerif.Shm
