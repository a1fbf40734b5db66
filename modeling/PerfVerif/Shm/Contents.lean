import PerfVerif.Shm.ShmCopy

/-!
# What `shm_copy` leaves in its segments

The first loop only sets memory of the source segment, always to the same character, and the second
one only copies from there to the same place of the other segment. So it makes no difference in which
order the operations of a loop come, or how often a slot is chosen: what counts is which bytes some
operation of each loop covers.
-/

namespace PerfVerif.Shm

/-- The bytes that the operation sets or copies. -/
def Op.Covers (op : Op) (byte : Nat) : Prop := op.offset ≤ byte ∧ byte < op.offset + op.size

instance (op : Op) (byte : Nat) : Decidable (op.Covers byte) := inferInstanceAs (Decidable (_ ∧ _))

/-- Some operation of the kind covers the byte. -/
def Covered (kind : Kind) (ops : List Op) (byte : Nat) : Prop :=
  ∃ op ∈ ops, op.kind = kind ∧ op.Covers byte

instance (kind : Kind) (ops : List Op) (byte : Nat) : Decidable (Covered kind ops byte) :=
  inferInstanceAs (Decidable (∃ op ∈ ops, _))

section Loops

variable {kind : Kind} {op : Op} {ops : List Op} {byte : Nat}

/-- A list of operations covers what its first one or the others cover. -/
theorem covered_cons :
    Covered kind (op :: ops) byte ↔ (op.kind = kind ∧ op.Covers byte) ∨ Covered kind ops byte :=
  List.exists_mem_cons_iff _ _ _

/-- Two loops cover what one of them covers. -/
theorem covered_append {first second : List Op} :
    Covered kind (first ++ second) byte ↔ Covered kind first byte ∨ Covered kind second byte := by
  unfold Covered
  constructor
  · rintro ⟨op, member, covers⟩
    rcases List.mem_append.mp member with before | behind
    · exact Or.inl ⟨op, before, covers⟩
    · exact Or.inr ⟨op, behind, covers⟩
  · rintro (⟨op, member, covers⟩ | ⟨op, member, covers⟩)
    · exact ⟨op, List.mem_append_left _ member, covers⟩
    · exact ⟨op, List.mem_append_right _ member, covers⟩

/-- Operations of one kind cover nothing as another kind. -/
theorem not_covered_of_kinds {other : Kind} (kinds : ∀ op ∈ ops, op.kind = other)
    (differs : other ≠ kind) : ¬ Covered kind ops byte := by
  rintro ⟨op, member, same, _⟩
  exact differs ((kinds op member).symm.trans same)

/-- A store of a block with one value where a cell is changes the cell to that value. -/
theorem store_cell {base : Nat} {memory : Nat → UInt8} {values : List UInt8} {value : UInt8}
    (content : ∀ index < values.length, base + index = byte → values[index]? = some value) :
    Memory.store memory base values byte =
      if base ≤ byte ∧ byte < base + values.length then value else memory byte := by
  by_cases inside : base ≤ byte ∧ byte < base + values.length
  · have stored := content (byte - base) (by omega) (by omega)
    rw [if_pos inside, Memory.store, if_pos inside.1, stored, Option.getD_some]
  · rw [if_neg inside, Memory.store_outside _ _ _ _ (by omega)]

/-- `memset` sets the bytes that it covers. -/
theorem apply_memset (memory : Segments) (sets : op.kind = .memset) :
    (op.apply memory).dst = memory.dst ∧
      (op.apply memory).src byte = if op.Covers byte then 48 else memory.src byte := by
  unfold Op.apply
  rw [sets]
  refine ⟨rfl, ?_⟩
  have cell := @store_cell byte op.offset memory.src (List.replicate op.size 48) 48
    (fun index inside _ => List.getElem?_replicate_of_lt (by rwa [List.length_replicate] at inside))
  rw [List.length_replicate] at cell
  exact cell

/-- `memcpy` copies the bytes that it covers. -/
theorem apply_memcpy (memory : Segments) (copies : op.kind = .memcpy) :
    (op.apply memory).src = memory.src ∧
      (op.apply memory).dst byte = if op.Covers byte then memory.src byte else memory.dst byte := by
  unfold Op.apply
  rw [copies]
  refine ⟨rfl, ?_⟩
  have cell := @store_cell byte op.offset memory.dst (Memory.load memory.src op.offset op.size)
    (memory.src byte) (by
      intro index inside same
      rw [Memory.length_load] at inside
      simp [Memory.load, inside, same])
  rw [Memory.length_load] at cell
  exact cell

/-- A loop of `memset`s sets what some of them covers. -/
theorem runOps_memsets (sets : ∀ op ∈ ops, op.kind = .memset) (memory : Segments) :
    (runOps ops memory).dst = memory.dst ∧
      (runOps ops memory).src byte =
        if Covered .memset ops byte then 48 else memory.src byte := by
  induction ops generalizing memory with
  | nil => exact ⟨rfl, (if_neg (by simp [Covered])).symm⟩
  | cons op rest ih =>
    have ⟨first, others⟩ := List.forall_mem_cons.mp sets
    have ⟨same, changed⟩ := @apply_memset op byte memory first
    have ⟨kept, later⟩ := ih others (op.apply memory)
    refine ⟨kept.trans same, later.trans ?_⟩
    by_cases covered : Covered .memset rest byte
    · rw [if_pos covered, if_pos (covered_cons.mpr (Or.inr covered))]
    · rw [if_neg covered, changed]
      by_cases covers : op.Covers byte
      · rw [if_pos covers, if_pos (covered_cons.mpr (Or.inl ⟨first, covers⟩))]
      · rw [if_neg covers, if_neg]
        rintro either
        rcases covered_cons.mp either with ⟨_, here⟩ | there
        · exact covers here
        · exact covered there

/-- A loop of `memcpy`s copies what some of them covers. -/
theorem runOps_memcpys (copies : ∀ op ∈ ops, op.kind = .memcpy) (memory : Segments) :
    (runOps ops memory).src = memory.src ∧
      (runOps ops memory).dst byte =
        if Covered .memcpy ops byte then memory.src byte else memory.dst byte := by
  induction ops generalizing memory with
  | nil => exact ⟨rfl, (if_neg (by simp [Covered])).symm⟩
  | cons op rest ih =>
    have ⟨first, others⟩ := List.forall_mem_cons.mp copies
    have ⟨same, changed⟩ := @apply_memcpy op byte memory first
    have ⟨kept, later⟩ := ih others (op.apply memory)
    refine ⟨kept.trans same, later.trans ?_⟩
    rw [same]
    by_cases covered : Covered .memcpy rest byte
    · rw [if_pos covered, if_pos (covered_cons.mpr (Or.inr covered))]
    · rw [if_neg covered, changed]
      by_cases covers : op.Covers byte
      · rw [if_pos covers, if_pos (covered_cons.mpr (Or.inl ⟨first, covers⟩))]
      · rw [if_neg covers, if_neg]
        intro either
        rcases covered_cons.mp either with ⟨_, here⟩ | there
        · exact covers here
        · exact covered there

/-- The operations of a table are of its kind. -/
theorem tableOps_kind {rand : Nat → Nat} {table : List Row} (first : Nat) :
    ∀ op ∈ tableOps kind rand first table, op.kind = kind := by
  induction table generalizing first with
  | nil => exact fun _ member => absurd member List.not_mem_nil
  | cons row rows ih =>
    intro op member
    rcases List.mem_append.mp member with here | later
    · obtain ⟨turn, _, rfl⟩ := List.mem_map.mp here
      rfl
    · exact ih _ op later

end Loops

/-- A workload that stays inside its segments leaves the character in the bytes of the source that
some `memset` covers, and in the other segment the final bytes of the source wherever some `memcpy`
covers them; all other bytes, and those behind the segments, are as they were. -/
theorem workload_contents (rand : Nat → Nat) (memory : Segments)
    (inside : ∀ op ∈ workload rand, op.Inside) (byte : Nat) :
    (runOps (workload rand) memory).src byte =
        (if Covered .memset (workload rand) byte then 48 else memory.src byte) ∧
      (runOps (workload rand) memory).dst byte =
        (if Covered .memcpy (workload rand) byte then (runOps (workload rand) memory).src byte
        else memory.dst byte) ∧
      (shmSize ≤ byte → (runOps (workload rand) memory).src byte = memory.src byte ∧
        (runOps (workload rand) memory).dst byte = memory.dst byte) := by
  have sets := @tableOps_kind .memset rand memsets 0
  have copies := @tableOps_kind .memcpy rand memcpys (draws memsets)
  have both : runOps (workload rand) memory =
      runOps (tableOps .memcpy rand (draws memsets) memcpys)
        (runOps (tableOps .memset rand 0 memsets) memory) := List.foldl_append
  have ⟨before, set⟩ := @runOps_memsets _ byte sets memory
  have ⟨kept, copied⟩ := @runOps_memcpys _ byte copies
    (runOps (tableOps .memset rand 0 memsets) memory)
  have setCovered : Covered .memset (workload rand) byte ↔
      Covered .memset (tableOps .memset rand 0 memsets) byte :=
    covered_append.trans (or_iff_left (not_covered_of_kinds copies (by decide)))
  have copyCovered : Covered .memcpy (workload rand) byte ↔
      Covered .memcpy (tableOps .memcpy rand (draws memsets) memcpys) byte :=
    covered_append.trans (or_iff_right (not_covered_of_kinds sets (by decide)))
  refine ⟨?_, ?_, fun behind => runOps_behind inside memory behind⟩
  · rw [both, kept, set]
    exact if_congr setCovered.symm rfl rfl
  · rw [both, kept, copied, before]
    exact if_congr copyCovered.symm rfl rfl

/-- Where `rand()` is always 0, the first row of each table covers the first byte. -/
theorem workload_contents_zero :
    (runOps (workload fun _ => 0) ⟨fun _ => 1, fun _ => 2⟩).src 0 = 48 ∧
      (runOps (workload fun _ => 0) ⟨fun _ => 1, fun _ => 2⟩).dst 0 = 48 := by
  have inside := @workload_inside_of_le (fun _ => 0) (fun _ => Nat.zero_le _)
  have set : Covered .memset (workload fun _ => 0) 0 :=
    ⟨⟨.memset, 0, 32⟩, List.mem_append_left _ (List.mem_append_left _
      (List.mem_map.mpr ⟨0, List.mem_range.mpr (by decide), rfl⟩)), rfl, by decide⟩
  have copied : Covered .memcpy (workload fun _ => 0) 0 :=
    ⟨⟨.memcpy, 0, 1⟩, List.mem_append_right _ (List.mem_append_left _
      (List.mem_map.mpr ⟨0, List.mem_range.mpr (by decide), rfl⟩)), rfl, by decide⟩
  have ⟨src, dst, _⟩ := workload_contents (fun _ => 0) ⟨fun _ => 1, fun _ => 2⟩ inside 0
  rw [if_pos set] at src
  rw [if_pos copied, src] at dst
  exact ⟨src, dst⟩

end PerfVerif.Shm
