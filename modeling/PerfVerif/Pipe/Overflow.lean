import PerfVerif.Pipe.Pointers
import PerfVerif.Pipe.Representation
import PerfVerif.Pipe.Schedules

/-!
# The 32-bit sums of the writer

`isWrap`, `isFull` and `startWrite` add pointers and lengths in 32 bits before they compare
the sums with the pipe size. The sums are listed here as the source forms them, next to the
two functions over unbounded numbers. For pipes of up to two thirds of the word range no sum
wraps in any run of pushes and reads; in every larger pipe there is a run that reaches one
that does.
-/

namespace PerfVerif.Pipe

open Transition

/-- The value of a 32-bit sum is the sum of the numbers. -/
def Exact (left right : UInt32) : Prop := (left + right).toNat = left.toNat + right.toNat

/-- The sums that `isFull` forms on two loaded pointers, those of `isWrap` included. -/
def isFullSums (pipeSize length localReadPtr localWritePtr : UInt32) : List (UInt32 × UInt32) :=
  if localReadPtr > localWritePtr then
    [(length, lengthBytes), (localWritePtr, length + lengthBytes)]
  else if isWrap pipeSize lengthBytes localWritePtr then
    [(localWritePtr, lengthBytes), (length, lengthBytes)]
  else [(localWritePtr, lengthBytes), (localWritePtr + lengthBytes, length)]

/-- The sums that the placement part of `startWrite` forms. -/
def reserveSums (pipeSize : UInt32) (writeVPtr : UInt64) (length : UInt32) :
    List (UInt32 × UInt32) :=
  let slot := reserve pipeSize writeVPtr length
  [(getPointer writeVPtr, lengthBytes), (slot.lengthPtr, lengthBytes),
    (slot.lengthPtr + lengthBytes, length), (slot.payloadPtr, length)]

/-- `isFull` over unbounded numbers. -/
def isFullUnbounded (pipeSize length localReadPtr localWritePtr : Nat) : Bool :=
  if localReadPtr > localWritePtr then
    if localWritePtr + (length + 4) < localReadPtr then false else true
  else if localWritePtr + 4 > pipeSize then
    if length + 4 < localReadPtr then false else true
  else if localWritePtr + 4 + length > pipeSize then
    if length < localReadPtr then false else true
  else false

/-- The placement part of `startWrite` over unbounded numbers. -/
structure Placement where
  lengthPtr : Nat
  payloadPtr : Nat
  nextPtr : Nat
  nextVersion : Nat

/-- `reserve` over unbounded numbers. -/
def reserveUnbounded (pipeSize version localWritePtr length : Nat) : Placement :=
  let lengthPtr := if pipeSize < localWritePtr + 4 then 0 else localWritePtr
  let payloadPtr := if pipeSize < lengthPtr + 4 + length then 0 else lengthPtr + 4
  { lengthPtr := lengthPtr
    payloadPtr := payloadPtr
    nextPtr := payloadPtr + length
    nextVersion := version + (if pipeSize < localWritePtr + 4 then 1 else 0) +
      (if pipeSize < lengthPtr + 4 + length then 1 else 0) }

/-- A reservation is the placement over unbounded numbers, with the version modulo `2 ^ 32`. -/
structure Reservation.Agrees (slot : Reservation) (placement : Placement) : Prop where
  lengthPtr : slot.lengthPtr.toNat = placement.lengthPtr
  payloadPtr : slot.payloadPtr.toNat = placement.payloadPtr
  nextPtr : (getPointer slot.nextWriteVPtr).toNat = placement.nextPtr
  nextVersion : getVersion slot.nextWriteVPtr = UInt32.ofNat placement.nextVersion

/-- The writer's arithmetic on the pointers of a state is that of unbounded numbers: every sum
is, and so are the results of `isFull` and `startWrite`. -/
structure ExactArithmetic (cfg : Config) (s : State) (length : UInt32) : Prop where
  isFull_sums : ∀ sum ∈ isFullSums cfg.pipeSize length (getPointer s.pipe.readVPtr)
    (getPointer s.pipe.writeVPtr), Exact sum.1 sum.2
  reserve_sums : ∀ sum ∈ reserveSums cfg.pipeSize s.pipe.writeVPtr length, Exact sum.1 sum.2
  isFull_eq : s.pipe.isFull cfg.pipeSize length =
    isFullUnbounded cfg.pipeSize.toNat length.toNat (getPointer s.pipe.readVPtr).toNat
      (getPointer s.pipe.writeVPtr).toNat
  reserve_agrees : (reserve cfg.pipeSize s.pipe.writeVPtr length).Agrees
    (reserveUnbounded cfg.pipeSize.toNat (getVersion s.pipe.writeVPtr).toNat
      (getPointer s.pipe.writeVPtr).toNat length.toNat)

section Exactness

variable {pipeSize length : UInt32}

/-- A sum below `2 ^ 32` is exact, and only such a sum is. -/
theorem exact_iff (left right : UInt32) :
    Exact left right ↔ left.toNat + right.toNat < 2 ^ 32 := by
  rw [Exact, UInt32.toNat_add]
  exact Nat.mod_eq_iff_lt (by decide)

/-- `isWrap` on an exact sum compares the numbers. -/
theorem isWrap_of_exact {ptr : UInt32} (sum : Exact ptr length) :
    isWrap pipeSize length ptr = true ↔ pipeSize.toNat < ptr.toNat + length.toNat :=
  isWrap_iff pipeSize length ptr ((exact_iff _ _).mp sum)

/-- With exact sums, `isFull` is the test over unbounded numbers. -/
theorem isFullAt_of_exact {localReadPtr localWritePtr : UInt32}
    (sums : ∀ sum ∈ isFullSums pipeSize length localReadPtr localWritePtr, Exact sum.1 sum.2) :
    isFullAt pipeSize length localReadPtr localWritePtr =
      isFullUnbounded pipeSize.toNat length.toNat localReadPtr.toNat localWritePtr.toNat := by
  have fourWord : lengthBytes.toNat = 4 := rfl
  unfold isFullSums at sums
  simp only [isFullAt, isFullUnbounded, gt_iff_lt, UInt32.lt_iff_toNat_lt] at sums ⊢
  by_cases lapped : localWritePtr.toNat < localReadPtr.toNat
  · simp only [if_pos lapped, List.forall_mem_cons, Exact, fourWord] at sums ⊢
    rw [sums.2.1, sums.1]
  · simp only [if_neg lapped] at sums ⊢
    by_cases wrapped : isWrap pipeSize lengthBytes localWritePtr = true
    · simp only [if_pos wrapped, List.forall_mem_cons] at sums ⊢
      have tested := (isWrap_of_exact sums.1).mp wrapped
      have record := sums.2.1
      rw [Exact, fourWord] at record
      rw [fourWord] at tested
      rw [if_pos tested, record]
    · simp only [if_neg wrapped, List.forall_mem_cons] at sums ⊢
      have header := sums.1
      have tested := mt (isWrap_of_exact header).mpr wrapped
      have payloadWraps := @isWrap_of_exact pipeSize _ _ sums.2.1
      rw [Exact, fourWord] at header
      rw [fourWord] at tested
      rw [header] at payloadWraps
      simp only [if_neg tested, payloadWraps]

/-- With exact sums, `startWrite` places a record as over unbounded numbers. -/
theorem reserve_of_exact {writeVPtr : UInt64}
    (sums : ∀ sum ∈ reserveSums pipeSize writeVPtr length, Exact sum.1 sum.2) :
    (reserve pipeSize writeVPtr length).Agrees
      (reserveUnbounded pipeSize.toNat (getVersion writeVPtr).toNat (getPointer writeVPtr).toNat
        length.toNat) := by
  have fourWord : lengthBytes.toNat = 4 := rfl
  simp only [reserveSums, List.forall_mem_cons] at sums
  have ⟨header, behind, payload, ending, _⟩ := sums
  have headerWraps := @isWrap_of_exact pipeSize _ _ header
  have payloadWraps := @isWrap_of_exact pipeSize _ _ payload
  rw [fourWord] at headerWraps
  rw [behind, fourWord] at payloadWraps
  rw [Exact, fourWord] at behind
  have lengthPtr : (reserve pipeSize writeVPtr length).lengthPtr.toNat =
      if pipeSize.toNat < (getPointer writeVPtr).toNat + 4 then 0
      else (getPointer writeVPtr).toNat := by
    simp only [reserve_lengthPtr, headerWraps]
    split <;> rfl
  have payloadPtr : (reserve pipeSize writeVPtr length).payloadPtr.toNat =
      if pipeSize.toNat < (reserve pipeSize writeVPtr length).lengthPtr.toNat + 4 + length.toNat
      then 0 else (reserve pipeSize writeVPtr length).lengthPtr.toNat + 4 := by
    rw [reserve_payloadPtr]
    simp only [payloadWraps]
    split
    · rfl
    · exact behind
  rw [lengthPtr] at payloadPtr
  refine ⟨lengthPtr, payloadPtr, ?_, ?_⟩
  · rw [getPointer_reserve, ending, payloadPtr]
    rfl
  · rw [getVersion_reserve]
    simp only [reserveUnbounded, headerWraps, payloadWraps, lengthPtr, UInt32.ofNat_add,
      UInt32.ofNat_toNat]
    split <;> split <;> rfl

/-- Inside the word bounds, the sums of `isFull` on pointers into the buffer are exact. -/
theorem isFullSums_exact (bounds : WordBounds pipeSize)
    (short : length ≤ maxPipeElementSize pipeSize) {localReadPtr localWritePtr : UInt32}
    (readLe : localReadPtr ≤ pipeSize) (writeLe : localWritePtr ≤ pipeSize) :
    ∀ sum ∈ isFullSums pipeSize length localReadPtr localWritePtr, Exact sum.1 sum.2 := by
  have half := half_of_le_max bounds.ten_le short
  have most := bounds.sums_fit
  have fourWord : lengthBytes.toNat = 4 := rfl
  rw [UInt32.le_iff_toNat_le] at readLe writeLe
  have record : Exact length lengthBytes := (exact_iff _ _).mpr (by omega)
  have header : Exact localWritePtr lengthBytes := (exact_iff _ _).mpr (by omega)
  unfold isFullSums
  split
  · simp only [List.forall_mem_cons, List.not_mem_nil, false_implies, implies_true, and_true]
    refine ⟨record, (exact_iff _ _).mpr ?_⟩
    rw [record, fourWord]
    omega
  · split
    · simp only [List.forall_mem_cons, List.not_mem_nil, false_implies, implies_true, and_true]
      exact ⟨header, record⟩
    · simp only [List.forall_mem_cons, List.not_mem_nil, false_implies, implies_true, and_true]
      refine ⟨header, (exact_iff _ _).mpr ?_⟩
      rw [header, fourWord]
      omega

/-- Inside the word bounds, the sums of `startWrite` on pointers into the buffer are exact. -/
theorem reserveSums_exact (bounds : WordBounds pipeSize)
    (short : length ≤ maxPipeElementSize pipeSize) {writeVPtr : UInt64}
    (writeLe : getPointer writeVPtr ≤ pipeSize) :
    ∀ sum ∈ reserveSums pipeSize writeVPtr length, Exact sum.1 sum.2 := by
  have half := half_of_le_max bounds.ten_le short
  have most := bounds.sums_fit
  have fourWord : lengthBytes.toNat = 4 := rfl
  rw [UInt32.le_iff_toNat_le] at writeLe
  have lengthLe : (reserve pipeSize writeVPtr length).lengthPtr.toNat ≤ pipeSize.toNat := by
    rw [reserve_lengthPtr]
    split
    · exact Nat.zero_le _
    · exact writeLe
  have behind : Exact (reserve pipeSize writeVPtr length).lengthPtr lengthBytes :=
    (exact_iff _ _).mpr (by omega)
  have payload : Exact ((reserve pipeSize writeVPtr length).lengthPtr + lengthBytes) length := by
    rw [exact_iff, behind, fourWord]
    omega
  simp only [reserveSums, List.forall_mem_cons, List.not_mem_nil, false_implies, implies_true,
    and_true]
  refine ⟨(exact_iff _ _).mpr (by omega), behind, payload, (exact_iff _ _).mpr ?_⟩
  rw [reserve_payloadPtr]
  split
  · change 0 + length.toNat < 2 ^ 32
    omega
  · exact (exact_iff _ _).mp payload

/-- Inside the word bounds, the writer's arithmetic is exact in every run. -/
theorem exactArithmetic_of_bounds {cfg : Config} {s : State} {ok : State → Act → Prop}
    (bounds : WordBounds cfg.pipeSize) (reached : (system cfg).Reachable ok s)
    (short : length ≤ maxPipeElementSize cfg.pipeSize) : ExactArithmetic cfg s length := by
  have facts := reachable_pointerFacts bounds.ten_le reached
  have sums := isFullSums_exact bounds short facts.readPtr_le facts.writePtr_le
  have placed := reserveSums_exact bounds short facts.writePtr_le
  exact ⟨sums, placed, isFullAt_of_exact sums, reserve_of_exact placed⟩

end Exactness

section LargePipes

variable {cfg : Config} {s : State}

/-- A pipe at rest with the offsets of its two pointers. -/
structure AtRest (s : State) (read write : Nat) : Prop where
  writer : s.writer = .idle
  reader : s.reader = .idle
  running : s.pipe.isWriterRunning = true
  readPtr : (getPointer s.pipe.readVPtr).toNat = read
  writePtr : (getPointer s.pipe.writeVPtr).toNat = write

/-- The push of a value of the given length. -/
def pushZeros (count : Nat) : WriteCall := .push (List.replicate count 0)

/-- The push of a value within the element limit announces the length given. -/
theorem pushZeros_length {count : Nat} (short : count ≤ (maxPipeElementSize cfg.pipeSize).toNat) :
    (pushZeros count).length.toNat = count := by
  have bound := (maxPipeElementSize cfg.pipeSize).toNat_lt
  rw [pushZeros, WriteCall.push, UInt32.toNat_ofNat', List.length_replicate]
  exact Nat.mod_eq_of_lt (by omega)

/-- A push that finds room can be completed in any pipe at rest. -/
theorem leads_pushed {read write count : Nat} (rest : AtRest s read write)
    (short : count ≤ (maxPipeElementSize cfg.pipeSize).toNat)
    (free : s.pipe.isFull cfg.pipeSize (pushZeros count).length = false) :
    ∃ s', (system cfg).Leads (RunningPushes cfg) s s' ∧ Wrote cfg (pushZeros count) s s' := by
  apply leads_wrote (fun _ => trivial) _ rest.writer rest.running _ free
  · exact ⟨_, rfl, by rw [List.length_replicate]; exact short⟩
  · rw [UInt32.le_iff_toNat_le, pushZeros_length short]
    exact short

/-- A push of a record that fits before the end of the buffer, and in front of a reader that
is ahead, moves the write pointer by the record. -/
theorem push_behind {read write count : Nat} (rest : AtRest s read write)
    (short : count ≤ (maxPipeElementSize cfg.pipeSize).toNat)
    (fits : write + 4 + count ≤ cfg.pipeSize.toNat)
    (room : read ≤ write ∨ write + 4 + count < read) :
    ∃ s', (system cfg).Leads (RunningPushes cfg) s s' ∧ Wrote cfg (pushZeros count) s s' ∧
      AtRest s' read (write + 4 + count) := by
  have ⟨writing, reading, running, readPtr, writePtr⟩ := rest
  have length := pushZeros_length short
  have bound := cfg.pipeSize.toNat_lt
  have fourWord : lengthBytes.toNat = 4 := rfl
  have behind : (getPointer s.pipe.writeVPtr + lengthBytes).toNat = write + 4 := by
    rw [ptr_add_toNat _ _ (by omega), writePtr, fourWord]
  have headerKept : ¬ isWrap cfg.pipeSize lengthBytes (getPointer s.pipe.writeVPtr) = true := by
    rw [isWrap_iff _ _ _ (by omega)]
    omega
  have payloadKept : ¬ isWrap cfg.pipeSize (pushZeros count).length
      (getPointer s.pipe.writeVPtr + lengthBytes) = true := by
    rw [isWrap_iff _ _ _ (by omega)]
    omega
  have record : ((pushZeros count).length + lengthBytes).toNat = count + 4 := by
    rw [ptr_add_toNat _ _ (by omega), length, fourWord]
  have ending : (getPointer s.pipe.writeVPtr + ((pushZeros count).length + lengthBytes)).toNat =
      write + (count + 4) := by
    rw [ptr_add_toNat _ _ (by omega), writePtr, record]
  have free : s.pipe.isFull cfg.pipeSize (pushZeros count).length = false := by
    simp only [LocklessPipe.isFull, isFullAt, if_neg headerKept, if_neg payloadKept, gt_iff_lt,
      UInt32.lt_iff_toNat_lt, readPtr, writePtr, ending]
    split
    · rw [if_pos (by omega)]
    · rfl
  obtain ⟨s', path, wrote⟩ := leads_pushed rest short free
  refine ⟨s', path, wrote, wrote.writer, wrote.reader.trans reading,
    wrote.isWriterRunning.trans running, by rw [wrote.readVPtr, readPtr], ?_⟩
  rw [wrote.writeVPtr, getPointer_reserve, reserve_payloadPtr, reserve_lengthPtr,
    if_neg headerKept, if_neg payloadKept, ptr_add_toNat _ _ (by omega), behind, length]

/-- With both pointers at the end of the buffer, a push starts again at the front. -/
theorem push_front {count : Nat} (rest : AtRest s cfg.pipeSize.toNat cfg.pipeSize.toNat)
    (least : 10 ≤ cfg.pipeSize.toNat) (room : cfg.pipeSize.toNat + 4 < 2 ^ 32)
    (short : count ≤ (maxPipeElementSize cfg.pipeSize).toNat) :
    ∃ s', (system cfg).Leads (RunningPushes cfg) s s' ∧ AtRest s' cfg.pipeSize.toNat (4 + count) := by
  have ⟨writing, reading, running, readPtr, writePtr⟩ := rest
  have limit := maxPipeElementSize_toNat least
  have length := pushZeros_length short
  have fourWord : lengthBytes.toNat = 4 := rfl
  have headerWraps : isWrap cfg.pipeSize lengthBytes (getPointer s.pipe.writeVPtr) = true := by
    rw [isWrap_iff _ _ _ (by omega)]
    omega
  have behind : ((0 : UInt32) + lengthBytes).toNat = 4 := rfl
  have payloadKept : ¬ isWrap cfg.pipeSize (pushZeros count).length (0 + lengthBytes) = true := by
    rw [isWrap_iff _ _ _ (by omega)]
    omega
  have record : ((pushZeros count).length + lengthBytes).toNat = count + 4 := by
    rw [ptr_add_toNat _ _ (by omega), length, fourWord]
  have free : s.pipe.isFull cfg.pipeSize (pushZeros count).length = false := by
    simp only [LocklessPipe.isFull, isFullAt, if_pos headerWraps, gt_iff_lt,
      UInt32.lt_iff_toNat_lt, readPtr, writePtr, record, Nat.lt_irrefl, ↓reduceIte]
    rw [if_pos (by omega)]
  obtain ⟨s', path, wrote⟩ := leads_pushed rest short free
  refine ⟨s', path, wrote.writer, wrote.reader.trans reading,
    wrote.isWriterRunning.trans running, by rw [wrote.readVPtr, readPtr], ?_⟩
  rw [wrote.writeVPtr, getPointer_reserve, reserve_payloadPtr, reserve_lengthPtr,
    if_pos headerWraps, if_neg payloadKept, ptr_add_toNat _ _ (by omega), behind, length]

/-- A pipe at rest with every record consumed. -/
structure Drained (s : State) (offset : Nat) : Prop where
  rest : AtRest s offset offset
  pointers : s.pipe.readVPtr = s.pipe.writeVPtr
  consumed : s.consumed = s.published.length

/-- A push and a read of its record drain the pipe again, one record further. -/
theorem push_and_read {offset count : Nat} (drained : Drained s offset)
    (short : count ≤ (maxPipeElementSize cfg.pipeSize).toNat)
    (fits : offset + 4 + count ≤ cfg.pipeSize.toNat) :
    ∃ s', (system cfg).Leads (RunningPushes cfg) s s' ∧ Drained s' (offset + 4 + count) := by
  have ⟨rest, pointers, consumed⟩ := drained
  have ⟨middle, pushed, wrote, rested⟩ := push_behind rest short fits (Or.inl (Nat.le_refl _))
  have filled : middle.pipe.isEmpty = false := by
    rw [LocklessPipe.isEmpty, beq_eq_false_iff_ne]
    intro same
    have offsets := congrArg (fun vptr => (getPointer vptr).toNat) same
    simp only [rested.readPtr, rested.writePtr] at offsets
    omega
  have oldest : middle.published[middle.consumed]? = some ⟨s.pipe.writeVPtr,
      (pushZeros count).length, reserve cfg.pipeSize s.pipe.writeVPtr (pushZeros count).length,
      (pushZeros count).bytes⟩ := by
    rw [wrote.published, wrote.consumed, consumed, List.getElem?_concat_length]
  have read : (system cfg).Leads (RunningPushes cfg) middle _ :=
    leads_consumed (fun _ _ => trivial) rested.reader filled oldest
  refine ⟨_, pushed.trans read, ⟨rested.writer, rested.reader, rested.running, ?_,
    rested.writePtr⟩, wrote.writeVPtr.symm, ?_⟩
  · rw [← rested.writePtr, wrote.writeVPtr]
  · change middle.consumed + 1 = middle.published.length
    rw [wrote.published, wrote.consumed, consumed, List.length_append, List.length_singleton]

/-- In a pipe of eighteen bytes or more, three pushes and reads bring both pointers to the end
of the buffer. -/
theorem reach_end (large : 18 ≤ cfg.pipeSize.toNat) :
    ∃ s, (system cfg).Reachable (RunningPushes cfg) s ∧
      AtRest s cfg.pipeSize.toNat cfg.pipeSize.toNat := by
  have limit := @maxPipeElementSize_toNat cfg.pipeSize (by omega)
  have origin : Drained (.start blankStorage) 0 := ⟨⟨rfl, rfl, rfl, rfl, rfl⟩, rfl, rfl⟩
  have ⟨first, toFirst, drained⟩ := @push_and_read cfg _ _ (cfg.pipeSize.toNat / 2 - 9) origin
    (by omega) (by omega)
  have ⟨second, toSecond, drained⟩ := @push_and_read cfg _ _ (cfg.pipeSize.toNat / 2 - 5) drained
    (by omega) (by omega)
  have ⟨third, toThird, drained⟩ := @push_and_read cfg _ _ (cfg.pipeSize.toNat % 2 + 2) drained
    (by omega) (by omega)
  have ending : 0 + 4 + (cfg.pipeSize.toNat / 2 - 9) + 4 + (cfg.pipeSize.toNat / 2 - 5) + 4 +
      (cfg.pipeSize.toNat % 2 + 2) = cfg.pipeSize.toNat := by omega
  rw [ending] at drained
  exact ⟨third, ⟨_, ⟨blankStorage, rfl⟩, (toFirst.trans toSecond).trans toThird⟩, drained.rest⟩

/-- In a pipe of more than two thirds of the word range, pushes and reads lead to pointers on
which `isFull` forms a sum that wraps for some admissible length. -/
theorem reach_inexact (beyond : 2 ^ 32 < cfg.pipeSize.toNat + cfg.pipeSize.toNat / 2) :
    ∃ s length, (system cfg).Reachable (RunningPushes cfg) s ∧
      length ≤ maxPipeElementSize cfg.pipeSize ∧
      ∃ sum ∈ isFullSums cfg.pipeSize length (getPointer s.pipe.readVPtr)
        (getPointer s.pipe.writeVPtr), ¬ Exact sum.1 sum.2 := by
  have least : 10 ≤ cfg.pipeSize.toNat := by omega
  have limit := maxPipeElementSize_toNat least
  have fourWord : lengthBytes.toNat = 4 := rfl
  have ⟨s, reached, rest⟩ := @reach_end cfg (by omega)
  by_cases last : 2 ^ 32 ≤ cfg.pipeSize.toNat + 4
  · -- the header test at the end of the buffer wraps
    refine ⟨s, 0, reached, UInt32.zero_le, (getPointer s.pipe.writeVPtr, lengthBytes), ?_, ?_⟩
    · have unlapped : ¬ getPointer s.pipe.readVPtr > getPointer s.pipe.writeVPtr := by
        rw [gt_iff_lt, UInt32.lt_iff_toNat_lt, rest.readPtr, rest.writePtr]
        exact Nat.lt_irrefl _
      rw [isFullSums, if_neg unlapped]
      split <;> exact List.mem_cons_self
    · rw [exact_iff, rest.writePtr, fourWord]
      omega
  · -- one lap on, the writer just behind the reader tests the longest record
    have ⟨first, toFirst, rest⟩ := @push_front cfg s (cfg.pipeSize.toNat / 2 - 9) rest least
      (by omega) (by omega)
    have ⟨second, toSecond, _, rest⟩ := @push_behind cfg first _ _ (cfg.pipeSize.toNat / 2 - 5)
      rest (by omega) (by omega) (by omega)
    have ⟨third, toThird, _, rest⟩ := @push_behind cfg second _ _ (cfg.pipeSize.toNat % 2 + 1)
      rest (by omega) (by omega) (by omega)
    have length : (maxPipeElementSize cfg.pipeSize + lengthBytes).toNat =
        (maxPipeElementSize cfg.pipeSize).toNat + 4 := ptr_add_toNat _ _ (by omega)
    refine ⟨third, maxPipeElementSize cfg.pipeSize,
      reached.leads ((toFirst.trans toSecond).trans toThird), UInt32.le_refl _,
      (getPointer third.pipe.writeVPtr, maxPipeElementSize cfg.pipeSize + lengthBytes), ?_, ?_⟩
    · have lapped : getPointer third.pipe.readVPtr > getPointer third.pipe.writeVPtr := by
        rw [gt_iff_lt, UInt32.lt_iff_toNat_lt, rest.readPtr, rest.writePtr]
        omega
      rw [isFullSums, if_pos lapped]
      exact List.mem_cons_of_mem _ List.mem_cons_self
    · rw [exact_iff, rest.writePtr, length]
      omega

end LargePipes

/-- In the runs of pushes and record reads, and for every admissible length, the arithmetic of
the writer is that of unbounded numbers exactly in the pipes of up to two thirds of the word
range. -/
theorem arithmetic_exact_iff {cfg : Config} (least : 10 ≤ cfg.pipeSize.toNat) :
    (∀ s length, (system cfg).Reachable (RunningPushes cfg) s →
      length ≤ maxPipeElementSize cfg.pipeSize → ExactArithmetic cfg s length) ↔
      cfg.pipeSize.toNat + cfg.pipeSize.toNat / 2 ≤ 2 ^ 32 := by
  constructor
  · intro exactly
    by_contra beyond
    have ⟨s, length, reached, short, sum, member, inexact⟩ := reach_inexact (Nat.not_le.mp beyond)
    exact inexact ((exactly s length reached short).isFull_sums sum member)
  · intro fits s length reached short
    exact exactArithmetic_of_bounds ⟨least, fits⟩ reached short

/-- In a pipe of `2 ^ 32 - 1` bytes a sum wraps. -/
theorem arithmetic_wraps_in_largest_pipe :
    ¬ ∀ (cfg : Config) (s : State) (length : UInt32), 10 ≤ cfg.pipeSize.toNat →
      (system cfg).Reachable (RunningPushes cfg) s →
      length ≤ maxPipeElementSize cfg.pipeSize → ExactArithmetic cfg s length := by
  intro claimed
  have ⟨s, length, reached, short, sum, member, inexact⟩ :=
    @reach_inexact ⟨4294967295, .little⟩ (by decide)
  exact inexact ((claimed _ s length (by decide) reached short).isFull_sums sum member)

/-- In a pipe of twelve bytes no sum wraps. -/
theorem arithmetic_exact_iff_small :
    10 ≤ smallConfig.pipeSize.toNat ∧
      ExactArithmetic smallConfig (.start blankStorage) 1 :=
  ⟨by decide, (arithmetic_exact_iff (by decide)).mpr (by decide) _ 1 (.start ⟨blankStorage, rfl⟩)
    (by decide)⟩

end PerfVerif.Pipe
