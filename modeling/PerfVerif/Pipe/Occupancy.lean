import PerfVerif.Pipe.Representation
import Mathlib.Algebra.GroupWithZero.Nat

/-!
# How full the pipe is

`percentFull` takes the distance of the two pointers, around the end of the buffer if need be, for
the bytes in use. Behind a record that did not fit before the end these include the bytes skipped
there, so the pipe looks fuller than it is, by less than half its size. Its floating-point division
is left out.
-/

namespace PerfVerif.Pipe

open RecordRing Transition

/-- The numerator of `percentFull`, on the two pointers it loads. -/
def occupiedAt (pipeSize rptr wptr : UInt32) : UInt32 :=
  if rptr > wptr then pipeSize - (rptr - wptr) else wptr - rptr

/-- The numerator of `percentFull`. -/
def LocklessPipe.occupied (pipeSize : UInt32) (pipe : LocklessPipe) : UInt32 :=
  occupiedAt pipeSize (getPointer pipe.readVPtr) (getPointer pipe.writeVPtr)

/-- The bytes of the unread records, headers included. -/
def State.used (s : State) : Nat := (s.unread.map fun record => 4 + record.length.toNat).sum

section Distance

variable {pipeSize : UInt32}

/-- Two pointers into the buffer are never more than the buffer apart. -/
theorem occupiedAt_le {rptr wptr : UInt32} (read : rptr ≤ pipeSize) (write : wptr ≤ pipeSize) :
    occupiedAt pipeSize rptr wptr ≤ pipeSize := by
  rw [UInt32.le_iff_toNat_le] at read write ⊢
  unfold occupiedAt
  split
  · rename_i wrapped
    rw [gt_iff_lt, UInt32.lt_iff_toNat_lt] at wrapped
    have apart : (rptr - wptr).toNat = rptr.toNat - wptr.toNat :=
      UInt32.toNat_sub_of_le _ _ (UInt32.le_iff_toNat_le.mpr (by omega))
    rw [UInt32.toNat_sub_of_le _ _ (UInt32.le_iff_toNat_le.mpr (by omega))]
    omega
  · rename_i ordered
    rw [gt_iff_lt, UInt32.lt_iff_toNat_lt] at ordered
    rw [UInt32.toNat_sub_of_le _ _ (UInt32.le_iff_toNat_le.mpr (by omega))]
    omega

/-- The distance of two positions less than a lap apart, without the one behind the last offset. -/
theorem occupiedAt_positions {head tail : Nat} (ordered : head ≤ tail)
    (window : tail < head + (pipeSize.toNat + 1)) :
    (occupiedAt pipeSize (getPointer (vptrAt pipeSize head))
        (getPointer (vptrAt pipeSize tail))).toNat =
      if tail / (pipeSize.toNat + 1) = head / (pipeSize.toNat + 1) then tail - head
      else tail - head - 1 := by
  have laps := window_laps ordered window
  have rptr := getPointer_vptrAt_toNat pipeSize head
  have wptr := getPointer_vptrAt_toNat pipeSize tail
  generalize getPointer (vptrAt pipeSize head) = read at rptr ⊢
  generalize getPointer (vptrAt pipeSize tail) = write at wptr ⊢
  obtain ⟨lap, offset, same, bound, quotient, remainder⟩ := split_position pipeSize.toNat head
  obtain ⟨last, stop, same', bound', quotient', remainder'⟩ := split_position pipeSize.toNat tail
  rw [quotient, quotient', remainder, remainder'] at laps
  rw [remainder] at rptr
  rw [remainder'] at wptr
  rw [quotient, quotient', occupiedAt]
  rcases laps with ⟨lapped, offsets⟩ | ⟨lapped, offsets⟩
  · have forward : ¬ read > write := by
      rw [gt_iff_lt, UInt32.lt_iff_toNat_lt]
      omega
    rw [if_neg forward, if_pos lapped,
      UInt32.toNat_sub_of_le _ _ (UInt32.le_iff_toNat_le.mpr (by omega)), same, same', lapped]
    omega
  · have backward : read > write := by
      rw [gt_iff_lt, UInt32.lt_iff_toNat_lt]
      omega
    have apart : (read - write).toNat = read.toNat - write.toNat :=
      UInt32.toNat_sub_of_le _ _ (UInt32.le_iff_toNat_le.mpr (by omega))
    rw [if_pos backward, if_neg (by omega),
      UInt32.toNat_sub_of_le _ _ (UInt32.le_iff_toNat_le.mpr (by omega)), apart, same, same',
      lapped, next_lap]
    omega

end Distance

section States

variable {cfg : Config} {s s' : State}

/-- The unread records lead from the read position to the write position. -/
theorem posOf_unread (cfg : Config) (s : State) :
    posOf cfg s.published = (s.unread.map fun record => record.length.toNat).foldl
      (endAt cfg.pipeSize.toNat 4) (posOf cfg (s.published.take s.consumed)) := by
  rw [posOf, posOf, position, position, ← List.foldl_append, ← List.map_append, State.unread,
    List.take_append_drop]

/-- What the pointers show as occupied is the unread records and less than half a pipe more. -/
theorem Inv.occupied (bounds : WordBounds cfg.pipeSize) (inv : Inv cfg s) :
    s.used ≤ (s.pipe.occupied cfg.pipeSize).toNat ∧
      (s.pipe.occupied cfg.pipeSize).toNat < s.used + cfg.pipeSize.toNat / 2 := by
  have least := bounds.ten_le
  have layout := inv.layout
  have distance := occupiedAt_positions layout.ordered layout.window
  rw [← layout.readVPtr_eq, ← layout.writeVPtr_eq] at distance
  have short : ∀ len ∈ s.unread.map fun record => record.length.toNat,
      4 + len ≤ cfg.pipeSize.toNat ∧ len ≤ cfg.pipeSize.toNat / 2 - 5 := by
    intro len member
    obtain ⟨record, unread, rfl⟩ := List.mem_map.mp member
    obtain ⟨index, inside, rfl⟩ := List.mem_iff_getElem.mp (List.mem_of_mem_drop unread)
    have admissible := (layout.located index inside).short
    have half := half_of_le_max least admissible
    omega
  have ⟨_, same, next⟩ := foldl_endAt_gap _ (posOf cfg (s.published.take s.consumed)) _ short
  rw [← posOf_unread, List.map_map] at same next
  change posOf cfg s.published / _ = _ → posOf cfg s.published = _ + s.used at same
  change posOf cfg s.published / _ = _ → _ + s.used < posOf cfg s.published ∧
    posOf cfg s.published ≤ _ + s.used + _ at next
  change (s.pipe.occupied cfg.pipeSize).toNat = _ at distance
  rw [distance]
  rcases window_laps layout.ordered layout.window with ⟨lap, _⟩ | ⟨lap, _⟩
  · rw [if_pos lap, same lap]
    omega
  · have ⟨more, few⟩ := next lap
    rw [if_neg (by omega)]
    omega

/-- Nothing is in use exactly when every record is read. -/
theorem used_eq_zero_iff (s : State) (bound : s.consumed ≤ s.published.length) :
    s.used = 0 ↔ s.consumed = s.published.length := by
  constructor
  · intro none
    by_contra more
    have inside : s.consumed < s.published.length := by omega
    rw [State.used, State.unread, List.drop_eq_getElem_cons inside, List.map_cons,
      List.sum_cons] at none
    omega
  · intro all
    rw [State.used, State.unread, all, List.drop_length]
    rfl

end States

/-- `percentFull` is between 0 and 100 even when the reader and the writer go on between its two
loads. At one moment it is 0 exactly for an empty pipe, and its numerator counts at least the bytes
of the unread records and less than half a pipe more. -/
theorem percentFull_accurate {cfg : Config} {s s' : State} (bounds : WordBounds cfg.pipeSize)
    (reached : (system cfg).Reachable Disciplined s)
    (path : (system cfg).Leads Disciplined s s') :
    occupiedAt cfg.pipeSize (getPointer s.pipe.readVPtr) (getPointer s'.pipe.writeVPtr) ≤
        cfg.pipeSize ∧
      s.used ≤ (s.pipe.occupied cfg.pipeSize).toNat ∧
      (s.pipe.occupied cfg.pipeSize).toNat < s.used + cfg.pipeSize.toNat / 2 ∧
      (s.pipe.occupied cfg.pipeSize = 0 ↔ s.pipe.isEmpty = true) := by
  have inv := reachable_inv bounds reached
  have inv' := reachable_inv bounds (reached.leads path)
  have ⟨least, most⟩ := inv.occupied bounds
  refine ⟨?_, least, most, ?_⟩
  · rw [inv.layout.readVPtr_eq, inv'.layout.writeVPtr_eq]
    exact occupiedAt_le (getPointer_vptrAt_le _ _) (getPointer_vptrAt_le _ _)
  · rw [LocklessPipe.isEmpty, beq_iff_eq, inv.layout.pointers_eq_iff,
      ← used_eq_zero_iff s inv.layout.consumed_le]
    constructor
    · intro zero
      rw [zero] at least
      exact Nat.le_zero.mp least
    · intro none
      have same := (inv.layout.pointers_eq_iff).mpr
        ((used_eq_zero_iff s inv.layout.consumed_le).mp none)
      rw [LocklessPipe.occupied, same, occupiedAt, if_neg (by simp), UInt32.sub_self]

/-- `percentFull` is accurate with the first publication between its two loads. -/
theorem percentFull_accurate_push :
    ∃ s s', (system smallConfig).Leads Disciplined s s' ∧ s.used = 0 ∧ s'.used = 5 ∧
      occupiedAt 12 (getPointer s.pipe.readVPtr) (getPointer s'.pipe.writeVPtr) ≤ 12 := by
  have replay : ((system smallConfig).run (.start blankStorage) pushByte).map State.used =
      some 5 := by decide +kernel
  obtain ⟨s', replayed, used⟩ := Option.map_eq_some_iff.mp replay
  have path : (system smallConfig).Leads Disciplined (.start blankStorage) s' :=
    System.leads_of_run pushByte
      (by simp [pushByte, Disciplined, CallsCopy, NoRestartInWindow, WriteCall.Copies,
        WriteCall.push]) replayed
  exact ⟨_, s', path, by decide, used,
    (percentFull_accurate ⟨by decide, by decide⟩ (.start ⟨blankStorage, rfl⟩) path).1⟩

end PerfVerif.Pipe
