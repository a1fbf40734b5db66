import PerfVerif.Pipe.LocklessPipe
import PerfVerif.Lib.RecordRing

/-!
# Versioned pointers as positions of a record ring

The pipe stores its records as a record ring with four-byte headers. A versioned pointer
shows a ring position modulo the 32-bit version: its pointer is the offset and its version
the lap number. Under the size bounds none of the 32-bit sums wraps, and then `reserve`
places a record where the ring does, `isFull` is the ring's room test, and two versioned
pointers less than a lap apart are equal only when their positions are.
-/

namespace PerfVerif.Pipe

open RecordRing

/-- The pipe sizes for which the 32-bit sums of the writer cannot wrap: the largest of them
adds the longest record to a pointer just before the end of the buffer. -/
structure WordBounds (pipeSize : UInt32) : Prop where
  /-- Smaller pipes have no non-negative element limit. -/
  ten_le : 10 ≤ pipeSize.toNat
  /-- One and a half times the size still fits a 32-bit word. -/
  sums_fit : pipeSize.toNat + pipeSize.toNat / 2 ≤ 2 ^ 32

/-- Pipe sizes well inside the word bounds. -/
structure SizeBounds (pipeSize : UInt32) : Prop where
  /-- Smaller pipes have no non-negative element limit. -/
  ten_le : 10 ≤ pipeSize.toNat
  /-- Twice the size still fits a 32-bit word. -/
  le_half : pipeSize.toNat ≤ 2 ^ 31

/-- A size twice of which fits a 32-bit word is inside the word bounds. -/
theorem SizeBounds.words {pipeSize : UInt32} (bounds : SizeBounds pipeSize) :
    WordBounds pipeSize := by
  have most := bounds.le_half
  exact ⟨bounds.ten_le, by omega⟩

/-- The versioned pointer that shows a ring position. -/
def vptrAt (pipeSize : UInt32) (pos : Nat) : UInt64 :=
  getVersionedPointer (UInt32.ofNat (pos / (pipeSize.toNat + 1)))
    (UInt32.ofNat (pos % (pipeSize.toNat + 1)))

/-- The ring position behind a record, with the header of the pipe. -/
abbrev nextPos (pipeSize : UInt32) (pos len : Nat) : Nat := endAt pipeSize.toNat 4 pos len

@[simp] theorem getPointer_getVersionedPointer (version pointer : UInt32) :
    getPointer (getVersionedPointer version pointer) = pointer := by
  apply UInt32.toNat.inj
  rw [getPointer, Words.low_toNat, getVersionedPointer, Words.pack_toNat]
  have bound := pointer.toNat_lt
  omega

@[simp] theorem getVersion_getVersionedPointer (version pointer : UInt32) :
    getVersion (getVersionedPointer version pointer) = version := by
  apply UInt32.toNat.inj
  rw [getVersion, Words.high_toNat, getVersionedPointer, Words.pack_toNat]
  have bound := pointer.toNat_lt
  omega

/-- A versioned pointer is determined by its two halves. -/
theorem versionedPointer_ext {left right : UInt64} (versions : getVersion left = getVersion right)
    (pointers : getPointer left = getPointer right) : left = right := by
  have high := congrArg UInt32.toNat versions
  have low := congrArg UInt32.toNat pointers
  simp only [getVersion, getPointer, Words.high_toNat, Words.low_toNat] at high low
  apply UInt64.toNat.inj
  omega

@[simp] theorem getVersion_vptrAt (pipeSize : UInt32) (pos : Nat) :
    getVersion (vptrAt pipeSize pos) = UInt32.ofNat (pos / (pipeSize.toNat + 1)) :=
  getVersion_getVersionedPointer _ _

/-- The pointer of a position is its offset; offsets fit a 32-bit word. -/
@[simp] theorem getPointer_vptrAt_toNat (pipeSize : UInt32) (pos : Nat) :
    (getPointer (vptrAt pipeSize pos)).toNat = pos % (pipeSize.toNat + 1) := by
  have bound := pipeSize.toNat_lt
  have offset : pos % (pipeSize.toNat + 1) < pipeSize.toNat + 1 := Nat.mod_lt _ (Nat.succ_pos _)
  rw [vptrAt, getPointer_getVersionedPointer, UInt32.toNat_ofNat']
  exact Nat.mod_eq_of_lt (by omega)

/-- The first position is the null pointer that `clear` stores. -/
theorem vptrAt_zero (pipeSize : UInt32) : vptrAt pipeSize 0 = 0 := by
  simp only [vptrAt, Nat.zero_div, Nat.zero_mod]
  rfl

/-- The versions and pointers of two positions less than a lap apart: equal versions and
ordered pointers, or the next version and a smaller pointer. -/
theorem vptrAt_window {pipeSize : UInt32} {head tail : Nat} (ordered : head ≤ tail)
    (window : tail < head + (pipeSize.toNat + 1)) :
    (getVersion (vptrAt pipeSize tail) = getVersion (vptrAt pipeSize head) ∧
        getPointer (vptrAt pipeSize head) ≤ getPointer (vptrAt pipeSize tail)) ∨
      (getVersion (vptrAt pipeSize tail) = getVersion (vptrAt pipeSize head) + 1 ∧
        getPointer (vptrAt pipeSize tail) < getPointer (vptrAt pipeSize head)) := by
  simp only [getVersion_vptrAt, UInt32.le_iff_toNat_le, UInt32.lt_iff_toNat_lt,
    getPointer_vptrAt_toNat]
  rcases window_laps ordered window with ⟨lap, offsets⟩ | ⟨lap, offsets⟩
  · exact Or.inl ⟨by rw [lap], offsets⟩
  · exact Or.inr ⟨by rw [lap, UInt32.ofNat_add]; rfl, offsets⟩

/-- Two positions less than a lap apart are shown alike only when they are equal. -/
theorem vptrAt_inj {pipeSize : UInt32} {head tail : Nat} (ordered : head ≤ tail)
    (window : tail < head + (pipeSize.toNat + 1))
    (same : vptrAt pipeSize head = vptrAt pipeSize tail) : head = tail := by
  have offsets := congrArg (fun word => (getPointer word).toNat) same
  simp only [getPointer_vptrAt_toNat] at offsets
  rcases window_laps ordered window with ⟨lap, -⟩ | ⟨-, smaller⟩
  · rw [← Nat.div_add_mod head (pipeSize.toNat + 1), ← Nat.div_add_mod tail (pipeSize.toNat + 1),
      lap, offsets]
  · omega

/-- The element limit is half the pipe less five bytes. -/
theorem maxPipeElementSize_toNat {pipeSize : UInt32} (least : 10 ≤ pipeSize.toNat) :
    (maxPipeElementSize pipeSize).toNat = pipeSize.toNat / 2 - 5 := by
  have bound := pipeSize.toNat_lt
  have halved : (pipeSize / 2).toNat = pipeSize.toNat / 2 := by
    rw [UInt32.toNat_div]
    rfl
  have difference : ((pipeSize / 2).toUInt64 - (4 + 1)).toNat = pipeSize.toNat / 2 - 5 := by
    rw [UInt64.toNat_sub_of_le]
    · rw [UInt32.toNat_toUInt64, halved]
      rfl
    · rw [UInt64.le_iff_toNat_le, UInt32.toNat_toUInt64, halved]
      change 5 ≤ pipeSize.toNat / 2
      omega
  rw [maxPipeElementSize, UInt64.toNat_toUInt32, difference]
  exact Nat.mod_eq_of_lt (by omega)

/-- An admissible element, header included, is shorter than half the pipe. -/
theorem half_of_le_max {pipeSize length : UInt32} (least : 10 ≤ pipeSize.toNat)
    (short : length ≤ maxPipeElementSize pipeSize) :
    2 * (4 + length.toNat + 1) ≤ pipeSize.toNat := by
  rw [UInt32.le_iff_toNat_le, maxPipeElementSize_toNat least] at short
  omega

/-- The versioned pointer of an explicit lap and offset has them as its version and pointer. -/
theorem vptrAt_split {pipeSize : UInt32} (lap offset : Nat) (bound : offset ≤ pipeSize.toNat) :
    vptrAt pipeSize (lap * (pipeSize.toNat + 1) + offset) =
      getVersionedPointer (UInt32.ofNat lap) (UInt32.ofNat offset) := by
  rw [vptrAt, lap_of_split lap offset bound, offset_of_split lap offset bound]

/-- The 32-bit sum of a pointer and a length that do not wrap. -/
theorem ptr_add_toNat (ptr length : UInt32) (bound : ptr.toNat + length.toNat < 2 ^ 32) :
    (ptr + length).toNat = ptr.toNat + length.toNat := by
  rw [UInt32.toNat_add]
  exact Nat.mod_eq_of_lt bound

/-- `isWrap` decides the sum over the natural numbers as long as it fits 32 bits. -/
theorem isWrap_iff (pipeSize length ptr : UInt32) (bound : ptr.toNat + length.toNat < 2 ^ 32) :
    isWrap pipeSize length ptr = true ↔ pipeSize.toNat < ptr.toNat + length.toNat := by
  simp only [isWrap, decide_eq_true_eq, gt_iff_lt, UInt32.lt_iff_toNat_lt,
    ptr_add_toNat ptr length bound]

/-- Where `reserve` places a record appended at a position: header, payload and the end of
the record are those of the ring. -/
structure Placed (pipeSize : UInt32) (pos : Nat) (length : UInt32) (slot : Reservation) :
    Prop where
  lengthPtr : slot.lengthPtr.toNat = headerAt pipeSize.toNat 4 pos % (pipeSize.toNat + 1)
  payloadPtr : slot.payloadPtr.toNat =
    payloadAt pipeSize.toNat 4 pos length.toNat % (pipeSize.toNat + 1)
  nextWriteVPtr : slot.nextWriteVPtr = vptrAt pipeSize (nextPos pipeSize pos length.toNat)

/-- `startWrite` places an admissible record where the ring places it. The header and the
payload wrap independently, and the version is bumped once for either. -/
theorem reserve_placed {pipeSize length : UInt32} (bounds : WordBounds pipeSize)
    (short : length ≤ maxPipeElementSize pipeSize) (pos : Nat) :
    Placed pipeSize pos length (reserve pipeSize (vptrAt pipeSize pos) length) := by
  have half := half_of_le_max bounds.ten_le short
  have least := bounds.ten_le
  have most := bounds.sums_fit
  obtain ⟨lap, offset, rfl, bound, -, -⟩ := split_position pipeSize.toNat pos
  have offsetWord : (UInt32.ofNat offset).toNat = offset := by
    rw [UInt32.toNat_ofNat']
    exact Nat.mod_eq_of_lt (by omega)
  have fourWord : lengthBytes.toNat = 4 := rfl
  have header := fit_split lap offset 4 bound
  have wraps := isWrap_iff pipeSize lengthBytes (UInt32.ofNat offset)
    (by rw [offsetWord, fourWord]; omega)
  rw [offsetWord, fourWord] at wraps
  unfold reserve
  rw [vptrAt_split lap offset bound, getPointer_getVersionedPointer,
    getVersion_getVersionedPointer]
  by_cases wrapped : pipeSize.toNat < offset + 4
  · -- the header does not fit: both parts start again at the front of the buffer
    have payloadKept : ¬ isWrap pipeSize length (0 + lengthBytes) = true := by
      rw [isWrap_iff pipeSize length (0 + lengthBytes) (by change 4 + length.toNat < _; omega)]
      change ¬ pipeSize.toNat < 4 + length.toNat
      omega
    rw [if_pos wrapped] at header
    have payload : fit pipeSize.toNat ((lap + 1) * (pipeSize.toNat + 1) + 4) length.toNat =
        (lap + 1) * (pipeSize.toNat + 1) + 4 := by
      rw [fit_split (lap + 1) 4 length.toNat (by omega), if_neg (by omega)]
    simp only [wraps.mpr wrapped, ↓reduceIte, if_neg payloadKept]
    refine ⟨?_, ?_, ?_⟩
    · rw [headerAt, header, Nat.mul_mod_left]
      rfl
    · rw [payloadAt, headerAt, header, payload, offset_of_split (lap + 1) 4 (by omega)]
      rfl
    · rw [nextPos, endAt, payloadAt, headerAt, header, payload, Nat.add_assoc,
        vptrAt_split (lap + 1) (4 + length.toNat) (by omega), UInt32.ofNat_add lap 1,
        UInt32.ofNat_add 4 length.toNat, UInt32.ofNat_toNat]
      rfl
  · have headerKept : ¬ isWrap pipeSize lengthBytes (UInt32.ofNat offset) = true :=
      fun wrap => wrapped (wraps.mp wrap)
    have behind : (UInt32.ofNat offset + lengthBytes).toNat = offset + 4 := by
      rw [ptr_add_toNat _ _ (by rw [offsetWord, fourWord]; omega), offsetWord, fourWord]
    have payloadWraps := isWrap_iff pipeSize length (UInt32.ofNat offset + lengthBytes)
      (by rw [behind]; omega)
    rw [behind] at payloadWraps
    rw [if_neg wrapped] at header
    have payload := fit_split lap (offset + 4) length.toNat
      (by omega : offset + 4 ≤ pipeSize.toNat)
    by_cases payloadWrapped : pipeSize.toNat < offset + 4 + length.toNat
    · -- the header stays behind the previous record, the payload moves to the front
      rw [if_pos payloadWrapped] at payload
      simp only [if_neg headerKept, payloadWraps.mpr payloadWrapped, ↓reduceIte]
      refine ⟨?_, ?_, ?_⟩
      · rw [headerAt, header, offset_of_split lap offset bound, offsetWord]
      · rw [payloadAt, headerAt, header, Nat.add_assoc, payload, Nat.mul_mod_left]
        rfl
      · rw [nextPos, endAt, payloadAt, headerAt, header, Nat.add_assoc (lap * _), payload,
          vptrAt_split (lap + 1) length.toNat (by omega), UInt32.ofNat_add lap 1,
          UInt32.ofNat_toNat, UInt32.zero_add]
        rfl
    · have payloadKept : ¬ isWrap pipeSize length (UInt32.ofNat offset + lengthBytes) = true :=
        fun wrap => payloadWrapped (payloadWraps.mp wrap)
      rw [if_neg payloadWrapped] at payload
      simp only [if_neg headerKept, if_neg payloadKept]
      refine ⟨?_, ?_, ?_⟩
      · rw [headerAt, header, offset_of_split lap offset bound, offsetWord]
      · rw [payloadAt, headerAt, header, Nat.add_assoc, payload,
          offset_of_split lap (offset + 4) (by omega), behind]
      · rw [nextPos, endAt, payloadAt, headerAt, header, Nat.add_assoc (lap * _), payload,
          Nat.add_assoc (lap * _), vptrAt_split lap (offset + 4 + length.toNat) (by omega),
          UInt32.ofNat_add (offset + 4), UInt32.ofNat_add offset 4, UInt32.ofNat_toNat]
        rfl

/-- Inside a window of at most one lap, `isFull` is false exactly when the record would end
within one lap of the read position. The test looks at the two offsets only. -/
theorem isFullAt_iff {pipeSize length : UInt32} (bounds : WordBounds pipeSize)
    (short : length ≤ maxPipeElementSize pipeSize) {head tail : Nat} (ordered : head ≤ tail)
    (window : tail < head + (pipeSize.toNat + 1)) :
    isFullAt pipeSize length (getPointer (vptrAt pipeSize head))
        (getPointer (vptrAt pipeSize tail)) = false ↔
      nextPos pipeSize tail length.toNat < head + (pipeSize.toNat + 1) := by
  have half := half_of_le_max bounds.ten_le short
  have most := bounds.sums_fit
  have headBound : head % (pipeSize.toNat + 1) < pipeSize.toNat + 1 :=
    Nat.mod_lt _ (Nat.succ_pos _)
  have tailBound : tail % (pipeSize.toNat + 1) < pipeSize.toNat + 1 :=
    Nat.mod_lt _ (Nat.succ_pos _)
  rw [nextPos, room_iff head tail length.toNat ordered window (by omega)]
  have readPtr := getPointer_vptrAt_toNat pipeSize head
  have writePtr := getPointer_vptrAt_toNat pipeSize tail
  generalize getPointer (vptrAt pipeSize head) = localReadPtr at readPtr ⊢
  generalize getPointer (vptrAt pipeSize tail) = localWritePtr at writePtr ⊢
  rw [← readPtr] at headBound ⊢
  rw [← writePtr] at tailBound ⊢
  have fourWord : lengthBytes.toNat = 4 := rfl
  have record : (length + lengthBytes).toNat = length.toNat + 4 := ptr_add_toNat _ _ (by omega)
  have behindRecord : (localWritePtr + (length + lengthBytes)).toNat =
      localWritePtr.toNat + (length.toNat + 4) := by
    rw [ptr_add_toNat _ _ (by omega), record]
  have behindHeader : (localWritePtr + lengthBytes).toNat = localWritePtr.toNat + 4 :=
    ptr_add_toNat _ _ (by omega)
  have headerWraps := isWrap_iff pipeSize lengthBytes localWritePtr (by omega)
  have payloadWraps := isWrap_iff pipeSize length (localWritePtr + lengthBytes) (by omega)
  rw [fourWord] at headerWraps
  rw [behindHeader] at payloadWraps
  simp only [isFullAt, gt_iff_lt, UInt32.lt_iff_toNat_lt, behindRecord, record, headerWraps,
    payloadWraps]
  split
  · split <;> simp_all
  · split
    · split <;> simp_all
    · split
      · split <;> simp_all
      · simp

end PerfVerif.Pipe
