import PerfVerif.Lib.Memory
import PerfVerif.Lib.Words

/-!
# The lockless pipe: fields and pure operations

The fields of `LocklessPipe` and the operations that compute on values already loaded:
the versioned pointers, the wrap and fullness tests, the placement that `startWrite`
reserves, and the checks of `validate`. All pointer arithmetic is the source's `uint32_t`
and `uint64_t` arithmetic and wraps where the source's does. The buffer is the memory at
and behind `&buf_[0]`, indexed from it, so an access outside the buffer is visible as an
offset at or above the pipe size.
-/

namespace PerfVerif.Pipe

/-- `sizeof(length)`, the size of a record header. -/
def lengthBytes : UInt32 := 4

/-- `getVersionedPointer`: the version in the upper half, the pointer in the lower. -/
def getVersionedPointer (version pointer : UInt32) : UInt64 :=
  pointer.toUInt64 ||| version.toUInt64 <<< 32

/-- `getVersion`. -/
def getVersion (vPointer : UInt64) : UInt32 := (vPointer >>> 32).toUInt32

/-- `getPointer`. -/
def getPointer (vPointer : UInt64) : UInt32 := (vPointer &&& 0xFFFFFFFF).toUInt32

/-- `MAX_PIPE_ELEMENT_SIZE`, computed in `size_t` and narrowed. -/
def maxPipeElementSize (pipeSize : UInt32) : UInt32 :=
  ((pipeSize / 2).toUInt64 - (4 + 1)).toUInt32

/-- `STOMP`. -/
def stomp : UInt64 := 0xDEADBEEF

/-- `isWrap`: whether `length` bytes at `ptr` would pass the end of the buffer. -/
def isWrap (pipeSize length ptr : UInt32) : Bool := decide (ptr + length > pipeSize)

/-- `isFull` on the two pointers it loads. -/
def isFullAt (pipeSize length localReadPtr localWritePtr : UInt32) : Bool :=
  if localReadPtr > localWritePtr then
    if localWritePtr + (length + lengthBytes) < localReadPtr then false else true
  else if isWrap pipeSize lengthBytes localWritePtr then
    if length + lengthBytes < localReadPtr then false else true
  else
    let tempIndex := localWritePtr + lengthBytes
    if isWrap pipeSize length tempIndex then
      if length < localReadPtr then false else true
    else false

/-- What `startWrite` derives from `writeVPtr_` and the length once it may write. -/
structure Reservation where
  /-- Offset of the header, `lengthPtr`. -/
  lengthPtr : UInt32
  /-- Offset of the payload, whose address `startWrite` returns. -/
  payloadPtr : UInt32
  /-- The value stored in `nextWriteVPtr_`. -/
  nextWriteVPtr : UInt64
  deriving DecidableEq, Repr

/-- The placement part of `startWrite`. -/
def reserve (pipeSize : UInt32) (writeVPtr : UInt64) (length : UInt32) : Reservation :=
  let localWritePtr := getPointer writeVPtr
  let localWriteVersion := getVersion writeVPtr
  let (localWritePtr, localWriteVersion) :=
    if isWrap pipeSize lengthBytes localWritePtr then (0, localWriteVersion + 1)
    else (localWritePtr, localWriteVersion)
  let lengthPtr := localWritePtr
  let localWritePtr := localWritePtr + lengthBytes
  let (localWritePtr, localWriteVersion) :=
    if isWrap pipeSize length localWritePtr then (0, localWriteVersion + 1)
    else (localWritePtr, localWriteVersion)
  ⟨lengthPtr, localWritePtr, getVersionedPointer localWriteVersion (localWritePtr + length)⟩

/-- The diagnostics of `validate`, one for each of its checks. -/
inductive ValidateError where
  | counts (numRead numWritten : UInt64)
  | versions (writeVersion readVersion : UInt32)
  | writePtrBounds (writeVPtr : UInt64)
  | readPtrBounds (readVPtr : UInt64)
  | corruptState (writeVersion writePointer readVersion readPointer : UInt32)
  | stomps (stomp1 stomp2 stomp3 stomp4 : UInt64)
  deriving DecidableEq, Repr

/-- A number as `std::hex` prints it. -/
def hex (value : UInt64) : String := String.ofList (Nat.toDigits 16 value.toNat)

/-- The line a diagnostic writes to `std::cerr`. -/
def ValidateError.message : ValidateError → String
  | .counts numRead numWritten =>
    .join ["LocklessPipe Error: NumWritten/NumRead out of synch:",
      " Num Read: ", toString numRead, " Num Written: ", toString numWritten, "\n"]
  | .versions writeVersion readVersion =>
    .join ["LocklessPipe Error: Versions out of synch:", " Write Version: ",
      toString writeVersion, " Read Version: ", toString readVersion, "\n"]
  | .writePtrBounds writeVPtr =>
    .join ["LocklessPipe Error: WritePtr out of bounds: ", toString writeVPtr, "\n"]
  | .readPtrBounds readVPtr =>
    .join ["LocklessPipe Error: ReadPtr out of bounds: ", toString readVPtr, "\n"]
  | .corruptState writeVersion writePointer readVersion readPointer =>
    .join ["LocklessPipe Error: Corrupt state:", " Write Version ", toString writeVersion,
      " Write Pointer ", toString writePointer, " Read Version ", toString readVersion,
      " Read Pointer ", toString readPointer, "\n"]
  | .stomps stomp1 stomp2 stomp3 stomp4 =>
    .join ["LocklessPipe Error: Stomp variables have been corrupted: ", hex stomp1, " : ",
      hex stomp2, " : ", hex stomp3, " : ", hex stomp4, "\n"]

/-- The fields of a pipe. -/
structure LocklessPipe where
  numRead : UInt64
  numWritten : UInt64
  numFailedWrites : UInt64
  stomp1 : UInt64
  readVPtr : UInt64
  stomp2 : UInt64
  writeVPtr : UInt64
  stomp3 : UInt64
  nextWriteVPtr : UInt64
  stomp4 : UInt64
  isWriterRunning : Bool
  /-- The memory from `&buf_[0]` on. -/
  buf : Nat → UInt8

namespace LocklessPipe

/-- `clear`. -/
def clear (pipe : LocklessPipe) : LocklessPipe :=
  { pipe with readVPtr := 0, writeVPtr := 0, nextWriteVPtr := 0, numRead := 0, numWritten := 0 }

/-- The constructor, over whatever the storage held: `buf_` is left uninitialised. -/
def construct (storage : LocklessPipe) : LocklessPipe :=
  { clear { storage with numFailedWrites := 0, stomp1 := stomp, stomp2 := stomp,
                         stomp3 := stomp, stomp4 := stomp } with isWriterRunning := true }

/-- `isFull`, its two loads taken at one moment. -/
def isFull (pipeSize : UInt32) (pipe : LocklessPipe) (length : UInt32) : Bool :=
  isFullAt pipeSize length (getPointer pipe.readVPtr) (getPointer pipe.writeVPtr)

/-- `isEmpty`. -/
def isEmpty (pipe : LocklessPipe) : Bool := pipe.readVPtr == pipe.writeVPtr

/-- `count`. -/
def count (pipe : LocklessPipe) : UInt32 := (pipe.numWritten - pipe.numRead).toUInt32

/-- The checks of `validate` on the values of its four loads, in the order of the source. -/
def validateErrors (pipeSize : UInt32) (pipe : LocklessPipe)
    (numRead numWritten readVPtr writeVPtr : UInt64) : List ValidateError :=
  (if numRead > numWritten then [ValidateError.counts numRead numWritten] else []) ++
  (if getVersion writeVPtr - getVersion readVPtr > 1 then
    [ValidateError.versions (getVersion writeVPtr) (getVersion readVPtr)] else []) ++
  (if getPointer writeVPtr > pipeSize then [ValidateError.writePtrBounds writeVPtr] else []) ++
  (if getPointer readVPtr > pipeSize then [ValidateError.readPtrBounds readVPtr] else []) ++
  (if getPointer writeVPtr = getPointer readVPtr ∧ getVersion writeVPtr ≠ getVersion readVPtr then
    [ValidateError.corruptState (getVersion writeVPtr) (getPointer writeVPtr)
      (getVersion readVPtr) (getPointer readVPtr)] else []) ++
  (if pipe.stomp1 ≠ stomp ∨ pipe.stomp2 ≠ stomp ∨ pipe.stomp3 ≠ stomp ∨ pipe.stomp4 ≠ stomp then
    [ValidateError.stomps pipe.stomp1 pipe.stomp2 pipe.stomp3 pipe.stomp4] else [])

/-- The result of `validate` on the values of its four loads. -/
def validateWith (pipeSize : UInt32) (pipe : LocklessPipe)
    (numRead numWritten readVPtr writeVPtr : UInt64) : Bool :=
  (validateErrors pipeSize pipe numRead numWritten readVPtr writeVPtr).isEmpty

/-- `validate`, its four loads taken at one moment. -/
def validate (pipeSize : UInt32) (pipe : LocklessPipe) : Bool :=
  validateWith pipeSize pipe pipe.numRead pipe.numWritten pipe.readVPtr pipe.writeVPtr

end LocklessPipe

end PerfVerif.Pipe
