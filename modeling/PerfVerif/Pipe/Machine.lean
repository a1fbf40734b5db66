import PerfVerif.Pipe.LocklessPipe
import PerfVerif.Lib.System

/-!
# The pipe as a system of threads

One writer, one reader, a control thread that calls `stopWriter` and `startWriter`, and a
thread that calls `validate`, over sequentially consistent fields. An action is one
micro-step of one thread: a load or a store of a shared field, or a store of one payload
byte. The local variables of the source functions live in the control points.

`read` is declared in the source without a body. The reader here is any reader that moves
`readVPtr_` from the end of one record to the end of the next: it may start when `isEmpty`
is false, it stores the end of the oldest unread record in `readVPtr_`, and it increments
`numRead_` once for that record, before or after the store.

The last four fields of a state are the history of the run. No step of a thread depends on
them except that the reader takes the end of the oldest unread record from there.
-/

namespace PerfVerif.Pipe

open Transition

/-- A build of the pipe: its size and the byte order of the host. -/
structure Config where
  pipeSize : UInt32
  order : Words.ByteOrder

/-- One call of the writer: `startWrite(length, block)` and, when it returns a pointer, a
copy of `bytes` to it and `finishWrite`. -/
structure WriteCall where
  length : UInt32
  block : Bool
  bytes : List UInt8
  deriving DecidableEq, Repr

/-- `push`: the length is narrowed to 32 bits, the copy has the full length. -/
def WriteCall.push (value : List UInt8) : WriteCall :=
  ⟨UInt32.ofNat value.length, true, value⟩

/-- `startWrite(length, false)` by a caller that then copies `bytes`. -/
def WriteCall.tryWrite (length : UInt32) (bytes : List UInt8) : WriteCall :=
  ⟨length, false, bytes⟩

/-- The call copies as many bytes as it announced. -/
def WriteCall.Copies (call : WriteCall) : Prop := call.bytes.length = call.length.toNat

/-- Where the writer is. -/
inductive Writer where
  /-- No call in progress. -/
  | idle
  /-- At the size check. -/
  | entered (call : WriteCall)
  /-- In `isFull`, before the load of `readVPtr_`. -/
  | loadRead (call : WriteCall)
  /-- In `isFull`, before the load of `writeVPtr_`. -/
  | loadWrite (call : WriteCall) (localReadPtr : UInt32)
  /-- In the loop condition after `full` became true, before the load of the flag. -/
  | loopFlag (call : WriteCall)
  /-- Behind the loop, before the second load of the flag. -/
  | gate (call : WriteCall) (full : Bool)
  /-- Past both checks, before the store of `nextWriteVPtr_`. -/
  | reserving (call : WriteCall) (full : Bool)
  /-- Before the copy of the header. -/
  | header (call : WriteCall) (slot : Reservation)
  /-- In the copy of the payload, `copied` bytes done. -/
  | copying (call : WriteCall) (slot : Reservation) (copied : Nat)
  /-- In `finishWrite`, before `numWritten_++`. -/
  | counting (call : WriteCall) (slot : Reservation)
  /-- In `finishWrite`, before the store of `writeVPtr_`. -/
  | publishing (call : WriteCall) (slot : Reservation)
  deriving DecidableEq, Repr

/-- How a call of the writer ended. -/
inductive Outcome where
  /-- NULL from the size check. -/
  | tooLarge
  /-- `Interrupted` was thrown. -/
  | interrupted
  /-- NULL from the refusal check. -/
  | refused
  /-- The record was published. -/
  | written
  deriving DecidableEq, Repr

/-- Where the reader is; inside a read, which of its two stores are done. -/
inductive Reader where
  | idle
  | busy (stored counted : Bool)
  deriving DecidableEq, Repr

/-- The micro-steps of the reader. -/
inductive ReaderAct where
  /-- Evaluate `isEmpty` and start a read when it is false. -/
  | begin
  /-- Store the end of the record in `readVPtr_`. -/
  | store
  /-- `numRead_++`. -/
  | count
  deriving DecidableEq, Repr

/-- Where the thread in `validate` is, with the values loaded so far. -/
inductive Validator where
  | idle
  | loadedNumRead (numRead : UInt64)
  | loadedNumWritten (numRead numWritten : UInt64)
  | loadedReadVPtr (numRead numWritten readVPtr : UInt64)
  | returned (valid : Bool)
  deriving DecidableEq, Repr

/-- A record that `finishWrite` has published. -/
structure Record where
  /-- `writeVPtr_` before the record. -/
  start : UInt64
  length : UInt32
  slot : Reservation
  payload : List UInt8
  deriving DecidableEq, Repr

/-- The fields of the pipe, the control points of the threads and the history of the run. -/
structure State where
  pipe : LocklessPipe
  writer : Writer
  reader : Reader
  validator : Validator
  /-- The calls the writer has made, oldest first. -/
  calls : List WriteCall
  /-- How the calls that have ended did end, oldest first. -/
  outcomes : List Outcome
  /-- The records published so far, oldest first. -/
  published : List Record
  /-- How many records the reader has moved `readVPtr_` past. -/
  consumed : Nat

/-- The records that are published and not yet consumed. -/
def State.unread (state : State) : List Record := state.published.drop state.consumed

/-- One micro-step of a thread. -/
inductive Act where
  | call (call : WriteCall)
  | writer
  | reader (act : ReaderAct)
  | stopWriter
  | startWriter
  | validate
  deriving DecidableEq, Repr

/-- The next micro-step of the call in progress: `startWrite`, the copy, `finishWrite`. -/
def writerStep (cfg : Config) (s : State) : Option State :=
  match s.writer with
  | .idle => none
  | .entered call =>
    if call.length > maxPipeElementSize cfg.pipeSize then
      some { s with writer := .idle, outcomes := s.outcomes ++ [.tooLarge] }
    else some { s with writer := .loadRead call }
  | .loadRead call => some { s with writer := .loadWrite call (getPointer s.pipe.readVPtr) }
  | .loadWrite call localReadPtr =>
    if isFullAt cfg.pipeSize call.length localReadPtr (getPointer s.pipe.writeVPtr) then
      some { s with writer := .loopFlag call }
    else some { s with writer := .gate call false }
  | .loopFlag call =>
    if s.pipe.isWriterRunning && call.block then some { s with writer := .loadRead call }
    else some { s with writer := .gate call true }
  | .gate call full =>
    if !s.pipe.isWriterRunning then
      some { s with writer := .idle, outcomes := s.outcomes ++ [.interrupted] }
    else if !call.block && full then
      some { s with writer := .idle, outcomes := s.outcomes ++ [.refused] }
    else some { s with writer := .reserving call full }
  | .reserving call _ =>
    let slot := reserve cfg.pipeSize s.pipe.writeVPtr call.length
    some { s with pipe := { s.pipe with nextWriteVPtr := slot.nextWriteVPtr },
                  writer := .header call slot }
  | .header call slot =>
    some { s with
      pipe := { s.pipe with
        buf := Memory.store s.pipe.buf slot.lengthPtr.toNat (cfg.order.encode call.length) },
      writer := .copying call slot 0 }
  | .copying call slot copied =>
    match call.bytes[copied]? with
    | some byte =>
      some { s with
        pipe := { s.pipe with
          buf := Memory.store s.pipe.buf (slot.payloadPtr.toNat + copied) [byte] },
        writer := .copying call slot (copied + 1) }
    | none => some { s with writer := .counting call slot }
  | .counting call slot =>
    some { s with pipe := { s.pipe with numWritten := s.pipe.numWritten + 1 },
                  writer := .publishing call slot }
  | .publishing call slot =>
    some { s with
      pipe := { s.pipe with writeVPtr := s.pipe.nextWriteVPtr },
      writer := .idle,
      outcomes := s.outcomes ++ [.written],
      published := s.published ++ [⟨s.pipe.writeVPtr, call.length, slot, call.bytes⟩] }

/-- A read is over when both of its stores are done. -/
def Reader.settle (stored counted : Bool) : Reader :=
  if stored && counted then .idle else .busy stored counted

/-- A micro-step of the reader. -/
def readerStep (s : State) : ReaderAct → Option State
  | .begin =>
    match s.reader with
    | .idle => if s.pipe.isEmpty then some s else some { s with reader := .busy false false }
    | .busy _ _ => none
  | .store =>
    match s.reader, s.published[s.consumed]? with
    | .busy false counted, some record =>
      some { s with
        pipe := { s.pipe with readVPtr := record.slot.nextWriteVPtr },
        reader := .settle true counted,
        consumed := s.consumed + 1 }
    | _, _ => none
  | .count =>
    match s.reader with
    | .busy stored false =>
      some { s with pipe := { s.pipe with numRead := s.pipe.numRead + 1 },
                    reader := .settle stored true }
    | _ => none

/-- The next load of `validate`; the last one decides its result. -/
def validateStep (cfg : Config) (s : State) : State :=
  match s.validator with
  | .idle | .returned _ => { s with validator := .loadedNumRead s.pipe.numRead }
  | .loadedNumRead numRead =>
    { s with validator := .loadedNumWritten numRead s.pipe.numWritten }
  | .loadedNumWritten numRead numWritten =>
    { s with validator := .loadedReadVPtr numRead numWritten s.pipe.readVPtr }
  | .loadedReadVPtr numRead numWritten readVPtr =>
    { s with
      validator := .returned
        (s.pipe.validateWith cfg.pipeSize numRead numWritten readVPtr s.pipe.writeVPtr) }

/-- One action of one thread. -/
def step (cfg : Config) (s : State) : Act → Option State
  | .call call =>
    match s.writer with
    | .idle => some { s with writer := .entered call, calls := s.calls ++ [call] }
    | _ => none
  | .writer => writerStep cfg s
  | .reader act => readerStep s act
  | .stopWriter => some { s with pipe := { s.pipe with isWriterRunning := false } }
  | .startWriter => some { s with pipe := { s.pipe with isWriterRunning := true } }
  | .validate => some (validateStep cfg s)

/-- A pipe just constructed, before any call. -/
def State.start (storage : LocklessPipe) : State where
  pipe := .construct storage
  writer := .idle
  reader := .idle
  validator := .idle
  calls := []
  outcomes := []
  published := []
  consumed := 0

/-- The pipe with its threads, started over any storage. -/
def system (cfg : Config) : System State Act where
  init state := ∃ storage, state = .start storage
  step := step cfg

end PerfVerif.Pipe
