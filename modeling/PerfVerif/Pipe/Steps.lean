import PerfVerif.Pipe.Machine

/-!
# What the steps of each thread can do

Inversion of the micro-steps: every case a step of the reader or of the writer can take, and
from these which micro-steps of the writer store into the pipe and which one publishes, how the
writer gets past its gate and how it ends a call, and, for the writer and for the reader, the
fields that no other thread touches.
-/

namespace PerfVerif.Pipe

variable {cfg : Config} {s s' : State}

/-- What a micro-step of the reader can do. -/
theorem readerStep_cases {act : ReaderAct} (taken : readerStep s act = some s') :
    (act = .begin ∧ s.reader = .idle ∧ s.pipe.isEmpty = true ∧ s' = s) ∨
    (act = .begin ∧ s.reader = .idle ∧ s.pipe.isEmpty = false ∧
      s' = { s with reader := .busy false false }) ∨
    (act = .store ∧ ∃ counted, s.reader = .busy false counted ∧
      ∃ inside : s.consumed < s.published.length,
        s' = { s with
          pipe := { s.pipe with readVPtr := s.published[s.consumed].slot.nextWriteVPtr },
          reader := .settle true counted,
          consumed := s.consumed + 1 }) ∨
    (act = .count ∧ ∃ stored, s.reader = .busy stored false ∧
      s' = { s with pipe := { s.pipe with numRead := s.pipe.numRead + 1 },
                    reader := .settle stored true }) := by
  cases act with
  | begin =>
    cases control : s.reader with
    | idle =>
      simp only [readerStep, control] at taken
      split at taken
      · rename_i empty
        exact Or.inl ⟨rfl, rfl, empty, (Option.some.inj taken).symm⟩
      · rename_i filled
        exact Or.inr (Or.inl ⟨rfl, rfl, by simpa using filled, (Option.some.inj taken).symm⟩)
    | busy stored counted => simp [readerStep, control] at taken
  | store =>
    simp only [readerStep] at taken
    split at taken
    · rename_i counted record control found
      obtain ⟨inside, rfl⟩ := List.getElem?_eq_some_iff.mp found
      exact Or.inr (Or.inr (Or.inl ⟨rfl, counted, control, inside, (Option.some.inj taken).symm⟩))
    · contradiction
  | count =>
    simp only [readerStep] at taken
    split at taken
    · rename_i stored control
      exact Or.inr (Or.inr (Or.inr ⟨rfl, stored, control, (Option.some.inj taken).symm⟩))
    · contradiction

/-- `validate` changes nothing but its own control point. -/
theorem validateStep_eq (cfg : Config) (s : State) :
    ∃ validator, validateStep cfg s = { s with validator := validator } := by
  unfold validateStep
  split <;> exact ⟨_, rfl⟩

/-- The micro-steps of the writer that store into the pipe: `startWrite` its reservation and the
header, the copy a byte of the payload, `finishWrite` the count and the publication. -/
inductive WriterStore (cfg : Config) (s : State) : State → Prop
  | reserve {call : WriteCall} {full : Bool} (control : s.writer = .reserving call full) :
      WriterStore cfg s { s with
        pipe := { s.pipe with
          nextWriteVPtr := (reserve cfg.pipeSize s.pipe.writeVPtr call.length).nextWriteVPtr },
        writer := .header call (reserve cfg.pipeSize s.pipe.writeVPtr call.length) }
  | header {call : WriteCall} {slot : Reservation} (control : s.writer = .header call slot) :
      WriterStore cfg s { s with
        pipe := { s.pipe with
          buf := Memory.store s.pipe.buf slot.lengthPtr.toNat (cfg.order.encode call.length) },
        writer := .copying call slot 0 }
  | copy {call : WriteCall} {slot : Reservation} {copied : Nat}
      (control : s.writer = .copying call slot copied) (inside : copied < call.bytes.length) :
      WriterStore cfg s { s with
        pipe := { s.pipe with
          buf := Memory.store s.pipe.buf (slot.payloadPtr.toNat + copied) [call.bytes[copied]] },
        writer := .copying call slot (copied + 1) }
  | count {call : WriteCall} {slot : Reservation} (control : s.writer = .counting call slot) :
      WriterStore cfg s { s with
        pipe := { s.pipe with numWritten := s.pipe.numWritten + 1 },
        writer := .publishing call slot }
  | publish {call : WriteCall} {slot : Reservation}
      (control : s.writer = .publishing call slot) :
      WriterStore cfg s { s with
        pipe := { s.pipe with writeVPtr := s.pipe.nextWriteVPtr },
        writer := .idle,
        outcomes := s.outcomes ++ [.written],
        published := s.published ++ [⟨s.pipe.writeVPtr, call.length, slot, call.bytes⟩] }

/-- What a micro-step of the writer can do, with a case for each branch of `startWrite`, the copy
and `finishWrite`. -/
inductive WriterMove (cfg : Config) (s : State) : State → Prop
  | tooLarge {call : WriteCall} (control : s.writer = .entered call)
      (long : maxPipeElementSize cfg.pipeSize < call.length) :
      WriterMove cfg s { s with writer := .idle, outcomes := s.outcomes ++ [.tooLarge] }
  | enter {call : WriteCall} (control : s.writer = .entered call)
      (short : call.length ≤ maxPipeElementSize cfg.pipeSize) :
      WriterMove cfg s { s with writer := .loadRead call }
  | loadRead {call : WriteCall} (control : s.writer = .loadRead call) :
      WriterMove cfg s { s with writer := .loadWrite call (getPointer s.pipe.readVPtr) }
  | full {call : WriteCall} {localReadPtr : UInt32}
      (control : s.writer = .loadWrite call localReadPtr)
      (tested :
        isFullAt cfg.pipeSize call.length localReadPtr (getPointer s.pipe.writeVPtr) = true) :
      WriterMove cfg s { s with writer := .loopFlag call }
  | free {call : WriteCall} {localReadPtr : UInt32}
      (control : s.writer = .loadWrite call localReadPtr)
      (tested :
        isFullAt cfg.pipeSize call.length localReadPtr (getPointer s.pipe.writeVPtr) = false) :
      WriterMove cfg s { s with writer := .gate call false }
  | again {call : WriteCall} (control : s.writer = .loopFlag call) :
      WriterMove cfg s { s with writer := .loadRead call }
  | leave {call : WriteCall} (control : s.writer = .loopFlag call)
      (stopped : call.block = true → s.pipe.isWriterRunning = false) :
      WriterMove cfg s { s with writer := .gate call true }
  | interrupt {call : WriteCall} {full : Bool} (control : s.writer = .gate call full)
      (stopped : s.pipe.isWriterRunning = false) :
      WriterMove cfg s { s with writer := .idle, outcomes := s.outcomes ++ [.interrupted] }
  | refuse {call : WriteCall} (control : s.writer = .gate call true)
      (running : s.pipe.isWriterRunning = true) (tries : call.block = false) :
      WriterMove cfg s { s with writer := .idle, outcomes := s.outcomes ++ [.refused] }
  | pass {call : WriteCall} {full : Bool} (control : s.writer = .gate call full)
      (running : s.pipe.isWriterRunning = true) (blocks : full = true → call.block = true) :
      WriterMove cfg s { s with writer := .reserving call full }
  | copied {call : WriteCall} {slot : Reservation} {copied : Nat}
      (control : s.writer = .copying call slot copied) (done : call.bytes.length ≤ copied) :
      WriterMove cfg s { s with writer := .counting call slot }
  | store {after : State} (stored : WriterStore cfg s after) : WriterMove cfg s after

/-- Every micro-step of the writer is one of `WriterMove`. -/
theorem writerStep_move (taken : writerStep cfg s = some s') : WriterMove cfg s s' := by
  cases control : s.writer with
  | idle => simp [writerStep, control] at taken
  | entered call =>
    simp only [writerStep, control] at taken
    split at taken
    · rename_i long
      cases taken
      exact .tooLarge control long
    · rename_i short
      cases taken
      exact .enter control (UInt32.not_lt.mp short)
  | loadRead call =>
    simp only [writerStep, control, Option.some.injEq] at taken
    subst taken
    exact .loadRead control
  | loadWrite call localReadPtr =>
    simp only [writerStep, control] at taken
    split at taken
    · rename_i tested
      cases taken
      exact .full control tested
    · rename_i tested
      cases taken
      exact .free control (Bool.not_eq_true _ ▸ tested)
  | loopFlag call =>
    simp only [writerStep, control] at taken
    split at taken
    · cases taken
      exact .again control
    · rename_i left
      cases taken
      refine .leave control ?_
      intro blocking
      simpa [blocking] using left
  | gate call full =>
    simp only [writerStep, control] at taken
    split at taken
    · rename_i stopped
      cases taken
      exact .interrupt control (by simpa using stopped)
    · rename_i flag
      have running : s.pipe.isWriterRunning = true := by simpa using flag
      split at taken
      · rename_i tries
        cases taken
        have ⟨unblocked, isFull⟩ : call.block = false ∧ full = true := by simpa using tries
        rw [isFull] at control
        exact .refuse control running unblocked
      · rename_i passed
        cases taken
        refine .pass control running ?_
        intro isFull
        simpa [isFull] using passed
  | reserving call full =>
    simp only [writerStep, control, Option.some.injEq] at taken
    subst taken
    exact .store (.reserve control)
  | header call slot =>
    simp only [writerStep, control, Option.some.injEq] at taken
    subst taken
    exact .store (.header control)
  | copying call slot copied =>
    simp only [writerStep, control] at taken
    split at taken
    · rename_i byte found
      obtain ⟨inside, rfl⟩ := List.getElem?_eq_some_iff.mp found
      cases taken
      exact .store (.copy control inside)
    · rename_i done
      cases taken
      exact .copied control (List.getElem?_eq_none_iff.mp done)
  | counting call slot =>
    simp only [writerStep, control, Option.some.injEq] at taken
    subst taken
    exact .store (.count control)
  | publishing call slot =>
    simp only [writerStep, control, Option.some.injEq] at taken
    subst taken
    exact .store (.publish control)

/-- The fields that no micro-step of the writer touches. -/
structure SameElsewhere (s s' : State) : Prop where
  reader : s'.reader = s.reader
  validator : s'.validator = s.validator
  calls : s'.calls = s.calls
  consumed : s'.consumed = s.consumed
  numRead : s'.pipe.numRead = s.pipe.numRead
  numFailedWrites : s'.pipe.numFailedWrites = s.pipe.numFailedWrites
  readVPtr : s'.pipe.readVPtr = s.pipe.readVPtr
  isWriterRunning : s'.pipe.isWriterRunning = s.pipe.isWriterRunning
  stomps : s'.pipe.stomp1 = s.pipe.stomp1 ∧ s'.pipe.stomp2 = s.pipe.stomp2 ∧
    s'.pipe.stomp3 = s.pipe.stomp3 ∧ s'.pipe.stomp4 = s.pipe.stomp4

/-- A micro-step of the writer touches neither the fields of the other threads nor
`numFailedWrites_`. -/
theorem writerStep_elsewhere (taken : writerStep cfg s = some s') : SameElsewhere s s' := by
  cases writerStep_move taken with
  | store stored =>
    cases stored <;> exact ⟨rfl, rfl, rfl, rfl, rfl, rfl, rfl, rfl, rfl, rfl, rfl, rfl⟩
  | _ => exact ⟨rfl, rfl, rfl, rfl, rfl, rfl, rfl, rfl, rfl, rfl, rfl, rfl⟩

/-- Whether the next micro-step of the writer stores into the pipe. -/
def Writer.stores : Writer → Bool
  | .reserving _ _ | .header _ _ | .counting _ _ | .publishing _ _ => true
  | .copying call _ copied => copied < call.bytes.length
  | _ => false

/-- The call with a reservation, and its slot. -/
def Writer.slot? : Writer → Option (WriteCall × Reservation)
  | .header call slot | .copying call slot _ | .counting call slot | .publishing call slot =>
    some (call, slot)
  | _ => none

/-- A micro-step of the writer that stores nothing and leaves the records and the reservation alone.
-/
structure Silent (s s' : State) : Prop where
  stores : s.writer.stores = false
  slot? : s'.writer.slot? = s.writer.slot?
  pipe : s'.pipe = s.pipe
  published : s'.published = s.published

/-- The writer stores into the pipe at the control points of `Writer.stores` and nowhere else. -/
theorem writerStep_stores (taken : writerStep cfg s = some s') :
    WriterStore cfg s s' ∨ Silent s s' := by
  cases writerStep_move taken with
  | store stored => exact Or.inl stored
  | copied control done =>
    right
    rw [← Nat.not_lt] at done
    exact ⟨by rw [control]; exact decide_eq_false done, by rw [control]; rfl, rfl, rfl⟩
  | tooLarge control _ | enter control _ | loadRead control | full control _ | free control _
  | again control | leave control _ | interrupt control _ | refuse control _ _
  | pass control _ _ => exact Or.inr ⟨by rw [control]; rfl, by rw [control]; rfl, rfl, rfl⟩

/-- The writer adds its record to the published ones at its last control point and nowhere
else. -/
theorem writerStep_publishes (taken : writerStep cfg s = some s') :
    (∃ call slot, s.writer = .publishing call slot ∧
      s'.published = s.published ++ [⟨s.pipe.writeVPtr, call.length, slot, call.bytes⟩]) ∨
    ((∀ call slot, s.writer ≠ .publishing call slot) ∧ s'.published = s.published) := by
  rcases writerStep_stores taken with stored | silent
  · cases stored with
    | publish control => exact Or.inl ⟨_, _, control, rfl⟩
    | reserve control | header control | copy control _ | count control =>
      right
      rw [control]
      exact ⟨by simp, rfl⟩
  · refine Or.inr ⟨?_, silent.published⟩
    intro call slot control
    have stores := silent.stores
    rw [control] at stores
    contradiction

/-- Records counted in `numWritten_` and not yet published. -/
def Writer.ahead : Writer → Nat
  | .publishing _ _ => 1
  | _ => 0

/-- What a micro-step of the writer does to the records and their count: it counts a record,
or it publishes the record it has counted, or it leaves both alone. -/
theorem writerStep_counts (taken : writerStep cfg s = some s') :
    (∃ call slot, s.writer = .counting call slot ∧ s'.writer = .publishing call slot ∧
      s'.pipe.numWritten = s.pipe.numWritten + 1 ∧ s'.published = s.published) ∨
    (∃ call slot record, s.writer = .publishing call slot ∧ s'.writer = .idle ∧
      s'.pipe.numWritten = s.pipe.numWritten ∧ record.length = call.length ∧
      s'.published = s.published ++ [record]) ∨
    (s.writer.ahead = 0 ∧ s'.writer.ahead = 0 ∧ s'.pipe.numWritten = s.pipe.numWritten ∧
      s'.published = s.published) := by
  cases writerStep_move taken with
  | store stored =>
    cases stored with
    | count control => exact Or.inl ⟨_, _, control, rfl, rfl, rfl⟩
    | publish control => exact Or.inr (Or.inl ⟨_, _, _, control, rfl, rfl, rfl, rfl⟩)
    | reserve control | header control | copy control _ =>
      exact Or.inr (Or.inr ⟨by rw [control]; rfl, rfl, rfl, rfl⟩)
  | tooLarge control _ | enter control _ | loadRead control | full control _ | free control _
  | again control | leave control _ | interrupt control _ | refuse control _ _
  | pass control _ _ | copied control _ =>
    exact Or.inr (Or.inr ⟨by rw [control]; rfl, rfl, rfl, rfl⟩)

/-- The call in progress. -/
def Writer.call? : Writer → Option WriteCall
  | .idle => none
  | .entered call | .loadRead call | .loadWrite call _ | .loopFlag call | .gate call _
  | .reserving call _ | .header call _ | .copying call _ _ | .counting call _
  | .publishing call _ => some call

/-- How a micro-step of the writer can end the call in progress. -/
inductive Ends (cfg : Config) (s : State) : WriteCall → Outcome → List Record → Prop
  | tooLarge {call : WriteCall} (control : s.writer = .entered call)
      (long : maxPipeElementSize cfg.pipeSize < call.length) : Ends cfg s call .tooLarge []
  | interrupted {call : WriteCall} {full : Bool} (control : s.writer = .gate call full)
      (stopped : s.pipe.isWriterRunning = false) : Ends cfg s call .interrupted []
  | refused {call : WriteCall} (control : s.writer = .gate call true)
      (running : s.pipe.isWriterRunning = true) (tries : call.block = false) :
      Ends cfg s call .refused []
  | written {call : WriteCall} {slot : Reservation} (control : s.writer = .publishing call slot) :
      Ends cfg s call .written [⟨s.pipe.writeVPtr, call.length, slot, call.bytes⟩]

/-- A micro-step of the writer carries the call in progress on, or ends it in one of the four
ways out of `startWrite` and `finishWrite`. -/
theorem writerStep_ends (taken : writerStep cfg s = some s') :
    (s'.writer.call? = s.writer.call? ∧ s'.outcomes = s.outcomes ∧
      s'.published = s.published) ∨
    ∃ call outcome records, s.writer.call? = some call ∧ s'.writer = .idle ∧
      Ends cfg s call outcome records ∧ s'.outcomes = s.outcomes ++ [outcome] ∧
      s'.published = s.published ++ records := by
  cases writerStep_move taken with
  | tooLarge control long =>
    exact Or.inr ⟨_, _, [], by rw [control]; rfl, rfl, .tooLarge control long, rfl,
      (List.append_nil _).symm⟩
  | interrupt control stopped =>
    exact Or.inr ⟨_, _, [], by rw [control]; rfl, rfl, .interrupted control stopped, rfl,
      (List.append_nil _).symm⟩
  | refuse control running tries =>
    exact Or.inr ⟨_, _, [], by rw [control]; rfl, rfl, .refused control running tries, rfl,
      (List.append_nil _).symm⟩
  | store stored =>
    cases stored with
    | publish control =>
      exact Or.inr ⟨_, _, _, by rw [control]; rfl, rfl, .written control, rfl, rfl⟩
    | reserve control | header control | copy control _ | count control =>
      exact Or.inl ⟨by rw [control]; rfl, rfl, rfl⟩
  | enter control _ | loadRead control | full control _ | free control _ | again control
  | leave control _ | pass control _ _ | copied control _ =>
    exact Or.inl ⟨by rw [control]; rfl, rfl, rfl⟩

/-- How the writer gets behind its wait loop with `full` true, and past its gate. -/
theorem writerStep_gate (taken : writerStep cfg s = some s') :
    (∀ call, s'.writer = .gate call true →
      call.block = true → s.pipe.isWriterRunning = false) ∧
    (∀ call full, s'.writer = .reserving call full → s.writer = .gate call full ∧
      s.pipe.isWriterRunning = true ∧ (full = true → call.block = true)) := by
  cases writerStep_move taken with
  | leave control stopped =>
    refine ⟨?_, by simp⟩
    intro current same blocking
    obtain ⟨rfl, -⟩ := Writer.gate.inj same
    exact stopped blocking
  | pass control running blocks =>
    refine ⟨by simp, ?_⟩
    intro current flag same
    obtain ⟨rfl, rfl⟩ := Writer.reserving.inj same
    exact ⟨control, running, blocks⟩
  | store stored => cases stored <;> simp
  | _ => simp

/-- The two micro-steps of the writer that store into the buffer: the header, and one byte of
the payload. -/
theorem writerStep_buf (taken : writerStep cfg s = some s') :
    s'.pipe.buf = s.pipe.buf ∨
    (∃ call slot, s.writer = .header call slot ∧ s'.pipe.buf =
      Memory.store s.pipe.buf slot.lengthPtr.toNat (cfg.order.encode call.length)) ∨
    (∃ call slot copied byte, s.writer = .copying call slot copied ∧
      call.bytes[copied]? = some byte ∧ s'.pipe.buf =
        Memory.store s.pipe.buf (slot.payloadPtr.toNat + copied) [byte]) := by
  rcases writerStep_stores taken with stored | silent
  · cases stored with
    | header control => exact Or.inr (Or.inl ⟨_, _, control, rfl⟩)
    | copy control inside =>
      exact Or.inr (Or.inr ⟨_, _, _, _, control, List.getElem?_eq_getElem inside, rfl⟩)
    | _ => exact Or.inl rfl
  · exact Or.inl (by rw [silent.pipe])

/-- A call starts at an idle writer and is recorded. -/
theorem step_call {call : WriteCall} (taken : step cfg s (.call call) = some s') :
    s.writer = .idle ∧ s' = { s with writer := .entered call, calls := s.calls ++ [call] } := by
  simp only [step] at taken
  split at taken
  · rename_i control
    exact ⟨control, (Option.some.inj taken).symm⟩
  · contradiction

/-- A step of `validate` moves nothing but `validate`. -/
theorem step_validate (taken : step cfg s .validate = some s') :
    ∃ validator, s' = { s with validator := validator } := by
  have ⟨validator, same⟩ := validateStep_eq cfg s
  exact ⟨validator, (Option.some.inj taken).symm.trans same⟩

/-- The fields that only the micro-steps of the writer change. -/
structure BesideWriter (s s' : State) : Prop where
  outcomes : s'.outcomes = s.outcomes
  published : s'.published = s.published
  ahead : s'.writer.ahead = s.writer.ahead
  numWritten : s'.pipe.numWritten = s.pipe.numWritten
  numFailedWrites : s'.pipe.numFailedWrites = s.pipe.numFailedWrites

/-- A step that is no micro-step of the writer leaves the fields of the writer alone. -/
theorem step_beside_writer {act : Act} (other : act ≠ .writer)
    (taken : step cfg s act = some s') : BesideWriter s s' := by
  cases act with
  | call call =>
    obtain ⟨control, rfl⟩ := step_call taken
    exact ⟨rfl, rfl, by rw [control]; rfl, rfl, rfl⟩
  | writer => exact absurd rfl other
  | reader act =>
    rcases readerStep_cases taken with ⟨-, -, -, rfl⟩ | ⟨-, -, -, rfl⟩ |
      ⟨-, counted, -, inside, rfl⟩ | ⟨-, stored, -, rfl⟩ <;> exact ⟨rfl, rfl, rfl, rfl, rfl⟩
  | stopWriter | startWriter =>
    cases taken
    exact ⟨rfl, rfl, rfl, rfl, rfl⟩
  | validate =>
    obtain ⟨validator, rfl⟩ := step_validate taken
    exact ⟨rfl, rfl, rfl, rfl, rfl⟩

/-- The call in progress and what its micro-steps store. -/
structure SameWrite (s s' : State) : Prop where
  writer : s'.writer = s.writer
  calls : s'.calls = s.calls
  outcomes : s'.outcomes = s.outcomes
  published : s'.published = s.published
  writeVPtr : s'.pipe.writeVPtr = s.pipe.writeVPtr
  nextWriteVPtr : s'.pipe.nextWriteVPtr = s.pipe.nextWriteVPtr
  numWritten : s'.pipe.numWritten = s.pipe.numWritten
  numFailedWrites : s'.pipe.numFailedWrites = s.pipe.numFailedWrites
  buf : s'.pipe.buf = s.pipe.buf

/-- A step that is no micro-step of the writer starts a call, or leaves the call in progress
and its stores alone. -/
theorem step_same_write {act : Act} (other : act ≠ .writer)
    (taken : step cfg s act = some s') :
    (∃ call, act = .call call ∧ s.writer = .idle ∧
      s' = { s with writer := .entered call, calls := s.calls ++ [call] }) ∨ SameWrite s s' := by
  cases act with
  | call call =>
    obtain ⟨control, rfl⟩ := step_call taken
    exact Or.inl ⟨call, rfl, control, rfl⟩
  | writer => exact absurd rfl other
  | reader act =>
    rcases readerStep_cases taken with ⟨-, -, -, rfl⟩ | ⟨-, -, -, rfl⟩ |
      ⟨-, counted, -, inside, rfl⟩ | ⟨-, stored, -, rfl⟩ <;>
      exact Or.inr ⟨rfl, rfl, rfl, rfl, rfl, rfl, rfl, rfl, rfl⟩
  | stopWriter | startWriter =>
    cases taken
    exact Or.inr ⟨rfl, rfl, rfl, rfl, rfl, rfl, rfl, rfl, rfl⟩
  | validate =>
    obtain ⟨validator, rfl⟩ := step_validate taken
    exact Or.inr ⟨rfl, rfl, rfl, rfl, rfl, rfl, rfl, rfl, rfl⟩

/-- With one more call, the calls have grown past those of an earlier state. -/
theorem calls_length_lt {earlier calls : List WriteCall} {since : Prop} (made : WriteCall)
    (known : earlier.length < calls.length ∨ calls = earlier ∧ since) :
    earlier.length < (calls ++ [made]).length := by
  rw [List.length_append, List.length_singleton]
  rcases known with more | ⟨same, -⟩
  · omega
  · rw [same]
    omega

/-- Only `startWriter` and `stopWriter` touch the running flag. -/
theorem step_same_flag {act : Act} (starts : act ≠ .startWriter) (stops : act ≠ .stopWriter)
    (taken : step cfg s act = some s') :
    s'.pipe.isWriterRunning = s.pipe.isWriterRunning := by
  cases act with
  | call call =>
    obtain ⟨_, rfl⟩ := step_call taken
    rfl
  | writer => exact (writerStep_elsewhere taken).isWriterRunning
  | reader act =>
    rcases readerStep_cases taken with ⟨-, -, -, rfl⟩ | ⟨-, -, -, rfl⟩ |
      ⟨-, counted, -, inside, rfl⟩ | ⟨-, stored, -, rfl⟩ <;> rfl
  | stopWriter => exact absurd rfl stops
  | startWriter => exact absurd rfl starts
  | validate =>
    obtain ⟨validator, rfl⟩ := step_validate taken
    rfl

/-- Only `startWriter` sets the running flag. -/
theorem step_stays_stopped {act : Act} (other : act ≠ .startWriter)
    (taken : step cfg s act = some s') (stopped : s.pipe.isWriterRunning = false) :
    s'.pipe.isWriterRunning = false := by
  by_cases stops : act = .stopWriter
  · subst stops
    cases taken
    rfl
  · exact (step_same_flag other stops taken).trans stopped

/-- Only `stopWriter` clears the running flag. -/
theorem step_stays_running {act : Act} (other : act ≠ .stopWriter)
    (taken : step cfg s act = some s') (running : s.pipe.isWriterRunning = true) :
    s'.pipe.isWriterRunning = true := by
  by_cases starts : act = .startWriter
  · subst starts
    cases taken
    rfl
  · exact (step_same_flag starts other taken).trans running

/-- The fields that only the micro-steps of the reader change; records are only added beside
it. The constant words change nowhere. -/
structure BesideReader (s s' : State) : Prop where
  reader : s'.reader = s.reader
  consumed : s'.consumed = s.consumed
  numRead : s'.pipe.numRead = s.pipe.numRead
  readVPtr : s'.pipe.readVPtr = s.pipe.readVPtr
  published : s.published <+: s'.published
  stomps : s'.pipe.stomp1 = s.pipe.stomp1 ∧ s'.pipe.stomp2 = s.pipe.stomp2 ∧
    s'.pipe.stomp3 = s.pipe.stomp3 ∧ s'.pipe.stomp4 = s.pipe.stomp4

/-- A step that is no micro-step of the reader leaves the fields of the reader alone. -/
theorem step_beside_reader {act : Act} (other : ∀ inner, act ≠ .reader inner)
    (taken : step cfg s act = some s') : BesideReader s s' := by
  cases act with
  | call call =>
    obtain ⟨_, rfl⟩ := step_call taken
    exact ⟨rfl, rfl, rfl, rfl, List.prefix_refl _, rfl, rfl, rfl, rfl⟩
  | writer =>
    have same := writerStep_elsewhere taken
    refine ⟨same.reader, same.consumed, same.numRead, same.readVPtr, ?_, same.stomps⟩
    rcases writerStep_ends taken with ⟨-, -, records⟩ | ⟨_, _, records, -, -, -, -, appended⟩
    · exact ⟨[], by rw [records, List.append_nil]⟩
    · exact ⟨records, appended.symm⟩
  | reader inner => exact absurd rfl (other inner)
  | stopWriter | startWriter =>
    cases taken
    exact ⟨rfl, rfl, rfl, rfl, List.prefix_refl _, rfl, rfl, rfl, rfl⟩
  | validate =>
    obtain ⟨validator, rfl⟩ := step_validate taken
    exact ⟨rfl, rfl, rfl, rfl, List.prefix_refl _, rfl, rfl, rfl, rfl⟩

end PerfVerif.Pipe
