import PerfVerif.Pipe.Steps

/-!
# Schedules of the pipe

Runs that exist in every pipe: `startWrite` up to the pointer it returns, a whole write of a
call that finds room, and a read of the oldest unread record. Each says where the run leads
from any state at rest.
-/

namespace PerfVerif.Pipe

open Transition

variable {cfg : Config} {ok : State → Act → Prop}

/-- The micro-steps of the writer are admitted however many they are. -/
theorem admits_writers (writes : ∀ s, ok s .writer) (count : Nat) :
    ∀ s, ∀ act ∈ List.replicate count Act.writer, ok s act := by
  intro s act member
  obtain rfl := List.eq_of_mem_replicate member
  exact writes s

/-- The state in which `startWrite` has returned a pointer: the reservation and the header are
stored. -/
def State.afterStartWrite (cfg : Config) (s : State) (call : WriteCall) : State :=
  let slot := reserve cfg.pipeSize s.pipe.writeVPtr call.length
  { s with
    pipe := { s.pipe with
      nextWriteVPtr := slot.nextWriteVPtr,
      buf := Memory.store s.pipe.buf slot.lengthPtr.toNat (cfg.order.encode call.length) },
    writer := .copying call slot 0,
    calls := s.calls ++ [call] }

/-- A call that passes the size check and finds room while no other thread moves gets its
pointer after six micro-steps. -/
theorem run_startWrite {s : State} {call : WriteCall} (resting : s.writer = .idle)
    (running : s.pipe.isWriterRunning = true)
    (short : call.length ≤ maxPipeElementSize cfg.pipeSize)
    (free : s.pipe.isFull cfg.pipeSize call.length = false) :
    (system cfg).run s (.call call :: List.replicate 6 .writer) =
      some (s.afterStartWrite cfg call) := by
  have checked : ¬ maxPipeElementSize cfg.pipeSize < call.length := UInt32.not_lt.mpr short
  rw [LocklessPipe.isFull] at free
  simp [List.replicate_succ, System.run, system, step, writerStep, State.afterStartWrite, resting,
    running, checked, free]

/-- A call in its copy stores all the bytes it has left, one micro-step for each. -/
theorem leads_copied (cfg : Config) (writes : ∀ s, ok s .writer) {s : State} {call : WriteCall}
    {slot : Reservation} (control : s.writer = .copying call slot 0) (count : Nat)
    (bound : count ≤ call.bytes.length) :
    ∃ buf, (system cfg).Leads ok s
      { s with pipe := { s.pipe with buf := buf }, writer := .copying call slot count } := by
  induction count with
  | zero =>
    have same : s = { s with writer := .copying call slot 0 } := by rw [← control]
    exact ⟨s.pipe.buf, same ▸ .refl⟩
  | succ count ih =>
    have ⟨buf, prior⟩ := ih (by omega)
    have found : call.bytes[count]? = some call.bytes[count] := List.getElem?_eq_getElem bound
    refine ⟨Memory.store buf (slot.payloadPtr.toNat + count) [call.bytes[count]], prior.trans ?_⟩
    apply System.leads_single .writer (writes _)
    simp only [system, step, writerStep, found]

/-- A call that has copied its bytes publishes its record after three more micro-steps. -/
theorem run_finishWrite {s : State} {call : WriteCall} {slot : Reservation}
    (control : s.writer = .copying call slot call.bytes.length) :
    (system cfg).run s (List.replicate 3 .writer) =
      some { s with
        pipe := { s.pipe with numWritten := s.pipe.numWritten + 1,
                              writeVPtr := s.pipe.nextWriteVPtr },
        writer := .idle,
        outcomes := s.outcomes ++ [.written],
        published := s.published ++ [⟨s.pipe.writeVPtr, call.length, slot, call.bytes⟩] } := by
  simp [List.replicate_succ, System.run, system, step, writerStep, control]

/-- What a whole write leaves behind. -/
structure Wrote (cfg : Config) (call : WriteCall) (s s' : State) : Prop where
  writer : s'.writer = .idle
  reader : s'.reader = s.reader
  consumed : s'.consumed = s.consumed
  isWriterRunning : s'.pipe.isWriterRunning = s.pipe.isWriterRunning
  readVPtr : s'.pipe.readVPtr = s.pipe.readVPtr
  writeVPtr : s'.pipe.writeVPtr =
    (reserve cfg.pipeSize s.pipe.writeVPtr call.length).nextWriteVPtr
  published : s'.published = s.published ++ [⟨s.pipe.writeVPtr, call.length,
    reserve cfg.pipeSize s.pipe.writeVPtr call.length, call.bytes⟩]

/-- A call that passes the size check and finds room can write its record while no other
thread moves. -/
theorem leads_wrote (writes : ∀ s, ok s .writer) {s : State} {call : WriteCall}
    (admitted : ok s (.call call)) (resting : s.writer = .idle)
    (running : s.pipe.isWriterRunning = true)
    (short : call.length ≤ maxPipeElementSize cfg.pipeSize)
    (free : s.pipe.isFull cfg.pipeSize call.length = false) :
    ∃ s', (system cfg).Leads ok s s' ∧ Wrote cfg call s s' := by
  have entered : (system cfg).step s (.call call) =
      some { s with writer := .entered call, calls := s.calls ++ [call] } := by
    simp only [system, step, resting]
  have returned := run_startWrite resting running short free
  rw [System.run, entered, Option.bind_some] at returned
  have started : (system cfg).Leads ok s (s.afterStartWrite cfg call) :=
    (System.leads_single (.call call) admitted entered).trans
      (System.leads_of_run _ (admits_writers writes 6) returned)
  obtain ⟨buf, copied⟩ := leads_copied cfg writes
    (show (s.afterStartWrite cfg call).writer = _ from rfl) call.bytes.length (Nat.le_refl _)
  have finished := fun state control => System.leads_of_run _ (admits_writers writes 3)
    (@run_finishWrite cfg state call (reserve cfg.pipeSize s.pipe.writeVPtr call.length) control)
  exact ⟨_, started.trans (copied.trans (finished _ rfl)), rfl, rfl, rfl, rfl, rfl, rfl, rfl⟩

/-- A reader at rest can consume the oldest unread record of a pipe that is not empty. -/
theorem leads_consumed (reads : ∀ s act, ok s (.reader act)) {s : State} {record : Record}
    (resting : s.reader = .idle) (filled : s.pipe.isEmpty = false)
    (oldest : s.published[s.consumed]? = some record) :
    (system cfg).Leads ok s
      { s with
        pipe := { s.pipe with readVPtr := record.slot.nextWriteVPtr,
                              numRead := s.pipe.numRead + 1 },
        consumed := s.consumed + 1 } := by
  apply System.leads_of_run [.reader .begin, .reader .store, .reader .count]
  · intro state act member
    simp only [List.mem_cons, List.not_mem_nil, or_false] at member
    rcases member with rfl | rfl | rfl <;> exact reads _ _
  · simp [System.run, system, step, readerStep, resting, filled, oldest, Reader.settle]

end PerfVerif.Pipe
