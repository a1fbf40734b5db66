import PerfVerif.Pipe.Layout
import PerfVerif.Pipe.Steps

/-!
# The pointers in every run

What holds of the pointers whatever the threads do, restarts of the writer included: no
pointer leaves the buffer, the length of a call was checked before anything else, and
`nextWriteVPtr_` differs from `writeVPtr_` only between the reservation and the publication,
where it is the end of the slot reserved at `writeVPtr_`.
-/

namespace PerfVerif.Pipe

open Transition

/-- The header of a reservation: at the write pointer, or at the front. -/
theorem reserve_lengthPtr (pipeSize : UInt32) (writeVPtr : UInt64) (length : UInt32) :
    (reserve pipeSize writeVPtr length).lengthPtr =
      if isWrap pipeSize lengthBytes (getPointer writeVPtr) then 0 else getPointer writeVPtr := by
  by_cases wrapped : isWrap pipeSize lengthBytes (getPointer writeVPtr) = true
  · simp only [reserve, wrapped, ↓reduceIte]
  · simp only [reserve, wrapped, Bool.false_eq_true, ↓reduceIte]

/-- The payload of a reservation goes behind the header, or to the front where it wraps. -/
theorem reserve_payloadPtr (pipeSize : UInt32) (writeVPtr : UInt64) (length : UInt32) :
    (reserve pipeSize writeVPtr length).payloadPtr =
      if isWrap pipeSize length ((reserve pipeSize writeVPtr length).lengthPtr + lengthBytes) then 0
      else (reserve pipeSize writeVPtr length).lengthPtr + lengthBytes := by
  rw [reserve_lengthPtr]
  by_cases wrapped : isWrap pipeSize lengthBytes (getPointer writeVPtr) = true
  · simp only [reserve, wrapped, ↓reduceIte]
    split <;> rfl
  · simp only [reserve, wrapped, Bool.false_eq_true, ↓reduceIte]
    split <;> rfl

/-- The version of a reservation: bumped once for each part that starts at the front. -/
theorem getVersion_reserve (pipeSize : UInt32) (writeVPtr : UInt64) (length : UInt32) :
    getVersion (reserve pipeSize writeVPtr length).nextWriteVPtr = getVersion writeVPtr +
      (if isWrap pipeSize lengthBytes (getPointer writeVPtr) then 1 else 0) +
      (if isWrap pipeSize length ((reserve pipeSize writeVPtr length).lengthPtr + lengthBytes) then 1
        else 0) := by
  rw [reserve_lengthPtr]
  by_cases wrapped : isWrap pipeSize lengthBytes (getPointer writeVPtr) = true
  · simp only [reserve, wrapped, ↓reduceIte, getVersion_getVersionedPointer]
    split <;> simp
  · simp only [reserve, wrapped, Bool.false_eq_true, ↓reduceIte, getVersion_getVersionedPointer]
    split <;> simp

/-- A reservation ends where its payload does. -/
@[simp] theorem getPointer_reserve (pipeSize : UInt32) (writeVPtr : UInt64) (length : UInt32) :
    getPointer (reserve pipeSize writeVPtr length).nextWriteVPtr =
      (reserve pipeSize writeVPtr length).payloadPtr + length :=
  getPointer_getVersionedPointer _ _

/-- The payload of an admissible call ends inside the buffer: it did not pass the end, or it
starts at the front. -/
theorem reserve_pointer_le {pipeSize length : UInt32} (least : 10 ≤ pipeSize.toNat)
    (short : length ≤ maxPipeElementSize pipeSize) (writeVPtr : UInt64) :
    getPointer (reserve pipeSize writeVPtr length).nextWriteVPtr ≤ pipeSize := by
  have half := half_of_le_max least short
  rw [getPointer_reserve, reserve_payloadPtr]
  split
  · rw [UInt32.zero_add, UInt32.le_iff_toNat_le]
    omega
  · rename_i kept
    exact UInt32.not_lt.mp (mt decide_eq_true kept)

/-- What each control point says about the length of the call and the two pointers of the
writer. -/
def Reserves (cfg : Config) (pipe : LocklessPipe) : Writer → Prop
  | .idle | .entered _ => pipe.nextWriteVPtr = pipe.writeVPtr
  | .loadRead call | .loadWrite call _ | .loopFlag call | .gate call _ | .reserving call _ =>
    call.length ≤ maxPipeElementSize cfg.pipeSize ∧ pipe.nextWriteVPtr = pipe.writeVPtr
  | .header call slot | .copying call slot _ | .counting call slot | .publishing call slot =>
    call.length ≤ maxPipeElementSize cfg.pipeSize ∧
      slot = reserve cfg.pipeSize pipe.writeVPtr call.length ∧
      pipe.nextWriteVPtr = slot.nextWriteVPtr

/-- Every pointer is inside the buffer, and the writer's are as its control point says. -/
structure PointerFacts (cfg : Config) (s : State) : Prop where
  readPtr_le : getPointer s.pipe.readVPtr ≤ cfg.pipeSize
  writePtr_le : getPointer s.pipe.writeVPtr ≤ cfg.pipeSize
  published_le : ∀ record ∈ s.published, getPointer record.slot.nextWriteVPtr ≤ cfg.pipeSize
  reserves : Reserves cfg s.pipe s.writer

section Preservation

variable {cfg : Config} {s s' : State}

/-- The control points depend on the two pointers of the writer only. -/
theorem Reserves.frame {pipe pipe' : LocklessPipe} {writer : Writer}
    (reserves : Reserves cfg pipe writer) (write : pipe'.writeVPtr = pipe.writeVPtr)
    (next : pipe'.nextWriteVPtr = pipe.nextWriteVPtr) : Reserves cfg pipe' writer := by
  cases writer <;> simp only [Reserves, write, next] at reserves ⊢ <;> exact reserves

/-- A micro-step of the writer keeps the pointers inside the buffer. -/
theorem writerStep_pointerFacts (least : 10 ≤ cfg.pipeSize.toNat) (facts : PointerFacts cfg s)
    (taken : writerStep cfg s = some s') : PointerFacts cfg s' := by
  have ⟨read, write, published, reserves⟩ := facts
  cases writerStep_move taken with
  | enter control short =>
    rw [control] at reserves
    exact ⟨read, write, published, short, reserves⟩
  | interrupt control _ | refuse control _ _ =>
    rw [control] at reserves
    exact ⟨read, write, published, reserves.2⟩
  | store stored =>
    cases stored with
    | reserve control =>
      rw [control] at reserves
      exact ⟨read, write, published, reserves.1, rfl, rfl⟩
    | publish control =>
      rename_i call slot
      rw [control] at reserves
      have ⟨short, slotEq, next⟩ := reserves
      have fits : getPointer slot.nextWriteVPtr ≤ cfg.pipeSize := by
        rw [slotEq]
        exact reserve_pointer_le least short _
      refine ⟨read, ?_, ?_, rfl⟩
      · rw [next]
        exact fits
      · intro record member
        rcases List.mem_append.mp member with old | new
        · exact published record old
        · obtain rfl := List.mem_singleton.mp new
          exact fits
    | header control | copy control _ | count control =>
      rw [control] at reserves
      exact ⟨read, write, published, reserves⟩
  | tooLarge control _ | loadRead control | full control _ | free control _ | again control
  | leave control _ | pass control _ _ | copied control _ =>
    rw [control] at reserves
    exact ⟨read, write, published, reserves⟩

/-- Every step keeps the pointers inside the buffer. -/
theorem step_pointerFacts (least : 10 ≤ cfg.pipeSize.toNat) (facts : PointerFacts cfg s)
    {act : Act} (taken : step cfg s act = some s') : PointerFacts cfg s' := by
  have ⟨read, write, published, reserves⟩ := facts
  cases act with
  | call call =>
    obtain ⟨control, rfl⟩ := step_call taken
    rw [control] at reserves
    exact ⟨read, write, published, reserves⟩
  | writer => exact writerStep_pointerFacts least facts taken
  | reader act =>
    rcases readerStep_cases taken with ⟨-, -, -, rfl⟩ | ⟨-, -, -, rfl⟩ |
      ⟨-, counted, -, inside, rfl⟩ | ⟨-, stored, -, rfl⟩
    · exact facts
    · exact ⟨read, write, published, reserves⟩
    · exact ⟨published _ (List.getElem_mem inside), write, published, reserves.frame rfl rfl⟩
    · exact ⟨read, write, published, reserves.frame rfl rfl⟩
  | stopWriter | startWriter =>
    cases taken
    exact ⟨read, write, published, reserves.frame rfl rfl⟩
  | validate =>
    obtain ⟨validator, rfl⟩ := step_validate taken
    exact ⟨read, write, published, reserves⟩

/-- The pointers stay inside the buffer in every run. -/
theorem reachable_pointerFacts {ok : State → Act → Prop} (least : 10 ≤ cfg.pipeSize.toNat)
    (reached : (system cfg).Reachable ok s) : PointerFacts cfg s := by
  apply reached.invariant
  · rintro first ⟨storage, rfl⟩
    have origin : getPointer 0 ≤ cfg.pipeSize := by
      rw [show getPointer 0 = 0 from rfl]
      exact UInt32.zero_le
    exact ⟨origin, origin, by simp [State.start], rfl⟩
  · intro before act after _ facts _ taken
    exact step_pointerFacts least facts taken

end Preservation

end PerfVerif.Pipe
