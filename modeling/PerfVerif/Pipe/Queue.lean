import PerfVerif.Lib.Queue
import PerfVerif.Lib.Refinement
import PerfVerif.Pipe.Representation

/-!
# The pipe as a queue

Whatever thread looks, the fields of the pipe and its buffer hold a queue of values: from
`readVPtr_` on, the header that `startWrite` placed there gives the length, the placement gives
the payload and the next record, up to `writeVPtr_`. Two stores change it: the publication in
`finishWrite` puts the value of the call in, the store of `readVPtr_` takes the value in front out.
Every other micro-step of every thread, those of `startWrite` that store into the buffer included,
leaves it as it is. So the pipe refines a queue, and what it takes in are the values of the calls
that ended with their record written.
-/

namespace PerfVerif.Pipe

open RecordRing Transition

/-- The values from a versioned pointer up to `writeVPtr_`, some number of them at most. -/
def LocklessPipe.valuesFrom (cfg : Config) (pipe : LocklessPipe) :
    Nat → UInt64 → List (List UInt8)
  | 0, _ => []
  | count + 1, vptr =>
    if vptr = pipe.writeVPtr then []
    else
      let lengthPtr := (reserve cfg.pipeSize vptr 0).lengthPtr
      let length := cfg.order.decode (Memory.load pipe.buf lengthPtr.toNat 4)
      let slot := reserve cfg.pipeSize vptr length
      Memory.load pipe.buf slot.payloadPtr.toNat length.toNat ::
        valuesFrom cfg pipe count slot.nextWriteVPtr

/-- The values in the pipe, as its fields and its buffer show them. No record is shorter than a
byte. -/
def LocklessPipe.values (cfg : Config) (pipe : LocklessPipe) : List (List UInt8) :=
  pipe.valuesFrom cfg cfg.pipeSize.toNat pipe.readVPtr

/-- The two stores that change the queue. The value that leaves is read from memory. -/
def queueEvent (cfg : Config) (s : State) : Act → Option (QueueEvent (List UInt8))
  | .writer =>
    match s.writer with
    | .publishing call _ => some (.enqueue call.bytes)
    | _ => none
  | .reader .store => (s.pipe.values cfg).head?.map .dequeue
  | _ => none

/-- The values of the calls that ended with their record written, oldest first. -/
def State.written (s : State) : List (List UInt8) :=
  (s.calls.zip s.outcomes).filterMap fun (call, outcome) =>
    if outcome = .written then some call.bytes else none

section Values

variable {cfg : Config} {s s' : State}

/-- Where the header goes does not depend on the length. -/
theorem lengthPtr_reserve (pipeSize : UInt32) (vptr : UInt64) (length other : UInt32) :
    (reserve pipeSize vptr length).lengthPtr = (reserve pipeSize vptr other).lengthPtr := by
  rfl

/-- From the position behind some records on, memory shows the values of the others. -/
theorem valuesFrom_eq (bounds : WordBounds cfg.pipeSize) (inv : Inv cfg s) {index count : Nat}
    (unread : s.consumed ≤ index) (inside : index ≤ s.published.length)
    (enough : s.published.length ≤ index + count) :
    s.pipe.valuesFrom cfg count (vptrAt cfg.pipeSize (posOf cfg (s.published.take index))) =
      (s.published.drop index).map Record.payload := by
  have layout := inv.layout
  induction count generalizing index with
  | zero =>
    rw [Nat.add_zero] at enough
    rw [List.drop_of_length_le enough]
    rfl
  | succ count ih =>
    rw [LocklessPipe.valuesFrom, layout.writeVPtr_eq]
    by_cases more : index < s.published.length
    · -- the two pointers differ, since their positions do
      have ahead : posOf cfg (s.published.take index) ≠ posOf cfg s.published := by
        intro same
        have grown := posOf_take_add_le cfg s.published index (s.published.length - index)
          (by omega)
        rw [Nat.add_sub_cancel' inside, List.take_length] at grown
        omega
      have behind := posOf_take_mono cfg s.published unread inside
      have window := layout.window
      have different : vptrAt cfg.pipeSize (posOf cfg (s.published.take index)) ≠
          vptrAt cfg.pipeSize (posOf cfg s.published) :=
        fun same => ahead (vptrAt_inj (posOf_take_le cfg _ inside) (by omega) same)
      have located := layout.located index more
      have ⟨header, payload⟩ := inv.content index more unread
      have slot := located.slot_eq
      rw [located.start_eq] at slot
      have length : cfg.order.decode (Memory.load s.pipe.buf
          (reserve cfg.pipeSize (vptrAt cfg.pipeSize (posOf cfg (s.published.take index)))
            0).lengthPtr.toNat 4) = s.published[index].length := by
        rw [lengthPtr_reserve _ _ 0 s.published[index].length, ← slot, header,
          Words.ByteOrder.decode_encode]
      simp only [if_neg different, length, ← slot]
      rw [payload, (located.placed bounds).nextWriteVPtr, ← posOf_take_succ cfg _ _ more,
        ih (by omega) more (by omega), List.drop_eq_getElem_cons more, List.map_cons]
    · have all : index = s.published.length := by omega
      rw [all, List.take_length, List.drop_length, if_pos rfl]
      rfl

/-- Memory shows the values of the unread records. -/
theorem Inv.values_eq (bounds : WordBounds cfg.pipeSize) (inv : Inv cfg s) :
    s.pipe.values cfg = s.unread.map Record.payload := by
  have few := inv.layout.few_unread
  rw [LocklessPipe.values, inv.layout.readVPtr_eq]
  exact valuesFrom_eq bounds inv (Nat.le_refl _) inv.layout.consumed_le (by omega)

/-- A step that adds no record and consumes none leaves the queue alone. -/
theorem values_of_same (bounds : WordBounds cfg.pipeSize) (inv : Inv cfg s) (inv' : Inv cfg s')
    (published : s'.published = s.published) (consumed : s'.consumed = s.consumed) :
    some (s.pipe.values cfg) = some (s'.pipe.values cfg) := by
  rw [inv.values_eq bounds, inv'.values_eq bounds, State.unread, State.unread, published, consumed]

/-- The publication is the event that puts the value of its call in. -/
theorem queueEvent_publishing {call : WriteCall} {slot : Reservation}
    (control : s.writer = .publishing call slot) :
    queueEvent cfg s .writer = some (.enqueue call.bytes) := by
  simp [queueEvent, control]

/-- A micro-step of the writer that does not publish is no event of the queue. -/
theorem queueEvent_other (other : ∀ call slot, s.writer ≠ .publishing call slot) :
    queueEvent cfg s .writer = none := by
  cases control : s.writer with
  | publishing call slot => exact absurd control (other call slot)
  | _ => simp [queueEvent, control]

/-- The publication puts the value of the call in; no other micro-step of the writer changes the
queue. -/
theorem writerStep_queue (bounds : WordBounds cfg.pipeSize) (inv : Inv cfg s)
    (inv' : Inv cfg s') (taken : writerStep cfg s = some s') :
    (queueSystem (List UInt8)).run (s.pipe.values cfg) (queueEvent cfg s .writer).toList =
      some (s'.pipe.values cfg) := by
  have consumed := (writerStep_elsewhere taken).consumed
  rcases writerStep_publishes taken with ⟨call, slot, control, published⟩ | ⟨other, published⟩
  · rw [queueEvent_publishing control, inv.values_eq bounds, inv'.values_eq bounds, State.unread,
      State.unread, consumed, published, List.drop_append_of_le_length inv.layout.consumed_le,
      List.map_append]
    rfl
  · rw [queueEvent_other other]
    exact values_of_same bounds inv inv' published consumed

/-- The store of `readVPtr_` takes the value in front out; no other micro-step of the reader
changes the queue. -/
theorem readerStep_queue (bounds : WordBounds cfg.pipeSize) (inv : Inv cfg s)
    (inv' : Inv cfg s') {act : ReaderAct} (taken : readerStep s act = some s') :
    (queueSystem (List UInt8)).run (s.pipe.values cfg) (queueEvent cfg s (.reader act)).toList =
      some (s'.pipe.values cfg) := by
  rcases readerStep_cases taken with ⟨rfl, -, -, rfl⟩ | ⟨rfl, -, -, rfl⟩ |
    ⟨rfl, counted, -, inside, rfl⟩ | ⟨rfl, stored, -, rfl⟩
  · exact values_of_same bounds inv inv' rfl rfl
  · exact values_of_same bounds inv inv' rfl rfl
  · have front : s.pipe.values cfg = s.published[s.consumed].payload ::
        (s.published.drop (s.consumed + 1)).map Record.payload := by
      rw [inv.values_eq bounds, State.unread, List.drop_eq_getElem_cons inside, List.map_cons]
    rw [inv'.values_eq bounds, queueEvent, front]
    simp [System.run, queueSystem, State.unread]
  · exact values_of_same bounds inv inv' rfl rfl

/-- Under any interleaving of its threads the pipe refines a queue. -/
theorem refines_queue (bounds : WordBounds cfg.pipeSize) :
    (system cfg).Refines Disciplined (queueEvent cfg) (queueSystem (List UInt8))
      (fun s => s.pipe.values cfg) where
  start := by
    rintro first ⟨storage, rfl⟩
    exact (start_inv cfg storage).values_eq bounds
  step := by
    intro before act after reached admitted taken
    have inv := reachable_inv bounds reached
    have inv' := reachable_inv bounds (reached.next admitted taken)
    cases act with
    | call call =>
      obtain ⟨_, rfl⟩ := @step_call cfg _ _ _ taken
      exact values_of_same bounds inv inv' rfl rfl
    | writer => exact writerStep_queue bounds inv inv' taken
    | reader act => exact readerStep_queue bounds inv inv' taken
    | stopWriter | startWriter =>
      cases taken
      exact values_of_same bounds inv inv' rfl rfl
    | validate =>
      obtain ⟨validator, rfl⟩ := @step_validate cfg _ _ taken
      exact values_of_same bounds inv inv' rfl rfl

end Values

/-- The calls that have ended, in their order, and the outcomes that they ended with; the records
published are the values of those that ended with their record written. -/
def CallLog (s : State) : Prop :=
  ∃ ended, s.calls = ended ++ s.writer.call?.toList ∧ ended.length = s.outcomes.length ∧
    s.published.map Record.payload = (ended.zip s.outcomes).filterMap fun (call, outcome) =>
      if outcome = .written then some call.bytes else none

section Log

variable {cfg : Config} {s s' : State}

/-- A micro-step of the writer keeps the log. -/
theorem writerStep_callLog (log : CallLog s) (taken : writerStep cfg s = some s') :
    CallLog s' := by
  obtain ⟨ended, calls, lengths, values⟩ := log
  have made := (writerStep_elsewhere taken).calls
  rcases writerStep_ends taken with ⟨call, outcomes, published⟩ |
    ⟨call, outcome, records, current, idle, ends, outcomes, published⟩
  · exact ⟨ended, by rw [made, call, calls], by rw [outcomes, lengths],
      by rw [published, outcomes, values]⟩
  · refine ⟨ended ++ [call], ?_, ?_, ?_⟩
    · rw [made, calls, current, idle]
      exact (List.append_nil _).symm
    · rw [outcomes, List.length_append, List.length_append, lengths]
      rfl
    · rw [published, outcomes, List.map_append, values, List.zip_append lengths,
        List.filterMap_append]
      cases ends with
      | tooLarge _ _ | interrupted _ _ | refused _ _ _ | written _ => rfl

/-- The log is kept in every state of every run. -/
theorem reachable_callLog {ok : State → Act → Prop} (reached : (system cfg).Reachable ok s) :
    CallLog s := by
  apply reached.invariant
  · rintro first ⟨storage, rfl⟩
    exact ⟨[], rfl, rfl, rfl⟩
  · intro before act after _ log _ taken
    by_cases writing : act = .writer
    · subst writing
      exact writerStep_callLog log taken
    · obtain ⟨ended, calls, lengths, values⟩ := log
      rcases @step_same_write cfg _ _ _ writing taken with ⟨call, -, idle, rfl⟩ | same
      · rw [idle] at calls
        exact ⟨ended, by rw [calls]; simp [Writer.call?], lengths, values⟩
      · exact ⟨ended, by rw [same.calls, same.writer, calls], by rw [same.outcomes, lengths],
          by rw [same.published, same.outcomes, values]⟩

/-- The records published are the values of the calls that ended with their record written. -/
theorem written_eq (log : CallLog s) : s.written = s.published.map Record.payload := by
  obtain ⟨ended, calls, lengths, values⟩ := log
  have truncated : s.calls.zip s.outcomes = ended.zip s.outcomes := by
    rw [calls, ← List.append_nil s.outcomes, List.zip_append lengths]
    simp
  rw [State.written, truncated, values]

/-- A step publishes the values that its event shows entering. -/
theorem step_published {act : Act} (taken : step cfg s act = some s') :
    s'.published.map Record.payload = s.published.map Record.payload ++
      (queueEvent cfg s act).toList.filterMap QueueEvent.enqueued := by
  cases act with
  | writer =>
    rcases writerStep_publishes taken with ⟨call, slot, control, published⟩ | ⟨other, published⟩
    · rw [published, queueEvent_publishing control, List.map_append]
      rfl
    · rw [published, queueEvent_other other]
      exact (List.append_nil _).symm
  | reader act =>
    have same : s'.published = s.published := by
      rcases readerStep_cases taken with ⟨-, -, -, rfl⟩ | ⟨-, -, -, rfl⟩ |
        ⟨-, counted, -, inside, rfl⟩ | ⟨-, stored, -, rfl⟩ <;> rfl
    rw [same]
    cases act with
    | store =>
      cases front : (s.pipe.values cfg).head? with
      | none => simp [queueEvent, front]
      | some value => simp [queueEvent, front, QueueEvent.enqueued]
    | begin | count => simp [queueEvent]
  | call call =>
    obtain ⟨_, rfl⟩ := step_call taken
    simp [queueEvent]
  | stopWriter | startWriter =>
    cases taken
    simp [queueEvent]
  | validate =>
    obtain ⟨validator, rfl⟩ := step_validate taken
    simp [queueEvent]

/-- A run publishes the values that its events show entering. -/
theorem traces_published {ok : State → Act → Prop} {events : List (QueueEvent (List UInt8))}
    (traced : (system cfg).Traces ok (queueEvent cfg) s events s') :
    s'.published.map Record.payload =
      s.published.map Record.payload ++ events.filterMap QueueEvent.enqueued := by
  induction traced with
  | refl => exact (List.append_nil _).symm
  | tail _ _ taken ih =>
    rw [step_published taken, ih, List.filterMap_append, List.append_assoc]

end Log

/-- Every run of the pipe is a run of a queue, whatever its threads do and in whatever order their
micro-steps come: a value enters with the publication of its record, the value in front leaves with
the store of `readVPtr_`, and in between the pipe alone shows the queue. What enters are the values
of the calls that end with their record written, and they leave in this order. -/
theorem runs_refine_queue {cfg : Config} (bounds : WordBounds cfg.pipeSize)
    {storage : LocklessPipe} {events : List (QueueEvent (List UInt8))} {s : State}
    (traced : (system cfg).Traces Disciplined (queueEvent cfg) (.start storage) events s) :
    (queueSystem (List UInt8)).run [] events = some (s.pipe.values cfg) ∧
    events.filterMap QueueEvent.enqueued = s.written ∧
    s.written = events.filterMap QueueEvent.dequeued ++ s.pipe.values cfg := by
  have started : (system cfg).Reachable Disciplined (.start storage) := .start ⟨storage, rfl⟩
  have shown : (State.start storage).pipe.values cfg = [] :=
    (start_inv cfg storage).values_eq bounds
  have replayed := (refines_queue bounds).traces started traced
  change (queueSystem (List UInt8)).run ((State.start storage).pipe.values cfg) events = _
    at replayed
  rw [shown] at replayed
  have entered : s.published.map Record.payload = events.filterMap QueueEvent.enqueued :=
    traces_published traced
  have written := written_eq (reachable_callLog (started.leads traced.leads))
  have order := queueSystem_run replayed
  rw [List.nil_append] at order
  refine ⟨replayed, ?_, ?_⟩
  · rw [written, entered]
  · rw [written, entered, order]

/-- One push and its read are an `enqueue` and a `dequeue` of its value. -/
theorem runs_refine_queue_push :
    ∃ events s, (system smallConfig).Traces Disciplined (queueEvent smallConfig)
        (.start blankStorage) events s ∧ events = [.enqueue [7], .dequeue [7]] ∧
      events.filterMap QueueEvent.enqueued = s.written := by
  let acts : List Act := pushByte ++ [.reader .begin, .reader .store, .reader .count]
  have replay : ((system smallConfig).tracedRun (queueEvent smallConfig) (.start blankStorage)
      acts).map Prod.fst = some [.enqueue [7], .dequeue [7]] := by decide +kernel
  obtain ⟨⟨events, s⟩, replayed, shown⟩ := Option.map_eq_some_iff.mp replay
  have traced : (system smallConfig).Traces Disciplined (queueEvent smallConfig)
      (.start blankStorage) events s :=
    System.traces_of_tracedRun acts
      (by simp [acts, pushByte, Disciplined, CallsCopy, NoRestartInWindow, WriteCall.Copies,
        WriteCall.push])
      replayed
  exact ⟨events, s, traced, shown, (runs_refine_queue ⟨by decide, by decide⟩ traced).2.1⟩

end PerfVerif.Pipe
