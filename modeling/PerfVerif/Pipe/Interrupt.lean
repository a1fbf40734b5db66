import PerfVerif.Pipe.Gate
import PerfVerif.Pipe.Schedules

/-!
# Stopping the writer

`stopWriter` promises that every later push throws `Interrupted`. A push looks at the running
flag behind its size check, so a value above the element limit is dropped without a throw; for
every other value a stop that lasts ends the push by `Interrupted`, unless the push is past
its last load of the flag and completes its record. A push that throws has stored nothing.
This needs no bound on the pipe size.
-/

namespace PerfVerif.Pipe

open Transition

/-- The call is past its last load of the running flag. -/
def Writer.PastGate : Writer → Prop
  | .reserving _ _ | .header _ _ | .copying _ _ _ | .counting _ _ | .publishing _ _ => True
  | _ => False

/-- The steps of the runs in which nobody restarts the writer. -/
def NoRestart (_ : State) (act : Act) : Prop := act ≠ .startWriter

/-- The fields that a push stores. -/
structure Untouched (s s' : State) : Prop where
  writeVPtr : s'.pipe.writeVPtr = s.pipe.writeVPtr
  nextWriteVPtr : s'.pipe.nextWriteVPtr = s.pipe.nextWriteVPtr
  numWritten : s'.pipe.numWritten = s.pipe.numWritten
  numFailedWrites : s'.pipe.numFailedWrites = s.pipe.numFailedWrites
  buf : s'.pipe.buf = s.pipe.buf

/-- The outcome of the one call that ended between two states. -/
def EndedBy (s s' : State) (outcome : Outcome) : Prop :=
  s'.calls = s.calls ∧ s'.writer = .idle ∧ s'.outcomes = s.outcomes ++ [outcome]

/-- What stopping the writer promises about the pushes of a value. -/
structure StopPromise (cfg : Config) (value : List UInt8) : Prop where
  /-- A push that begins after the stop can only end by `Interrupted`. -/
  begun_after : ∀ s s', (system cfg).Reachable System.always s →
    s.writer = .entered (.push value) → s.pipe.isWriterRunning = false →
    (system cfg).Leads NoRestart s s' → s'.calls = s.calls → s'.writer = .idle →
    EndedBy s s' .interrupted
  /-- A push in progress at the stop can only end so or, past its last load of the flag, by
  completing its record. -/
  in_progress : ∀ s s', (system cfg).Reachable System.always s →
    s.writer.call? = some (.push value) → s.pipe.isWriterRunning = false →
    (system cfg).Leads NoRestart s s' → s'.calls = s.calls → s'.writer = .idle →
    EndedBy s s' .interrupted ∨
      (s.writer.PastGate ∧ EndedBy s s' .written ∧ ∃ record : Record,
        s'.published = s.published ++ [record] ∧ record.payload = value)
  /-- A push that throws leaves what pushes store as it was when the push began. -/
  throw_restores : ∀ s s', (system cfg).Reachable System.always s →
    s.writer = .entered (.push value) → (system cfg).Leads System.always s s' →
    EndedBy s s' .interrupted → Untouched s s'

section Stopped

variable {cfg : Config} {s s' s'' : State} {call : WriteCall}

/-- Only a running writer lets a call past its last load of the flag. -/
theorem writerStep_pastGate (taken : writerStep cfg s = some s') (past : s'.writer.PastGate) :
    s.writer.PastGate ∨ s.pipe.isWriterRunning = true := by
  cases writerStep_move taken with
  | pass _ running _ => exact Or.inr running
  | store stored =>
    cases stored with
    | publish _ => exact past.elim
    | reserve control | header control | copy control _ | count control =>
      exact Or.inl (by rw [control]; trivial)
  | copied control _ => exact Or.inl (by rw [control]; trivial)
  | _ => exact past.elim

/-- What is known of a call that was in progress in a state with the writer stopped, as long
as no other call is made. -/
structure StoppedCall (call : WriteCall) (s s' : State) : Prop where
  stopped : s'.pipe.isWriterRunning = false
  progress : s.calls.length < s'.calls.length ∨ s'.calls = s.calls ∧
    ((s'.writer.call? = some call ∧ (s'.writer.PastGate → s.writer.PastGate) ∧
        s'.outcomes = s.outcomes ∧ s'.published = s.published) ∨
      EndedBy s s' .interrupted ∨
      (s.writer.PastGate ∧ EndedBy s s' .written ∧ ∃ record : Record,
        s'.published = s.published ++ [record] ∧ record.payload = call.bytes))

/-- A micro-step of the writer carries a stopped call on or ends it as promised. -/
theorem writerStep_stoppedCall (short : call.length ≤ maxPipeElementSize cfg.pipeSize)
    (known : StoppedCall call s s') (taken : writerStep cfg s' = some s'') :
    StoppedCall call s s'' := by
  have ⟨stopped, progress⟩ := known
  have elsewhere := writerStep_elsewhere taken
  refine ⟨elsewhere.isWriterRunning.trans stopped, ?_⟩
  rw [elsewhere.calls]
  rcases progress with more | ⟨calls, ⟨current, gate, outcomes, published⟩ | ended | ended⟩
  · exact Or.inl more
  · refine Or.inr ⟨calls, ?_⟩
    rcases writerStep_ends taken with ⟨same, outcomes', published'⟩ |
      ⟨ending, outcome, records, ended, resting, ends, outcomes', published'⟩
    · refine Or.inl ⟨same.trans current, ?_, outcomes'.trans outcomes,
        published'.trans published⟩
      intro past
      rcases writerStep_pastGate taken past with before | running
      · exact gate before
      · simp [stopped] at running
    · obtain rfl := Option.some.inj (ended.symm.trans current)
      have history : ∀ outcome, s''.outcomes = s'.outcomes ++ [outcome] →
          EndedBy s s'' outcome := by
        intro outcome appended
        exact ⟨elsewhere.calls.trans calls, resting, by rw [appended, outcomes]⟩
      cases ends with
      | tooLarge _ long => exact absurd long (UInt32.not_lt.mpr short)
      | interrupted _ _ => exact Or.inr (Or.inl (history _ outcomes'))
      | refused _ running _ => simp [stopped] at running
      | @written slot control =>
        rw [published] at published'
        exact Or.inr (Or.inr ⟨gate (by rw [control]; trivial), history _ outcomes',
          ⟨s'.pipe.writeVPtr, ending.length, slot, ending.bytes⟩, published', rfl⟩)
  · simp [writerStep, ended.2.1] at taken
  · simp [writerStep, ended.2.1.2.1] at taken

/-- Every step but a restart carries a stopped call on or ends it as promised. -/
theorem step_stoppedCall (short : call.length ≤ maxPipeElementSize cfg.pipeSize) {act : Act}
    (known : StoppedCall call s s') (admitted : NoRestart s' act)
    (taken : step cfg s' act = some s'') : StoppedCall call s s'' := by
  by_cases writing : act = .writer
  · subst writing
    exact writerStep_stoppedCall short known taken
  · have ⟨stopped, progress⟩ := known
    refine ⟨step_stays_stopped admitted taken stopped, ?_⟩
    rcases step_same_write writing taken with ⟨made, -, -, rfl⟩ | same
    · exact Or.inl (calls_length_lt made progress)
    · unfold EndedBy at progress ⊢
      rw [same.calls, same.writer, same.outcomes, same.published]
      exact progress

/-- A call in progress when the writer is stopped for good ends as promised. -/
theorem stopped_call_ends (short : call.length ≤ maxPipeElementSize cfg.pipeSize)
    (current : s.writer.call? = some call) (stopped : s.pipe.isWriterRunning = false)
    (path : (system cfg).Leads NoRestart s s') (calls : s'.calls = s.calls)
    (resting : s'.writer = .idle) :
    EndedBy s s' .interrupted ∨
      (s.writer.PastGate ∧ EndedBy s s' .written ∧ ∃ record : Record,
        s'.published = s.published ++ [record] ∧ record.payload = call.bytes) := by
  have known := System.leads_invariant (StoppedCall call s)
    (fun _ _ _ known admitted taken => step_stoppedCall short known admitted taken) path
    ⟨stopped, Or.inr ⟨rfl, Or.inl ⟨current, id, rfl, rfl⟩⟩⟩
  rcases known.progress with more | ⟨-, ⟨inProgress, -⟩ | ended⟩
  · rw [calls] at more
    exact absurd more (Nat.lt_irrefl _)
  · simp [resting, Writer.call?] at inProgress
  · exact ended

end Stopped

section Thrown

variable {cfg : Config} {s s' s'' : State}

/-- The call has no reservation yet. -/
def Writer.Unreserved : Writer → Prop
  | .header _ _ | .copying _ _ _ | .counting _ _ | .publishing _ _ => False
  | _ => True

/-- A micro-step of the writer that comes before the reservation stores nothing. -/
theorem writerStep_untouched (taken : writerStep cfg s = some s')
    (before : s'.writer.Unreserved) (current : s.writer.Unreserved) : Untouched s s' := by
  rcases writerStep_stores taken with stored | silent
  · cases stored with
    | reserve _ => exact before.elim
    | header control | copy control _ | count control | publish control =>
      rw [control] at current
      exact current.elim
  · have same := silent.pipe
    exact ⟨by rw [same], by rw [same], by rw [same], by rw [same], by rw [same]⟩

/-- A call with a reservation keeps it until it ends. -/
theorem writerStep_reserved (taken : writerStep cfg s = some s')
    (before : s'.writer.Unreserved) (busy : s'.writer ≠ .idle) : s.writer.Unreserved := by
  cases writerStep_move taken with
  | store stored =>
    cases stored with
    | publish _ => exact absurd rfl busy
    | _ => exact before.elim
  | copied _ _ => exact before.elim
  | tooLarge _ _ | interrupt _ _ | refuse _ _ _ => exact absurd rfl busy
  | enter control _ | loadRead control | full control _ | free control _ | again control
  | leave control _ | pass control _ _ =>
    rw [control]
    trivial

/-- The fields of a push in both of two steps. -/
theorem Untouched.trans (first : Untouched s s') (second : Untouched s' s'') :
    Untouched s s'' :=
  ⟨second.writeVPtr.trans first.writeVPtr, second.nextWriteVPtr.trans first.nextWriteVPtr,
    second.numWritten.trans first.numWritten, second.numFailedWrites.trans first.numFailedWrites,
    second.buf.trans first.buf⟩

/-- A step that leaves the call in progress alone leaves its stores alone. -/
theorem SameWrite.untouched (same : SameWrite s s') : Untouched s s' :=
  ⟨same.writeVPtr, same.nextWriteVPtr, same.numWritten, same.numFailedWrites, same.buf⟩

/-- What is known of the stores of a call since it began, as long as no other call is made:
before its reservation there are none, and a call with a reservation does not throw. -/
def CallStores (s s' : State) : Prop :=
  s.calls.length < s'.calls.length ∨ s'.calls = s.calls ∧
    ((s'.writer ≠ .idle ∧ s'.outcomes = s.outcomes ∧ (s'.writer.Unreserved → Untouched s s')) ∨
      ∃ outcome, EndedBy s s' outcome ∧ (outcome = .interrupted → Untouched s s'))

/-- A micro-step of the writer keeps what is known of the stores of its call. -/
theorem writerStep_callStores (known : CallStores s s') (taken : writerStep cfg s' = some s'') :
    CallStores s s'' := by
  have elsewhere := writerStep_elsewhere taken
  unfold CallStores
  rw [elsewhere.calls]
  rcases known with more | ⟨calls, ⟨busy, outcomes, stores⟩ | ⟨outcome, ended, -⟩⟩
  · exact Or.inl more
  · refine Or.inr ⟨calls, ?_⟩
    rcases writerStep_ends taken with ⟨same, outcomes', -⟩ |
      ⟨call, outcome, records, -, resting, ends, outcomes', -⟩
    · left
      have busy' : s''.writer ≠ .idle := by
        intro resting
        rw [resting] at same
        cases control : s'.writer with
        | idle => exact busy control
        | _ => simp [control, Writer.call?] at same
      refine ⟨busy', outcomes'.trans outcomes, fun before => ?_⟩
      have current := writerStep_reserved taken before busy'
      exact (stores current).trans (writerStep_untouched taken before current)
    · right
      refine ⟨outcome, ⟨elsewhere.calls.trans calls, resting, by rw [outcomes', outcomes]⟩, ?_⟩
      rintro rfl
      cases ends with
      | interrupted control _ =>
        have current : s'.writer.Unreserved := by rw [control]; trivial
        exact (stores current).trans (writerStep_untouched taken (by rw [resting]; trivial) current)
  · simp [writerStep, ended.2.1] at taken

/-- Every step keeps what is known of the stores of a call. -/
theorem step_callStores {act : Act} (known : CallStores s s')
    (taken : step cfg s' act = some s'') : CallStores s s'' := by
  by_cases writing : act = .writer
  · subst writing
    exact writerStep_callStores known taken
  · rcases step_same_write writing taken with ⟨made, -, -, rfl⟩ | same
    · exact Or.inl (calls_length_lt made known)
    · unfold CallStores EndedBy at known ⊢
      rw [same.calls, same.writer, same.outcomes]
      rcases known with more | ⟨calls, ⟨busy, outcomes, stores⟩ | ⟨outcome, ended, stores⟩⟩
      · exact Or.inl more
      · exact Or.inr ⟨calls, Or.inl ⟨busy, outcomes,
          fun before => (stores before).trans same.untouched⟩⟩
      · exact Or.inr ⟨calls, Or.inr ⟨outcome, ended,
          fun thrown => (stores thrown).trans same.untouched⟩⟩

/-- A call that throws has stored nothing since it began. -/
theorem thrown_call_untouched {call : WriteCall} {ok : State → Act → Prop}
    (began : s.writer = .entered call) (path : (system cfg).Leads ok s s')
    (ended : EndedBy s s' .interrupted) : Untouched s s' := by
  have known := System.leads_invariant (CallStores s)
    (fun _ _ _ known _ taken => step_callStores known taken) path
    (Or.inr ⟨rfl, Or.inl ⟨by simp [began], rfl, fun _ => ⟨rfl, rfl, rfl, rfl, rfl⟩⟩⟩)
  rcases known with more | ⟨-, ⟨busy, -⟩ | ⟨outcome, ⟨-, -, outcomes⟩, stores⟩⟩
  · rw [ended.1] at more
    exact absurd more (Nat.lt_irrefl _)
  · exact absurd ended.2.1 busy
  · apply stores
    have same := ended.2.2.symm.trans outcomes
    simpa using same.symm

end Thrown

/-- A value that fits 32 bits is announced with its length. -/
theorem push_length_toNat {value : List UInt8} (narrow : value.length < 2 ^ 32) :
    (WriteCall.push value).length.toNat = value.length := by
  rw [WriteCall.push, UInt32.toNat_ofNat']
  exact Nat.mod_eq_of_lt narrow

/-- The size check ends a long call whatever the flag says. -/
theorem step_tooLarge {cfg : Config} {s : State} {call : WriteCall}
    (began : s.writer = .entered call)
    (long : maxPipeElementSize cfg.pipeSize < call.length) :
    step cfg s .writer =
      some { s with writer := .idle, outcomes := s.outcomes ++ [.tooLarge] } := by
  simp only [step, writerStep, began, gt_iff_lt, if_pos long]

/-- A push above the element limit into a stopped pipe returns without a throw. -/
theorem long_push_returns {cfg : Config} {value : List UInt8}
    (long : maxPipeElementSize cfg.pipeSize < (WriteCall.push value).length) :
    ∃ s s', (system cfg).Reachable System.always s ∧ s.writer = .entered (.push value) ∧
      s.pipe.isWriterRunning = false ∧ (system cfg).Leads NoRestart s s' ∧
      EndedBy s s' .tooLarge := by
  let begun : State := { State.start blankStorage with
    pipe := { (State.start blankStorage).pipe with isWriterRunning := false },
    writer := .entered (.push value),
    calls := [.push value] }
  have replayed : (system cfg).run (.start blankStorage) [.stopWriter, .call (.push value)] =
      some begun := rfl
  have reached : (system cfg).Reachable System.always begun :=
    .of_run ⟨blankStorage, rfl⟩ _ (fun _ _ _ => trivial) replayed
  have path : (system cfg).Leads NoRestart begun _ :=
    System.leads_single .writer (by simp [NoRestart]) (@step_tooLarge cfg begun _ rfl long)
  exact ⟨begun, _, reached, rfl, rfl, path, rfl, rfl, rfl⟩

/-- Stopping the writer keeps its promise for the values within the element limit and for no
others. -/
theorem stop_promise_iff {cfg : Config} {value : List UInt8} (narrow : value.length < 2 ^ 32) :
    StopPromise cfg value ↔ value.length ≤ (maxPipeElementSize cfg.pipeSize).toNat := by
  rw [← push_length_toNat narrow, ← UInt32.le_iff_toNat_le]
  constructor
  · intro promise
    by_contra long
    have ⟨s, s', reached, began, stopped, path, ended⟩ :=
      long_push_returns (UInt32.not_le.mp long)
    have thrown := promise.begun_after s s' reached began stopped path ended.1 ended.2.1
    have outcomes := thrown.2.2.symm.trans ended.2.2
    simp at outcomes
  · intro short
    refine ⟨?_, ?_, ?_⟩
    · intro s s' _ began stopped path calls resting
      have current : s.writer.call? = some (.push value) := by rw [began]; rfl
      rcases stopped_call_ends short current stopped path calls resting with ended | ⟨past, -⟩
      · exact ended
      · rw [began] at past
        exact past.elim
    · intro s s' _ current stopped path calls resting
      exact stopped_call_ends short current stopped path calls resting
    · intro s s' _ began path ended
      exact thrown_call_untouched began path ended

/-- A push of two bytes into a stopped pipe of twelve bytes returns without a throw. -/
theorem stop_leaves_long_push_unthrown :
    ¬ ∀ (cfg : Config) (value : List UInt8), value.length < 2 ^ 32 → StopPromise cfg value := by
  intro claimed
  have ⟨s, s', reached, began, stopped, path, ended⟩ :=
    @long_push_returns smallConfig [7, 7] (by decide)
  have thrown := (claimed smallConfig [7, 7] (by decide)).begun_after s s' reached began stopped
    path ended.1 ended.2.1
  have outcomes := thrown.2.2.symm.trans ended.2.2
  simp at outcomes

/-- Stopping the writer keeps its promise for one byte in a pipe of twelve. -/
theorem stop_promise_iff_byte : [(7 : UInt8)].length < 2 ^ 32 ∧ StopPromise smallConfig [7] :=
  ⟨by decide, (stop_promise_iff (by decide)).mpr (by decide)⟩

end PerfVerif.Pipe
