import PerfVerif.Pipe.Steps

/-!
# The gate of `startWrite`

`startWrite` loads the running flag twice, in its loop condition and behind the loop, and a
blocking call does not look at `full` again after the loop. As long as nobody restarts the
writer between the two loads of a call that gave up waiting, a record is reserved only
after `isFull` was false. This needs no bound on the pipe size and nothing about the
reader.
-/

namespace PerfVerif.Pipe

open Transition

/-- A blocking `startWrite` has left its wait loop with `full` still true, because it loaded
the flag of a stopped writer, and has not yet loaded the flag again. -/
def RestartWindow (s : State) : Prop :=
  ∃ call, s.writer = .gate call true ∧ call.block = true

/-- Every call of the run copies as many bytes as it announced, as a push of a value shorter
than `2 ^ 32` bytes does. -/
def CallsCopy (_ : State) : Act → Prop
  | .call call => call.Copies
  | _ => True

/-- The decision of `CallsCopy` for one action. -/
def Act.copies : Act → Bool
  | .call made => made.bytes.length == made.length.toNat
  | _ => true

/-- The condition on the calls does not depend on the state. -/
theorem callsCopy_of_all (acts : List Act) (all : acts.all Act.copies = true) (s : State) :
    ∀ act ∈ acts, CallsCopy s act := by
  intro act member
  have holds := List.all_eq_true.mp all act member
  cases act with
  | call call => exact beq_iff_eq.mp holds
  | _ => trivial

/-- No restart of the writer falls between the two flag loads of a blocking call that left
its wait loop on a stopped writer. -/
def NoRestartInWindow (s : State) : Act → Prop
  | .startWriter => ¬ RestartWindow s
  | _ => True

/-- What the two flag loads guarantee: past the gate with `full` still true, a blocking call
finds the writer stopped; past both checks `full` is false. -/
def FlagFacts (s : State) : Prop :=
  (∀ call, s.writer = .gate call true → call.block = true → s.pipe.isWriterRunning = false) ∧
    ∀ call full, s.writer = .reserving call full → full = false

/-- A micro-step of the writer keeps the flag facts, for every pipe size and every call. -/
theorem writerStep_flagFacts {cfg : Config} {s s' : State} (facts : FlagFacts s)
    (taken : writerStep cfg s = some s') : FlagFacts s' := by
  have ⟨waited, passed⟩ := writerStep_gate taken
  constructor
  · intro call control blocking
    rw [(writerStep_elsewhere taken).isWriterRunning]
    exact waited call control blocking
  · intro call full control
    have ⟨gate, running, blocking⟩ := passed call full control
    -- a blocking call would have found the writer stopped here
    by_contra isFull
    rw [Bool.not_eq_false] at isFull
    rw [isFull] at gate
    have stopped := facts.1 call gate (blocking isFull)
    rw [running] at stopped
    contradiction

/-- Every step outside the window keeps the flag facts. -/
theorem step_flagFacts {cfg : Config} {s s' : State} {act : Act} (facts : FlagFacts s)
    (admitted : NoRestartInWindow s act) (taken : step cfg s act = some s') : FlagFacts s' := by
  have ⟨stopped, free⟩ := facts
  cases act with
  | call call =>
    obtain ⟨_, rfl⟩ := step_call taken
    simp [FlagFacts]
  | writer => exact writerStep_flagFacts facts taken
  | reader act =>
    rcases readerStep_cases taken with ⟨-, -, -, rfl⟩ | ⟨-, -, -, rfl⟩ |
      ⟨-, counted, -, inside, rfl⟩ | ⟨-, stored, -, rfl⟩ <;> exact facts
  | stopWriter =>
    cases taken
    exact ⟨fun _ _ _ => rfl, free⟩
  | startWriter =>
    cases taken
    exact ⟨fun call control blocking => absurd ⟨call, control, blocking⟩ admitted, free⟩
  | validate =>
    obtain ⟨validator, rfl⟩ := step_validate taken
    exact facts

/-- The flag facts hold in every run without a restart in the window. -/
theorem reachable_flagFacts {cfg : Config} {s : State}
    (reached : (system cfg).Reachable NoRestartInWindow s) : FlagFacts s := by
  apply reached.invariant
  · rintro first ⟨storage, rfl⟩
    simp [FlagFacts, State.start]
  · intro before act after _ facts admitted taken
    exact step_flagFacts facts admitted taken

/-- What `isFull` has returned to the call in progress, where `startWrite` keeps it. -/
def Writer.full? : Writer → Option (WriteCall × Bool)
  | .loopFlag call => some (call, true)
  | .gate call full | .reserving call full => some (call, full)
  | _ => none

/-- The micro-step in which `isFull` returns: it loads `writeVPtr_` and compares. -/
def Evaluates (s : State) (act : Act) : Prop :=
  act = .writer ∧ ∃ call localReadPtr, s.writer = .loadWrite call localReadPtr

/-- In some run to this state the last evaluation of `isFull` was one for this call with this
result: it loaded `readVPtr_` in one state and `writeVPtr_` in a later one. -/
def LastIsFull (cfg : Config) (ok : State → Act → Prop) (s : State) (call : WriteCall)
    (full : Bool) : Prop :=
  ∃ loaded tested after, (system cfg).Reachable ok loaded ∧ loaded.writer = .loadRead call ∧
    (system cfg).Leads ok loaded tested ∧
    tested.writer = .loadWrite call (getPointer loaded.pipe.readVPtr) ∧
    isFullAt cfg.pipeSize call.length (getPointer loaded.pipe.readVPtr)
      (getPointer tested.pipe.writeVPtr) = full ∧
    step cfg tested .writer = some after ∧
    (system cfg).Leads (fun s act => ok s act ∧ ¬ Evaluates s act) after s

section Evaluation

variable {cfg : Config} {ok : State → Act → Prop} {s s' : State}

/-- The result kept is that of the comparison, or it has been kept before. -/
theorem writerStep_full {call : WriteCall} {full : Bool}
    (taken : writerStep cfg s = some s') (kept : s'.writer.full? = some (call, full)) :
    (∃ localReadPtr, s.writer = .loadWrite call localReadPtr ∧
      isFullAt cfg.pipeSize call.length localReadPtr (getPointer s.pipe.writeVPtr) = full) ∨
    s.writer.full? = some (call, full) := by
  cases writerStep_move taken with
  | full control tested | free control tested =>
    obtain ⟨rfl, rfl⟩ := Prod.mk.inj (Option.some.inj kept)
    exact Or.inl ⟨_, control, tested⟩
  | leave control _ | pass control _ _ =>
    rw [control]
    exact Or.inr kept
  | store stored => cases stored <;> contradiction
  | _ => contradiction

/-- The pointer that `isFull` compares is the one that it has loaded. -/
theorem reachable_loadedRead (reached : (system cfg).Reachable ok s) :
    ∀ call localReadPtr, s.writer = .loadWrite call localReadPtr →
      ∃ loaded, (system cfg).Reachable ok loaded ∧ loaded.writer = .loadRead call ∧
        getPointer loaded.pipe.readVPtr = localReadPtr ∧ (system cfg).Leads ok loaded s := by
  apply reached.invariant
  · rintro first ⟨storage, rfl⟩ call localReadPtr control
    contradiction
  · intro before act after prior known admitted taken call localReadPtr control
    by_cases writes : act = .writer
    · subst writes
      cases writerStep_move taken with
      | loadRead loads =>
        obtain ⟨rfl, rfl⟩ := Writer.loadWrite.inj control
        exact ⟨before, prior, loads, rfl, System.leads_single .writer admitted taken⟩
      | store stored => cases stored <;> contradiction
      | _ => contradiction
    · rcases step_same_write writes taken with ⟨_, _, _, rfl⟩ | same
      · contradiction
      · have ⟨loaded, early, loads, pointer, path⟩ :=
          known call localReadPtr (same.writer.symm.trans control)
        exact ⟨loaded, early, loads, pointer, path.tail ⟨act, admitted, taken⟩⟩

/-- What `startWrite` keeps is the result of the last evaluation. -/
theorem reachable_lastIsFull (reached : (system cfg).Reachable ok s) :
    ∀ call full, s.writer.full? = some (call, full) → LastIsFull cfg ok s call full := by
  apply reached.invariant
  · rintro first ⟨storage, rfl⟩ call full kept
    contradiction
  · intro before act after prior known admitted taken call full kept
    -- a step that evaluates nothing goes on from the evaluation before
    have goes_on (same : before.writer.full? = some (call, full)) :
        LastIsFull cfg ok after call full := by
      have ⟨loaded, tested, result, early, loads, between, tests, value, step, path⟩ :=
        known call full same
      have silent : ¬ Evaluates before act := by
        rintro ⟨-, _, _, control⟩
        rw [control] at same
        contradiction
      exact ⟨loaded, tested, result, early, loads, between, tests, value, step,
        path.tail ⟨act, ⟨admitted, silent⟩, taken⟩⟩
    by_cases writes : act = .writer
    · subst writes
      rcases writerStep_full taken kept with ⟨localReadPtr, control, value⟩ | same
      · obtain ⟨loaded, early, loads, rfl, path⟩ :=
          reachable_loadedRead prior call localReadPtr control
        exact ⟨loaded, before, after, early, loads, path, control, value, taken, .refl⟩
      · exact goes_on same
    · rcases step_same_write writes taken with ⟨_, _, _, rfl⟩ | same
      · contradiction
      · exact goes_on (same.writer ▸ kept)

end Evaluation

/-- Without a restart in the window, `startWrite` stores a reservation only after its last
`isFull` was false. A blocking call whose last `isFull` was true evaluates it again, or
reaches the second flag load, where it throws `Interrupted`. A restart in the window is
what breaks this: it lets the call reserve with `full` still true. -/
theorem reserves_only_after_room {cfg : Config} {s : State}
    (reached : (system cfg).Reachable NoRestartInWindow s) :
    (∀ call full, s.writer = .reserving call full →
      full = false ∧ LastIsFull cfg NoRestartInWindow s call false) ∧
    (∀ call, s.writer = .loopFlag call → call.block = true →
      step cfg s .writer = some { s with writer := .loadRead call } ∨
        step cfg s .writer = some { s with writer := .gate call true }) ∧
    (∀ call, s.writer = .gate call true → call.block = true →
      step cfg s .writer =
        some { s with writer := .idle, outcomes := s.outcomes ++ [.interrupted] }) ∧
    (∀ call, s.writer = .gate call true → call.block = true →
      ∃ s', (system cfg).run s [.startWriter, .writer] = some s' ∧
        s'.writer = .reserving call true) := by
  obtain ⟨stopped, free⟩ := reachable_flagFacts reached
  refine ⟨?_, ?_, ?_, ?_⟩
  · intro call full control
    obtain rfl := free call full control
    exact ⟨rfl, reachable_lastIsFull reached call false (by rw [control]; rfl)⟩
  · intro call control blocking
    cases running : s.pipe.isWriterRunning with
    | true => exact Or.inl (by simp [step, writerStep, control, running, blocking])
    | false => exact Or.inr (by simp [step, writerStep, control, running])
  · intro call control blocking
    simp [step, writerStep, control, stopped call control blocking]
  · intro call control blocking
    refine ⟨{ s with pipe := { s.pipe with isWriterRunning := true },
                     writer := .reserving call true }, ?_, rfl⟩
    simp [System.run, system, step, writerStep, control, blocking]

/-- A pipe of twelve bytes, whose elements have at most one byte. -/
def smallConfig : Config := ⟨12, .little⟩

/-- Storage full of zeros. -/
def blankStorage : LocklessPipe := ⟨0, 0, 0, 0, 0, 0, 0, 0, 0, 0, false, fun _ => 0⟩

/-- A push of one byte that meets no obstacle. -/
def pushByte : List Act := .call (.push [7]) :: List.replicate 10 .writer

/-- Two records fill the pipe, a third push blocks, the writer is stopped, the push leaves
its wait loop, and the writer is restarted before the push loads the flag again. -/
def restartRun : List Act :=
  pushByte ++ pushByte ++ [Act.call (.push [7]), .writer, .writer, .writer, .stopWriter, .writer,
    .startWriter, .writer]

/-- A stop and a restart during a blocked push make it reserve in a full pipe. -/
theorem restart_reserves_in_full_pipe :
    ¬ ∀ (cfg : Config) (s : State) (call : WriteCall) (full : Bool),
      (system cfg).Reachable CallsCopy s → s.writer = .reserving call full →
      call.block = true → call.length ≤ maxPipeElementSize cfg.pipeSize → full = false := by
  intro claimed
  have replay : ((system smallConfig).run (.start blankStorage) restartRun).map State.writer =
      some (.reserving (.push [7]) true) := by decide +kernel
  obtain ⟨s, replayed, control⟩ := Option.map_eq_some_iff.mp replay
  have reached : (system smallConfig).Reachable CallsCopy s :=
    .of_run ⟨blankStorage, rfl⟩ restartRun (callsCopy_of_all _ (by decide)) replayed
  have free := claimed smallConfig s _ _ reached control rfl (by decide)
  contradiction

/-- A push into an empty pipe reaches its reservation in a run without restarts. -/
theorem reserves_only_after_room_push :
    ∃ s full, (system smallConfig).Reachable NoRestartInWindow s ∧
      s.writer = .reserving (.push [7]) full ∧ full = false := by
  let acts : List Act := [.call (.push [7]), .writer, .writer, .writer, .writer]
  have replay : ((system smallConfig).run (.start blankStorage) acts).map State.writer =
      some (.reserving (.push [7]) false) := by decide +kernel
  obtain ⟨s, replayed, control⟩ := Option.map_eq_some_iff.mp replay
  have reached : (system smallConfig).Reachable NoRestartInWindow s :=
    .of_run ⟨blankStorage, rfl⟩ acts (by simp [acts, NoRestartInWindow]) replayed
  exact ⟨s, false, reached, control, ((reserves_only_after_room reached).1 _ _ control).1⟩

end PerfVerif.Pipe
