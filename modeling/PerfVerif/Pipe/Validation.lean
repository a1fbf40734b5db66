import PerfVerif.Pipe.Representation

/-!
# `validate` beside a running writer and reader

`validate` loads the two counters and then the two pointers, four separate loads. The
counters are loaded in an order that cannot raise an alarm, and every value ever stored in a
pointer is inside the buffer. The comparison of the two pointers is another matter: between
the load of `readVPtr_` and the load of `writeVPtr_` the reader may free room that the writer
then uses, and a write pointer that has overtaken the read pointer loaded earlier looks like
a corrupted pipe. That is the only false alarm as long as the 64-bit write count does not
wrap.
-/

namespace PerfVerif.Pipe

open RecordRing Transition

/-- The steps of the runs in which nobody stops the writer, `numWritten_` does not wrap, and the
write pointer, when `validate` loads it, has not overtaken the read pointer loaded before. Starting
a writer that runs does nothing. -/
def CoherentSample (cfg : Config) (s : State) : Act → Prop
  | .call call => call.Copies
  | .writer =>
    match s.writer with
    | .counting _ _ => s.pipe.numWritten ≠ 18446744073709551615
    | _ => True
  | .validate =>
    match s.validator with
    | .loadedReadVPtr _ _ readVPtr => ¬ Overtaken cfg.pipeSize readVPtr s.pipe.writeVPtr
    | _ => True
  | .stopWriter => False
  | .startWriter => s.pipe.isWriterRunning = true
  | .reader _ => True

instance (writer : Writer) (p : Prop) [Decidable p] :
    Decidable (match writer with
      | .counting _ _ => p
      | _ => True) := by
  split <;> infer_instance

instance (cfg : Config) (s : State) : ∀ act, Decidable (CoherentSample cfg s act)
  | .call call => inferInstanceAs (Decidable (call.bytes.length = call.length.toNat))
  | .writer =>
    inferInstanceAs (Decidable (match s.writer with
      | .counting _ _ => s.pipe.numWritten ≠ 18446744073709551615
      | _ => True))
  | .validate => by
    delta CoherentSample
    dsimp only
    split <;> infer_instance
  | .stopWriter => inferInstanceAs (Decidable False)
  | .startWriter => inferInstanceAs (Decidable (s.pipe.isWriterRunning = true))
  | .reader _ => inferInstanceAs (Decidable True)

/-- In a run with a coherent sample the writer is running, and the run is disciplined. -/
theorem coherentSample_disciplined {cfg : Config} {s : State}
    (reached : (system cfg).Reachable (CoherentSample cfg) s) :
    (system cfg).Reachable Disciplined s ∧ s.pipe.isWriterRunning = true := by
  apply reached.invariant
  · rintro first ⟨storage, rfl⟩
    exact ⟨.start ⟨storage, rfl⟩, rfl⟩
  · intro before act after _ known coherent taken
    have ⟨prior, running⟩ := known
    have flags := (reachable_flagFacts (prior.mono fun _ _ disciplined => disciplined.2)).1
    have disciplined : Disciplined before act := by
      cases act with
      | call call => exact ⟨coherent, trivial⟩
      | stopWriter => exact coherent.elim
      | startWriter =>
        refine ⟨trivial, ?_⟩
        rintro ⟨call, control, blocking⟩
        have stopped := flags call control blocking
        rw [running] at stopped
        contradiction
      | _ => exact ⟨trivial, trivial⟩
    have other : act ≠ .stopWriter := by
      rintro rfl
      exact coherent
    exact ⟨prior.next disciplined taken, step_stays_running other taken running⟩

/-- What the values loaded by `validate` still say: the counts are in order with the write
count not loaded yet or loaded, and the read pointer loaded is a pointer into the ring. -/
def ValidatorFacts (cfg : Config) (pipe : LocklessPipe) : Validator → Prop
  | .idle => True
  | .loadedNumRead numRead => numRead ≤ pipe.numWritten
  | .loadedNumWritten numRead numWritten => numRead ≤ numWritten
  | .loadedReadVPtr numRead numWritten readVPtr => numRead ≤ numWritten ∧
      ∃ seen, readVPtr = vptrAt cfg.pipeSize seen
  | .returned valid => valid = true

/-- The write count has not wrapped and the values loaded so far are coherent. -/
structure SampleFacts (cfg : Config) (s : State) : Prop where
  unwrapped : s.published.length + s.writer.ahead < 2 ^ 64
  loaded : ValidatorFacts cfg s.pipe s.validator

section Preservation

variable {cfg : Config} {s s' : State}

/-- Loaded values stay coherent while the write count grows. -/
theorem ValidatorFacts.frame {pipe pipe' : LocklessPipe} {validator : Validator}
    (facts : ValidatorFacts cfg pipe validator) (counts : pipe.numWritten ≤ pipe'.numWritten) :
    ValidatorFacts cfg pipe' validator := by
  cases validator with
  | loadedNumRead numRead => exact UInt64.le_trans facts counts
  | _ => exact facts

/-- A coherent micro-step of the writer keeps the loaded values coherent. -/
theorem writerStep_sampleFacts (writes : WriteCounts s) (facts : SampleFacts cfg s)
    (coherent : CoherentSample cfg s .writer) (taken : writerStep cfg s = some s') :
    SampleFacts cfg s' := by
  have ⟨unwrapped, loaded⟩ := facts
  have same := writerStep_elsewhere taken
  rcases writerStep_counts taken with ⟨call, slot, control, control', numWritten, records⟩ |
    ⟨call, slot, record, control, control', numWritten, -, records⟩ |
    ⟨ahead, ahead', numWritten, records⟩
  · have written := writes.numWritten_eq
    rw [control] at written
    have below : s.published.length + 1 < 2 ^ 64 := by
      by_contra wraps
      simp only [CoherentSample, control] at coherent
      apply coherent
      rw [written, show s.published.length + Writer.ahead (.counting call slot) = 2 ^ 64 - 1 by
        change s.published.length + 0 = _; omega]
      rfl
    refine ⟨by rw [control', records]; exact below, ?_⟩
    rw [same.validator]
    apply loaded.frame
    rw [numWritten, written, UInt64.le_iff_toNat_le, UInt64.toNat_add, UInt64.toNat_ofNat']
    show (s.published.length + 0) % 2 ^ 64 ≤ ((s.published.length + 0) % 2 ^ 64 + 1) % 2 ^ 64
    omega
  · rw [control] at unwrapped
    refine ⟨by rw [control', records, List.length_append]; exact unwrapped, ?_⟩
    rw [same.validator]
    apply loaded.frame
    rw [numWritten]
    exact UInt64.le_refl _
  · rw [ahead] at unwrapped
    refine ⟨by rw [ahead', records]; exact unwrapped, ?_⟩
    rw [same.validator]
    apply loaded.frame
    rw [numWritten]
    exact UInt64.le_refl _

/-- The read count is not past the write count, also in the middle of a read or a write. -/
theorem numRead_le_numWritten (inv : Inv cfg s) (writes : WriteCounts s) (counts : CountFacts s)
    (unwrapped : s.published.length + s.writer.ahead < 2 ^ 64) :
    s.pipe.numRead ≤ s.pipe.numWritten := by
  obtain ⟨⟨done, read, consumed, pending⟩, -⟩ := counts
  have bound : done + s.reader.counted ≤ s.published.length := by
    have consumedLe := inv.layout.consumed_le
    cases reading : s.reader with
    | idle =>
      rw [reading] at consumed
      change s.consumed = done at consumed
      show done ≤ s.published.length
      omega
    | busy stored counted =>
      have inside := pending (by rw [reading]; simp)
      cases counted <;> simp only [Reader.counted] <;> omega
  rw [writes.numWritten_eq, read, UInt64.le_iff_toNat_le, UInt64.toNat_ofNat',
    UInt64.toNat_ofNat', Nat.mod_eq_of_lt (by omega), Nat.mod_eq_of_lt unwrapped]
  omega

/-- The last load of `validate` decides by the two pointers alone. -/
theorem lastLoad_iff (inv : Inv cfg s) (counts : CountFacts s)
    {numRead numWritten readVPtr : UInt64}
    (loaded : ValidatorFacts cfg s.pipe (.loadedReadVPtr numRead numWritten readVPtr)) :
    s.pipe.validateWith cfg.pipeSize numRead numWritten readVPtr s.pipe.writeVPtr = true ↔
      ¬ Overtaken cfg.pipeSize readVPtr s.pipe.writeVPtr := by
  obtain ⟨ordered, seen, rfl⟩ := loaded
  rw [inv.layout.writeVPtr_eq]
  exact validateWith_iff ordered counts.stomps

/-- A load of `validate` is coherent with the loads before it. -/
theorem validateStep_sampleFacts (inv : Inv cfg s) (writes : WriteCounts s)
    (counts : CountFacts s) (facts : SampleFacts cfg s) (coherent : CoherentSample cfg s .validate) :
    SampleFacts cfg (validateStep cfg s) := by
  have ⟨unwrapped, loaded⟩ := facts
  have begins := numRead_le_numWritten inv writes counts unwrapped
  unfold validateStep
  split <;> rename_i sampled
  · exact ⟨unwrapped, begins⟩
  · exact ⟨unwrapped, begins⟩
  · rw [sampled] at loaded
    exact ⟨unwrapped, loaded⟩
  · rw [sampled] at loaded
    exact ⟨unwrapped, loaded, _, inv.layout.readVPtr_eq⟩
  · rw [sampled] at loaded
    simp only [CoherentSample, sampled] at coherent
    exact ⟨unwrapped, (lastLoad_iff inv counts loaded).mpr coherent⟩

/-- The loaded values are coherent in every state of a coherent run. -/
theorem reachable_sampleFacts (bounds : WordBounds cfg.pipeSize)
    (reached : (system cfg).Reachable (CoherentSample cfg) s) : SampleFacts cfg s := by
  apply reached.invariant
  · rintro first ⟨storage, rfl⟩
    exact ⟨by show 0 + 0 < 2 ^ 64; decide, trivial⟩
  · intro before act after prior facts coherent taken
    have disciplined := (coherentSample_disciplined prior).1
    have writes := reachable_writeCounts prior
    have ⟨unwrapped, loaded⟩ := facts
    cases act with
    | call call =>
      obtain ⟨control, rfl⟩ := @step_call cfg _ _ _ taken
      rw [control] at unwrapped
      exact ⟨unwrapped, loaded⟩
    | writer => exact writerStep_sampleFacts writes facts coherent taken
    | reader act =>
      rcases readerStep_cases taken with ⟨-, -, -, rfl⟩ | ⟨-, -, -, rfl⟩ |
        ⟨-, counted, -, inside, rfl⟩ | ⟨-, stored, -, rfl⟩ <;>
        exact ⟨unwrapped, loaded.frame (UInt64.le_refl _)⟩
    | stopWriter => exact coherent.elim
    | startWriter =>
      cases taken
      exact ⟨unwrapped, loaded.frame (UInt64.le_refl _)⟩
    | validate =>
      cases taken
      exact validateStep_sampleFacts (reachable_inv bounds disciplined) writes
        (reachable_countFacts bounds disciplined) facts coherent

end Preservation

/-- In every run of a writer that is never stopped in which the write count does not wrap and no
read pointer loaded by `validate` is overtaken when it loads the write pointer, `validate` returns
true whenever it returns. An overtaken read pointer makes it return false. -/
theorem validate_accepts_coherent_samples {cfg : Config} {s : State}
    (bounds : SizeBounds cfg.pipeSize)
    (reached : (system cfg).Reachable (CoherentSample cfg) s) :
    (∀ valid, s.validator = .returned valid → valid = true) ∧
      (∀ numRead numWritten readVPtr, s.validator = .loadedReadVPtr numRead numWritten readVPtr →
        Overtaken cfg.pipeSize readVPtr s.pipe.writeVPtr →
        step cfg s .validate = some { s with validator := .returned false }) := by
  have words := bounds.words
  have loaded := (reachable_sampleFacts words reached).loaded
  constructor
  · intro valid returned
    rw [returned] at loaded
    exact loaded
  · intro numRead numWritten readVPtr sampled overtaken
    have disciplined := (coherentSample_disciplined reached).1
    rw [sampled] at loaded
    have rejected := mt (lastLoad_iff (reachable_inv words disciplined)
      (reachable_countFacts words disciplined) loaded).mp (not_not_intro overtaken)
    rw [Bool.not_eq_true] at rejected
    simp only [step, validateStep, sampled, rejected]

/-- A read of one record by a reader at rest. -/
def readRecord : List Act := [.reader .begin, .reader .store, .reader .count]

/-- `validate` loads the counters and the read pointer of an empty pipe, five records are
pushed and read, and `validate` loads the write pointer. -/
def lapsBetweenLoads : List Act :=
  [Act.validate, .validate, .validate] ++
    (pushByte ++ readRecord) ++ (pushByte ++ readRecord) ++ (pushByte ++ readRecord) ++
    (pushByte ++ readRecord) ++ (pushByte ++ readRecord) ++ [Act.validate]

/-- `validate` rejects a sound pipe that moved two laps between its pointer loads. -/
theorem validate_rejects_sound_pipe :
    ¬ ∀ (cfg : Config) (s : State) (valid : Bool), SizeBounds cfg.pipeSize →
      (system cfg).Reachable (RunningPushes cfg) s → s.validator = .returned valid →
      valid = true := by
  intro claimed
  have replay : ((system smallConfig).run (.start blankStorage) lapsBetweenLoads).map
      State.validator = some (.returned false) := by decide +kernel
  obtain ⟨s, replayed, returned⟩ := Option.map_eq_some_iff.mp replay
  have admitted : ∀ state, ∀ act ∈ lapsBetweenLoads, RunningPushes smallConfig state act := by
    intro state act member
    have kinds : ∀ act ∈ lapsBetweenLoads, act = .call (.push [7]) ∨ act = .writer ∨
        act = .validate ∨ act ∈ readRecord := by decide
    rcases kinds act member with rfl | rfl | rfl | reading
    · exact ⟨[7], rfl, by decide⟩
    · trivial
    · trivial
    · simp only [readRecord, List.mem_cons, List.not_mem_nil, or_false] at reading
      rcases reading with rfl | rfl | rfl <;> trivial
  have reached : (system smallConfig).Reachable (RunningPushes smallConfig) s :=
    .of_run ⟨blankStorage, rfl⟩ lapsBetweenLoads admitted replayed
  have valid := claimed smallConfig s false ⟨by decide, by decide⟩ reached returned
  contradiction

/-- `validate` accepts a pipe with a push between its two pointer loads. -/
theorem validate_accepts_coherent_samples_push :
    ∃ s valid, (system smallConfig).Reachable (CoherentSample smallConfig) s ∧
      s.published.length = 1 ∧
      s.validator = .returned valid ∧ valid = true := by
  have replay : ((system smallConfig).guardedRun (CoherentSample smallConfig) (.start blankStorage)
      ([Act.validate, .validate, .validate] ++ pushByte ++ [Act.validate])).map
      (fun s => (s.published.length, s.validator)) = some (1, .returned true) := by
    decide +kernel
  have ⟨s, replayed, shown⟩ := Option.map_eq_some_iff.mp replay
  have ⟨one, returned⟩ : s.published.length = 1 ∧ s.validator = .returned true := by
    simpa using shown
  have reached : (system smallConfig).Reachable (CoherentSample smallConfig) s :=
    .of_guardedRun ⟨blankStorage, rfl⟩ _ replayed
  exact ⟨s, true, reached, one, returned,
    (validate_accepts_coherent_samples ⟨by decide, by decide⟩ reached).1 true returned⟩

end PerfVerif.Pipe
