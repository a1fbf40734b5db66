import PerfVerif.Pipe.Gate

/-!
# What the counters say about the attempts

`numWritten_` counts the published records, one ahead between its increment and the
publication. `numFailedWrites_` keeps the value of the constructor: no step of any thread
touches it. So an attempt that `startWrite` turns away, because the element is too large or
because a call that does not block finds the pipe full, leaves no trace in the counters, and
the counters account for the attempts exactly as long as none is turned away.
-/

namespace PerfVerif.Pipe

open Transition

/-- The two counters that the writer side owns. -/
structure WriteCounts (s : State) : Prop where
  numWritten_eq : s.pipe.numWritten = UInt64.ofNat (s.published.length + s.writer.ahead)
  numFailedWrites_eq : s.pipe.numFailedWrites = 0

/-- The attempt ended without an exception. -/
def Outcome.returned : Outcome → Bool
  | .interrupted => false
  | _ => true

/-- How many attempts have ended without an exception. -/
def State.attempts (s : State) : Nat := s.outcomes.countP Outcome.returned

/-- The counters account for the attempts; both start at zero. -/
def Accounted (s : State) : Prop :=
  UInt64.ofNat s.attempts = s.pipe.numWritten + s.pipe.numFailedWrites

/-- The next micro-step of the writer turns no attempt away: an element at the size check is
not too large, and a call behind the wait loop of a running writer blocks or saw room. -/
def NoLoss (cfg : Config) (s : State) (act : Act) : Prop :=
  match act, s.writer with
  | .writer, .entered call => call.length ≤ maxPipeElementSize cfg.pipeSize
  | .writer, .gate call full =>
    s.pipe.isWriterRunning = true → full = true → call.block = true
  | _, _ => True

instance (cfg : Config) (s : State) (act : Act) : Decidable (NoLoss cfg s act) := by
  delta NoLoss
  split <;> infer_instance

section Counts

variable {cfg : Config} {s s' : State}

/-- A micro-step of the writer keeps the counters in step with the records. -/
theorem writerStep_writeCounts (counts : WriteCounts s) (taken : writerStep cfg s = some s') :
    WriteCounts s' := by
  have ⟨written, failed⟩ := counts
  have failed' := (writerStep_elsewhere taken).numFailedWrites.trans failed
  rcases writerStep_counts taken with ⟨call, slot, control, control', numWritten, records⟩ |
    ⟨call, slot, record, control, control', numWritten, -, records⟩ |
    ⟨ahead, ahead', numWritten, records⟩
  · rw [control] at written
    refine ⟨?_, failed'⟩
    rw [numWritten, written, control', records]
    exact (UInt64.ofNat_add _ 1).symm
  · rw [control] at written
    refine ⟨?_, failed'⟩
    rw [numWritten, written, control', records, List.length_append]
    rfl
  · rw [ahead] at written
    refine ⟨?_, failed'⟩
    rw [numWritten, written, ahead', records]

/-- The counters are in step with the records in every state of every run. -/
theorem reachable_writeCounts {ok : State → Act → Prop}
    (reached : (system cfg).Reachable ok s) : WriteCounts s := by
  apply reached.invariant
  · rintro first ⟨storage, rfl⟩
    exact ⟨rfl, rfl⟩
  · intro before act after _ counts _ taken
    by_cases writing : act = .writer
    · subst writing
      exact writerStep_writeCounts counts taken
    · have same := step_beside_writer writing taken
      constructor
      · rw [same.numWritten, same.published, same.ahead]
        exact counts.numWritten_eq
      · rw [same.numFailedWrites]
        exact counts.numFailedWrites_eq

/-- Every attempt of a run without losses that ended without an exception has published its
record. -/
theorem published_eq_attempts (reached : (system cfg).Reachable (NoLoss cfg) s) :
    s.published.length = s.attempts := by
  apply reached.invariant
  · rintro first ⟨storage, rfl⟩
    rfl
  · intro before act after _ prior noLoss taken
    by_cases writing : act = .writer
    · subst writing
      rcases writerStep_ends taken with ⟨-, outcomes, records⟩ |
        ⟨call, outcome, records, -, -, ends, outcomes, appended⟩
      · rw [State.attempts, outcomes, records]
        exact prior
      · rw [State.attempts, outcomes, appended, List.length_append, List.countP_append, prior]
        cases ends with
        | tooLarge control long =>
          simp only [NoLoss, control] at noLoss
          exact absurd long (UInt32.not_lt.mpr noLoss)
        | interrupted control stopped => rfl
        | refused control running tries => simp [NoLoss, control, running, tries] at noLoss
        | written control => rfl
    · have same := step_beside_writer writing taken
      rw [State.attempts, same.outcomes, same.published]
      exact prior

/-- A step that turns an attempt away ends it without an exception and publishes nothing. -/
theorem loss_ends (lost : ¬ NoLoss cfg s .writer) (taken : writerStep cfg s = some s') :
    s'.writer = .idle ∧ s'.attempts = s.attempts + 1 ∧ s'.published = s.published := by
  cases control : s.writer with
  | entered call =>
    simp only [NoLoss, control, UInt32.not_le] at lost
    simp only [writerStep, control, if_pos lost, Option.some.injEq] at taken
    subst taken
    exact ⟨rfl, by simp [State.attempts, Outcome.returned], rfl⟩
  | gate call full =>
    obtain ⟨running, isFull, tries⟩ : s.pipe.isWriterRunning = true ∧ full = true ∧
        call.block = false := by simpa [NoLoss, control] using lost
    simp only [writerStep, control, running, isFull, tries, Bool.not_true, Bool.not_false,
      Bool.and_self, Bool.false_eq_true, ↓reduceIte, Option.some.injEq] at taken
    subst taken
    exact ⟨rfl, by simp [State.attempts, Outcome.returned], rfl⟩
  | _ => simp [NoLoss, control] at lost

end Counts

/-- Between two calls of a run that turns no attempt away, the counters account for the
attempts, and each that returned has published its record. The first attempt turned away
leaves the counters one behind. -/
theorem attempts_accounted_without_loss {cfg : Config} {s : State}
    (reached : (system cfg).Reachable (NoLoss cfg) s) :
    (s.writer = .idle → Accounted s ∧ s.published.length = s.attempts) ∧
      (∀ s', ¬ NoLoss cfg s .writer → step cfg s .writer = some s' →
        s'.writer = .idle ∧ ¬ Accounted s') := by
  have published := published_eq_attempts reached
  have ⟨written, failed⟩ := reachable_writeCounts reached
  constructor
  · intro between
    refine ⟨?_, published⟩
    rw [Accounted, written, failed, between, published]
    exact (UInt64.add_zero _).symm
  · intro s' lost taken
    have ⟨ended, attempts, records⟩ := loss_ends lost taken
    refine ⟨ended, ?_⟩
    have ⟨written', failed'⟩ := writerStep_writeCounts ⟨written, failed⟩ taken
    rw [Accounted, written', failed', ended, attempts, records, published, UInt64.add_zero]
    intro same
    have words := congrArg UInt64.toNat same
    change (s.attempts + 1) % 2 ^ 64 = (s.attempts + 0) % 2 ^ 64 at words
    omega

/-- The steps of the runs of pushes of values shorter than `2 ^ 32` bytes and of attempts
that do not block and copy what they announce, with every step of the other threads. -/
def PushesAndTries (_ : State) : Act → Prop
  | .call call => (∃ value : List UInt8, call = .push value ∧ value.length < 2 ^ 32) ∨
      ∃ length bytes, call = .tryWrite length bytes ∧ bytes.length = length.toNat
  | _ => True

/-- Two records fill the pipe and an attempt that does not block is turned away. -/
def refusedRun : List Act :=
  pushByte ++ pushByte ++ Act.call (.tryWrite 1 [7]) :: List.replicate 5 Act.writer

/-- A refused attempt is not counted anywhere. -/
theorem refused_attempt_uncounted :
    ¬ ∀ (cfg : Config) (s : State), 10 ≤ cfg.pipeSize.toNat → cfg.pipeSize.toNat ≤ 2 ^ 31 →
      (system cfg).Reachable PushesAndTries s → s.writer = .idle → Accounted s := by
  intro claimed
  have replay : ((system smallConfig).run (.start blankStorage) refusedRun).map
      (fun s => (s.writer, s.attempts, s.pipe.numWritten, s.pipe.numFailedWrites)) =
      some (.idle, 3, 2, 0) := by decide +kernel
  have ⟨s, replayed, shown⟩ := Option.map_eq_some_iff.mp replay
  have ⟨between, attempts, written, failed⟩ : s.writer = .idle ∧ s.attempts = 3 ∧
      s.pipe.numWritten = 2 ∧ s.pipe.numFailedWrites = 0 := by simpa using shown
  have admitted : ∀ state, ∀ act ∈ refusedRun, PushesAndTries state act := by
    intro state act member
    have kinds : ∀ act ∈ refusedRun, act = .call (.push [7]) ∨ act = .call (.tryWrite 1 [7]) ∨
        act = .writer := by decide
    rcases kinds act member with rfl | rfl | rfl
    · exact Or.inl ⟨[7], rfl, by decide⟩
    · exact Or.inr ⟨1, [7], rfl, rfl⟩
    · trivial
  have reached : (system smallConfig).Reachable PushesAndTries s :=
    .of_run ⟨blankStorage, rfl⟩ refusedRun admitted replayed
  have accounted := claimed smallConfig s (by decide) (by decide) reached between
  rw [Accounted, attempts, written, failed] at accounted
  exact absurd accounted (by decide)

/-- One push into an empty pipe is accounted for. -/
theorem attempts_accounted_without_loss_push :
    ∃ s, (system smallConfig).Reachable (NoLoss smallConfig) s ∧ s.attempts = 1 ∧
      Accounted s := by
  have replay : ((system smallConfig).guardedRun (NoLoss smallConfig) (.start blankStorage)
      pushByte).map (fun s => (s.writer, s.attempts)) = some (.idle, 1) := by decide +kernel
  have ⟨s, replayed, shown⟩ := Option.map_eq_some_iff.mp replay
  have ⟨between, attempts⟩ : s.writer = .idle ∧ s.attempts = 1 := by simpa using shown
  have reached : (system smallConfig).Reachable (NoLoss smallConfig) s :=
    .of_guardedRun ⟨blankStorage, rfl⟩ pushByte replayed
  exact ⟨s, reached, attempts, ((attempts_accounted_without_loss reached).1 between).1⟩

end PerfVerif.Pipe
