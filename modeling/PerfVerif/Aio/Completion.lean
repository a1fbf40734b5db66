import PerfVerif.Aio.Barrier

/-!
# How `aio_write_test` ends

The main thread submits whole batches; `sig_thread` leaves its loop when the iterations are
counted. So `aio_write_test` returns with writes in flight whenever the batches overshoot the
iterations. And it hangs whenever a whole batch can be counted before the main thread tests
the count, since the count is then a multiple of the batch size and nobody is left to change
it, and when there is nothing to write, since `sig_thread` then waits for a signal that never
comes.
-/

namespace PerfVerif.Aio

open Transition

variable {cfg : Config}

/-- The writes that the outer loop submits in whole batches. -/
def wholeBatches (cfg : Config) : Nat :=
  (loopLimit cfg + cfg.maxAios - 1) / cfg.maxAios * cfg.maxAios

/-- The first multiple of the batch size at the limit of the loop or behind it. -/
theorem eq_wholeBatches {batches : Nat} (least : loopLimit cfg ≤ batches * cfg.maxAios)
    (bound : batches * cfg.maxAios < loopLimit cfg + cfg.maxAios) :
    batches * cfg.maxAios = wholeBatches cfg := by
  have positive := cfg.maxAios_pos
  have quotient : (loopLimit cfg + cfg.maxAios - 1) / cfg.maxAios = batches := by
    apply Nat.div_eq_of_lt_le
    · omega
    · rw [Nat.succ_mul]
      omega
  rw [wholeBatches, quotient]

/-- When `aio_write_test` returns, every write it submitted is completed and counted. -/
def ReturnsFinished (cfg : Config) : Prop :=
  ∀ s, (system cfg).Reachable System.always s → s.main = .returned →
    s.inFlight = 0 ∧ s.pending = 0 ∧ s.submitted = s.totalIosCompleted

/-- `aio_write_test` returns with its writes finished when the batches do not overshoot the
iterations. -/
theorem returnsFinished_of_fits (nonempty : 0 < cfg.iterations)
    (narrow : cfg.maxAios < 2 ^ 31) (fits : wholeBatches cfg ≤ cfg.iterations) :
    ReturnsFinished cfg := by
  intro s reached returned
  have ⟨writes, joined⟩ := reachable_conserved reached
  have total := reachable_sigFacts nonempty reached
  have loop := reachable_loopFacts narrow reached
  rw [joined returned] at writes total
  rw [returned] at loop
  have ⟨least, bound, submitted⟩ := loop
  rw [eq_wholeBatches least bound] at submitted
  change s.submitted = s.inFlight + s.pending + 0 + s.totalIosCompleted at writes
  change s.totalIosCompleted = cfg.iterations at total
  omega

/-- With wide batches `aio_write_test` never returns, so never with a write unfinished. -/
theorem returnsFinished_of_wide (nonempty : 0 < cfg.iterations)
    (wide : 2 ^ 31 ≤ cfg.maxAios) : ReturnsFinished cfg := by
  intro s reached returned
  have submitting := reachable_submitting wide nonempty reached
  rw [returned] at submitting
  exact submitting.elim

/-- Once the count is off the multiples of the batch size, the main thread can go through all
the batches that are left. -/
theorem reach_join (nonempty : 0 < cfg.iterations) (narrow : cfg.maxAios < 2 ^ 31)
    {s : State} (control : s.main = .lock 0) (free : s.mutex = none)
    (odd : s.totalIosCompleted % cfg.maxAios ≠ 0) :
    ∃ inFlight submitted passed, Leads cfg s { s with
      main := .join, inFlight := inFlight, submitted := submitted, batches := passed } := by
  have positive := cfg.maxAios_pos
  have limit : 0 < loopLimit cfg := by
    unfold loopLimit
    omega
  have enough : loopLimit cfg ≤ (1 + loopLimit cfg) * cfg.maxAios :=
    calc
      loopLimit cfg ≤ 1 + loopLimit cfg := Nat.le_add_left _ _
      _ ≤ (1 + loopLimit cfg) * cfg.maxAios := Nat.le_mul_of_pos_right _ positive
  have second : toInt (0 + cfg.maxAios) = toInt (1 * cfg.maxAios : Nat) := by
    rw [Int.zero_add, Nat.one_mul]
  have barrier := pass_barrier control free odd
  rw [second] at barrier
  have ⟨inFlight, submitted, passed, rest⟩ := @pass_all cfg narrow (loopLimit cfg)
    { s with main := .outer (toInt (1 * cfg.maxAios : Nat)), batches := s.batches + 1 }
    1 rfl free odd (by omega) enough
  exact ⟨inFlight, submitted, passed, barrier.trans rest⟩

/-- Behind the loop, the main thread has submitted the whole batches. -/
theorem joined_submitted (narrow : cfg.maxAios < 2 ^ 31) {s : State}
    (reached : (system cfg).Reachable System.always s) (control : s.main = .join) :
    s.submitted = wholeBatches cfg := by
  have loop := reachable_loopFacts narrow reached
  rw [control] at loop
  have ⟨least, bound, submitted⟩ := loop
  exact submitted.trans (eq_wholeBatches least bound)

/-- The main thread can pass every barrier on one counted write, and `sig_thread` count up to
the iterations, with the rest of the batches in flight. -/
theorem join_with_iterations_counted (nonempty : 0 < cfg.iterations)
    (narrow : cfg.maxAios < 2 ^ 31) (overshoot : cfg.iterations < wholeBatches cfg) :
    ∃ s, (system cfg).Reachable System.always s ∧ s.main = .join ∧ s.sig = .exited ∧
      s.totalIosCompleted = cfg.iterations := by
  have several : 1 < cfg.maxAios := by
    have positive := cfg.maxAios_pos
    by_contra single
    have unit : cfg.maxAios = 1 := by omega
    have limit : loopLimit cfg ≤ cfg.iterations := Nat.min_le_left _ _
    rw [wholeBatches, unit, Nat.add_sub_cancel, Nat.div_one, Nat.mul_one] at overshoot
    omega
  have odd : 1 % cfg.maxAios ≠ 0 := by
    rw [Nat.mod_eq_of_lt several]
    decide
  have submitted := first_batch narrow nonempty
  by_cases one : cfg.iterations = 1
  · -- the first count ends the signal thread
    have ⟨perBatch, left, counted⟩ := @count_to_end cfg (.firstBatch cfg) rfl rfl rfl rfl
      nonempty (show cfg.iterations ≤ 0 + cfg.maxAios by omega)
    have ⟨_, _, _, rest⟩ := @reach_join cfg nonempty narrow
      { State.firstBatch cfg with
        sig := .exited, iosCompletedPerBatch := perBatch, totalIosCompleted := cfg.iterations,
        inFlight := left } rfl rfl (by rw [one]; exact odd)
    exact ⟨_, reachable_of_leads ((submitted.trans counted).trans rest), rfl, rfl, rfl⟩
  · -- the signal thread goes on while the main thread submits the other batches
    have ⟨perBatch, counted⟩ := @count_many cfg 1 (.firstBatch cfg) (cfg.maxAios - 1) rfl rfl rfl
      rfl (show cfg.maxAios = cfg.maxAios - 1 + 1 by omega)
      (show 0 + 1 < cfg.iterations by omega)
    have ⟨inFlight, total, passed, rest⟩ := @reach_join cfg nonempty narrow
      { State.firstBatch cfg with
        iosCompletedPerBatch := perBatch, totalIosCompleted := 0 + 1,
        inFlight := cfg.maxAios - 1 } rfl rfl odd
    have path := (submitted.trans counted).trans rest
    have reached := reachable_of_leads path
    have flying := (reachable_conserved reached).writes
    rw [joined_submitted narrow reached rfl] at flying
    change wholeBatches cfg = inFlight + 0 + 0 + 1 at flying
    have ⟨_, _, finished⟩ := @count_to_end cfg
      { State.firstBatch cfg with
        main := .join, iosCompletedPerBatch := perBatch, totalIosCompleted := 0 + 1,
        inFlight := inFlight, submitted := total, batches := passed } rfl rfl rfl rfl
      (show 0 + 1 < cfg.iterations by omega) (show cfg.iterations ≤ 0 + 1 + inFlight by omega)
    exact ⟨_, reachable_of_leads (path.trans finished), rfl, rfl, rfl⟩

/-- `aio_write_test` can return with writes in flight when its batches overshoot the iterations. -/
theorem not_returnsFinished_of_over (nonempty : 0 < cfg.iterations)
    (narrow : cfg.maxAios < 2 ^ 31) (overshoot : cfg.iterations < wholeBatches cfg) :
    ¬ ReturnsFinished cfg := by
  intro finished
  obtain ⟨s, reached, control, exited, total⟩ :=
    join_with_iterations_counted nonempty narrow overshoot
  have submitted := joined_submitted narrow reached control
  have taken : step cfg s .main = some { s with main := .returned } := by
    simp only [step, mainStep, control, exited, ↓reduceIte]
  obtain ⟨_, _, counted⟩ := finished _ (reached.leads (leads_step .main taken)) rfl
  change s.submitted = s.totalIosCompleted at counted
  omega

/-- `aio_write_test` returns only with its writes finished exactly when the whole batches it
submits do not overshoot the iterations, or the inner loop never ends. -/
theorem returns_finished_iff (cfg : Config) (nonempty : 0 < cfg.iterations) :
    ReturnsFinished cfg ↔ 2 ^ 31 ≤ cfg.maxAios ∨ wholeBatches cfg ≤ cfg.iterations := by
  constructor
  · intro finished
    by_contra neither
    exact not_returnsFinished_of_over nonempty (by omega) (by omega) finished
  · rintro (wide | fits)
    · exact returnsFinished_of_wide nonempty wide
    · by_cases wide : 2 ^ 31 ≤ cfg.maxAios
      · exact returnsFinished_of_wide nonempty wide
      · exact returnsFinished_of_fits nonempty (by omega) fits

/-- Three iterations in batches of two: one write of the first batch is counted, the main
thread submits the second batch and joins, and two more writes are counted. -/
def overshootRun : List Act :=
  earlyRun ++ List.replicate 7 Act.main ++ Act.complete :: List.replicate 8 Act.sig ++
    Act.complete :: List.replicate 10 Act.sig ++ [Act.main]

/-- `aio_write_test` returns with the fourth write in flight. -/
theorem returns_with_write_in_flight :
    ¬ ∀ cfg : Config, 0 < cfg.iterations → ReturnsFinished cfg := by
  intro claimed
  have replay : ((system oddConfig).run .start overshootRun).map
      (fun s => (s.main, s.inFlight)) = some (.returned, 1) := by decide +kernel
  have ⟨s, replayed, shown⟩ := Option.map_eq_some_iff.mp replay
  have ⟨control, flying⟩ : s.main = .returned ∧ s.inFlight = 1 := by simpa using shown
  have reached : (system oddConfig).Reachable System.always s :=
    .of_run rfl overshootRun (fun _ _ _ => trivial) replayed
  have finished := (claimed oddConfig (by decide) s reached control).1
  omega

/-- With two iterations in batches of two, the return finds both writes finished. -/
theorem returns_finished_iff_fits :
    ReturnsFinished ⟨2, 2, by decide, by decide, by decide⟩ :=
  (returns_finished_iff _ (by decide)).mpr (Or.inr (by decide))

/-- Every write submitted is counted, no signal is pending and none is to be sent, and the
main thread waits for a condition signal or for a `sig_thread` that waits for a signal. -/
structure Stuck (s : State) : Prop where
  counted : s.submitted = s.totalIosCompleted
  quiet : s.pending = 0
  blocked : ((∃ i, s.main = .waiting i) ∧ (s.sig = .sigwaitinfo ∨ s.sig = .exited)) ∨
    (s.main = .join ∧ s.sig = .sigwaitinfo)

/-- No reachable state is stuck. -/
def NeverStuck (cfg : Config) : Prop :=
  ∀ s, (system cfg).Reachable System.always s → ¬ Stuck s

/-- Fewer iterations than a batch: `sig_thread` leaves before the batch is counted. -/
theorem neverStuck_of_few (nonempty : 0 < cfg.iterations)
    (few : cfg.iterations < cfg.maxAios) (narrow : cfg.maxAios < 2 ^ 31) : NeverStuck cfg := by
  intro s reached stuck
  have loop := reachable_loopFacts narrow reached
  have facts := reachable_sigFacts nonempty reached
  have total : s.totalIosCompleted ≤ cfg.iterations := by
    cases control : s.sig <;> rw [control] at facts <;> simp only [SigFacts] at facts <;> omega
  have counted := stuck.counted
  rcases stuck.blocked with ⟨⟨i, control⟩, _⟩ | ⟨control, _⟩
  · rw [control] at loop
    have ⟨_, _, submitted⟩ := loop
    omega
  · have submitted := joined_submitted narrow reached control
    rw [control] at loop
    have ⟨least, _, whole⟩ := loop
    have someBatch : 0 < s.batches := by
      apply Nat.pos_of_ne_zero
      intro none
      rw [none, loopLimit] at least
      omega
    have batch : 1 * cfg.maxAios ≤ s.batches * cfg.maxAios := Nat.mul_le_mul_right _ someBatch
    omega

/-- With wide batches the main thread never waits. -/
theorem neverStuck_of_wide (nonempty : 0 < cfg.iterations)
    (wide : 2 ^ 31 ≤ cfg.maxAios) : NeverStuck cfg := by
  intro s reached stuck
  have submitting := reachable_submitting wide nonempty reached
  rcases stuck.blocked with ⟨⟨i, control⟩, _⟩ | ⟨control, _⟩
  · rw [control] at submitting
    exact submitting.elim
  · rw [control] at submitting
    exact submitting.elim

/-- No iterations: `sig_thread` waits for a signal and the main thread for `sig_thread`. -/
theorem not_neverStuck_of_none (none : cfg.iterations = 0) : ¬ NeverStuck cfg := by
  intro never
  have joined : Leads cfg .start { State.start with main := .join } := by
    apply leads_step .main
    simp only [step, mainStep, State.start, none, Nat.not_lt_zero, ↓reduceIte]
  exact never _ (reachable_of_leads joined) ⟨rfl, rfl, Or.inr ⟨rfl, rfl⟩⟩

/-- A whole batch counted before the main thread tests the count makes it wait for good. -/
theorem not_neverStuck_of_batch (narrow : cfg.maxAios < 2 ^ 31)
    (batch : cfg.maxAios ≤ cfg.iterations) : ¬ NeverStuck cfg := by
  intro never
  have positive := cfg.maxAios_pos
  have submitted := first_batch narrow (show 0 < cfg.iterations by omega)
  by_cases last : cfg.maxAios = cfg.iterations
  · have ⟨perBatch, left, counted⟩ := @count_to_end cfg (.firstBatch cfg) rfl rfl rfl rfl
      (show 0 < cfg.iterations by omega) (show cfg.iterations ≤ 0 + cfg.maxAios by omega)
    have even : cfg.iterations % cfg.maxAios = 0 := by rw [← last, Nat.mod_self]
    have waits := (submitted.trans counted).trans (enter_wait rfl rfl even)
    exact never _ (reachable_of_leads waits) ⟨last, rfl, Or.inl ⟨⟨0, rfl⟩, Or.inr rfl⟩⟩
  · have ⟨perBatch, counted⟩ := @count_many cfg cfg.maxAios (.firstBatch cfg) 0 rfl rfl rfl rfl
      (Nat.zero_add _).symm (show 0 + cfg.maxAios < cfg.iterations by omega)
    have even : (0 + cfg.maxAios) % cfg.maxAios = 0 := by rw [Nat.zero_add, Nat.mod_self]
    have waits := (submitted.trans counted).trans (enter_wait rfl rfl even)
    exact never _ (reachable_of_leads waits)
      ⟨(Nat.zero_add _).symm, rfl, Or.inl ⟨⟨0, rfl⟩, Or.inl rfl⟩⟩

/-- `aio_write_test` has no stuck state exactly when there is something to write and a batch
is never fully counted, because the iterations are fewer or the inner loop never ends. -/
theorem never_stuck_iff (cfg : Config) :
    NeverStuck cfg ↔
      0 < cfg.iterations ∧ (cfg.iterations < cfg.maxAios ∨ 2 ^ 31 ≤ cfg.maxAios) := by
  constructor
  · intro never
    have nonempty : 0 < cfg.iterations := by
      apply Nat.pos_of_ne_zero
      intro none
      exact not_neverStuck_of_none none never
    refine ⟨nonempty, ?_⟩
    by_contra neither
    exact not_neverStuck_of_batch (by omega) (by omega) never
  · rintro ⟨nonempty, few | wide⟩
    · by_cases wide : 2 ^ 31 ≤ cfg.maxAios
      · exact neverStuck_of_wide nonempty wide
      · exact neverStuck_of_few nonempty few (by omega)
    · exact neverStuck_of_wide nonempty wide

/-- Both writes of the first batch are counted before the main thread tests the count. -/
def countedFirstRun : List Act :=
  [Act.main, .main, .main, .main, .complete] ++ List.replicate 7 Act.sig ++
    Act.complete :: List.replicate 8 Act.sig ++ [Act.main, .main]

/-- Once both writes of the only batch are counted, the main thread waits with nothing left to wake
it. -/
theorem main_waits_for_good : ¬ ∀ cfg : Config, NeverStuck cfg := by
  intro claimed
  have replay : ((system oddConfig).run .start countedFirstRun).map (fun s =>
      (s.main, s.sig, s.pending, s.submitted, s.totalIosCompleted)) =
      some (.waiting 0, .sigwaitinfo, 0, 2, 2) := by decide +kernel
  have ⟨s, replayed, shown⟩ := Option.map_eq_some_iff.mp replay
  have ⟨control, sig, quiet, submitted, total⟩ : s.main = .waiting 0 ∧ s.sig = .sigwaitinfo ∧
      s.pending = 0 ∧ s.submitted = 2 ∧ s.totalIosCompleted = 2 := by simpa using shown
  have reached : (system oddConfig).Reachable System.always s :=
    .of_run rfl countedFirstRun (fun _ _ _ => trivial) replayed
  exact claimed oddConfig s reached
    ⟨submitted.trans total.symm, quiet, Or.inl ⟨⟨0, control⟩, Or.inl sig⟩⟩

end PerfVerif.Aio
