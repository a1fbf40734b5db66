import PerfVerif.Aio.Completion

/-!
# The writes that `aio_write_test` submits

The outer loop advances by the batch size and the inner loop submits a whole batch, so the number
of writes is rounded up to a multiple of the batch size. And since the barrier holds the main
thread behind a batch that is fully counted when it tests the count, a run may never get to the
second batch. Only a single batch of exactly the iterations is always submitted as asked.
-/

namespace PerfVerif.Aio

open Transition

section Batches

variable {cfg : Config}

/-- With iterations that an `int` counts, the limit of the loop is the iterations. -/
theorem loopLimit_of_short (short : cfg.iterations < 2 ^ 31) : loopLimit cfg = cfg.iterations :=
  Nat.min_eq_left (Nat.le_of_lt short)

/-- A batch that starts before the limit ends within the whole batches. -/
theorem next_batch_le {batches : Nat} (started : batches * cfg.maxAios < loopLimit cfg) :
    batches * cfg.maxAios + cfg.maxAios ≤ wholeBatches cfg := by
  have positive := cfg.maxAios_pos
  have rounds : batches + 1 ≤ (loopLimit cfg + cfg.maxAios - 1) / cfg.maxAios := by
    apply (Nat.le_div_iff_mul_le positive).mpr
    rw [Nat.succ_mul]
    omega
  calc
    batches * cfg.maxAios + cfg.maxAios = (batches + 1) * cfg.maxAios := (Nat.succ_mul _ _).symm
    _ ≤ wholeBatches cfg := Nat.mul_le_mul_right _ rounds

/-- The batches behind an outer test are within the whole batches. -/
theorem batches_le {batches : Nat}
    (bound : batches * cfg.maxAios < loopLimit cfg + cfg.maxAios) :
    batches * cfg.maxAios ≤ wholeBatches cfg := by
  cases batches with
  | zero =>
    rw [Nat.zero_mul]
    exact Nat.zero_le _
  | succ batches =>
    rw [Nat.succ_mul] at bound ⊢
    exact next_batch_le (Nat.lt_of_add_lt_add_right bound)

/-- Iterations that the batch size divides are the whole batches. -/
theorem wholeBatches_of_dvd (short : cfg.iterations < 2 ^ 31)
    (divides : cfg.maxAios ∣ cfg.iterations) : wholeBatches cfg = cfg.iterations := by
  have positive := cfg.maxAios_pos
  have limit := loopLimit_of_short short
  have product := Nat.div_mul_cancel divides
  have whole := @eq_wholeBatches cfg (cfg.iterations / cfg.maxAios) (by omega) (by omega)
  exact whole.symm.trans product

/-- Iterations that the batch size does not divide are fewer than the whole batches. -/
theorem iterations_lt_wholeBatches (short : cfg.iterations < 2 ^ 31)
    (remainder : ¬ cfg.maxAios ∣ cfg.iterations) : cfg.iterations < wholeBatches cfg := by
  have limit := loopLimit_of_short short
  have quotient := Nat.div_mul_le_self cfg.iterations cfg.maxAios
  have odd : cfg.iterations / cfg.maxAios * cfg.maxAios ≠ cfg.iterations :=
    fun whole => remainder ⟨_, whole.symm.trans (Nat.mul_comm _ _)⟩
  have next := @next_batch_le cfg (cfg.iterations / cfg.maxAios) (by omega)
  have last := @Nat.lt_div_mul_add cfg.iterations cfg.maxAios cfg.maxAios_pos
  omega

end Batches

section Runs

variable {cfg : Config}

/-- No run with narrow batches submits more than the whole batches. -/
theorem submitted_le_wholeBatches (narrow : cfg.maxAios < 2 ^ 31) {s : State}
    (reached : (system cfg).Reachable System.always s) : s.submitted ≤ wholeBatches cfg := by
  have loop := reachable_loopFacts narrow reached
  cases control : s.main with
  | outer i =>
    rw [control] at loop
    have ⟨_, bound, submitted⟩ := loop
    rw [submitted]
    exact batches_le bound
  | inner i j =>
    rw [control] at loop
    have ⟨_, started, least, most, submitted⟩ := loop
    have batch := next_batch_le started
    omega
  | lock i | test i | waiting i | reacquire i | unlock i =>
    rw [control] at loop
    have ⟨_, started, submitted⟩ := loop
    rw [submitted]
    exact next_batch_le started
  | join | returned =>
    rw [control] at loop
    have ⟨_, bound, submitted⟩ := loop
    rw [submitted]
    exact batches_le bound

/-- Without iterations nothing is submitted. -/
theorem submitted_of_none (none : cfg.iterations = 0) {s : State}
    (reached : (system cfg).Reachable System.always s) : s.submitted = 0 := by
  have idle : s.submitted = 0 ∧ (s.main = .outer 0 ∨ s.main = .join ∨ s.main = .returned) := by
    apply reachable_main (fun _ submitted main =>
      submitted = 0 ∧ (main = .outer 0 ∨ main = .join ∨ main = .returned)) _ _ _ reached
    · exact ⟨rfl, Or.inl rfl⟩
    · rintro before after ⟨submitted, outer | join | returned⟩ taken
      · simp only [mainStep, outer, none, Nat.not_lt_zero, ↓reduceIte, Option.some.injEq] at taken
        subst taken
        exact ⟨submitted, Or.inr (Or.inl rfl)⟩
      · simp only [mainStep, join] at taken
        split at taken
        · cases taken
          exact ⟨submitted, Or.inr (Or.inr rfl)⟩
        · contradiction
      · simp [mainStep, returned] at taken
    · rintro _ _ main ⟨submitted, control⟩
      refine ⟨submitted, ?_⟩
      rcases control with rfl | rfl | rfl <;> simp [Main.wake]
  exact idle.1

/-- A batch of exactly the iterations is submitted in every run that goes on. -/
theorem single_batch (nonempty : 0 < cfg.iterations) (short : cfg.iterations < 2 ^ 31)
    (single : cfg.maxAios = cfg.iterations) {s : State}
    (reached : (system cfg).Reachable System.always s) :
    ∃ s', Leads cfg s s' ∧ s'.submitted = cfg.iterations := by
  have narrow : cfg.maxAios < 2 ^ 31 := by omega
  have limit := loopLimit_of_short short
  have whole := wholeBatches_of_dvd short ⟨1, by omega⟩
  have loop := reachable_loopFacts narrow reached
  -- a batch that has started is the first one
  have first : ∀ {batches}, batches * cfg.maxAios < loopLimit cfg →
      batches * cfg.maxAios + cfg.maxAios = cfg.iterations := by
    intro batches started
    have batch := next_batch_le started
    omega
  cases control : s.main with
  | outer i =>
    rw [control] at loop
    have ⟨counter, bound, submitted⟩ := loop
    rw [counter] at control
    by_cases started : s.batches * cfg.maxAios < loopLimit cfg
    · have path := (enter_batch control started).trans (submit_batch narrow rfl)
      refine ⟨_, path, ?_⟩
      change s.submitted + cfg.maxAios = cfg.iterations
      rw [submitted]
      exact first started
    · have all := eq_wholeBatches (Nat.le_of_not_lt started) bound
      exact ⟨s, .refl, submitted.trans (all.trans whole)⟩
  | inner i j =>
    rw [control] at loop
    have ⟨_, started, least, most, submitted⟩ := loop
    have counter : s.main = .inner i (j.toNat : Nat) := by
      rw [control, Int.toNat_of_nonneg least]
    have path := submits narrow counter (cfg.maxAios - j.toNat) (by omega)
    refine ⟨_, path, ?_⟩
    change s.submitted + (cfg.maxAios - j.toNat) = cfg.iterations
    have batch := first started
    omega
  | lock i | test i | waiting i | reacquire i | unlock i =>
    rw [control] at loop
    have ⟨_, started, submitted⟩ := loop
    exact ⟨s, .refl, submitted.trans (first started)⟩
  | join | returned =>
    rw [control] at loop
    have ⟨least, bound, submitted⟩ := loop
    exact ⟨s, .refl, submitted.trans ((eq_wholeBatches least bound).trans whole)⟩

/-- The main thread is behind a batch at a barrier that stays closed: all that was submitted is
counted, the count is a multiple of the batch size, and `sig_thread` waits. -/
structure Halted (cfg : Config) (s : State) : Prop where
  barrier : (∃ i, s.main = .lock i) ∨ (∃ i, s.main = .test i) ∨ (∃ i, s.main = .waiting i) ∨
    ∃ i, s.main = .reacquire i
  even : s.totalIosCompleted % cfg.maxAios = 0
  waiting : s.sig = .sigwaitinfo
  landed : s.inFlight = 0
  quiet : s.pending = 0

/-- A closed barrier stays closed, wake-ups or not, and nothing is submitted. -/
theorem Halted.step {s s' : State} {act : Act} (halted : Halted cfg s)
    (taken : step cfg s act = some s') : Halted cfg s' ∧ s'.submitted = s.submitted := by
  have ⟨barrier, even, waiting, landed, quiet⟩ := halted
  rcases step_cases taken with main | sig | ⟨flying, -⟩ | rfl | rfl
  · cases mainStep_move main with
    | lock => exact ⟨⟨Or.inr (Or.inl ⟨_, rfl⟩), even, waiting, landed, quiet⟩, rfl⟩
    | wait => exact ⟨⟨Or.inr (Or.inr (Or.inl ⟨_, rfl⟩)), even, waiting, landed, quiet⟩, rfl⟩
    | leave control odd => exact absurd even odd
    | more control | done control | submit control | full control | unlock control
    | join control => simp [control] at barrier
  · simp [sigStep, waiting, quiet] at sig
  · omega
  · refine ⟨⟨?_, even, waiting, landed, quiet⟩, rfl⟩
    rcases barrier with ⟨i, control⟩ | ⟨i, control⟩ | ⟨i, control⟩ | ⟨i, control⟩ <;>
      simp [control, Main.wake]
  · exact ⟨halted, rfl⟩

/-- A run from a closed barrier submits nothing. -/
theorem Halted.submitted {s s' : State} (halted : Halted cfg s) (path : Leads cfg s s') :
    s'.submitted = s.submitted := by
  have kept := System.leads_invariant
    (fun later => Halted cfg later ∧ later.submitted = s.submitted)
    (fun before act after facts _ taken => by
      have ⟨still, same⟩ := facts.1.step taken
      exact ⟨still, same.trans facts.2⟩) path ⟨halted, rfl⟩
  exact kept.2

/-- With iterations left behind the first batch, the barrier behind it may stay closed. -/
theorem reach_halted (narrow : cfg.maxAios < 2 ^ 31) (several : cfg.maxAios < cfg.iterations) :
    ∃ s, (system cfg).Reachable System.always s ∧ Halted cfg s ∧ s.submitted = cfg.maxAios := by
  have submitted := first_batch narrow (show 0 < cfg.iterations by omega)
  have ⟨perBatch, counted⟩ := @count_many cfg cfg.maxAios (.firstBatch cfg) 0 rfl rfl rfl rfl
    (Nat.zero_add _).symm (show 0 + cfg.maxAios < cfg.iterations by omega)
  have even : (0 + cfg.maxAios) % cfg.maxAios = 0 := by rw [Nat.zero_add, Nat.mod_self]
  exact ⟨_, reachable_of_leads (submitted.trans counted),
    ⟨Or.inl ⟨0, rfl⟩, even, rfl, rfl, rfl⟩, rfl⟩

/-- A batch size other than the iterations lets some run submit more of them, or none of the
iterations that are left. -/
theorem not_countsTo (nonempty : 0 < cfg.iterations) (short : cfg.iterations < 2 ^ 31)
    (other : cfg.maxAios ≠ cfg.iterations) :
    ¬ (system cfg).CountsTo System.always State.submitted cfg.iterations := by
  intro counts
  by_cases wide : 2 ^ 31 ≤ cfg.maxAios
  · -- the inner loop goes on past the iterations
    have ⟨last, _, path⟩ := @submits_wide cfg wide
      { State.start with main := .inner 0 0 } 0 0 rfl (by decide) (cfg.iterations + 1)
    have ⟨most, _⟩ := counts _ (reachable_of_leads ((start_batch nonempty).trans path))
    change 0 + (cfg.iterations + 1) ≤ cfg.iterations at most
    omega
  · have narrow : cfg.maxAios < 2 ^ 31 := by omega
    by_cases divides : cfg.maxAios ∣ cfg.iterations
    · -- the barrier behind the first of several batches may stay closed
      have several : cfg.maxAios < cfg.iterations :=
        Nat.lt_of_le_of_ne (Nat.le_of_dvd nonempty divides) other
      have ⟨s, reached, halted, submitted⟩ := reach_halted narrow several
      have ⟨_, s', path, final⟩ := counts s reached
      have same := halted.submitted path
      omega
    · -- the last batch goes past the iterations
      have overshoot := iterations_lt_wholeBatches short divides
      have ⟨s, reached, control, _⟩ := join_with_iterations_counted nonempty narrow overshoot
      have submitted := joined_submitted narrow reached control
      have ⟨most, _⟩ := counts s reached
      omega

/-- `aio_write_test` submits as many writes as iterations in every run exactly when there is
nothing to write or the iterations are one batch. -/
theorem countsTo_iff (short : cfg.iterations < 2 ^ 31) :
    (system cfg).CountsTo System.always State.submitted cfg.iterations ↔
      cfg.iterations = 0 ∨ cfg.maxAios = cfg.iterations := by
  constructor
  · intro counts
    by_contra neither
    exact not_countsTo (by omega) short (by omega) counts
  · rintro (none | single) s reached
    · have idle := submitted_of_none none reached
      exact ⟨by omega, s, .refl, by omega⟩
    · have nonempty : 0 < cfg.iterations := single ▸ cfg.maxAios_pos
      have most := submitted_le_wholeBatches (by omega) reached
      rw [wholeBatches_of_dvd short ⟨1, by omega⟩] at most
      exact ⟨most, single_batch nonempty short single reached⟩

end Runs

end PerfVerif.Aio
