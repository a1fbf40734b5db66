import PerfVerif.Aio.Schedules
import Mathlib.Tactic.ByContra

/-!
# The barrier behind the batches of `aio_write_test`

The main thread waits while the count is a multiple of the batch size and goes on while it is
not, so the barrier opens as soon as one completion of a batch is counted. It keeps the
batches apart only where there is one batch at most.
-/

namespace PerfVerif.Aio

open Transition

variable {cfg : Config}

/-- The main thread starts its first batch when there is something to write. -/
theorem start_batch (nonempty : 0 < cfg.iterations) :
    Leads cfg .start { State.start with main := .inner 0 0 } := by
  apply leads_step .main
  have more : toUnsignedLong 0 < cfg.iterations := nonempty
  simp only [step, mainStep, State.start, if_pos more]

/-- The first batch in flight, with nothing counted and the main thread before the barrier. -/
def State.firstBatch (cfg : Config) : State :=
  { State.start with main := .lock 0, inFlight := cfg.maxAios, submitted := cfg.maxAios }

/-- The main thread submits the first batch. -/
theorem first_batch (narrow : cfg.maxAios < 2 ^ 31) (nonempty : 0 < cfg.iterations) :
    Leads cfg .start (.firstBatch cfg) := by
  have submitted := (start_batch nonempty).trans (submit_batch narrow rfl)
  simp only [State.start, Nat.zero_add] at submitted
  exact submitted

/-- What a run from the start leads to is reachable. -/
theorem reachable_of_leads {s : State} (path : Leads cfg .start s) :
    (system cfg).Reachable System.always s :=
  ⟨.start, rfl, path⟩

/-- The first write of a batch is submitted only when every batch before it is counted, and
no more writes than a batch are ever outstanding. -/
def BatchBarrier (cfg : Config) : Prop :=
  ∀ s, (system cfg).Reachable System.always s →
    (∀ i, s.main = .inner i 0 → s.batches * cfg.maxAios ≤ s.totalIosCompleted) ∧
      s.submitted ≤ s.totalIosCompleted + cfg.maxAios

/-- With batches of one write the main thread never leaves its first barrier. -/
theorem unit_batches (unit : cfg.maxAios = 1) {s : State}
    (reached : (system cfg).Reachable System.always s) :
    s.batches = 0 ∧ ∀ i, s.main ≠ .unlock i := by
  apply reachable_main (fun batches _ main => batches = 0 ∧ ∀ i, main ≠ .unlock i) _ _ _ reached
  · exact ⟨rfl, by simp⟩
  · intro before after facts taken
    have ⟨odd, counted⟩ := mainStep_unlock taken
    rw [unit, Nat.mod_one] at odd
    refine ⟨?_, fun i control => odd i control rfl⟩
    rcases counted with same | ⟨i, control⟩
    · exact same.trans facts.1
    · exact absurd control (facts.2 i)
  · intro _ _ main facts
    refine ⟨facts.1, ?_⟩
    cases main with
    | waiting i => simp [Main.wake]
    | _ => exact facts.2

/-- The barrier holds for narrow batches of one write and for a single batch. -/
theorem batchBarrier_of_single (narrow : cfg.maxAios < 2 ^ 31)
    (single : cfg.maxAios = 1 ∨ cfg.iterations ≤ cfg.maxAios) : BatchBarrier cfg := by
  intro s reached
  have loop := reachable_loopFacts narrow reached
  have limit : loopLimit cfg ≤ cfg.iterations := Nat.min_le_left _ _
  -- the loop starts no second batch
  have first : s.batches * cfg.maxAios < loopLimit cfg → s.batches = 0 := by
    intro left
    rcases single with unit | one
    · exact (unit_batches unit reached).1
    · by_contra later
      have whole : 1 * cfg.maxAios ≤ s.batches * cfg.maxAios :=
        Nat.mul_le_mul_right _ (Nat.pos_of_ne_zero later)
      omega
  have behind : s.batches * cfg.maxAios < loopLimit cfg + cfg.maxAios →
      s.batches * cfg.maxAios ≤ cfg.maxAios := by
    intro left
    rcases single with unit | one
    · rw [(unit_batches unit reached).1]
      omega
    · have most : s.batches < 2 := by
        apply Nat.lt_of_mul_lt_mul_right (a := cfg.maxAios)
        omega
      calc
        s.batches * cfg.maxAios ≤ 1 * cfg.maxAios := Nat.mul_le_mul_right _ (by omega)
        _ = cfg.maxAios := Nat.one_mul _
  cases control : s.main with
  | outer i | join | returned =>
    rw [control] at loop
    have ⟨_, bound, submitted⟩ := loop
    refine ⟨by simp, ?_⟩
    rw [submitted]
    exact Nat.le_add_left_of_le (behind bound)
  | inner i j =>
    rw [control] at loop
    have ⟨_, left, least, most, submitted⟩ := loop
    rw [first left] at submitted ⊢
    exact ⟨fun _ _ => by omega, by omega⟩
  | lock i | test i | waiting i | reacquire i | unlock i =>
    rw [control] at loop
    have ⟨_, left, submitted⟩ := loop
    rw [first left] at submitted
    exact ⟨by simp, by omega⟩

/-- With wide batches more writes than a batch are submitted before any is counted. -/
theorem not_batchBarrier_of_wide (nonempty : 0 < cfg.iterations)
    (wide : 2 ^ 31 ≤ cfg.maxAios) : ¬ BatchBarrier cfg := by
  intro barrier
  have ⟨last, _, path⟩ := @submits_wide cfg wide { State.start with main := .inner 0 0 } 0 0 rfl
    (by decide) (cfg.maxAios + 1)
  have outstanding := (barrier _ (reachable_of_leads
    ((start_batch nonempty).trans path))).2
  simp only [State.start] at outstanding
  omega

/-- With more iterations than a batch, the second batch starts when one write is counted. -/
theorem not_batchBarrier_of_more (narrow : cfg.maxAios < 2 ^ 31) (several : 1 < cfg.maxAios)
    (more : cfg.maxAios < cfg.iterations) : ¬ BatchBarrier cfg := by
  intro barrier
  have submitted := first_batch narrow (show 0 < cfg.iterations by omega)
  have ⟨perBatch, counted⟩ := @count_many cfg 1 (.firstBatch cfg) (cfg.maxAios - 1) rfl rfl rfl
    rfl (show cfg.maxAios = cfg.maxAios - 1 + 1 by omega) (show 0 + 1 < cfg.iterations by omega)
  have odd : 1 % cfg.maxAios ≠ 0 := by
    rw [Nat.mod_eq_of_lt several]
    decide
  have left : 1 * cfg.maxAios < loopLimit cfg := by
    unfold loopLimit
    omega
  have passed := (submitted.trans counted).trans (pass_barrier rfl rfl odd)
  have second : toInt (0 + cfg.maxAios) = toInt (1 * cfg.maxAios : Nat) := by
    rw [Int.zero_add, Nat.one_mul]
  rw [second] at passed
  have early := (barrier _ (reachable_of_leads (passed.trans (enter_batch rfl left)))).1 _ rfl
  simp only [State.firstBatch, State.start] at early
  omega

/-- The barrier keeps the batches apart exactly when the inner loop ends and there is only
one batch, or batches of one write, which never get past the first barrier. -/
theorem batch_barrier_iff (cfg : Config) (nonempty : 0 < cfg.iterations) :
    BatchBarrier cfg ↔
      cfg.maxAios < 2 ^ 31 ∧ (cfg.maxAios = 1 ∨ cfg.iterations ≤ cfg.maxAios) := by
  constructor
  · intro barrier
    have narrow : cfg.maxAios < 2 ^ 31 := by
      by_contra wide
      exact not_batchBarrier_of_wide nonempty (Nat.not_lt.mp wide) barrier
    refine ⟨narrow, ?_⟩
    by_contra neither
    have positive := cfg.maxAios_pos
    exact not_batchBarrier_of_more narrow (by omega) (by omega) barrier
  · rintro ⟨narrow, single⟩
    exact batchBarrier_of_single narrow single

/-- Three iterations in batches of two. -/
def oddConfig : Config := ⟨3, 2, by decide, by decide, by decide⟩

/-- The first batch is submitted, one write of it is counted, the main thread passes the
barrier. -/
def earlyRun : List Act :=
  [Act.main, .main, .main, .main, .complete] ++ List.replicate 7 Act.sig ++
    List.replicate 4 Act.main

/-- The second batch starts with one completion of the first counted. -/
theorem second_batch_starts_early :
    ¬ ∀ cfg : Config, 0 < cfg.iterations → BatchBarrier cfg := by
  intro claimed
  have replay : ((system oddConfig).run .start earlyRun).map
      (fun s => (s.main, s.batches, s.totalIosCompleted)) = some (.inner 2 0, 1, 1) := by
    decide +kernel
  have ⟨s, replayed, shown⟩ := Option.map_eq_some_iff.mp replay
  have ⟨control, batches, total⟩ : s.main = .inner 2 0 ∧ s.batches = 1 ∧
      s.totalIosCompleted = 1 := by simpa using shown
  have reached : (system oddConfig).Reachable System.always s :=
    .of_run rfl earlyRun (fun _ _ _ => trivial) replayed
  have counted := (claimed oddConfig (by decide) s reached).1 2 control
  rw [batches, total] at counted
  exact absurd counted (by decide)

/-- With two iterations in batches of two, the barrier holds. -/
theorem batch_barrier_iff_single :
    BatchBarrier ⟨2, 2, by decide, by decide, by decide⟩ :=
  (batch_barrier_iff _ (by decide)).mpr ⟨by decide, Or.inr (by decide)⟩

end PerfVerif.Aio
