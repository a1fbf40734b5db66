import PerfVerif.Aio.Invariant

/-!
# Schedules of `aio_write_test`

Runs that exist for every batch size and every number of iterations: the submission of a
batch, the way through the barrier, the count of one completion and of many, and the end of
`sig_thread`. Each says where the run leads from any state at the right control points.
-/

namespace PerfVerif.Aio

open Transition

/-- The runs of a call, with no condition on the steps. -/
abbrev Leads (cfg : Config) : State → State → Prop := (system cfg).Leads System.always

/-- The main thread is not in `pthread_cond_wait`, so a condition signal is lost on it. -/
def Main.Awake (main : Main) : Prop := main.wake = main

section Main

variable {cfg : Config}

/-- One step is a run. -/
theorem leads_step {s s' : State} (act : Act) (taken : step cfg s act = some s') :
    Leads cfg s s' :=
  System.leads_single act trivial taken

/-- The main thread submits as many writes as the batch has left. -/
theorem submits (narrow : cfg.maxAios < 2 ^ 31) {s : State} {i : Int} {j : Nat}
    (control : s.main = .inner i j) (count : Nat) (bound : j + count ≤ cfg.maxAios) :
    Leads cfg s { s with main := .inner i (j + count : Nat), inFlight := s.inFlight + count,
                         submitted := s.submitted + count } := by
  induction count with
  | zero =>
    have same : s = { s with main := .inner i (j + 0 : Nat) } := by
      rw [Nat.add_zero, ← control]
    exact same ▸ .refl
  | succ count ih =>
    apply (ih (by omega)).trans
    apply leads_step .main
    have next : toInt ((j + count : Nat) + 1) = (j + (count + 1) : Nat) :=
      toInt_succ (by omega)
    simp only [step, mainStep, if_pos (show ((j + count : Nat) : Int) < cfg.maxAios by omega),
      next, Nat.add_assoc]

/-- The main thread submits a whole batch. -/
theorem submit_batch (narrow : cfg.maxAios < 2 ^ 31) {s : State} {i : Int}
    (control : s.main = .inner i 0) :
    Leads cfg s { s with main := .lock i, inFlight := s.inFlight + cfg.maxAios,
                         submitted := s.submitted + cfg.maxAios } := by
  apply (submits narrow control cfg.maxAios (Nat.le_of_eq (Nat.zero_add _))).trans
  apply leads_step .main
  simp only [step, mainStep, Nat.zero_add, Int.lt_irrefl, ↓reduceIte]

/-- With a batch size beyond the range of an `int`, the main thread submits any number of
writes without a stop. -/
theorem submits_wide (wide : 2 ^ 31 ≤ cfg.maxAios) {s : State} {i j : Int}
    (control : s.main = .inner i j) (range : j < 2 ^ 31) (count : Nat) :
    ∃ last < 2 ^ 31, Leads cfg s { s with main := .inner i last, inFlight := s.inFlight + count,
                                          submitted := s.submitted + count } := by
  induction count with
  | zero =>
    have same : s = { s with main := .inner i j } := by rw [← control]
    exact ⟨j, range, same ▸ .refl⟩
  | succ count ih =>
    have ⟨last, bound, prior⟩ := ih
    refine ⟨toInt (last + 1), (toInt_range _).2, prior.trans ?_⟩
    apply leads_step .main
    simp only [step, mainStep, if_pos (show last < cfg.maxAios by omega), Nat.add_assoc]

/-- A count that is no multiple of the batch size lets the main thread through the barrier. -/
theorem pass_barrier {s : State} {i : Int} (control : s.main = .lock i) (free : s.mutex = none)
    (odd : s.totalIosCompleted % cfg.maxAios ≠ 0) :
    Leads cfg s { s with main := .outer (toInt (i + cfg.maxAios)), batches := s.batches + 1 } := by
  apply System.leads_of_run [.main, .main, .main] (fun _ _ _ => trivial)
  simp [System.run, system, step, mainStep, control, free, odd]

/-- A count that is a multiple of the batch size sends the main thread into `pthread_cond_wait`. -/
theorem enter_wait {s : State} {i : Int} (control : s.main = .lock i) (free : s.mutex = none)
    (even : s.totalIosCompleted % cfg.maxAios = 0) :
    Leads cfg s { s with main := .waiting i } := by
  apply System.leads_of_run [.main, .main] (fun _ _ _ => trivial)
  simp [System.run, system, step, mainStep, control, free, even]

/-- With iterations left, the outer test leads into the next batch. -/
theorem enter_batch {s : State} {batches : Nat}
    (control : s.main = .outer (toInt (batches * cfg.maxAios : Nat)))
    (left : batches * cfg.maxAios < loopLimit cfg) :
    Leads cfg s { s with main := .inner (toInt (batches * cfg.maxAios : Nat)) 0 } := by
  have limit : loopLimit cfg ≤ 2 ^ 31 := Nat.min_le_right _ _
  have tested := outer_test_iff cfg (show batches * cfg.maxAios < 2 ^ 32 by omega)
  apply leads_step .main
  simp only [step, mainStep, control, if_pos (tested.mpr left)]

/-- A round of the outer loop, while the count is off the multiples of the batch size. -/
theorem pass_batch (narrow : cfg.maxAios < 2 ^ 31) {s : State} {batches : Nat}
    (control : s.main = .outer (toInt (batches * cfg.maxAios : Nat))) (free : s.mutex = none)
    (odd : s.totalIosCompleted % cfg.maxAios ≠ 0)
    (left : batches * cfg.maxAios < loopLimit cfg) :
    Leads cfg s { s with
      main := .outer (toInt ((batches + 1) * cfg.maxAios : Nat)),
      inFlight := s.inFlight + cfg.maxAios, submitted := s.submitted + cfg.maxAios,
      batches := s.batches + 1 } := by
  apply (enter_batch control left).trans
  apply (submit_batch narrow rfl).trans
  have next : toInt ((batches + 1) * cfg.maxAios : Nat) =
      toInt (toInt (batches * cfg.maxAios : Nat) + cfg.maxAios) := by
    rw [toInt_add_left, Nat.succ_mul, Int.natCast_add]
  rw [next]
  exact pass_barrier rfl free odd

/-- While the count stays off the multiples of the batch size, the main thread passes every
barrier and reaches `pthread_join`. -/
theorem pass_all (narrow : cfg.maxAios < 2 ^ 31) (rounds : Nat) {s : State} {batches : Nat}
    (control : s.main = .outer (toInt (batches * cfg.maxAios : Nat))) (free : s.mutex = none)
    (odd : s.totalIosCompleted % cfg.maxAios ≠ 0)
    (bound : batches * cfg.maxAios < loopLimit cfg + cfg.maxAios)
    (enough : loopLimit cfg ≤ (batches + rounds) * cfg.maxAios) :
    ∃ inFlight submitted passed, Leads cfg s { s with
      main := .join, inFlight := inFlight, submitted := submitted, batches := passed } := by
  have limit : loopLimit cfg ≤ 2 ^ 31 := Nat.min_le_right _ _
  induction rounds generalizing s batches with
  | zero =>
    refine ⟨s.inFlight, s.submitted, s.batches, leads_step .main ?_⟩
    have tested := outer_test_iff cfg (show batches * cfg.maxAios < 2 ^ 32 by omega)
    simp only [step, mainStep, control, if_neg (mt tested.mp (Nat.not_lt.mpr enough))]
  | succ rounds ih =>
    by_cases left : batches * cfg.maxAios < loopLimit cfg
    · have grown : (batches + 1) * cfg.maxAios = batches * cfg.maxAios + cfg.maxAios :=
        Nat.succ_mul _ _
      have round := pass_batch narrow control free odd left
      obtain ⟨inFlight, submitted, passed, rest⟩ := @ih
        { s with
          main := .outer (toInt ((batches + 1) * cfg.maxAios : Nat)),
          inFlight := s.inFlight + cfg.maxAios, submitted := s.submitted + cfg.maxAios,
          batches := s.batches + 1 }
        (batches + 1) rfl free odd (by omega) (by rw [Nat.add_right_comm]; exact enough)
      exact ⟨inFlight, submitted, passed, round.trans rest⟩
    · refine ⟨s.inFlight, s.submitted, s.batches, leads_step .main ?_⟩
      have tested := outer_test_iff cfg (show batches * cfg.maxAios < 2 ^ 32 by omega)
      simp only [step, mainStep, control, if_neg (mt tested.mp left)]

end Main

section Count

variable {cfg : Config}

/-- One write completes and `sig_thread` counts it, up to its test for a full batch. -/
theorem count_total {s : State} {left : Nat} (waiting : s.sig = .sigwaitinfo)
    (free : s.mutex = none) (quiet : s.pending = 0) (flying : s.inFlight = left + 1) :
    Leads cfg s { s with
      sig := .batch, iosCompletedPerBatch := s.iosCompletedPerBatch + 1,
      totalIosCompleted := s.totalIosCompleted + 1, inFlight := left } := by
  apply System.leads_of_run [.complete, .sig, .sig, .sig, .sig, .sig] (fun _ _ _ => trivial)
  simp [System.run, system, step, sigStep, waiting, free, quiet, flying]

/-- From the test for a full batch to the exit test, while the main thread is elsewhere. -/
theorem leave_batch {s : State} (control : s.sig = .batch) (awake : s.main.Awake) :
    ∃ perBatch, Leads cfg s { s with sig := .exitTest, iosCompletedPerBatch := perBatch } := by
  unfold Main.Awake at awake
  by_cases full : s.iosCompletedPerBatch ≥ cfg.maxAios
  · refine ⟨0, ?_⟩
    apply System.leads_of_run [.sig, .sig] (fun _ _ _ => trivial)
    simp [System.run, system, step, sigStep, control, awake, full]
  · refine ⟨s.iosCompletedPerBatch, ?_⟩
    apply leads_step .sig
    simp [step, sigStep, control, full]

/-- The exit test leads to the final lock when the iterations are counted, else back to
`sigwaitinfo`. -/
theorem leave_exitTest {s : State} (control : s.sig = .exitTest) :
    Leads cfg s { s with
      sig := if s.totalIosCompleted ≥ cfg.iterations then .finalLock else .sigwaitinfo } := by
  apply leads_step .sig
  by_cases last : s.totalIosCompleted ≥ cfg.iterations
  · simp only [step, sigStep, control, if_pos last]
  · simp only [step, sigStep, control, if_neg last]

/-- One write completes and `sig_thread` counts it, while the main thread is elsewhere. -/
theorem count_one {s : State} {left : Nat} (waiting : s.sig = .sigwaitinfo)
    (free : s.mutex = none) (quiet : s.pending = 0) (awake : s.main.Awake)
    (flying : s.inFlight = left + 1) :
    ∃ perBatch, Leads cfg s { s with
      sig := if s.totalIosCompleted + 1 ≥ cfg.iterations then .finalLock else .sigwaitinfo,
      iosCompletedPerBatch := perBatch, totalIosCompleted := s.totalIosCompleted + 1,
      inFlight := left } := by
  have counted := @count_total cfg s left waiting free quiet flying
  have ⟨perBatch, passed⟩ := @leave_batch cfg
    { s with
      sig := .batch, iosCompletedPerBatch := s.iosCompletedPerBatch + 1,
      totalIosCompleted := s.totalIosCompleted + 1, inFlight := left } rfl awake
  exact ⟨perBatch, (counted.trans passed).trans (leave_exitTest rfl)⟩

/-- As many writes complete and are counted as are missing before the iterations. -/
theorem count_many (count : Nat) {s : State} {left : Nat} (waiting : s.sig = .sigwaitinfo)
    (free : s.mutex = none) (quiet : s.pending = 0) (awake : s.main.Awake)
    (flying : s.inFlight = left + count) (short : s.totalIosCompleted + count < cfg.iterations) :
    ∃ perBatch, Leads cfg s { s with
      iosCompletedPerBatch := perBatch, totalIosCompleted := s.totalIosCompleted + count,
      inFlight := left } := by
  induction count generalizing left with
  | zero =>
    refine ⟨s.iosCompletedPerBatch, ?_⟩
    have same : s = { s with inFlight := left } := by rw [← Nat.add_zero left, ← flying]
    exact same ▸ .refl
  | succ count ih =>
    have ⟨perBatch, prior⟩ := @ih (left + 1) (by omega) (by omega)
    have ⟨last, counted⟩ := @count_one cfg
      { s with
        iosCompletedPerBatch := perBatch, totalIosCompleted := s.totalIosCompleted + count,
        inFlight := left + 1 } left waiting free quiet awake rfl
    rw [if_neg (show ¬ s.totalIosCompleted + count + 1 ≥ cfg.iterations by omega),
      ← waiting] at counted
    exact ⟨last, prior.trans counted⟩

/-- When enough writes are in flight, `sig_thread` counts up to the iterations and leaves its
loop. -/
theorem count_to_end {s : State} (waiting : s.sig = .sigwaitinfo) (free : s.mutex = none)
    (quiet : s.pending = 0) (awake : s.main.Awake) (short : s.totalIosCompleted < cfg.iterations)
    (flying : cfg.iterations ≤ s.totalIosCompleted + s.inFlight) :
    ∃ perBatch left, Leads cfg s { s with
      sig := .exited, iosCompletedPerBatch := perBatch, totalIosCompleted := cfg.iterations,
      inFlight := left } := by
  let missing := cfg.iterations - s.totalIosCompleted - 1
  let left := s.inFlight - missing - 1
  have ⟨perBatch, prior⟩ := @count_many cfg missing s (left + 1) waiting free quiet awake
    (by omega) (by omega)
  have ⟨last, counted⟩ := @count_one cfg
    { s with
      iosCompletedPerBatch := perBatch, totalIosCompleted := s.totalIosCompleted + missing,
      inFlight := left + 1 } left waiting free quiet awake rfl
  rw [if_pos (show s.totalIosCompleted + missing + 1 ≥ cfg.iterations by omega),
    show s.totalIosCompleted + missing + 1 = cfg.iterations by omega] at counted
  refine ⟨last, left, (prior.trans counted).trans ?_⟩
  apply System.leads_of_run [.sig, .sig, .sig] (fun _ _ _ => trivial)
  unfold Main.Awake at awake
  simp [System.run, system, step, sigStep, free, awake]

end Count

end PerfVerif.Aio
