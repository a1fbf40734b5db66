import PerfVerif.Aio.AioWriteTest

/-!
# Invariants of `aio_write_test`

The writes are conserved between the two threads; `sig_thread` leaves its loop when the count
reaches the iterations and counts no more; and the outer counter shows the batches behind it,
so the loop ends behind the first batch that reaches the iterations or the range of an `int`.
With a batch size beyond that range the inner loop never ends.
-/

namespace PerfVerif.Aio

open Transition

section Words

/-- An `int` stays in its range. -/
theorem toInt_range (value : Int) : -2 ^ 31 ≤ toInt value ∧ toInt value < 2 ^ 31 := by
  simp only [toInt, Int.bmod]
  omega

/-- A value in the range of an `int` is kept. -/
theorem toInt_of_range {value : Int} (least : -2 ^ 31 ≤ value) (most : value < 2 ^ 31) :
    toInt value = value := by
  simp only [toInt, Int.bmod]
  omega

/-- A counter below the range of an `int` is incremented as a natural number. -/
theorem toInt_succ {count : Nat} (below : count + 1 < 2 ^ 31) :
    toInt (count + 1) = (count + 1 : Nat) := by
  rw [toInt_of_range (by omega) (by omega)]
  omega

/-- Converting before an addition makes no difference. -/
theorem toInt_add_left (left right : Int) : toInt (toInt left + right) = toInt (left + right) :=
  Int.bmod_add_bmod

end Words

/-- Where the outer loop stops: at the iterations, or where `i` turns negative. -/
def loopLimit (cfg : Config) : Nat := min cfg.iterations (2 ^ 31)

/-- The outer test on a counter that has passed the range of an `int` at most once: a negative
counter is a huge `unsigned long`. -/
theorem outer_test_iff (cfg : Config) {value : Nat} (bound : value < 2 ^ 32) :
    toUnsignedLong (toInt value) < cfg.iterations ↔ value < loopLimit cfg := by
  have most := cfg.iterations_lt
  simp only [toUnsignedLong, toInt, Int.bmod, loopLimit]
  by_cases small : value < 2 ^ 31
  · omega
  · omega

/-- How far a batch loop with batches of at most `2 ^ 31 - 1` writes has come. -/
def LoopFacts (cfg : Config) (batches submitted : Nat) : Main → Prop
  | .outer i => i = toInt (batches * cfg.maxAios : Nat) ∧
      batches * cfg.maxAios < loopLimit cfg + cfg.maxAios ∧ submitted = batches * cfg.maxAios
  | .inner i j => i = toInt (batches * cfg.maxAios : Nat) ∧
      batches * cfg.maxAios < loopLimit cfg ∧ 0 ≤ j ∧ j ≤ cfg.maxAios ∧
      submitted = batches * cfg.maxAios + j.toNat
  | .lock i | .test i | .waiting i | .reacquire i | .unlock i =>
      i = toInt (batches * cfg.maxAios : Nat) ∧ batches * cfg.maxAios < loopLimit cfg ∧
      submitted = batches * cfg.maxAios + cfg.maxAios
  | .join | .returned => loopLimit cfg ≤ batches * cfg.maxAios ∧
      batches * cfg.maxAios < loopLimit cfg + cfg.maxAios ∧ submitted = batches * cfg.maxAios

/-- The completion that `sig_thread` has taken and not yet counted. -/
def Sig.handling : Sig → Nat
  | .perBatch | .lock | .total => 1
  | _ => 0

/-- The count at each point of `sig_thread`: below the iterations before the increment, and
equal to them behind the loop. -/
def SigFacts (cfg : Config) (total : Nat) : Sig → Prop
  | .sigwaitinfo | .perBatch | .lock | .total => total < cfg.iterations
  | .unlock | .batch | .interim | .exitTest => total ≤ cfg.iterations
  | .finalLock | .finalSignal | .finalUnlock | .exited => total = cfg.iterations

/-- A write submitted is in flight, signalled, being handled or counted, and the main thread
returns only behind `sig_thread`. -/
structure Conserved (s : State) : Prop where
  writes : s.submitted = s.inFlight + s.pending + s.sig.handling + s.totalIosCompleted
  joined : s.main = .returned → s.sig = .exited

/-- What a micro-step of the main thread can do, with a case for each branch. -/
inductive MainMove (cfg : Config) (s : State) : State → Prop
  | more {i : Int} (control : s.main = .outer i) (more : toUnsignedLong i < cfg.iterations) :
      MainMove cfg s { s with main := .inner i 0 }
  | done {i : Int} (control : s.main = .outer i) (done : ¬ toUnsignedLong i < cfg.iterations) :
      MainMove cfg s { s with main := .join }
  | submit {i j : Int} (control : s.main = .inner i j) (room : j < cfg.maxAios) :
      MainMove cfg s { s with main := .inner i (toInt (j + 1)), inFlight := s.inFlight + 1,
                              submitted := s.submitted + 1 }
  | full {i j : Int} (control : s.main = .inner i j) (full : ¬ j < cfg.maxAios) :
      MainMove cfg s { s with main := .lock i }
  | lock {i : Int} (control : s.main = .lock i ∨ s.main = .reacquire i) (free : s.mutex = none) :
      MainMove cfg s { s with main := .test i, mutex := some .main }
  | wait {i : Int} (control : s.main = .test i) (even : s.totalIosCompleted % cfg.maxAios = 0) :
      MainMove cfg s { s with main := .waiting i, mutex := none }
  | leave {i : Int} (control : s.main = .test i) (odd : s.totalIosCompleted % cfg.maxAios ≠ 0) :
      MainMove cfg s { s with main := .unlock i }
  | unlock {i : Int} (control : s.main = .unlock i) :
      MainMove cfg s { s with main := .outer (toInt (i + cfg.maxAios)), mutex := none,
                              batches := s.batches + 1 }
  | join (control : s.main = .join) (exited : s.sig = .exited) :
      MainMove cfg s { s with main := .returned }

/-- What a micro-step of `sig_thread` can do. -/
inductive SigMove (cfg : Config) (s : State) : State → Prop
  | take (control : s.sig = .sigwaitinfo) (queued : s.pending ≠ 0) :
      SigMove cfg s { s with sig := .perBatch, pending := s.pending - 1 }
  | perBatch (control : s.sig = .perBatch) :
      SigMove cfg s { s with sig := .lock, iosCompletedPerBatch := s.iosCompletedPerBatch + 1 }
  | lock (control : s.sig = .lock) (free : s.mutex = none) :
      SigMove cfg s { s with sig := .total, mutex := some .sig }
  | total (control : s.sig = .total) :
      SigMove cfg s { s with sig := .unlock, totalIosCompleted := s.totalIosCompleted + 1 }
  | unlock (control : s.sig = .unlock) : SigMove cfg s { s with sig := .batch, mutex := none }
  | full (control : s.sig = .batch) (full : s.iosCompletedPerBatch ≥ cfg.maxAios) :
      SigMove cfg s { s with sig := .interim, iosCompletedPerBatch := 0 }
  | short (control : s.sig = .batch) (short : ¬ s.iosCompletedPerBatch ≥ cfg.maxAios) :
      SigMove cfg s { s with sig := .exitTest }
  | interim (control : s.sig = .interim) :
      SigMove cfg s { s with sig := .exitTest, main := s.main.wake }
  | enough (control : s.sig = .exitTest) (enough : s.totalIosCompleted ≥ cfg.iterations) :
      SigMove cfg s { s with sig := .finalLock }
  | missing (control : s.sig = .exitTest) (missing : ¬ s.totalIosCompleted ≥ cfg.iterations) :
      SigMove cfg s { s with sig := .sigwaitinfo }
  | finalLock (control : s.sig = .finalLock) (free : s.mutex = none) :
      SigMove cfg s { s with sig := .finalSignal, mutex := some .sig }
  | finalSignal (control : s.sig = .finalSignal) :
      SigMove cfg s { s with sig := .finalUnlock, main := s.main.wake }
  | finalUnlock (control : s.sig = .finalUnlock) :
      SigMove cfg s { s with sig := .exited, mutex := none }

section Steps

variable {cfg : Config} {s s' : State}

/-- Every micro-step of the main thread is one of `MainMove`. -/
theorem mainStep_move (taken : mainStep cfg s = some s') : MainMove cfg s s' := by
  cases control : s.main with
  | outer i =>
    simp only [mainStep, control] at taken
    split at taken
    · rename_i more
      cases taken
      exact .more control more
    · rename_i done
      cases taken
      exact .done control done
  | inner i j =>
    simp only [mainStep, control] at taken
    split at taken
    · rename_i room
      cases taken
      exact .submit control room
    · rename_i full
      cases taken
      exact .full control full
  | lock i =>
    simp only [mainStep, control] at taken
    split at taken
    · rename_i free
      cases taken
      exact .lock (Or.inl control) free
    · contradiction
  | reacquire i =>
    simp only [mainStep, control] at taken
    split at taken
    · rename_i free
      cases taken
      exact .lock (Or.inr control) free
    · contradiction
  | test i =>
    simp only [mainStep, control] at taken
    split at taken
    · rename_i even
      cases taken
      exact .wait control even
    · rename_i odd
      cases taken
      exact .leave control odd
  | waiting i => simp [mainStep, control] at taken
  | unlock i =>
    simp only [mainStep, control] at taken
    cases taken
    exact .unlock control
  | join =>
    simp only [mainStep, control] at taken
    split at taken
    · rename_i exited
      cases taken
      exact .join control exited
    · contradiction
  | returned => simp [mainStep, control] at taken

/-- Every micro-step of `sig_thread` is one of `SigMove`. -/
theorem sigStep_move (taken : sigStep cfg s = some s') : SigMove cfg s s' := by
  cases control : s.sig with
  | sigwaitinfo =>
    simp only [sigStep, control] at taken
    split at taken
    · contradiction
    · rename_i queued
      cases taken
      exact .take control queued
  | perBatch =>
    simp only [sigStep, control] at taken
    cases taken
    exact .perBatch control
  | lock =>
    simp only [sigStep, control] at taken
    split at taken
    · rename_i free
      cases taken
      exact .lock control free
    · contradiction
  | total =>
    simp only [sigStep, control] at taken
    cases taken
    exact .total control
  | unlock =>
    simp only [sigStep, control] at taken
    cases taken
    exact .unlock control
  | batch =>
    simp only [sigStep, control] at taken
    split at taken
    · rename_i full
      cases taken
      exact .full control full
    · rename_i short
      cases taken
      exact .short control short
  | interim =>
    simp only [sigStep, control] at taken
    cases taken
    exact .interim control
  | exitTest =>
    simp only [sigStep, control] at taken
    split at taken
    · rename_i enough
      cases taken
      exact .enough control enough
    · rename_i missing
      cases taken
      exact .missing control missing
  | finalLock =>
    simp only [sigStep, control] at taken
    split at taken
    · rename_i free
      cases taken
      exact .finalLock control free
    · contradiction
  | finalSignal =>
    simp only [sigStep, control] at taken
    cases taken
    exact .finalSignal control
  | finalUnlock =>
    simp only [sigStep, control] at taken
    cases taken
    exact .finalUnlock control
  | exited => simp [sigStep, control] at taken

/-- What an action can do: a step of one of the threads, a completion, a wake-up, or nothing. -/
theorem step_cases {act : Act} (taken : step cfg s act = some s') :
    mainStep cfg s = some s' ∨ sigStep cfg s = some s' ∨
    (0 < s.inFlight ∧
      s' = { s with inFlight := s.inFlight - 1, pending := s.pending + 1 }) ∨
    s' = { s with main := s.main.wake } ∨ s' = s := by
  cases act with
  | main => exact Or.inl taken
  | sig => exact Or.inr (Or.inl taken)
  | complete =>
    simp only [step] at taken
    split at taken
    · contradiction
    · rename_i flying
      exact Or.inr (Or.inr (Or.inl ⟨Nat.pos_of_ne_zero flying, (Option.some.inj taken).symm⟩))
  | wake => exact Or.inr (Or.inr (Or.inr (Or.inl (Option.some.inj taken).symm)))
  | eintr =>
    simp only [step] at taken
    split at taken
    · exact Or.inr (Or.inr (Or.inr (Or.inr (Option.some.inj taken).symm)))
    · contradiction

/-- A wake-up moves the main thread from `pthread_cond_wait` at most. -/
theorem wake_returned {main : Main} (returned : main.wake = .returned) : main = .returned := by
  cases main <;> simp_all [Main.wake]

/-- The main thread touches the counters of `sig_thread` in no step, and puts every write it
submits in flight. -/
theorem mainStep_elsewhere (taken : mainStep cfg s = some s') :
    s'.sig = s.sig ∧ s'.totalIosCompleted = s.totalIosCompleted ∧ s'.pending = s.pending ∧
      s'.submitted + s.inFlight = s.submitted + s'.inFlight ∧
      (s'.main = .returned → s.sig = .exited) := by
  cases mainStep_move taken with
  | submit => exact ⟨rfl, rfl, rfl, Nat.succ_add_eq_add_succ _ _, by simp⟩
  | join control exited => exact ⟨rfl, rfl, rfl, rfl, fun _ => exited⟩
  | more | done | full | lock | wait | leave | unlock => exact ⟨rfl, rfl, rfl, rfl, by simp⟩

/-- The main thread leaves the barrier only where the count is no multiple of the batch size,
and counts a batch only there. -/
theorem mainStep_unlock (taken : mainStep cfg s = some s') :
    (∀ i, s'.main = .unlock i → s.totalIosCompleted % cfg.maxAios ≠ 0) ∧
      (s'.batches = s.batches ∨ ∃ i, s.main = .unlock i) := by
  cases mainStep_move taken with
  | leave control odd => exact ⟨fun _ _ => odd, Or.inl rfl⟩
  | unlock control => exact ⟨by simp, Or.inr ⟨_, control⟩⟩
  | more | done | submit | full | lock | wait | join => exact ⟨by simp, Or.inl rfl⟩

/-- `sig_thread` touches nothing of the main thread but a wait, and no write in flight. -/
theorem sigStep_elsewhere (taken : sigStep cfg s = some s') :
    (s'.main = s.main ∨ s'.main = s.main.wake) ∧ s'.submitted = s.submitted ∧
      s'.batches = s.batches ∧ s'.inFlight = s.inFlight ∧
      s'.pending + s'.sig.handling + s'.totalIosCompleted =
        s.pending + s.sig.handling + s.totalIosCompleted ∧ s.sig ≠ .exited := by
  cases sigStep_move taken with
  | take control queued =>
    refine ⟨Or.inl rfl, rfl, rfl, rfl, ?_, by simp [control]⟩
    rw [control]
    change s.pending - 1 + 1 + s.totalIosCompleted = s.pending + 0 + s.totalIosCompleted
    omega
  | total control =>
    refine ⟨Or.inl rfl, rfl, rfl, rfl, ?_, by simp [control]⟩
    rw [control]
    change s.pending + 0 + (s.totalIosCompleted + 1) = s.pending + 1 + s.totalIosCompleted
    omega
  | interim control | finalSignal control =>
    exact ⟨Or.inr rfl, rfl, rfl, rfl, by rw [control]; rfl, by simp [control]⟩
  | perBatch control | lock control | unlock control | full control | short control
  | enough control | missing control | finalLock control | finalUnlock control =>
    exact ⟨Or.inl rfl, rfl, rfl, rfl, by rw [control]; rfl, by simp [control]⟩

/-- `sig_thread` keeps its count: it takes a signal only while iterations are missing, and
leaves its loop with the increment that completes them. -/
theorem sigStep_sigFacts (facts : SigFacts cfg s.totalIosCompleted s.sig)
    (taken : sigStep cfg s = some s') : SigFacts cfg s'.totalIosCompleted s'.sig := by
  cases sigStep_move taken with
  | total control =>
    rw [control] at facts
    exact Nat.succ_le_of_lt facts
  | enough control enough =>
    rw [control] at facts
    exact Nat.le_antisymm facts enough
  | missing control missing => exact Nat.lt_of_not_le missing
  | take control | perBatch control | lock control | unlock control | full control | short control
  | interim control | finalLock control | finalSignal control | finalUnlock control =>
    rw [control] at facts
    exact facts

/-- A wake-up leaves the loop where it is. -/
theorem LoopFacts.wake {batches submitted : Nat} {main : Main}
    (facts : LoopFacts cfg batches submitted main) : LoopFacts cfg batches submitted main.wake := by
  cases main <;> exact facts

/-- A step of the main thread keeps the loop in step with the batches. -/
theorem mainStep_loopFacts (narrow : cfg.maxAios < 2 ^ 31)
    (facts : LoopFacts cfg s.batches s.submitted s.main) (taken : mainStep cfg s = some s') :
    LoopFacts cfg s'.batches s'.submitted s'.main := by
  have limit : loopLimit cfg ≤ 2 ^ 31 := Nat.min_le_right _ _
  cases mainStep_move taken with
  | more control more =>
    rw [control] at facts
    have ⟨counter, bound, submitted⟩ := facts
    rw [counter, outer_test_iff cfg (by omega)] at more
    exact ⟨counter, more, Int.le_refl _, by omega, submitted⟩
  | done control done =>
    rw [control] at facts
    have ⟨counter, bound, submitted⟩ := facts
    rw [counter, outer_test_iff cfg (by omega), Nat.not_lt] at done
    exact ⟨done, bound, submitted⟩
  | @submit i j control room =>
    rw [control] at facts
    have ⟨counter, started, least, most, submitted⟩ := facts
    have next : toInt (j + 1) = j + 1 := toInt_of_range (by omega) (by omega)
    refine ⟨counter, started, ?_, ?_, ?_⟩
    · rw [next]
      omega
    · rw [next]
      omega
    · show s.submitted + 1 = s.batches * cfg.maxAios + (toInt (j + 1)).toNat
      rw [next]
      omega
  | full control full =>
    rw [control] at facts
    have ⟨counter, started, least, most, submitted⟩ := facts
    refine ⟨counter, started, ?_⟩
    show s.submitted = s.batches * cfg.maxAios + cfg.maxAios
    omega
  | lock control =>
    cases control with
    | inl control | inr control =>
      rw [control] at facts
      exact facts
  | wait control | leave control | join control =>
    rw [control] at facts
    exact facts
  | @unlock i control =>
    rw [control] at facts
    have ⟨counter, started, submitted⟩ := facts
    have grown : (s.batches + 1) * cfg.maxAios = s.batches * cfg.maxAios + cfg.maxAios :=
      Nat.succ_mul _ _
    refine ⟨?_, ?_, ?_⟩
    · change toInt (i + cfg.maxAios) = toInt ((s.batches + 1) * cfg.maxAios : Nat)
      rw [counter, toInt_add_left, grown, Int.natCast_add]
    · change (s.batches + 1) * cfg.maxAios < _
      omega
    · change s.submitted = (s.batches + 1) * cfg.maxAios
      rw [grown]
      exact submitted

/-- The inner loop of a batch size beyond the range of an `int` never ends. -/
def Submitting : Main → Prop
  | .outer i => i = 0
  | .inner _ j => j < 2 ^ 31
  | _ => False

/-- A step of the main thread stays in the inner loop. -/
theorem mainStep_submitting (wide : 2 ^ 31 ≤ cfg.maxAios) (nonempty : 0 < cfg.iterations)
    (facts : Submitting s.main) (taken : mainStep cfg s = some s') : Submitting s'.main := by
  cases mainStep_move taken with
  | more =>
    change (0 : Int) < 2 ^ 31
    decide
  | done control done =>
    rw [control] at facts
    obtain rfl := facts
    exact absurd nonempty done
  | submit => exact (toInt_range _).2
  | @full i j control full =>
    rw [control] at facts
    change j < 2 ^ 31 at facts
    omega
  | lock control =>
    cases control with
    | inl control | inr control =>
      rw [control] at facts
      exact facts.elim
  | wait control | leave control | unlock control | join control =>
    rw [control] at facts
    exact facts.elim

end Steps

section Runs

variable {cfg : Config} {s : State}

/-- An invariant of the main thread that its own steps and wake-ups keep holds in every run. -/
theorem reachable_main (facts : Nat → Nat → Main → Prop) (starts : facts 0 0 (.outer 0))
    (steps : ∀ s s', facts s.batches s.submitted s.main → mainStep cfg s = some s' →
      facts s'.batches s'.submitted s'.main)
    (wakes : ∀ batches submitted main, facts batches submitted main →
      facts batches submitted main.wake)
    (reached : (system cfg).Reachable System.always s) : facts s.batches s.submitted s.main := by
  apply reached.invariant
  · rintro first rfl
    exact starts
  · intro before act after _ holds _ taken
    rcases step_cases taken with main | sig | ⟨-, rfl⟩ | rfl | rfl
    · exact steps before after holds main
    · have ⟨main, submitted, batches, _⟩ := sigStep_elsewhere sig
      rw [submitted, batches]
      rcases main with same | woken
      · rw [same]
        exact holds
      · rw [woken]
        exact wakes _ _ _ holds
    · exact holds
    · exact wakes _ _ _ holds
    · exact holds

/-- The loop is in step with the batches in every run with narrow batches. -/
theorem reachable_loopFacts (narrow : cfg.maxAios < 2 ^ 31)
    (reached : (system cfg).Reachable System.always s) :
    LoopFacts cfg s.batches s.submitted s.main := by
  apply reachable_main (LoopFacts cfg) _ _ _ reached
  · have positive := cfg.maxAios_pos
    exact ⟨by simp; rfl, by omega, by simp⟩
  · exact fun _ _ facts taken => mainStep_loopFacts narrow facts taken
  · exact fun _ _ _ facts => facts.wake

/-- The main thread never leaves the inner loop in any run with wide batches. -/
theorem reachable_submitting (wide : 2 ^ 31 ≤ cfg.maxAios) (nonempty : 0 < cfg.iterations)
    (reached : (system cfg).Reachable System.always s) : Submitting s.main := by
  apply reachable_main (fun _ _ main => Submitting main) rfl _ _ reached
  · exact fun _ _ facts taken => mainStep_submitting wide nonempty facts taken
  · intro _ _ main facts
    cases main <;> exact facts

/-- The writes are conserved in every run. -/
theorem reachable_conserved (reached : (system cfg).Reachable System.always s) : Conserved s := by
  apply reached.invariant
  · rintro first rfl
    exact ⟨rfl, by simp [State.start]⟩
  · intro before act after _ facts _ taken
    have ⟨writes, joined⟩ := facts
    rcases step_cases taken with main | sig | ⟨flying, rfl⟩ | rfl | rfl
    · have ⟨sig, total, pending, balance, exited⟩ := mainStep_elsewhere main
      refine ⟨?_, fun returned => by rw [sig]; exact exited returned⟩
      rw [sig, total, pending]
      omega
    · have ⟨main, submitted, _, inFlight, balance, running⟩ := sigStep_elsewhere sig
      refine ⟨by omega, ?_⟩
      intro returned
      have before : before.main = .returned := by
        rcases main with same | woken
        · rw [← same]
          exact returned
        · exact wake_returned (by rw [← woken]; exact returned)
      exact absurd (joined before) running
    · refine ⟨?_, joined⟩
      show before.submitted = before.inFlight - 1 + (before.pending + 1) +
        before.sig.handling + before.totalIosCompleted
      omega
    · exact ⟨writes, fun returned => joined (wake_returned returned)⟩
    · exact facts

/-- The count matches the progress of `sig_thread` in every run with at least one iteration. -/
theorem reachable_sigFacts (nonempty : 0 < cfg.iterations)
    (reached : (system cfg).Reachable System.always s) :
    SigFacts cfg s.totalIosCompleted s.sig := by
  apply reached.invariant
  · rintro first rfl
    exact nonempty
  · intro before act after _ facts _ taken
    rcases step_cases taken with main | sig | ⟨-, rfl⟩ | rfl | rfl
    · have ⟨sig, total, _⟩ := mainStep_elsewhere main
      rw [sig, total]
      exact facts
    · exact sigStep_sigFacts facts sig
    · exact facts
    · exact facts
    · exact facts

end Runs

end PerfVerif.Aio
