import PerfVerif.Lio.Schedules

/-!
# The end of `lio_listio_test`

`sig_thread` leaves its loop on `MYSIG_STOP`, which it handles and nobody sends. So wherever the
loops of the main thread end, it comes to wait in `pthread_join` for a thread that waits in
`sigwaitinfo` with nothing left to wake it.
-/

namespace PerfVerif.Lio

open Transition

variable {cfg : Config}

/-- The main thread waits for a `sig_thread` that waits for a signal, every list has completed,
and no signal is pending or to be sent. -/
structure Stuck (s : State) : Prop where
  joining : s.main = .join
  calm : Calm s

/-- No reachable state is stuck. -/
def NeverStuck (cfg : Config) : Prop :=
  ∀ s, (system cfg).Reachable System.always s → ¬ Stuck s

/-- A stuck state stays as it is: no action but an interrupted `sigwaitinfo` is enabled. -/
theorem Stuck.stays {s s' : State} {act : Act} (stuck : Stuck s)
    (taken : step cfg s act = some s') : s' = s := by
  have ⟨joining, landed, _, queue, waiting⟩ := stuck
  rcases step_cases taken with ⟨-, main⟩ | ⟨_, _, -, control, -⟩ | ⟨-, sig⟩ |
    ⟨entry, -, flying, -⟩ | same
  · simp [mainStep, joining, waiting] at main
  · rw [joining] at control
    contradiction
  · simp [sigStep, waiting, queue] at sig
  · rw [landed] at flying
    contradiction
  · exact same

/-- Loops that end lead to a stuck state. -/
theorem not_neverStuck_of_ends (ends : cfg.Ends) : ¬ NeverStuck cfg := by
  intro never
  have reached : (system cfg).Reachable System.always .start := .start rfl
  have ⟨s, path, joining, calm⟩ := reach_join ends reached
  exact never s (reachable_leads reached path) ⟨joining, calm⟩

/-- In loops that do not end the main thread never joins. -/
theorem neverStuck_of_endless (endless : ¬ cfg.Ends) : NeverStuck cfg := by
  intro s reached stuck
  have joining : s.progress.main = .join := stuck.joining
  have allocating := (reachable_allocating endless reached).control
  simp [joining] at allocating

/-- `lio_listio_test` has no stuck state exactly when it never gets past its first allocating
loop: there is something to write, and a list is longer than an `int` counts. -/
theorem never_joins_stuck_iff (cfg : Config) :
    NeverStuck cfg ↔ 0 < cfg.iterations ∧ 2 ^ 31 ≤ cfg.aioListioMax := by
  constructor
  · intro never
    by_contra ends
    apply not_neverStuck_of_ends _ never
    unfold Config.Ends
    omega
  · rintro ⟨nonempty, wide⟩
    apply neverStuck_of_endless
    unfold Config.Ends
    omega

/-- One iteration in lists of one, with the write completed, its signal handled and the block
freed before the main thread joins. -/
def orderlyRun : List Act :=
  [.main, .main, .main, .listio .success, .complete ⟨0, 0⟩, .sig, .sig, .main, .main, .main, .main]

/-- The main thread then waits for good. -/
theorem joins_for_good : ¬ ∀ cfg : Config, NeverStuck cfg := by
  intro claimed
  have replay : ((system ⟨1, 1, by decide, by decide, by decide⟩).run .start orderlyRun).map
      (fun s => ((s.main, s.sig), s.inFlight, s.unsignalled, s.pending)) =
      some ((.join, .sigwaitinfo), [], [], []) := by decide +kernel
  have ⟨s, replayed, shown⟩ := Option.map_eq_some_iff.mp replay
  have ⟨⟨joining, waiting⟩, landed, signalled, queue⟩ :
      (s.main = .join ∧ s.sig = .sigwaitinfo) ∧ s.inFlight = [] ∧ s.unsignalled = [] ∧
        s.pending = [] := by simpa using shown
  have reached : (system ⟨1, 1, by decide, by decide, by decide⟩).Reachable System.always s :=
    .of_run rfl orderlyRun (fun _ _ _ => trivial) replayed
  exact claimed _ s reached ⟨joining, landed, signalled, queue, waiting⟩

end PerfVerif.Lio
