import PerfVerif.Lio.Schedules
import PerfVerif.Aio.Submission

/-!
# The writes that `lio_listio_test` submits

Every list has the full length, so the number of writes is rounded up to a multiple of it, as in
`aio_write_test`; but no barrier holds the main thread up, and it always gets through its lists.
-/

namespace PerfVerif.Lio

open Transition
open Aio (loopLimit wholeBatches)

variable {cfg : Config}

/-- While every call of `lio_listio` succeeds, every list counts with its full length. -/
theorem reachable_submitted (ends : cfg.Ends) {s : State}
    (reached : (system cfg).Reachable Succeeds s) : s.submitted = s.lists * cfg.aioListioMax := by
  apply reachable_progress (fun p => p.submitted = p.lists * cfg.aioListioMax) _ _ _ reached
  · exact (Nat.zero_mul _).symm
  · intro before after _ facts taken
    have ⟨_, _, _, _, _, _, lists, submitted, _⟩ := mainStep_elsewhere taken
    change after.submitted = after.lists * cfg.aioListioMax
    rw [lists, submitted]
    exact facts
  · intro before result i prior succeeds control facts
    have listed := ((reachable_loopFacts ends prior).submit control).listed ends
    cases result with
    | success =>
      change before.submitted = before.lists * cfg.aioListioMax at facts
      change before.submitted + (before.listed cfg).length =
        (before.lists + 1) * cfg.aioListioMax
      rw [listed, List.length_map, List.length_range, facts, Nat.succ_mul]
    | failure queued => exact succeeds.elim

/-- No run submits more lists than the limit of the outer loop asks for. -/
theorem lists_le_wholeBatches (ends : cfg.Ends) {ok : State → Act → Prop} {s : State}
    (reached : (system cfg).Reachable ok s) :
    s.lists * cfg.aioListioMax ≤ wholeBatches cfg.batches := by
  have loop := reachable_loopFacts ends reached
  -- the list of the batch that has started, behind `lio_listio`
  have listed : ∀ {batch}, s.lists = batch + 1 →
      batch * cfg.aioListioMax < loopLimit cfg.batches →
      s.lists * cfg.aioListioMax ≤ wholeBatches cfg.batches := by
    intro batch lists started
    rw [lists, Nat.succ_mul]
    exact @Aio.next_batch_le cfg.batches batch started
  cases control : s.main with
  | outer i => exact @Aio.batches_le cfg.batches s.lists (loop.outer control).2.bound
  | inner i j =>
    have ⟨_, _, _, within⟩ := loop.inner control
    exact Nat.le_of_add_right_le (@Aio.next_batch_le cfg.batches s.lists within.started)
  | submit i =>
    have within := loop.submit control
    exact Nat.le_of_add_right_le (@Aio.next_batch_le cfg.batches s.lists within.started)
  | sleep i ret =>
    have ⟨_, lists, within⟩ := loop.sleep control
    exact listed lists within.started
  | free i k =>
    have ⟨_, _, lists, _, _, within⟩ := loop.free control
    exact listed lists within.started
  | join => exact @Aio.batches_le cfg.batches s.lists (loop.join control).2.bound
  | returned => exact absurd control (reachable_unreturned ends reached)

/-- From every state of a run in which every call succeeds, the main thread can submit the whole
batches. -/
theorem reach_wholeBatches (ends : cfg.Ends) {s : State}
    (reached : (system cfg).Reachable Succeeds s) :
    ∃ s', (system cfg).Leads Succeeds s s' ∧ s'.submitted = wholeBatches cfg.batches := by
  have ⟨s', careful, control, _⟩ := reach_join ends (reached.mono (fun _ _ _ => trivial))
  have path := System.leads_mono (fun _ _ both => both.2) careful
  have later := reached.leads path
  have ⟨least, between⟩ := (reachable_loopFacts ends later).join control
  have whole := @Aio.eq_wholeBatches cfg.batches s'.lists least between.bound
  exact ⟨s', path, (reachable_submitted ends later).trans whole⟩

/-- `lio_listio_test` submits as many writes as iterations exactly when the length of a list
divides them. -/
theorem countsTo_iff (short : cfg.iterations < 2 ^ 31) :
    (system cfg).CountsTo Succeeds State.submitted cfg.iterations ↔
      cfg.aioListioMax ∣ cfg.iterations := by
  have initial : (system cfg).Reachable Succeeds .start := .start rfl
  constructor
  · intro counts
    by_contra remainder
    by_cases ends : cfg.Ends
    · have overshoot := @Aio.iterations_lt_wholeBatches cfg.batches short remainder
      have ⟨s, path, submitted⟩ := reach_wholeBatches ends initial
      have ⟨most, _⟩ := counts s (initial.leads path)
      change cfg.iterations < _ at overshoot
      omega
    · have ⟨_, s, path, submitted⟩ := counts .start initial
      have none : s.submitted = 0 := (reachable_allocating ends (initial.leads path)).submitted
      rw [← submitted, none] at remainder
      exact remainder (Nat.dvd_zero _)
  · intro divides s reached
    have ends : cfg.Ends := by
      unfold Config.Ends
      by_cases none : cfg.iterations = 0
      · exact Or.inl none
      · have most := Nat.le_of_dvd (Nat.pos_of_ne_zero none) divides
        exact Or.inr (by omega)
    have whole : wholeBatches cfg.batches = cfg.iterations :=
      @Aio.wholeBatches_of_dvd cfg.batches short divides
    have most := lists_le_wholeBatches ends reached
    rw [whole, ← reachable_submitted ends reached] at most
    have complete := reach_wholeBatches ends reached
    rw [whole] at complete
    exact ⟨most, complete⟩

end PerfVerif.Lio
