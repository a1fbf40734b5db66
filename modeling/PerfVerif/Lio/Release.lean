import PerfVerif.Lio.Schedules

/-!
# The control blocks of `lio_listio_test`

The main thread sleeps behind a list and then frees its blocks, whether or not their writes have
completed. Each block is freed once, but only a sleep that lasts until the list has completed and
its signal is received keeps the blocks in use from being freed and the array from being reused
too early.
-/

namespace PerfVerif.Lio

open Transition
open Aio (toInt toUnsignedLong)

/-- Each block is freed once and with no write of its own in flight, all of them behind a batch
and in any case at some time, and the array is written again only when the signal of every list
taken on is received. -/
structure Released (cfg : Config) (ok : State → Act → Prop) (s : State) : Prop where
  once : s.freed.Nodup
  allocated : ∀ block ∈ s.freed, block < s.allocated
  landed : ∀ entry ∈ s.inFlight, entry.block ∉ s.freed
  received : ∀ i j, s.main = .inner i j → ∀ list ∈ s.accepted, list ∈ s.received
  behind : (∃ i, s.main = .outer i) ∨ s.main = .join → ∀ block < s.allocated, block ∈ s.freed
  freeable : ∃ s', (system cfg).Leads ok s s' ∧ ∀ block < s.allocated, block ∈ s'.freed

section Blocks

variable {cfg : Config}

/-- The blocks freed are the first ones allocated, in order. -/
theorem LoopFacts.freed {s : State} (facts : LoopFacts cfg s.progress) :
    ∃ count ≤ s.allocated, s.freed = List.range count := by
  cases control : s.main with
  | outer i =>
    have ⟨_, between⟩ := facts.outer control
    exact ⟨_, Nat.le_of_eq between.allocated.symm, between.freed⟩
  | inner i j =>
    have ⟨filled, _, _, within⟩ := facts.inner control
    have allocated : s.allocated = _ := within.allocated
    exact ⟨_, by omega, within.freed⟩
  | submit i =>
    have within := facts.submit control
    have allocated : s.allocated = _ := within.allocated
    exact ⟨_, by omega, within.freed⟩
  | sleep i ret =>
    have ⟨batch, _, within⟩ := facts.sleep control
    have allocated : s.allocated = _ := within.allocated
    exact ⟨_, by omega, within.freed⟩
  | free i k =>
    have ⟨batch, done, _, _, most, within⟩ := facts.free control
    have allocated : s.allocated = _ := within.allocated
    exact ⟨_, by omega, within.freed⟩
  | join =>
    have ⟨_, between⟩ := facts.join control
    exact ⟨_, Nat.le_of_eq between.allocated.symm, between.freed⟩
  | returned =>
    have main : s.progress.main = .returned := control
    simp only [LoopFacts, main] at facts
    exact ⟨_, Nat.le_of_eq facts.2.allocated.symm, facts.2.freed⟩

/-- Between two batches every block allocated is freed. -/
theorem Between.all_freed {s : State} (facts : Between cfg s.progress) :
    ∀ block < s.allocated, block ∈ s.freed := by
  intro block below
  have allocated : s.allocated = _ := facts.allocated
  have freed : s.freed = _ := facts.freed
  rw [freed, List.mem_range]
  omega

/-- No step takes an allocation back. -/
theorem leads_allocated {ok : State → Act → Prop} {s s' : State}
    (path : (system cfg).Leads ok s s') : s.allocated ≤ s'.allocated := by
  apply System.leads_invariant (fun later => s.allocated ≤ later.allocated) _ path (Nat.le_refl _)
  intro before act after grown _ taken
  rcases step_cases taken with ⟨-, main⟩ | ⟨result, i, -, -, rfl⟩ | ⟨-, sig⟩ |
    ⟨entry, -, -, rfl⟩ | rfl
  · apply Nat.le_trans grown
    cases mainStep_move main with
    | allocate => exact Nat.le_succ _
    | more | done | full | wake | free | freed | join => exact Nat.le_refl _
  · cases result <;> exact grown
  · have same : after.allocated = before.allocated :=
      congrArg Progress.allocated (sigStep_elsewhere sig).1
    omega
  · have same : (before.complete entry).allocated = before.allocated :=
      congrArg Progress.allocated (complete_elsewhere before entry).1
    omega
  · exact grown

end Blocks

section Sleeps

variable {cfg : Config}

/-- Nothing is in flight and no signal is to be sent or received, except during a sleep, where the
writes in flight are of blocks that are not freed. -/
def Rested (s : State) : Prop :=
  (s.inFlight = [] ∧ s.unsignalled = [] ∧ s.pending = []) ∨
    ∃ i ret, s.main = .sleep i ret ∧ ∀ entry ∈ s.inFlight, entry.block ∉ s.freed

/-- `lio_listio` puts writes of the blocks in the array in flight, and of no others. -/
theorem listio_inFlight {s : State} (result : Listio) {entry : Entry}
    (flying : entry ∈ (s.listio cfg result).inFlight) :
    entry ∈ s.inFlight ∨ entry.block ∈ s.listed cfg := by
  cases result with
  | success =>
    rcases List.mem_append.mp flying with earlier | fresh
    · exact Or.inl earlier
    · have ⟨block, listed, same⟩ := List.mem_map.mp fresh
      subst same
      exact Or.inr listed
  | failure queued =>
    rcases List.mem_append.mp flying with earlier | fresh
    · exact Or.inl earlier
    · have ⟨block, listed, same⟩ := List.mem_map.mp fresh
      subst same
      exact Or.inr (List.mem_of_mem_filter listed)

/-- A sleep that lasts long enough leaves the next steps of the main thread alone. -/
theorem mainStep_rested {s s' : State} (facts : SignalFacts s) (rested : Rested s)
    (sleeps : SleepsThrough s .main) (taken : mainStep cfg s = some s') : Rested s' := by
  have ⟨_, inFlight, unsignalled, pending, _⟩ := mainStep_elsewhere taken
  rcases rested with ⟨landed, signalled, queue⟩ | ⟨i, ret, control, _⟩
  · exact Or.inl ⟨inFlight.trans landed, unsignalled.trans signalled, pending.trans queue⟩
  · simp only [SleepsThrough, control] at sleeps
    have ⟨landed, queue⟩ := sleeps
    have signalled := facts.signalled landed
    exact Or.inl ⟨inFlight.trans landed, unsignalled.trans signalled, pending.trans queue⟩

/-- The writes that `lio_listio` puts in flight are of blocks that are not freed. -/
theorem listio_rested (ends : cfg.Ends) {s : State} {i : Int} (loop : LoopFacts cfg s.progress)
    (rested : Rested s) (control : s.main = .submit i) (result : Listio) :
    Rested { s.listio cfg result with main := .sleep i result.ret } := by
  have within := loop.submit control
  have landed : s.inFlight = [] := by
    rcases rested with quiet | ⟨_, _, asleep, _⟩
    · exact quiet.1
    · rw [control] at asleep
      contradiction
  refine Or.inr ⟨i, result.ret, rfl, ?_⟩
  intro entry flying
  have unfreed : entry.block ∉ s.freed := by
    have freed : s.freed = _ := within.freed
    rcases listio_inFlight result flying with earlier | listed
    · rw [landed] at earlier
      contradiction
    · rw [within.listed ends] at listed
      have ⟨k, _, same⟩ := List.mem_map.mp listed
      rw [freed, List.mem_range]
      omega
  cases result <;> exact unfreed

/-- What the main thread has done and the writes in flight decide whether a sleep is at rest. -/
theorem Rested.asleep {s s' : State} {i ret : Int} (control : s.main = .sleep i ret)
    (unfreed : ∀ entry ∈ s.inFlight, entry.block ∉ s.freed) (progress : s'.progress = s.progress)
    (fewer : ∀ entry ∈ s'.inFlight, entry ∈ s.inFlight) : Rested s' := by
  have main : s'.main = s.main := congrArg Progress.main progress
  have freed : s'.freed = s.freed := congrArg Progress.freed progress
  refine Or.inr ⟨i, ret, main.trans control, ?_⟩
  intro entry flying
  rw [freed]
  exact unfreed entry (fewer entry flying)

/-- `sig_thread` disturbs nothing at rest. -/
theorem sigStep_rested {s s' : State} (rested : Rested s) (taken : sigStep s = some s') :
    Rested s' := by
  have ⟨progress, inFlight, unsignalled, _⟩ := sigStep_elsewhere taken
  rcases rested with ⟨landed, signalled, queue⟩ | ⟨i, ret, control, unfreed⟩
  · refine Or.inl ⟨inFlight.trans landed, unsignalled.trans signalled, ?_⟩
    cases sigStep_move taken with
    | take _ waiting | stop _ waiting =>
      rw [queue] at waiting
      contradiction
    | count => exact queue
  · exact Rested.asleep control unfreed progress (fun entry flying => inFlight ▸ flying)

/-- A completion happens in a sleep and leaves fewer writes in flight. -/
theorem complete_rested {s : State} {entry : Entry} (rested : Rested s)
    (flying : entry ∈ s.inFlight) : Rested (s.complete entry) := by
  have ⟨progress, _, _, _, inFlight⟩ := complete_elsewhere s entry
  rcases rested with ⟨landed, _⟩ | ⟨i, ret, control, unfreed⟩
  · rw [landed] at flying
    contradiction
  · apply Rested.asleep control unfreed progress
    intro other left
    rw [inFlight] at left
    exact List.mem_of_mem_erase left

/-- In every run whose sleeps last long enough, the writes in flight are those of the last list,
and there are none but during its sleep. -/
theorem reachable_rested (ends : cfg.Ends) {s : State}
    (reached : (system cfg).Reachable SleepsThrough s) : Rested s := by
  apply reached.invariant
  · rintro first rfl
    exact Or.inl ⟨rfl, rfl, rfl⟩
  · intro before act after prior rested admitted taken
    rcases step_cases taken with ⟨rfl, main⟩ | ⟨result, i, -, control, rfl⟩ | ⟨-, sig⟩ |
      ⟨entry, -, flying, rfl⟩ | rfl
    · exact mainStep_rested (reachable_signalFacts ends prior) rested admitted main
    · exact listio_rested ends (reachable_loopFacts ends prior) rested control result
    · exact sigStep_rested rested sig
    · exact complete_rested rested flying
    · exact rested

/-- In loops that end, sleeps that last long enough keep the blocks in use. -/
theorem released_of_ends (ends : cfg.Ends) {s : State}
    (reached : (system cfg).Reachable SleepsThrough s) : Released cfg SleepsThrough s := by
  have loop := reachable_loopFacts ends reached
  have signals := reachable_signalFacts ends reached
  have rested := reachable_rested ends reached
  have ⟨count, few, freed⟩ := loop.freed
  refine ⟨?_, ?_, ?_, ?_, ?_, ?_⟩
  · rw [freed]
    exact List.nodup_range
  · intro block member
    rw [freed, List.mem_range] at member
    omega
  · rcases rested with ⟨landed, _⟩ | ⟨_, _, _, unfreed⟩
    · simp [landed]
    · exact unfreed
  · intro i j control list member
    rcases rested with ⟨_, signalled, queue⟩ | ⟨_, _, asleep, _⟩
    · have places := signals.sent list member
      simpa [signalled, queue] using places
    · rw [control] at asleep
      contradiction
  · rintro (⟨i, control⟩ | control)
    · exact (loop.outer control).2.all_freed
    · exact (loop.join control).2.all_freed
  · have anyway := reached.mono (fun _ _ _ => trivial)
    have ⟨s', path, control, _⟩ := reach_join ends anyway
    have later := (reachable_loopFacts ends (reachable_leads anyway path)).join control
    refine ⟨s', System.leads_mono (fun _ _ careful => careful.1) path, ?_⟩
    intro block below
    exact later.2.all_freed block (Nat.lt_of_lt_of_le below (leads_allocated path))

/-- In loops that do not end, the first block allocated is never freed. -/
theorem not_released_of_endless (endless : ¬ cfg.Ends) :
    ∃ s, (system cfg).Reachable SleepsThrough s ∧ ¬ Released cfg SleepsThrough s := by
  have more : toUnsignedLong 0 < cfg.iterations :=
    Nat.pos_of_ne_zero (fun none => endless (Or.inl none))
  have room : (0 : Int) < cfg.aioListioMax := Int.natCast_pos.mpr cfg.aioListioMax_pos
  have enters : Leads cfg .start { State.start with main := .inner 0 0 } := by
    apply leads_main (Or.inl (by simp [State.start]))
    simp only [mainStep, State.start, if_pos more]
  have allocates : Leads cfg { State.start with main := .inner 0 0 }
      { State.start.allocate 0 with main := .inner 0 (toInt (0 + 1)) } := by
    apply leads_main (Or.inl (by simp))
    simp only [mainStep, if_pos room, State.allocate]
  have path := System.leads_mono (fun _ _ careful => careful.1) (enters.trans allocates)
  have reached : (system cfg).Reachable SleepsThrough
      { State.start.allocate 0 with main := .inner 0 (toInt (0 + 1)) } := ⟨.start, rfl, path⟩
  refine ⟨_, reached, ?_⟩
  intro released
  obtain ⟨later, rest, freed⟩ := released.freeable
  have never : later.freed = [] := (reachable_allocating endless (reached.leads rest)).freed
  have block := freed 0 Nat.zero_lt_one
  rw [never] at block
  contradiction

/-- In every run whose sleeps outlast the list and its signal, the blocks of `lio_listio_test` are
freed once, behind their writes, and the array is reused behind the signal, exactly when its loops
end: there is nothing to write, or an `int` can count a list. -/
theorem blocks_released_iff (cfg : Config) :
    (∀ s, (system cfg).Reachable SleepsThrough s → Released cfg SleepsThrough s) ↔
      cfg.iterations = 0 ∨ cfg.aioListioMax < 2 ^ 31 := by
  constructor
  · intro released
    by_contra endless
    have ⟨s, reached, leak⟩ := not_released_of_endless endless
    exact leak (released s reached)
  · intro ends s reached
    exact released_of_ends ends reached

/-- One iteration in lists of one: the list is submitted, and the sleep ends before the write has
completed. -/
def earlyFreeRun : List Act :=
  [.main, .main, .main, .listio .success, .main, .main]

/-- With one iteration in lists of one and a sleep shorter than the write, the block is freed with
its write in flight. -/
theorem block_freed_in_flight :
    ¬ ∀ cfg s, (system cfg).Reachable System.always s → Released cfg System.always s := by
  intro claimed
  have replay : ((system ⟨1, 1, by decide, by decide, by decide⟩).run .start earlyFreeRun).map
      (fun s => (s.inFlight, s.freed)) = some ([⟨0, 0⟩], [0]) := by decide +kernel
  have ⟨s, replayed, shown⟩ := Option.map_eq_some_iff.mp replay
  have ⟨flying, freed⟩ : s.inFlight = [⟨0, 0⟩] ∧ s.freed = [0] := by simpa using shown
  have reached : (system ⟨1, 1, by decide, by decide, by decide⟩).Reachable System.always s :=
    .of_run rfl earlyFreeRun (fun _ _ _ => trivial) replayed
  have landed := (claimed _ s reached).landed ⟨0, 0⟩
  simp [flying, freed] at landed

end Sleeps

end PerfVerif.Lio
