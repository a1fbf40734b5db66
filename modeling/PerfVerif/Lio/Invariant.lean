import PerfVerif.Lio.LioListioTest
import PerfVerif.Aio.Invariant
import Mathlib.Data.List.Basic
import Mathlib.Tactic.ByContra

/-!
# Invariants of `lio_listio_test`

The main thread alone moves through its loops, allocates and frees. The array holds the blocks
of the list that is being filled, submitted or freed, numbered from the first block of its
batch, and the blocks freed so far are the first ones allocated, each once and in order. None of
this depends on the completions. Behind a list that was taken on there is an entry in flight, a
signal pending or a signal received, and no step ever sends `MYSIG_STOP`. With lists longer than
an `int` counts the allocating loop never ends.
-/

namespace PerfVerif.Lio

open Transition
open Aio (toInt toUnsignedLong loopLimit)

/-- The loops of the main thread come to an end: there is no batch, or the counter `j` can reach
the length of a list. -/
def Config.Ends (cfg : Config) : Prop := cfg.iterations = 0 ∨ cfg.aioListioMax < 2 ^ 31

/-- The part of the state that belongs to the main thread. -/
structure Progress where
  main : Main
  controlBlocks : Int → Option Nat
  allocated : Nat
  freed : List Nat
  lists : Nat
  submitted : Nat

/-- What the main thread has done. -/
def State.progress (s : State) : Progress :=
  ⟨s.main, s.controlBlocks, s.allocated, s.freed, s.lists, s.submitted⟩

/-- What a micro-step of the main thread can do, with a case for each branch. -/
inductive MainMove (cfg : Config) (s : State) : State → Prop
  | more {i : Int} (control : s.main = .outer i) (more : toUnsignedLong i < cfg.iterations) :
      MainMove cfg s { s with main := .inner i 0 }
  | done {i : Int} (control : s.main = .outer i) (done : ¬ toUnsignedLong i < cfg.iterations) :
      MainMove cfg s { s with main := .join }
  | allocate {i j : Int} (control : s.main = .inner i j) (room : j < cfg.aioListioMax) :
      MainMove cfg s { s.allocate j with main := .inner i (toInt (j + 1)) }
  | full {i j : Int} (control : s.main = .inner i j) (full : ¬ j < cfg.aioListioMax) :
      MainMove cfg s { s with main := .submit i }
  | wake {i ret : Int} (control : s.main = .sleep i ret) (errors : List String) :
      MainMove cfg s { s with main := .free i 0, errors := errors }
  | free {i k : Int} (control : s.main = .free i k) (left : k < cfg.aioListioMax) :
      MainMove cfg s { s.free k with main := .free i (toInt (k + 1)) }
  | freed {i k : Int} (control : s.main = .free i k) (all : ¬ k < cfg.aioListioMax) :
      MainMove cfg s { s with main := .outer (toInt (i + cfg.aioListioMax)) }
  | join (control : s.main = .join) (exited : s.sig = .exited) :
      MainMove cfg s { s with main := .returned }

/-- What a micro-step of `sig_thread` can do. -/
inductive SigMove (s : State) : State → Prop
  | take {list : Nat} {rest : List Signal} (control : s.sig = .sigwaitinfo)
      (queue : s.pending = .aioComplete list :: rest) :
      SigMove s { s with sig := .handling, pending := rest, received := s.received ++ [list] }
  | stop {rest : List Signal} (control : s.sig = .sigwaitinfo) (queue : s.pending = .stop :: rest) :
      SigMove s { s with sig := .exited, pending := rest }
  | count (control : s.sig = .handling) :
      SigMove s { s with sig := .sigwaitinfo, count := s.count + 1 }

section Steps

variable {cfg : Config} {s s' : State}

/-- Every micro-step of the main thread is one of `MainMove`. -/
theorem mainStep_move (taken : mainStep cfg s = some s') : MainMove cfg s s' := by
  cases control : s.main with
  | outer i =>
    simp only [mainStep, control] at taken
    split at taken
    · rename_i more
      cases taken
      exact .more control more
    · rename_i done
      cases taken
      exact .done control done
  | inner i j =>
    simp only [mainStep, control] at taken
    split at taken
    · rename_i room
      cases taken
      exact .allocate control room
    · rename_i full
      cases taken
      exact .full control full
  | submit i => simp [mainStep, control] at taken
  | sleep i ret =>
    simp only [mainStep, control] at taken
    split at taken
    · cases taken
      exact .wake control s.errors
    · cases taken
      exact .wake control _
  | free i k =>
    simp only [mainStep, control] at taken
    split at taken
    · rename_i left
      cases taken
      exact .free control left
    · rename_i all
      cases taken
      exact .freed control all
  | join =>
    simp only [mainStep, control] at taken
    split at taken
    · rename_i exited
      cases taken
      exact .join control exited
    · contradiction
  | returned => simp [mainStep, control] at taken

/-- Every micro-step of `sig_thread` is one of `SigMove`. -/
theorem sigStep_move (taken : sigStep s = some s') : SigMove s s' := by
  cases control : s.sig with
  | sigwaitinfo =>
    simp only [sigStep, control] at taken
    split at taken
    · contradiction
    · rename_i list rest queue
      cases taken
      exact .take control queue
    · rename_i rest queue
      cases taken
      exact .stop control queue
  | handling =>
    simp only [sigStep, control] at taken
    cases taken
    exact .count control
  | exited => simp [sigStep, control] at taken

/-- What an action can do: a step of one of the threads, a call of `lio_listio`, a completion,
or nothing. -/
theorem step_cases {act : Act} (taken : step cfg s act = some s') :
    (act = .main ∧ mainStep cfg s = some s') ∨
    (∃ result i, act = .listio result ∧ s.main = .submit i ∧
      s' = { s.listio cfg result with main := .sleep i result.ret }) ∨
    (act = .sig ∧ sigStep s = some s') ∨
    (∃ entry, act = .complete entry ∧ entry ∈ s.inFlight ∧ s' = s.complete entry) ∨ s' = s := by
  cases act with
  | main => exact Or.inl ⟨rfl, taken⟩
  | listio result =>
    cases control : s.main with
    | submit i =>
      simp only [step, control, Option.some.injEq] at taken
      exact Or.inr (Or.inl ⟨result, i, rfl, rfl, taken.symm⟩)
    | _ => simp [step, control] at taken
  | sig => exact Or.inr (Or.inr (Or.inl ⟨rfl, taken⟩))
  | complete entry =>
    simp only [step] at taken
    split at taken
    · rename_i flying
      exact Or.inr (Or.inr (Or.inr (Or.inl ⟨entry, rfl, flying, (Option.some.inj taken).symm⟩)))
    · contradiction
  | eintr =>
    simp only [step] at taken
    split at taken
    · exact Or.inr (Or.inr (Or.inr (Or.inr (Option.some.inj taken).symm)))
    · contradiction

/-- `sig_thread` does nothing of the main thread's, and puts nothing in flight. -/
theorem sigStep_elsewhere (taken : sigStep s = some s') :
    s'.progress = s.progress ∧ s'.inFlight = s.inFlight ∧ s'.unsignalled = s.unsignalled ∧
      s'.accepted = s.accepted := by
  cases sigStep_move taken with
  | take | stop | count => exact ⟨rfl, rfl, rfl, rfl⟩

/-- A completion does nothing of the threads'. -/
theorem complete_elsewhere (s : State) (entry : Entry) :
    (s.complete entry).progress = s.progress ∧ (s.complete entry).sig = s.sig ∧
      (s.complete entry).accepted = s.accepted ∧ (s.complete entry).received = s.received ∧
      (s.complete entry).inFlight = s.inFlight.erase entry := by
  unfold State.complete
  split <;> exact ⟨rfl, rfl, rfl, rfl, rfl⟩

/-- The main thread leaves the completions alone in every step but `lio_listio`, and no step of
its own ends the signal thread. -/
theorem mainStep_elsewhere (taken : mainStep cfg s = some s') :
    s'.sig = s.sig ∧ s'.inFlight = s.inFlight ∧ s'.unsignalled = s.unsignalled ∧
      s'.pending = s.pending ∧ s'.received = s.received ∧ s'.accepted = s.accepted ∧
      s'.lists = s.lists ∧ s'.submitted = s.submitted ∧
      (s'.main = .returned → s.sig = .exited) := by
  cases mainStep_move taken with
  | join control exited => exact ⟨rfl, rfl, rfl, rfl, rfl, rfl, rfl, rfl, fun _ => exited⟩
  | more | done | allocate | full | wake | free | freed =>
    exact ⟨rfl, rfl, rfl, rfl, rfl, rfl, rfl, rfl, by simp⟩

end Steps

section Loops

variable {cfg : Config}

/-- A predicate on the part of the main thread that its own steps and `lio_listio` keep holds in
every run. -/
theorem reachable_progress {ok : State → Act → Prop} (facts : Progress → Prop)
    (starts : facts State.start.progress)
    (steps : ∀ s s', (system cfg).Reachable ok s → facts s.progress →
      mainStep cfg s = some s' → facts s'.progress)
    (lists : ∀ s result i, (system cfg).Reachable ok s → ok s (.listio result) →
      s.main = .submit i → facts s.progress →
      facts { s.listio cfg result with main := .sleep i result.ret : State }.progress)
    {s : State} (reached : (system cfg).Reachable ok s) : facts s.progress := by
  apply reached.invariant
  · rintro first rfl
    exact starts
  · intro before act after prior holds admitted taken
    rcases step_cases taken with ⟨rfl, main⟩ | ⟨result, i, rfl, control, rfl⟩ | ⟨-, sig⟩ |
      ⟨entry, -, -, rfl⟩ | rfl
    · exact steps before after prior holds main
    · exact lists before result i prior admitted control holds
    · rw [(sigStep_elsewhere sig).1]
      exact holds
    · rw [(complete_elsewhere before entry).1]
      exact holds
    · exact holds

/-- Between two batches every block allocated is freed. -/
structure Between (cfg : Config) (p : Progress) : Prop where
  bound : p.lists * cfg.aioListioMax < loopLimit cfg.batches + cfg.aioListioMax
  allocated : p.allocated = p.lists * cfg.aioListioMax
  freed : p.freed = List.range (p.lists * cfg.aioListioMax)

/-- Within a batch the array holds the blocks allocated for it, and the blocks of the batches
before it are freed, with those of its own that the freeing loop has reached. -/
structure Within (cfg : Config) (p : Progress) (batch : Nat) (i : Int) (filled done : Nat) :
    Prop where
  counter : i = toInt (batch * cfg.aioListioMax : Nat)
  started : batch * cfg.aioListioMax < loopLimit cfg.batches
  allocated : p.allocated = batch * cfg.aioListioMax + filled
  array : ∀ k < filled, p.controlBlocks (k : Nat) = some (batch * cfg.aioListioMax + k)
  freed : p.freed = List.range (batch * cfg.aioListioMax + done)

/-- How far the main thread has come. -/
def LoopFacts (cfg : Config) (p : Progress) : Prop :=
  match p.main with
  | .outer i => i = toInt (p.lists * cfg.aioListioMax : Nat) ∧ Between cfg p
  | .inner i j => ∃ filled : Nat, j = filled ∧ filled ≤ cfg.aioListioMax ∧
      Within cfg p p.lists i filled 0
  | .submit i => Within cfg p p.lists i cfg.aioListioMax 0
  | .sleep i _ => ∃ batch, p.lists = batch + 1 ∧ Within cfg p batch i cfg.aioListioMax 0
  | .free i k => ∃ batch, ∃ done : Nat, p.lists = batch + 1 ∧ k = done ∧
      done ≤ cfg.aioListioMax ∧ Within cfg p batch i cfg.aioListioMax done
  | .join | .returned => loopLimit cfg.batches ≤ p.lists * cfg.aioListioMax ∧ Between cfg p

/-- Without iterations the outer loop has no limit to reach. -/
theorem loopLimit_of_none (none : cfg.iterations = 0) : loopLimit cfg.batches = 0 := by
  change min cfg.iterations (2 ^ 31) = 0
  rw [none, Nat.zero_min]

/-- A batch that has started in loops that end has a list that an `int` counts. -/
theorem Within.narrow (ends : cfg.Ends) {p : Progress} {batch filled done : Nat} {i : Int}
    (facts : Within cfg p batch i filled done) : cfg.aioListioMax < 2 ^ 31 := by
  rcases ends with none | narrow
  · have started := facts.started
    rw [loopLimit_of_none none] at started
    contradiction
  · exact narrow

/-- Between two batches the counter has passed the range of an `int` at most once. -/
theorem Between.range (ends : cfg.Ends) {p : Progress} (facts : Between cfg p) :
    p.lists * cfg.aioListioMax < 2 ^ 32 := by
  have limit : loopLimit cfg.batches ≤ 2 ^ 31 := Nat.min_le_right _ _
  have bound := facts.bound
  rcases ends with none | narrow
  · rw [loopLimit_of_none none, Nat.zero_add] at bound
    have few : p.lists < 1 := Nat.lt_of_mul_lt_mul_right (by rwa [Nat.one_mul])
    rw [Nat.lt_one_iff.mp few, Nat.zero_mul]
    decide
  · omega

/-- A filled array lists the blocks of its batch in order. -/
theorem Within.listed (ends : cfg.Ends) {s : State} {batch done : Nat} {i : Int}
    (facts : Within cfg s.progress batch i cfg.aioListioMax done) :
    s.listed cfg = (List.range cfg.aioListioMax).map (batch * cfg.aioListioMax + ·) := by
  have narrow := facts.narrow ends
  have nent : (toInt cfg.aioListioMax).toNat = cfg.aioListioMax := by
    rw [Aio.toInt_of_range (by omega) (by omega), Int.toNat_natCast]
  rw [State.listed, nent, List.filterMap_eq_map_iff_forall_eq_some]
  intro k member
  exact facts.array k (List.mem_range.mp member)

/-- Before `lio_listio` the array is full. -/
theorem LoopFacts.submit {s : State} {i : Int} (facts : LoopFacts cfg s.progress)
    (control : s.main = .submit i) :
    Within cfg s.progress s.lists i cfg.aioListioMax 0 := by
  have main : s.progress.main = .submit i := control
  simp only [LoopFacts, main] at facts
  exact facts

/-- Inside the allocating loop the array is filled up to the counter. -/
theorem LoopFacts.inner {s : State} {i j : Int} (facts : LoopFacts cfg s.progress)
    (control : s.main = .inner i j) :
    ∃ filled : Nat, j = filled ∧ filled ≤ cfg.aioListioMax ∧
      Within cfg s.progress s.lists i filled 0 := by
  have main : s.progress.main = .inner i j := control
  simp only [LoopFacts, main] at facts
  exact facts

/-- In a sleep the array belongs to the last list. -/
theorem LoopFacts.sleep {s : State} {i ret : Int} (facts : LoopFacts cfg s.progress)
    (control : s.main = .sleep i ret) :
    ∃ batch, s.lists = batch + 1 ∧ Within cfg s.progress batch i cfg.aioListioMax 0 := by
  have main : s.progress.main = .sleep i ret := control
  simp only [LoopFacts, main] at facts
  exact facts

/-- Inside the freeing loop the array is freed up to the counter. -/
theorem LoopFacts.free {s : State} {i k : Int} (facts : LoopFacts cfg s.progress)
    (control : s.main = .free i k) :
    ∃ batch, ∃ done : Nat, s.lists = batch + 1 ∧ k = done ∧ done ≤ cfg.aioListioMax ∧
      Within cfg s.progress batch i cfg.aioListioMax done := by
  have main : s.progress.main = .free i k := control
  simp only [LoopFacts, main] at facts
  exact facts

/-- At the outer test the counter shows the lists behind it. -/
theorem LoopFacts.outer {s : State} {i : Int} (facts : LoopFacts cfg s.progress)
    (control : s.main = .outer i) :
    i = toInt (s.lists * cfg.aioListioMax : Nat) ∧ Between cfg s.progress := by
  have main : s.progress.main = .outer i := control
  simp only [LoopFacts, main] at facts
  exact facts

/-- The outer test compares the blocks of the lists behind it with the limit. -/
theorem LoopFacts.outer_test (ends : cfg.Ends) {s : State} {i : Int}
    (facts : LoopFacts cfg s.progress) (control : s.main = .outer i) :
    toUnsignedLong i < cfg.iterations ↔
      s.lists * cfg.aioListioMax < loopLimit cfg.batches := by
  have ⟨counter, between⟩ := facts.outer control
  rw [counter]
  exact Aio.outer_test_iff cfg.batches (between.range ends)

/-- Behind the outer loop its limit is reached. -/
theorem LoopFacts.join {s : State} (facts : LoopFacts cfg s.progress) (control : s.main = .join) :
    loopLimit cfg.batches ≤ s.lists * cfg.aioListioMax ∧ Between cfg s.progress := by
  have main : s.progress.main = .join := control
  simp only [LoopFacts, main] at facts
  exact facts

/-- A block from `malloc` fills the next element of the array. -/
theorem Within.allocate {s : State} {batch filled : Nat} {i : Int}
    (facts : Within cfg s.progress batch i filled 0) (main : Main) :
    Within cfg { s.allocate filled with main := main : State }.progress batch i
      (filled + 1) 0 := by
  refine ⟨facts.counter, facts.started, congrArg (· + 1) facts.allocated, ?_, facts.freed⟩
  intro k below
  simp only [State.progress, State.allocate]
  by_cases last : k = filled
  · rw [if_pos (by omega), last]
    exact congrArg some facts.allocated
  · rw [if_neg (by omega)]
    exact facts.array k (by omega)

/-- `free` of the next element frees the next block. -/
theorem Within.free {s : State} {batch done : Nat} {i : Int}
    (facts : Within cfg s.progress batch i cfg.aioListioMax done)
    (left : done < cfg.aioListioMax) (main : Main) :
    Within cfg { s.free done with main := main : State }.progress batch i cfg.aioListioMax
      (done + 1) := by
  refine ⟨facts.counter, facts.started, facts.allocated, facts.array, ?_⟩
  have element : s.controlBlocks done = _ := facts.array done left
  have freed : s.freed = _ := facts.freed
  change s.freed ++ (s.controlBlocks done).toList = _
  rw [element, freed, ← Nat.add_assoc, List.range_succ]
  rfl

/-- Behind the freeing loop the batch is over. -/
theorem Within.ended {s : State} {batch : Nat} {i : Int} (lists : s.lists = batch + 1)
    (facts : Within cfg s.progress batch i cfg.aioListioMax cfg.aioListioMax) (main : Main) :
    toInt (i + cfg.aioListioMax) = toInt (s.lists * cfg.aioListioMax : Nat) ∧
      Between cfg { s with main := main : State }.progress := by
  have grown : s.lists * cfg.aioListioMax = batch * cfg.aioListioMax + cfg.aioListioMax := by
    rw [lists, Nat.succ_mul]
  have started := facts.started
  refine ⟨?_, ?_, facts.allocated.trans grown.symm, ?_⟩
  · rw [facts.counter, Aio.toInt_add_left, grown, Int.natCast_add]
  · change s.lists * cfg.aioListioMax < _
    omega
  · change s.freed = List.range (s.lists * cfg.aioListioMax)
    rw [grown]
    exact facts.freed

/-- A step of the main thread keeps the loops in step with the lists. -/
theorem mainStep_loopFacts (ends : cfg.Ends) {s s' : State} (facts : LoopFacts cfg s.progress)
    (taken : mainStep cfg s = some s') : LoopFacts cfg s'.progress := by
  cases mainStep_move taken with
  | more control more =>
    have ⟨counter, between⟩ := facts.outer control
    refine ⟨0, rfl, Nat.zero_le _, counter, (facts.outer_test ends control).mp more,
      between.allocated, ?_, between.freed⟩
    exact fun k impossible => absurd impossible (Nat.not_lt_zero k)
  | done control done =>
    have ⟨counter, between⟩ := facts.outer control
    rw [facts.outer_test ends control, Nat.not_lt] at done
    exact ⟨done, between.bound, between.allocated, between.freed⟩
  | allocate control room =>
    have ⟨filled, counted, most, within⟩ := facts.inner control
    have narrow := within.narrow ends
    subst counted
    have next : toInt (filled + 1) = (filled + 1 : Nat) := Aio.toInt_succ (by omega)
    exact ⟨filled + 1, next, by omega, within.allocate _⟩
  | full control full =>
    have ⟨filled, counted, most, within⟩ := facts.inner control
    obtain rfl : filled = cfg.aioListioMax := by omega
    exact ⟨within.counter, within.started, within.allocated, within.array, within.freed⟩
  | wake control =>
    have ⟨batch, lists, within⟩ := facts.sleep control
    exact ⟨batch, 0, lists, rfl, Nat.zero_le _, within.counter, within.started,
      within.allocated, within.array, within.freed⟩
  | free control left =>
    have ⟨batch, done, lists, counted, most, within⟩ := facts.free control
    have narrow := within.narrow ends
    subst counted
    have next : toInt (done + 1) = (done + 1 : Nat) := Aio.toInt_succ (by omega)
    exact ⟨batch, done + 1, lists, next, by omega, within.free (by omega) _⟩
  | freed control all =>
    have ⟨batch, done, lists, counted, most, within⟩ := facts.free control
    obtain rfl : done = cfg.aioListioMax := by omega
    exact within.ended lists _
  | join control =>
    have ⟨least, between⟩ := facts.join control
    exact ⟨least, between.bound, between.allocated, between.freed⟩

/-- The loops are in step with the lists in every run, whatever the completions do. -/
theorem reachable_loopFacts (ends : cfg.Ends) {ok : State → Act → Prop} {s : State}
    (reached : (system cfg).Reachable ok s) : LoopFacts cfg s.progress := by
  apply reachable_progress (LoopFacts cfg) _ _ _ reached
  · have positive := cfg.aioListioMax_pos
    refine ⟨?_, ?_, ?_, ?_⟩
    · simp [State.start, State.progress]
      rfl
    · simp only [State.start, State.progress]
      omega
    · simp [State.start, State.progress]
    · simp [State.start, State.progress]
  · exact fun _ _ _ facts taken => mainStep_loopFacts ends facts taken
  · intro before result i _ _ control facts
    have within := facts.submit control
    cases result <;>
      exact ⟨before.lists, rfl, within.counter, within.started, within.allocated, within.array,
        within.freed⟩

/-- The main thread is in its first allocating loop, and has submitted and freed nothing. -/
structure Allocating (p : Progress) : Prop where
  control : p.main = .outer 0 ∨ ∃ i j, p.main = .inner i j ∧ j < 2 ^ 31
  lists : p.lists = 0
  submitted : p.submitted = 0
  freed : p.freed = []

/-- The main thread never leaves its first allocating loop when the loops do not end. -/
theorem reachable_allocating (endless : ¬ cfg.Ends) {ok : State → Act → Prop} {s : State}
    (reached : (system cfg).Reachable ok s) : Allocating s.progress := by
  rw [Config.Ends, not_or, Nat.not_lt] at endless
  have ⟨nonempty, wide⟩ := endless
  apply reachable_progress Allocating _ _ _ reached
  · exact ⟨Or.inl rfl, rfl, rfl, rfl⟩
  · intro before after _ facts taken
    have ⟨control, lists, submitted, freed⟩ := facts
    rcases control with control | ⟨i, j, control, range⟩
    · change before.main = _ at control
      have more : toUnsignedLong 0 < cfg.iterations := Nat.pos_of_ne_zero nonempty
      simp only [mainStep, control, if_pos more, Option.some.injEq] at taken
      subst taken
      exact ⟨Or.inr ⟨0, 0, rfl, by decide⟩, lists, submitted, freed⟩
    · change before.main = _ at control
      simp only [mainStep, control, if_pos (show j < cfg.aioListioMax by omega),
        Option.some.injEq] at taken
      subst taken
      exact ⟨Or.inr ⟨i, _, rfl, (Aio.toInt_range _).2⟩, lists, submitted, freed⟩
  · intro before result i _ _ control facts
    rcases facts.control with impossible | ⟨i, j, impossible, _⟩
    · change before.main = _ at impossible
      rw [control] at impossible
      contradiction
    · change before.main = _ at impossible
      rw [control] at impossible
      contradiction

end Loops

section Signals

variable {cfg : Config}

/-- A list whose signal is to be sent has an entry in flight, the signal of every list taken on
is to be sent, pending or received, and `sig_thread` goes on because no `MYSIG_STOP` is sent. -/
structure SignalFacts (s : State) : Prop where
  flying : ∀ list ∈ s.unsignalled, ∃ entry ∈ s.inFlight, entry.list = list
  sent : ∀ list ∈ s.accepted,
    list ∈ s.unsignalled ∨ .aioComplete list ∈ s.pending ∨ list ∈ s.received
  running : s.sig ≠ .exited
  unstopped : .stop ∉ s.pending

/-- With nothing in flight every signal has been sent. -/
theorem SignalFacts.signalled {s : State} (facts : SignalFacts s) (landed : s.inFlight = []) :
    s.unsignalled = [] := by
  apply List.eq_nil_iff_forall_not_mem.mpr
  intro list unsent
  have ⟨entry, flying, _⟩ := facts.flying list unsent
  rw [landed] at flying
  contradiction

/-- `sig_thread` takes signals and counts them. -/
theorem sigStep_signalFacts {s s' : State} (facts : SignalFacts s)
    (taken : sigStep s = some s') : SignalFacts s' := by
  have ⟨flying, sent, running, unstopped⟩ := facts
  cases sigStep_move taken with
  | @take list rest control queue =>
    refine ⟨flying, ?_, by simp, fun member => unstopped ?_⟩
    · intro other member
      have places := sent other member
      rw [queue, List.mem_cons] at places
      rcases places with unsent | (same | waiting) | received
      · exact Or.inl unsent
      · cases same
        exact Or.inr (Or.inr (List.mem_append_right _ List.mem_cons_self))
      · exact Or.inr (Or.inl waiting)
      · exact Or.inr (Or.inr (List.mem_append_left _ received))
    · rw [queue]
      exact List.mem_cons_of_mem _ member
  | stop control queue =>
    rw [queue] at unstopped
    exact absurd List.mem_cons_self unstopped
  | count control => exact ⟨flying, sent, by simp, unstopped⟩

/-- A completion leaves an entry of the list in flight, or sends the signal of the list. -/
theorem complete_signalFacts {s : State} (facts : SignalFacts s) (entry : Entry) :
    SignalFacts (s.complete entry) := by
  have ⟨flying, sent, running, unstopped⟩ := facts
  unfold State.complete
  split
  · refine ⟨?_, ?_, running, by simpa using unstopped⟩
    · intro list member
      have ⟨unsent, other⟩ := List.mem_filter.mp member
      have ⟨witness, among, same⟩ := flying list unsent
      have apart : witness ≠ entry := by
        rintro rfl
        simp [same] at other
      exact ⟨witness, (List.mem_erase_of_ne apart).mpr among, same⟩
    · intro list member
      rcases sent list member with unsent | waiting | received
      · by_cases same : list = entry.list
        · rw [same]
          exact Or.inr (Or.inl (List.mem_append_right _ List.mem_cons_self))
        · exact Or.inl (List.mem_filter.mpr ⟨unsent, by simpa using same⟩)
      · exact Or.inr (Or.inl (List.mem_append_left _ waiting))
      · exact Or.inr (Or.inr received)
  · rename_i others
    refine ⟨?_, sent, running, unstopped⟩
    intro list unsent
    have ⟨witness, among, same⟩ := flying list unsent
    by_cases apart : witness = entry
    · -- another entry of the list stays in flight, since the signal is not sent
      subst apart
      rw [same] at others
      by_contra none
      exact others ⟨unsent, fun other left equal => none ⟨other, left, equal⟩⟩
    · exact ⟨witness, (List.mem_erase_of_ne apart).mpr among, same⟩

/-- `lio_listio` puts an entry of every list that it takes on in flight. -/
theorem listio_signalFacts {s : State} (facts : SignalFacts s) (filled : s.listed cfg ≠ [])
    (result : Listio) : SignalFacts (s.listio cfg result) := by
  have ⟨flying, sent, running, unstopped⟩ := facts
  cases result with
  | success =>
    refine ⟨?_, ?_, running, unstopped⟩
    · intro list member
      rcases List.mem_append.mp member with unsent | fresh
      · have ⟨entry, among, same⟩ := flying list unsent
        exact ⟨entry, List.mem_append_left _ among, same⟩
      · have ⟨block, listed⟩ := List.exists_mem_of_ne_nil _ filled
        refine ⟨⟨s.lists, block⟩, ?_, (List.mem_singleton.mp fresh).symm⟩
        exact List.mem_append_right _ (List.mem_map_of_mem listed)
    · intro list member
      rcases List.mem_append.mp member with earlier | fresh
      · rcases sent list earlier with unsent | elsewhere
        · exact Or.inl (List.mem_append_left _ unsent)
        · exact Or.inr elsewhere
      · exact Or.inl (List.mem_append_right _ fresh)
  | failure queued =>
    refine ⟨?_, sent, running, unstopped⟩
    intro list unsent
    have ⟨entry, among, same⟩ := flying list unsent
    exact ⟨entry, List.mem_append_left _ among, same⟩

/-- The signals are accounted for in every run. -/
theorem reachable_signalFacts (ends : cfg.Ends) {ok : State → Act → Prop} {s : State}
    (reached : (system cfg).Reachable ok s) : SignalFacts s := by
  apply reached.invariant
  · rintro first rfl
    exact ⟨by simp [State.start], by simp [State.start], by simp [State.start],
      by simp [State.start]⟩
  · intro before act after prior facts _ taken
    rcases step_cases taken with ⟨-, main⟩ | ⟨result, i, -, control, rfl⟩ | ⟨-, sig⟩ |
      ⟨entry, -, -, rfl⟩ | rfl
    · have ⟨sig, inFlight, unsignalled, pending, received, accepted, _⟩ :=
        mainStep_elsewhere main
      have ⟨flying, sent, running, unstopped⟩ := facts
      rw [← inFlight, ← unsignalled] at flying
      rw [← accepted, ← unsignalled, ← pending, ← received] at sent
      rw [← sig] at running
      rw [← pending] at unstopped
      exact ⟨flying, sent, running, unstopped⟩
    · have loop := (reachable_loopFacts ends prior).submit control
      have filled : before.listed cfg ≠ [] := by
        rw [loop.listed ends]
        simpa using Nat.ne_of_gt cfg.aioListioMax_pos
      have ⟨flying, sent, running, unstopped⟩ := listio_signalFacts facts filled result
      exact ⟨flying, sent, running, unstopped⟩
    · exact sigStep_signalFacts facts sig
    · exact complete_signalFacts facts entry
    · exact facts

/-- `lio_listio_test` never returns, since `sig_thread` never ends. -/
theorem reachable_unreturned (ends : cfg.Ends) {ok : State → Act → Prop} {s : State}
    (reached : (system cfg).Reachable ok s) : s.main ≠ .returned := by
  apply reachable_progress (fun p => p.main ≠ .returned) _ _ _ reached
  · simp [State.start, State.progress]
  · intro before after prior _ taken returned
    have ⟨_, _, _, _, _, _, _, _, joined⟩ := mainStep_elsewhere taken
    exact (reachable_signalFacts ends prior).running (joined returned)
  · intro before result i _ _ _ _
    simp [State.progress]

end Signals

end PerfVerif.Lio
