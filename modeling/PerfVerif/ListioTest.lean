import PerfVerif.Aio.Submission

/-!
# `aio_listio_test`

The program submits lists of 18 writes with `LIO_WAIT`, so that `lio_listio` returns only when the
whole list is done. It returns 0 when all the writes have succeeded; else the program ends with 1 at
once. A list may not be queued as a whole, a write may fail, and a signal may interrupt the wait.
The header of the loop is that of `aio_write_test`, with the length of a list for the batch size.
-/

namespace PerfVerif.ListioTest

open Transition
open Aio (Config toInt toUnsignedLong loopLimit wholeBatches)

/-- Where the program is. -/
inductive Main where
  /-- At the test of the outer loop. -/
  | outer (i : Int)
  /-- At the test of the loop that fills `control_blocks`. -/
  | inner (i j : Int)
  /-- Before `lio_listio`. -/
  | submit (i : Int)
  /-- In `lio_listio`, with the list queued. -/
  | listio (i : Int)
  /-- Behind `control_blocks.clear()`, before `i += 18`. -/
  | cleared (i : Int)
  /-- Before `close`. -/
  | close
  | returned (code : Nat)
  deriving DecidableEq, Repr

/-- The control point, the list and the writes. -/
structure State where
  main : Main
  /-- `control_blocks.size()`. -/
  listed : Nat
  /-- Writes that have been queued and are not done. -/
  inFlight : Nat
  /-- Writes of the list that have failed. -/
  failed : Nat
  /-- Writes that have succeeded. -/
  written : Nat
  /-- Lists for which `lio_listio` has returned 0. -/
  lists : Nat
  deriving DecidableEq, Repr

/-- What can happen next. -/
inductive Act where
  | main
  /-- `lio_listio` queues this many of the writes; fewer than all make it fail. -/
  | queue (count : Nat)
  /-- A write is done, and succeeds or fails. -/
  | complete (succeeds : Bool)
  /-- A signal interrupts `lio_listio`. -/
  | interrupt
  deriving DecidableEq, Repr

/-- The next step of the program, unless it waits for the list. -/
def mainStep (cfg : Config) (s : State) : Option State :=
  match s.main with
  | .outer i =>
    if toUnsignedLong i < cfg.iterations then some { s with main := .inner i 0 }
    else some { s with main := .close }
  | .inner i j =>
    if j < cfg.maxAios then
      some { s with main := .inner i (toInt (j + 1)), listed := s.listed + 1 }
    else some { s with main := .submit i }
  | .submit _ => none
  | .listio i =>
    if s.inFlight = 0 then
      if s.failed = 0 then some { s with main := .cleared i, listed := 0, lists := s.lists + 1 }
      else some { s with main := .returned 1 }
    else none
  | .cleared i => some { s with main := .outer (toInt (i + cfg.maxAios)) }
  | .close => some { s with main := .returned 0 }
  | .returned _ => none

/-- One action. -/
def step (cfg : Config) (s : State) : Act → Option State
  | .main => mainStep cfg s
  | .queue count =>
    match s.main with
    | .submit i =>
      if count = s.listed then some { s with main := .listio i, inFlight := s.inFlight + count }
      else if count < s.listed then
        some { s with main := .returned 1, inFlight := s.inFlight + count }
      else none
    | _ => none
  | .complete succeeds =>
    if s.inFlight = 0 then none
    else if succeeds then some { s with inFlight := s.inFlight - 1, written := s.written + 1 }
    else some { s with inFlight := s.inFlight - 1, failed := s.failed + 1 }
  | .interrupt =>
    match s.main with
    | .listio _ => some { s with main := .returned 1 }
    | _ => none

/-- The start of the loop. -/
def State.start : State := ⟨.outer 0, 0, 0, 0, 0, 0⟩

/-- The program, with the iterations and the length of a list. -/
def system (cfg : Config) : System State Act where
  init s := s = .start
  step := step cfg

/-- `2 ^ 32 / 8192` iterations in lists of 18. -/
def program : Config := ⟨4 * 1024 * 1024 * 1024 / 8192, 18, by decide, by decide, by decide⟩

/-- How far the loop has come. Nothing is in flight but while `lio_listio` has a list, or behind a
return with 1. -/
def At (cfg : Config) (s : State) : Main → Prop
  | .outer i => i = toInt (s.lists * cfg.maxAios : Nat) ∧
      s.lists * cfg.maxAios < loopLimit cfg + cfg.maxAios ∧ s.listed = 0 ∧ s.inFlight = 0 ∧
      s.failed = 0 ∧ s.written = s.lists * cfg.maxAios
  | .inner i j => i = toInt (s.lists * cfg.maxAios : Nat) ∧ s.lists * cfg.maxAios < loopLimit cfg ∧
      j = s.listed ∧ s.listed ≤ cfg.maxAios ∧ s.inFlight = 0 ∧ s.failed = 0 ∧
      s.written = s.lists * cfg.maxAios
  | .submit i => i = toInt (s.lists * cfg.maxAios : Nat) ∧ s.lists * cfg.maxAios < loopLimit cfg ∧
      s.listed = cfg.maxAios ∧ s.inFlight = 0 ∧ s.failed = 0 ∧
      s.written = s.lists * cfg.maxAios
  | .listio i => i = toInt (s.lists * cfg.maxAios : Nat) ∧ s.lists * cfg.maxAios < loopLimit cfg ∧
      s.inFlight + s.failed + s.written = s.lists * cfg.maxAios + cfg.maxAios
  | .cleared i => ∃ before, s.lists = before + 1 ∧ i = toInt (before * cfg.maxAios : Nat) ∧
      before * cfg.maxAios < loopLimit cfg ∧ s.listed = 0 ∧ s.inFlight = 0 ∧ s.failed = 0 ∧
      s.written = s.lists * cfg.maxAios
  | .close | .returned 0 => loopLimit cfg ≤ s.lists * cfg.maxAios ∧
      s.lists * cfg.maxAios < loopLimit cfg + cfg.maxAios ∧ s.inFlight = 0 ∧ s.failed = 0 ∧
      s.written = s.lists * cfg.maxAios
  | .returned _ => True

/-- The lists behind the loop have succeeded, and no more than one list is outstanding. -/
structure Facts (cfg : Config) (s : State) : Prop where
  control : At cfg s s.main
  behind : s.lists * cfg.maxAios ≤ s.written
  most : s.inFlight + s.failed + s.written ≤ s.lists * cfg.maxAios + cfg.maxAios

section Steps

variable {cfg : Config} {s s' : State}

/-- A step of the program keeps the facts. -/
theorem mainStep_facts (narrow : cfg.maxAios < 2 ^ 31) (facts : Facts cfg s)
    (taken : mainStep cfg s = some s') : Facts cfg s' := by
  have limit : loopLimit cfg ≤ 2 ^ 31 := Nat.min_le_right _ _
  have ⟨place, behind, most⟩ := facts
  unfold mainStep at taken
  cases control : s.main with
  | outer i =>
    rw [control] at place taken
    have ⟨counter, bound, listed, landed, sound, written⟩ := place
    have tested := Aio.outer_test_iff cfg (show s.lists * cfg.maxAios < 2 ^ 32 by omega)
    rw [← counter] at tested
    dsimp only at taken
    split at taken
    · rename_i more
      cases taken
      refine ⟨⟨counter, tested.mp more, ?_, ?_, landed, sound, written⟩, behind, most⟩
      · rw [listed]
        rfl
      · rw [listed]
        exact Nat.zero_le _
    · rename_i done
      cases taken
      exact ⟨⟨Nat.le_of_not_lt (mt tested.mpr done), bound, landed, sound, written⟩, behind, most⟩
  | inner i j =>
    rw [control] at place taken
    have ⟨counter, started, size, few, landed, sound, written⟩ := place
    dsimp only at taken
    split at taken
    · rename_i room
      cases taken
      have next : toInt (j + 1) = j + 1 := Aio.toInt_of_range (by omega) (by omega)
      refine ⟨⟨counter, started, ?_, ?_, landed, sound, written⟩, behind, most⟩
      · change toInt (j + 1) = ((s.listed + 1 : Nat) : Int)
        omega
      · change s.listed + 1 ≤ cfg.maxAios
        omega
    · have full : s.listed = cfg.maxAios := by omega
      cases taken
      exact ⟨⟨counter, started, full, landed, sound, written⟩, behind, most⟩
  | submit i =>
    rw [control] at taken
    contradiction
  | listio i =>
    rw [control] at place taken
    have ⟨counter, started, balance⟩ := place
    dsimp only at taken
    split at taken
    · rename_i landed
      split at taken
      · rename_i sound
        cases taken
        have grown : (s.lists + 1) * cfg.maxAios = s.lists * cfg.maxAios + cfg.maxAios :=
          Nat.succ_mul _ _
        have written : s.written = (s.lists + 1) * cfg.maxAios := by omega
        refine ⟨⟨s.lists, rfl, counter, started, rfl, landed, sound, written⟩,
          Nat.le_of_eq written.symm, ?_⟩
        change s.inFlight + s.failed + s.written ≤ (s.lists + 1) * cfg.maxAios + cfg.maxAios
        omega
      · cases taken
        exact ⟨trivial, behind, most⟩
    · contradiction
  | cleared i =>
    rw [control] at place taken
    have ⟨before, lists, counter, started, listed, landed, sound, written⟩ := place
    cases taken
    have grown : s.lists * cfg.maxAios = before * cfg.maxAios + cfg.maxAios := by
      rw [lists, Nat.succ_mul]
    refine ⟨⟨?_, ?_, listed, landed, sound, written⟩, behind, most⟩
    · change toInt (i + cfg.maxAios) = toInt (s.lists * cfg.maxAios : Nat)
      rw [counter, Aio.toInt_add_left, grown, Int.natCast_add]
    · change s.lists * cfg.maxAios < loopLimit cfg + cfg.maxAios
      omega
  | close =>
    rw [control] at place taken
    cases taken
    exact ⟨place, behind, most⟩
  | returned code =>
    rw [control] at taken
    contradiction

/-- A call of `lio_listio` keeps the facts. -/
theorem queue_facts {count : Nat} (facts : Facts cfg s)
    (taken : step cfg s (.queue count) = some s') : Facts cfg s' := by
  have ⟨place, behind, most⟩ := facts
  simp only [step] at taken
  split at taken
  · rename_i i control
    rw [control] at place
    have ⟨counter, started, full, landed, sound, written⟩ := place
    split at taken
    · rename_i whole
      cases taken
      have balance : s.inFlight + count + s.failed + s.written =
          s.lists * cfg.maxAios + cfg.maxAios := by omega
      exact ⟨⟨counter, started, balance⟩, behind, Nat.le_of_eq balance⟩
    · have ⟨part, same⟩ := Option.ite_none_right_eq_some.mp taken
      cases same
      refine ⟨trivial, behind, ?_⟩
      change s.inFlight + count + s.failed + s.written ≤ s.lists * cfg.maxAios + cfg.maxAios
      omega
  · contradiction

/-- The end of a write keeps the facts. -/
theorem complete_facts {succeeds : Bool} (facts : Facts cfg s)
    (taken : step cfg s (.complete succeeds) = some s') : Facts cfg s' := by
  have ⟨place, behind, most⟩ := facts
  have ⟨flying, same⟩ := Option.ite_none_left_eq_some.mp taken
  -- something is in flight only in `lio_listio`, or behind a return with 1
  have kept : ∀ after : State, after.main = s.main → after.lists = s.lists →
      after.inFlight + after.failed + after.written = s.inFlight + s.failed + s.written →
      s.written ≤ after.written → Facts cfg after := by
    intro after main lists balance more
    refine ⟨?_, ?_, ?_⟩
    · rw [main]
      cases control : s.main with
      | listio i =>
        rw [control] at place
        have ⟨counter, started, all⟩ := place
        exact ⟨lists ▸ counter, lists ▸ started, by rw [lists, balance, all]⟩
      | returned code =>
        cases code with
        | zero =>
          rw [control] at place
          exact absurd place.2.2.1 flying
        | succ code => trivial
      | outer i =>
        rw [control] at place
        exact absurd place.2.2.2.1 flying
      | inner i j =>
        rw [control] at place
        exact absurd place.2.2.2.2.1 flying
      | submit i =>
        rw [control] at place
        exact absurd place.2.2.2.1 flying
      | cleared i =>
        rw [control] at place
        have ⟨_, _, _, _, _, landed, _⟩ := place
        exact absurd landed flying
      | close =>
        rw [control] at place
        exact absurd place.2.2.1 flying
    · rw [lists]
      omega
    · rw [lists]
      omega
  cases succeeds with
  | true =>
    cases same
    apply kept
    all_goals dsimp only
    all_goals omega
  | false =>
    cases same
    apply kept
    all_goals dsimp only
    all_goals omega

/-- A signal keeps the facts. -/
theorem interrupt_facts (facts : Facts cfg s) (taken : step cfg s .interrupt = some s') :
    Facts cfg s' := by
  simp only [step] at taken
  split at taken
  · cases taken
    exact ⟨trivial, facts.behind, facts.most⟩
  · contradiction

end Steps

section Runs

variable {cfg : Config} {s : State}

/-- The facts hold in every run. -/
theorem reachable_facts (narrow : cfg.maxAios < 2 ^ 31)
    (reached : (system cfg).Reachable System.always s) : Facts cfg s := by
  have positive := cfg.maxAios_pos
  have zero : (0 : Int) = toInt (0 : Nat) := by decide
  apply reached.invariant
  · rintro first rfl
    refine ⟨⟨?_, ?_, rfl, rfl, rfl, ?_⟩, ?_, ?_⟩
    all_goals simp only [State.start, Nat.zero_mul]
    · exact zero
    · omega
    · exact Nat.le_refl _
    · exact Nat.zero_le _
  · intro before act after _ facts _ taken
    cases act with
    | main => exact mainStep_facts narrow facts taken
    | queue count => exact queue_facts facts taken
    | complete succeeds => exact complete_facts facts taken
    | interrupt => exact interrupt_facts facts taken

/-- The steps of the runs in which every list is queued as a whole, no write fails and no signal
interrupts the wait. -/
def Succeeds (s : State) : Act → Prop
  | .main => True
  | .queue count => count = s.listed
  | .complete succeeds => succeeds = true
  | .interrupt => False

/-- Without failures the program does not return 1. -/
theorem reachable_clean (reached : (system cfg).Reachable Succeeds s) :
    s.failed = 0 ∧ ∀ code, s.main = .returned code → code = 0 := by
  apply reached.invariant
  · rintro first rfl
    exact ⟨rfl, fun _ => nofun⟩
  · rintro before act after _ ⟨sound, clean⟩ admitted taken
    cases act with
    | main =>
      change mainStep cfg before = some after at taken
      unfold mainStep at taken
      split at taken
      · split at taken
        all_goals
          cases taken
          exact ⟨sound, fun _ => nofun⟩
      · split at taken
        all_goals
          cases taken
          exact ⟨sound, fun _ => nofun⟩
      · contradiction
      · split at taken
        · cases taken
          exact ⟨sound, fun _ => nofun⟩
        · contradiction
      · cases taken
        exact ⟨sound, fun _ => nofun⟩
      · cases taken
        refine ⟨sound, ?_⟩
        rintro code ⟨⟩
        rfl
      · contradiction
    | queue count =>
      have whole : count = before.listed := admitted
      change step cfg before (.queue count) = some after at taken
      simp only [step] at taken
      split at taken
      · rw [if_pos whole] at taken
        cases taken
        exact ⟨sound, fun _ => nofun⟩
      · contradiction
    | complete succeeds =>
      have well : succeeds = true := admitted
      have ⟨_, same⟩ := Option.ite_none_left_eq_some.mp taken
      rw [if_pos well] at same
      cases same
      exact ⟨sound, clean⟩
    | interrupt => exact admitted.elim

/-- The lists that the loop submits. -/
def rounds (cfg : Config) : Nat := (loopLimit cfg + cfg.maxAios - 1) / cfg.maxAios

/-- How many steps are left at most, with a list taking twice its length and five. -/
def stepsLeft (cfg : Config) (s : State) : Nat :=
  let round := 2 * cfg.maxAios + 5
  match s.main with
  | .outer _ => (rounds cfg - s.lists) * round + 3
  | .inner _ _ => (rounds cfg - (s.lists + 1)) * round + 3 + (2 * cfg.maxAios + 4 - s.listed)
  | .submit _ => (rounds cfg - (s.lists + 1)) * round + 3 + (cfg.maxAios + 3)
  | .listio _ => (rounds cfg - (s.lists + 1)) * round + 3 + (s.inFlight + 2)
  | .cleared _ => (rounds cfg - s.lists) * round + 4
  | .close => 2
  | .returned _ => 0

/-- Without failures every state short of the return with 0 has a step that brings it nearer. -/
theorem stepsLeft_falls (narrow : cfg.maxAios < 2 ^ 31)
    (reached : (system cfg).Reachable Succeeds s) (short : s.main ≠ .returned 0) :
    ∃ act after, Succeeds s act ∧ step cfg s act = some after ∧
      stepsLeft cfg after < stepsLeft cfg s := by
  have ⟨place, behind, most⟩ := reachable_facts narrow (reached.mono fun _ _ _ => trivial)
  have ⟨sound, clean⟩ := reachable_clean reached
  have limit : loopLimit cfg ≤ 2 ^ 31 := Nat.min_le_right _ _
  cases control : s.main with
  | outer i =>
    rw [control] at place
    have ⟨counter, bound, _⟩ := place
    have tested := Aio.outer_test_iff cfg (show s.lists * cfg.maxAios < 2 ^ 32 by omega)
    rw [← counter] at tested
    by_cases more : toUnsignedLong i < cfg.iterations
    · refine ⟨.main, { s with main := .inner i 0 }, trivial, ?_, ?_⟩
      · simp only [step, mainStep, control, if_pos more]
      · have started := Aio.next_batch_le (tested.mp more)
        have next : s.lists + 1 ≤ rounds cfg := by
          apply Nat.le_of_mul_le_mul_right _ cfg.maxAios_pos
          rw [Nat.succ_mul]
          exact started
        have round : rounds cfg - s.lists = rounds cfg - (s.lists + 1) + 1 := by omega
        simp only [stepsLeft, control, round, Nat.succ_mul]
        omega
    · refine ⟨.main, { s with main := .close }, trivial, ?_, ?_⟩
      · simp only [step, mainStep, control, if_neg more]
      · simp only [stepsLeft, control]
        omega
  | inner i j =>
    rw [control] at place
    have ⟨_, _, size, few, _⟩ := place
    by_cases room : j < cfg.maxAios
    · refine ⟨.main, { s with main := .inner i (toInt (j + 1)), listed := s.listed + 1 },
        trivial, ?_, ?_⟩
      · simp only [step, mainStep, control, if_pos room]
      · simp only [stepsLeft, control]
        omega
    · refine ⟨.main, { s with main := .submit i }, trivial, ?_, ?_⟩
      · simp only [step, mainStep, control, if_neg room]
      · simp only [stepsLeft, control]
        omega
  | submit i =>
    rw [control] at place
    have ⟨_, _, full, landed, _⟩ := place
    refine ⟨.queue s.listed, { s with main := .listio i, inFlight := s.inFlight + s.listed },
      rfl, ?_, ?_⟩
    · simp only [step, control, if_true]
    · simp only [stepsLeft, control]
      omega
  | listio i =>
    by_cases landed : s.inFlight = 0
    · refine ⟨.main, { s with main := .cleared i, listed := 0, lists := s.lists + 1 },
        trivial, ?_, ?_⟩
      · simp only [step, mainStep, control, if_pos landed, if_pos sound]
      · simp only [stepsLeft, control]
        omega
    · refine ⟨.complete true, { s with inFlight := s.inFlight - 1, written := s.written + 1 },
        rfl, ?_, ?_⟩
      · simp only [step, if_neg landed, if_true]
      · simp only [stepsLeft, control]
        omega
  | cleared i =>
    refine ⟨.main, { s with main := .outer (toInt (i + cfg.maxAios)) }, trivial, ?_, ?_⟩
    · simp only [step, mainStep, control]
    · simp only [stepsLeft, control]
      omega
  | close =>
    refine ⟨.main, { s with main := .returned 0 }, trivial, ?_, ?_⟩
    · simp only [step, mainStep, control]
    · simp only [stepsLeft, control]
      omega
  | returned code => exact absurd (clean code control ▸ control) short

end Runs

/-- In every run, whatever becomes of the lists and writes: a list is filled and submitted only when
all the lists before it have succeeded, so the writes outstanding are never more than one list; and
when the program returns 0, nothing is in flight, nothing has failed, and the whole lists are
written. -/
theorem lists_apart (cfg : Config) (narrow : cfg.maxAios < 2 ^ 31) (s : State)
    (reached : (system cfg).Reachable System.always s) :
    s.lists * cfg.maxAios ≤ s.written ∧
      s.inFlight + s.failed + s.written ≤ s.lists * cfg.maxAios + cfg.maxAios ∧
      (∀ i j, s.main = .inner i j →
        s.inFlight = 0 ∧ s.failed = 0 ∧ s.written = s.lists * cfg.maxAios) ∧
      (s.main = .returned 0 → s.inFlight = 0 ∧ s.failed = 0 ∧ s.written = wholeBatches cfg) := by
  have ⟨place, behind, most⟩ := reachable_facts narrow reached
  refine ⟨behind, most, ?_, ?_⟩
  · intro i j control
    rw [control] at place
    have ⟨_, _, _, _, landed, sound, written⟩ := place
    exact ⟨landed, sound, written⟩
  · intro returned
    rw [returned] at place
    have ⟨least, bound, landed, sound, written⟩ := place
    exact ⟨landed, sound, written.trans (Aio.eq_wholeBatches least bound)⟩

/-- With the constants of the source the program writes 16 blocks more than iterations. -/
theorem lists_apart_program : ∃ s, (system program).Reachable System.always s ∧
    s.main = .returned 0 ∧ s.written = program.iterations + 16 := by
  have start : (system program).Reachable Succeeds .start := .start rfl
  obtain ⟨s, path, returned⟩ := System.leads_to_goal (stepsLeft program)
    (fun _ => stepsLeft_falls (by decide)) start
  have reached : (system program).Reachable System.always s :=
    (start.leads path).mono fun _ _ _ => trivial
  have ⟨_, _, _, finished⟩ := lists_apart program (by decide) s reached
  exact ⟨s, reached, returned, (finished returned).2.2⟩

/-- Where nothing fails, every run of the program can go on until it returns 0. -/
theorem returns_zero (cfg : Config) (narrow : cfg.maxAios < 2 ^ 31) (s : State)
    (reached : (system cfg).Reachable Succeeds s) :
    ∃ after, (system cfg).Leads Succeeds s after ∧ after.main = .returned 0 :=
  System.leads_to_goal (stepsLeft cfg) (fun _ => stepsLeft_falls narrow) reached

/-- Where nothing fails, the program can run from its start to the return of 0. -/
theorem returns_zero_program :
    ∃ after, (system program).Leads Succeeds .start after ∧ after.main = .returned 0 :=
  returns_zero program (by decide) .start (.start rfl)

end PerfVerif.ListioTest
