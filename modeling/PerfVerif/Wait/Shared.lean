import PerfVerif.Pipe.Invariant
import PerfVerif.Wait.Deadline

/-!
# A reader that waits on a live pipe

`wait` polls: it evaluates `isEmpty() && isReaderRunning_` and sleeps between two tests, with no
lock and no wake-up from the writer. Here its tests look at the pipe while the writer and the
thread in control of it go on. Only the reader moves `readVPtr_`, so a pipe that is not empty stays
so, and a reader that is stopped stays so unless somebody restarts it; hence nothing that happens
between a test and a sleep is lost, and the call ends within a few of its own steps.
-/

namespace PerfVerif.Wait

open Transition

/-- A pipe with its other threads, and a reader in `wait`. -/
structure Shared where
  pipe : Pipe.State
  /-- `isReaderRunning_`. -/
  isReaderRunning : Bool
  wait : State
  /-- What `isEmpty()` has returned in the test in progress. -/
  empty : Option Bool
  /-- Steps of the reader so far, and how many of them slept. -/
  steps : Nat
  sleeps : Nat

/-- A step of another thread, or of the reader. -/
inductive SharedAct where
  | pipe (act : Pipe.Act)
  | stopReader
  | startReader
  /-- `isEmpty()` in the test of a loop. -/
  | testEmpty
  /-- The rest of this test. -/
  | testRunning
  /-- A step of `wait` that tests nothing. -/
  | own (act : Act)
  deriving DecidableEq

/-- Whether the next step of `wait` sleeps. -/
def Control.sleeps : Control → Bool
  | .foreverBody | .body | .short => true
  | _ => false

/-- One step. The reader reads nothing while it waits. -/
def sharedStep (pcfg : Pipe.Config) (cfg : Config) (s : Shared) : SharedAct → Option Shared
  | .pipe (.reader _) => none
  | .pipe act => (Pipe.step pcfg s.pipe act).map fun after => { s with pipe := after }
  | .stopReader => some { s with isReaderRunning := false }
  | .startReader => some { s with isReaderRunning := true }
  | .testEmpty =>
    match s.wait.control, s.empty with
    | .foreverTest, none | .test, none =>
      some { s with empty := some s.pipe.pipe.isEmpty, steps := s.steps + 1 }
    | _, _ => none
  | .testRunning =>
    s.empty.bind fun empty =>
      (step cfg s.wait (.observe empty s.isReaderRunning)).map fun after =>
        { s with wait := after, empty := none, steps := s.steps + 1 }
  | .own (.observe _ _) => none
  | .own act =>
    (step cfg s.wait act).map fun after =>
      { s with
        wait := after
        steps := s.steps + 1
        sleeps := if s.wait.control.sleeps then s.sleeps + 1 else s.sleeps }

/-- `wait` called on a pipe at any moment at which the reader is not in a read. -/
def sharedSystem (pcfg : Pipe.Config) (cfg : Config) : System Shared SharedAct where
  init s := (Pipe.system pcfg).Reachable Pipe.Disciplined s.pipe ∧ s.wait = .start ∧
    s.empty = none ∧ s.steps = 0 ∧ s.sleeps = 0
  step := sharedStep pcfg cfg

/-- The other threads keep to the discipline of the pipe, and nobody restarts the reader. -/
def Undisturbed (s : Shared) : SharedAct → Prop
  | .pipe act => Pipe.Disciplined s.pipe act
  | .startReader => False
  | _ => True

/-- There is a reason for `wait` to return. -/
def Shared.Due (s : Shared) : Prop :=
  s.pipe.pipe.isEmpty = false ∨ s.isReaderRunning = false

/-- The call is over. -/
def Shared.Over (s : Shared) : Prop := s.wait.control = .returned ∨ s.wait.control = .threw

/-- How many steps the reader still takes once there is a reason to return. A test that has seen an
empty pipe before goes around the loop once. -/
def Shared.remaining (s : Shared) : Nat :=
  match s.wait.control, s.empty with
  | .foreverTest, some empty => if empty && s.isReaderRunning then 4 else 1
  | .test, some empty => if empty && s.isReaderRunning then 5 else 1
  | .foreverTest, none | .test, none => 2
  | .enter, _ | .body, _ => 4
  | .foreverBody, _ | .firstRead, _ | .read, _ => 3
  | .short, _ => 1
  | .returned, _ | .threw, _ => 0

/-- How many times the reader still sleeps once there is a reason to return. -/
def Shared.sleepsLeft (s : Shared) : Nat :=
  match s.wait.control, s.empty with
  | .foreverTest, some empty | .test, some empty => if empty && s.isReaderRunning then 1 else 0
  | .enter, _ | .body, _ | .foreverBody, _ | .short, _ => 1
  | _, _ => 0

/-- What has been seen of the pipe and the reader is still so, and a test is in progress only
where there is one. -/
structure SharedFacts (pcfg : Pipe.Config) (cfg : Config) (s : Shared) : Prop where
  reached : (Pipe.system pcfg).Reachable Pipe.Disciplined s.pipe
  testing : s.empty ≠ none → s.wait.control = .foreverTest ∨ s.wait.control = .test
  filled : s.empty = some false → s.pipe.pipe.isEmpty = false
  forever : neverTimeOut = cfg.timeOut → s.wait.control = .returned → s.Due
  loop : neverTimeOut = cfg.timeOut → s.wait.control = .enter ∨ s.wait.control = .foreverTest ∨
    s.wait.control = .foreverBody ∨ s.wait.control = .returned

/-- What a step can do. -/
inductive SharedMove (pcfg : Pipe.Config) (cfg : Config) (s : Shared) : SharedAct → Shared → Prop
  | pipe {act : Pipe.Act} {after : Pipe.State} (other : ∀ inner, act ≠ .reader inner)
      (taken : Pipe.step pcfg s.pipe act = some after) :
      SharedMove pcfg cfg s (.pipe act) { s with pipe := after }
  | stopReader : SharedMove pcfg cfg s .stopReader { s with isReaderRunning := false }
  | startReader : SharedMove pcfg cfg s .startReader { s with isReaderRunning := true }
  | testEmpty (control : s.wait.control = .foreverTest ∨ s.wait.control = .test)
      (fresh : s.empty = none) :
      SharedMove pcfg cfg s .testEmpty
        { s with empty := some s.pipe.pipe.isEmpty, steps := s.steps + 1 }
  | testRunning {empty : Bool} {after : State} (seen : s.empty = some empty)
      (moved : Move cfg s.wait (.observe empty s.isReaderRunning) after) :
      SharedMove pcfg cfg s .testRunning
        { s with wait := after, empty := none, steps := s.steps + 1 }
  | own {act : Act} {after : State} (other : ∀ empty running, act ≠ .observe empty running)
      (moved : Move cfg s.wait act after) :
      SharedMove pcfg cfg s (.own act) { s with
        wait := after
        steps := s.steps + 1
        sleeps := if s.wait.control.sleeps then s.sleeps + 1 else s.sleeps }

section Steps

variable {pcfg : Pipe.Config} {cfg : Config} {s s' : Shared}

/-- Every step of the pipe and its waiting reader is one of `SharedMove`. -/
theorem sharedStep_move {act : SharedAct} (taken : sharedStep pcfg cfg s act = some s') :
    SharedMove pcfg cfg s act s' := by
  cases act with
  | pipe act =>
    cases act with
    | reader inner => contradiction
    | call call | writer =>
      obtain ⟨after, stepped, rfl⟩ := Option.map_eq_some_iff.mp taken
      exact .pipe (by simp) stepped
    | stopWriter | startWriter | validate =>
      cases taken
      exact .pipe (by simp) rfl
  | stopReader =>
    cases taken
    exact .stopReader
  | startReader =>
    cases taken
    exact .startReader
  | testEmpty =>
    simp only [sharedStep] at taken
    split at taken
    · rename_i control fresh
      cases taken
      exact .testEmpty (Or.inl control) fresh
    · rename_i control fresh
      cases taken
      exact .testEmpty (Or.inr control) fresh
    · contradiction
  | testRunning =>
    obtain ⟨empty, seen, tested⟩ := Option.bind_eq_some_iff.mp taken
    obtain ⟨after, stepped, rfl⟩ := Option.map_eq_some_iff.mp tested
    exact .testRunning seen (step_move stepped)
  | own act =>
    cases act with
    | observe empty running => contradiction
    | go | clock reading | clockFails =>
      obtain ⟨after, stepped, rfl⟩ := Option.map_eq_some_iff.mp taken
      exact .own (by simp) (step_move stepped)

/-- Other threads never empty the pipe. -/
theorem pipe_stays_filled (bounds : Pipe.WordBounds pcfg.pipeSize) {before after : Pipe.State}
    {act : Pipe.Act} (reached : (Pipe.system pcfg).Reachable Pipe.Disciplined before)
    (disciplined : Pipe.Disciplined before act) (other : ∀ inner, act ≠ .reader inner)
    (taken : Pipe.step pcfg before act = some after) (filled : before.pipe.isEmpty = false) :
    after.pipe.isEmpty = false := by
  have layout := (Pipe.reachable_inv bounds reached).layout
  have layout' := (Pipe.reachable_inv bounds (reached.next disciplined taken)).layout
  have same := Pipe.step_beside_reader other taken
  rw [Pipe.LocklessPipe.isEmpty, beq_eq_false_iff_ne, Ne, layout.pointers_eq_iff] at filled
  rw [Pipe.LocklessPipe.isEmpty, beq_eq_false_iff_ne, Ne, layout'.pointers_eq_iff, same.consumed]
  have longer := same.published.length_le
  have bound := layout.consumed_le
  omega

/-- A reason to return stays one. -/
theorem due_step (bounds : Pipe.WordBounds pcfg.pipeSize) (facts : SharedFacts pcfg cfg s)
    {act : SharedAct} (undisturbed : Undisturbed s act) (moved : SharedMove pcfg cfg s act s')
    (due : s.Due) : s'.Due := by
  cases moved with
  | pipe other taken =>
    rcases due with filled | stopped
    · exact Or.inl (pipe_stays_filled bounds facts.reached undisturbed other taken filled)
    · exact Or.inr stopped
  | stopReader => exact Or.inr rfl
  | startReader => exact undisturbed.elim
  | testEmpty _ _ | testRunning _ _ | own _ _ => exact due

/-- Outside a test nothing is seen. -/
theorem SharedFacts.fresh (facts : SharedFacts pcfg cfg s)
    (forever : s.wait.control ≠ .foreverTest) (test : s.wait.control ≠ .test) :
    s.empty = none := by
  by_contra seen
  exact (facts.testing seen).elim forever test

/-- Once there is a reason to return, every step of the reader brings it nearer, and a step of
another thread takes it no further away. -/
theorem remaining_step (facts : SharedFacts pcfg cfg s) {act : SharedAct}
    (undisturbed : Undisturbed s act) (moved : SharedMove pcfg cfg s act s') (due : s.Due) :
    s'.steps + s'.remaining ≤ s.steps + s.remaining ∧
      s'.sleeps + s'.sleepsLeft ≤ s.sleeps + s.sleepsLeft := by
  cases moved with
  | pipe _ _ => exact ⟨Nat.le_refl _, Nat.le_refl _⟩
  | startReader => exact undisturbed.elim
  | stopReader =>
    cases control : s.wait.control <;> cases seen : s.empty <;>
      simp [Shared.remaining, Shared.sleepsLeft, control, seen] <;> split <;> omega
  | testEmpty control fresh =>
    have returns : (s.pipe.pipe.isEmpty && s.isReaderRunning) = false := by
      rcases due with filled | stopped
      · rw [filled, Bool.false_and]
      · rw [stopped, Bool.and_false]
    rcases control with control | control <;>
      simp [Shared.remaining, Shared.sleepsLeft, control, fresh, returns]
  | testRunning seen moved =>
    cases moved with
    | foreverStop control _ _ stop | stop control _ _ stop =>
      simp only [Shared.remaining, Shared.sleepsLeft, control, seen]
      constructor
      · split <;> omega
      · omega
    | foreverWait control _ _ wait | wait control _ _ wait =>
      simp_all [Shared.remaining, Shared.sleepsLeft]
  | own other moved =>
    cases moved with
    | foreverStop | foreverWait | stop | wait => exact absurd rfl (other _ _)
    | forever control _ | short control _ _ | long control _ _ | foreverBody control _
    | nanosleep control _ | firstRead control _ | firstFails control | body control _
    | read control _ | readFails control =>
      have fresh := facts.fresh (by simp [control]) (by simp [control])
      simp [Shared.remaining, Shared.sleepsLeft, Control.sleeps, control, fresh]

/-- A test of the loop that never times out ends the call only with a reason. -/
theorem due_of_stop (facts : SharedFacts pcfg cfg s) {empty : Bool}
    (seen : s.empty = some empty) (stop : (empty && s.isReaderRunning) = false) : s.Due := by
  cases empty with
  | false => exact Or.inl (facts.filled seen)
  | true => exact Or.inr stop

/-- Every step keeps the facts. -/
theorem sharedStep_facts (bounds : Pipe.WordBounds pcfg.pipeSize)
    (facts : SharedFacts pcfg cfg s) {act : SharedAct} (undisturbed : Undisturbed s act)
    (moved : SharedMove pcfg cfg s act s') : SharedFacts pcfg cfg s' := by
  have due := fun due => due_step bounds facts undisturbed moved due
  have ⟨reached, testing, filled, forever, loop⟩ := facts
  cases moved with
  | pipe other taken =>
    refine ⟨reached.next undisturbed taken, testing, ?_, fun never ended => due (forever never ended),
      loop⟩
    intro seen
    exact pipe_stays_filled bounds reached undisturbed other taken (filled seen)
  | stopReader => exact ⟨reached, testing, filled, fun _ _ => Or.inr rfl, loop⟩
  | startReader => exact undisturbed.elim
  | testEmpty control fresh =>
    exact ⟨reached, fun _ => control, fun seen => Option.some.inj seen, forever, loop⟩
  | testRunning seen moved =>
    have unseen : (none : Option Bool) ≠ some false := by simp
    cases moved with
    | foreverStop control _ _ stop =>
      exact ⟨reached, fun tested => absurd rfl tested, fun none => absurd none unseen,
        fun _ _ => due (due_of_stop facts seen stop), fun _ => Or.inr (Or.inr (Or.inr rfl))⟩
    | foreverWait control _ _ _ =>
      exact ⟨reached, fun tested => absurd rfl tested, fun none => absurd none unseen, by simp,
        fun _ => Or.inr (Or.inr (Or.inl rfl))⟩
    | stop control _ _ _ | wait control _ _ _ =>
      have finite : neverTimeOut ≠ cfg.timeOut := by
        intro never
        have inLoop := loop never
        simp [control] at inLoop
      exact ⟨reached, fun tested => absurd rfl tested, fun none => absurd none unseen,
        fun never => absurd never finite, fun never => absurd never finite⟩
  | own other moved =>
    cases moved with
    | foreverStop | foreverWait | stop | wait => exact absurd rfl (other _ _)
    | forever control never =>
      exact ⟨reached, fun _ => Or.inl rfl, filled, by simp, fun _ => Or.inr (Or.inl rfl)⟩
    | foreverBody control _ =>
      exact ⟨reached, fun _ => Or.inl rfl, filled, by simp, fun _ => Or.inr (Or.inl rfl)⟩
    | short control finite _ | long control finite _ =>
      have fresh := facts.fresh (by simp [control]) (by simp [control])
      exact ⟨reached, fun seen => absurd fresh seen, filled, by simp,
        fun never => absurd never finite⟩
    | nanosleep control _ | firstRead control _ | firstFails control | body control _
    | read control _ | readFails control =>
      have fresh := facts.fresh (by simp [control]) (by simp [control])
      have finite : neverTimeOut ≠ cfg.timeOut := by
        intro never
        have inLoop := loop never
        simp [control] at inLoop
      exact ⟨reached, fun seen => absurd fresh seen, filled, fun never => absurd never finite,
        fun never => absurd never finite⟩

end Steps

section Runs

variable {pcfg : Pipe.Config} {cfg : Config} {s s' : Shared}

/-- The facts hold in every undisturbed run. -/
theorem reachable_sharedFacts (bounds : Pipe.WordBounds pcfg.pipeSize)
    (reached : (sharedSystem pcfg cfg).Reachable Undisturbed s) : SharedFacts pcfg cfg s := by
  apply reached.invariant
  · rintro first ⟨pipe, wait, empty, -, -⟩
    have control : first.wait.control = .enter := congrArg State.control wait
    exact ⟨pipe, fun seen => absurd empty seen, by simp [empty], by simp [control],
      fun _ => Or.inl control⟩
  · intro before act after _ facts undisturbed taken
    exact sharedStep_facts bounds facts undisturbed (sharedStep_move taken)

/-- From a state with a reason to return, a run has only what remains. -/
theorem leads_remaining (bounds : Pipe.WordBounds pcfg.pipeSize)
    (reached : (sharedSystem pcfg cfg).Reachable Undisturbed s) (due : s.Due)
    (path : (sharedSystem pcfg cfg).Leads Undisturbed s s') :
    s'.Due ∧ s'.steps + s'.remaining ≤ s.steps + s.remaining ∧
      s'.sleeps + s'.sleepsLeft ≤ s.sleeps + s.sleepsLeft := by
  have kept := System.leads_invariant
    (fun state => SharedFacts pcfg cfg state ∧ state.Due ∧
      state.steps + state.remaining ≤ s.steps + s.remaining ∧
      state.sleeps + state.sleepsLeft ≤ s.sleeps + s.sleepsLeft)
    (fun before act after holds undisturbed taken => by
      have ⟨facts, due, steps, sleeps⟩ := holds
      have moved := sharedStep_move taken
      have ⟨fewer, fewer'⟩ := remaining_step facts undisturbed moved due
      exact ⟨sharedStep_facts bounds facts undisturbed moved,
        due_step bounds facts undisturbed moved due, by omega, by omega⟩)
    path ⟨reachable_sharedFacts bounds reached, due, Nat.le_refl _, Nat.le_refl _⟩
  exact kept.2

/-- No state has more than five steps left, or more than one sleep. -/
theorem remaining_le (s : Shared) : s.remaining ≤ 5 ∧ s.sleepsLeft ≤ 1 := by
  unfold Shared.remaining Shared.sleepsLeft
  constructor
  · split <;> first | omega | (split <;> omega)
  · split <;> first | omega | (split <;> omega)

/-- A step of `wait` that tests nothing is one of the reader. -/
theorem own_enabled (pcfg : Pipe.Config) {act : Act} {after : State}
    (other : ∀ empty running, act ≠ .observe empty running)
    (stepped : step cfg s.wait act = some after) :
    ∃ act after, Undisturbed s act ∧ sharedStep pcfg cfg s act = some after ∧
      after.steps = s.steps + 1 := by
  refine ⟨.own act, { s with
    wait := after
    steps := s.steps + 1
    sleeps := if s.wait.control.sleeps then s.sleeps + 1 else s.sleeps }, trivial, ?_, rfl⟩
  cases act with
  | observe empty running => exact absurd rfl (other empty running)
  | go | clock _ | clockFails => simp only [sharedStep, stepped, Option.map_some]

/-- While the call is not over the reader can take a step. -/
theorem reader_enabled (pcfg : Pipe.Config) (cfg : Config) (s : Shared) (going : ¬ s.Over) :
    ∃ act after, Undisturbed s act ∧ sharedStep pcfg cfg s act = some after ∧
      after.steps = s.steps + 1 := by
  let reading : Timeval := ⟨0, 0, by decide, by decide⟩
  cases control : s.wait.control with
  | returned => exact absurd (Or.inl control) going
  | threw => exact absurd (Or.inr control) going
  | foreverTest | test =>
    cases seen : s.empty with
    | none =>
      exact ⟨.testEmpty, { s with empty := some s.pipe.pipe.isEmpty, steps := s.steps + 1 }, trivial,
        by simp only [sharedStep, control, seen], rfl⟩
    | some empty =>
      obtain ⟨after, stepped⟩ : ∃ after,
          step cfg s.wait (.observe empty s.isReaderRunning) = some after := by
        simp only [step, control]
        exact ⟨_, rfl⟩
      exact ⟨.testRunning, { s with wait := after, empty := none, steps := s.steps + 1 }, trivial,
        by simp only [sharedStep, seen, Option.bind_some, stepped, Option.map_some], rfl⟩
  | enter =>
    obtain ⟨after, stepped⟩ : ∃ after, step cfg s.wait .go = some after := by
      simp only [step, control]
      split_ifs <;> exact ⟨_, rfl⟩
    exact own_enabled pcfg (by simp) stepped
  | foreverBody | short | body =>
    obtain ⟨after, stepped⟩ : ∃ after, step cfg s.wait .go = some after := by
      simp only [step, control]
      exact ⟨_, rfl⟩
    exact own_enabled pcfg (by simp) stepped
  | firstRead | read =>
    obtain ⟨after, stepped⟩ : ∃ after, step cfg s.wait (.clock reading) = some after := by
      simp only [step, control]
      exact ⟨_, rfl⟩
    exact own_enabled pcfg (by simp) stepped

end Runs

/-- A reader in `wait` misses nothing: from the moment the pipe is not empty or the reader is
stopped, that stays so, and whatever the other threads do the call is over within five steps of the
reader, at most one of which sleeps, and until then the reader can go on. A call that never times
out returns for no other reason. -/
theorem wait_returns_when_due {pcfg : Pipe.Config} {cfg : Config} {s s' : Shared}
    (bounds : Pipe.WordBounds pcfg.pipeSize)
    (reached : (sharedSystem pcfg cfg).Reachable Undisturbed s)
    (path : (sharedSystem pcfg cfg).Leads Undisturbed s s') :
    (neverTimeOut = cfg.timeOut → s.wait.control = .returned → s.Due) ∧
    (s.Due → s'.Due ∧ s'.steps ≤ s.steps + 5 ∧ s'.sleeps ≤ s.sleeps + 1 ∧
      (s'.Over ∨ s'.steps < s.steps + 5 ∧ ∃ act after, Undisturbed s' act ∧
        sharedStep pcfg cfg s' act = some after ∧ after.steps = s'.steps + 1)) := by
  refine ⟨(reachable_sharedFacts bounds reached).forever, ?_⟩
  intro due
  have ⟨due', steps, sleeps⟩ := leads_remaining bounds reached due path
  have ⟨most, one⟩ := remaining_le s
  refine ⟨due', by omega, by omega, ?_⟩
  by_cases ended : s'.Over
  · exact Or.inl ended
  · right
    obtain ⟨act, after, undisturbed, taken, next⟩ := reader_enabled pcfg cfg s' ended
    -- the step that is still possible is one of the five
    have later : (sharedSystem pcfg cfg).Leads Undisturbed s after :=
      path.tail ⟨act, undisturbed, taken⟩
    have ⟨_, bound, _⟩ := leads_remaining bounds reached due later
    exact ⟨by omega, act, after, undisturbed, taken, next⟩

/-- A push that comes between the test of a call without a time-out and its sleep. -/
theorem wait_returns_when_due_push :
    ∃ s s', (sharedSystem Pipe.smallConfig ⟨neverTimeOut, false⟩).Leads Undisturbed s s' ∧
      s.pipe.pipe.isEmpty = false ∧ s.wait.control = .foreverBody ∧
      s'.wait.control = .returned ∧ s'.sleeps ≤ s.sleeps + 1 := by
  let sys := sharedSystem Pipe.smallConfig ⟨neverTimeOut, false⟩
  let acts : List SharedAct :=
    [.own .go, .testEmpty] ++ Pipe.pushByte.map .pipe ++ [.testRunning]
  let rest : List SharedAct := [.own .go, .testEmpty, .testRunning]
  let first : Shared := ⟨.start Pipe.blankStorage, true, .start, none, 0, 0⟩
  have replay : ((sys.run first acts).bind fun s =>
      (sys.run s rest).map fun s' => (s.pipe.pipe.isEmpty, s.wait.control, s'.wait.control)) =
      some (false, .foreverBody, .returned) := by decide +kernel
  obtain ⟨s, replayed, later⟩ := Option.bind_eq_some_iff.mp replay
  obtain ⟨s', replayed', shown⟩ := Option.map_eq_some_iff.mp later
  simp only [Prod.mk.injEq] at shown
  obtain ⟨filled, control, returned⟩ := shown
  have reached : sys.Reachable Undisturbed s :=
    .of_run ⟨.start ⟨Pipe.blankStorage, rfl⟩, rfl, rfl, rfl, rfl⟩ acts
      (by simp [acts, Pipe.pushByte, Undisturbed, Pipe.Disciplined, Pipe.CallsCopy,
        Pipe.NoRestartInWindow, Pipe.WriteCall.Copies, Pipe.WriteCall.push]) replayed
  have path : sys.Leads Undisturbed s s' :=
    System.leads_of_run rest (by simp [rest, Undisturbed]) replayed'
  have due := (wait_returns_when_due ⟨by decide, by decide⟩ reached path).2 (Or.inl filled)
  exact ⟨s, s', path, filled, control, returned, due.2.2.1⟩

end PerfVerif.Wait
