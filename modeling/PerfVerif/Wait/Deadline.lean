import PerfVerif.Lib.System
import Mathlib.Algebra.Group.Nat.Defs
import Mathlib.Data.Set.Basic
import Mathlib.Tactic.ByContra
import Mathlib.Tactic.SplitIfs

/-!
# `wait` without a wake-up policy

The reader waits by sleeping and looking again. A short time-out is one `nanosleep`; a longer one
becomes a deadline in nanoseconds, a `uint64_t`, with which every reading of the clock is compared
in the same arithmetic. The pipe, the flag of the reader and the clock may show anything at any
time: the tests and the readings are actions. What the functor does is left out, except that its
calls are counted, and so is the conversion of a short time-out to a `timespec`.
-/

namespace PerfVerif.Wait

open Transition

/-- A valid reading of `gettimeofday`. -/
structure Timeval where
  sec : Nat
  usec : Nat
  sec_lt : sec < 2 ^ 63
  usec_lt : usec < 10 ^ 6
  deriving DecidableEq

/-- `NUM_NANOSECONDS_PER_SECOND`. -/
def nanosecondsPerSecond : UInt64 := 1000000000

/-- `NUM_NANOSECONDS_PER_MICROSECOND`. -/
def nanosecondsPerMicrosecond : UInt64 := 1000

/-- `NEVER_TIME_OUT`. -/
def neverTimeOut : UInt64 := UInt64.ofNat (2 ^ 64 - 1)

/-- The nanoseconds of a reading. -/
def Timeval.nanoseconds (t : Timeval) : Nat := t.sec * 10 ^ 9 + t.usec * 10 ^ 3

/-- `currtimeNSecs`. -/
def Timeval.nSecs (t : Timeval) : UInt64 :=
  UInt64.ofNat t.sec * nanosecondsPerSecond + UInt64.ofNat t.usec * nanosecondsPerMicrosecond

/-- The time-out, and whether there is a functor. -/
structure Config where
  timeOut : UInt64
  func : Bool
  deriving DecidableEq

/-- `timeoutNSecs`. -/
def Config.timeoutNSecs (cfg : Config) (t : Timeval) : UInt64 :=
  cfg.timeOut + UInt64.ofNat t.sec * nanosecondsPerSecond +
    UInt64.ofNat t.usec * nanosecondsPerMicrosecond

/-- The deadline without overflow. -/
def Config.deadline (cfg : Config) (t : Timeval) : Nat := t.nanoseconds + cfg.timeOut.toNat

/-- Where `wait` is. -/
inductive Control where
  | enter
  /-- At the test of the loop that never times out. -/
  | foreverTest
  /-- Before the functor and `usleep` in this loop. -/
  | foreverBody
  /-- Before the functor and `nanosleep`. -/
  | short
  /-- Before the first `gettimeofday`. -/
  | firstRead
  /-- At the test of the loop with a deadline. -/
  | test
  /-- Before the functor and `usleep` in this loop. -/
  | body
  /-- Before `gettimeofday` in this loop. -/
  | read
  | returned
  /-- `gettimeofday` has failed and `Errno` is thrown. -/
  | threw
  deriving DecidableEq, Repr

/-- What the step sees: what the test of a loop shows, or what `gettimeofday` does. -/
inductive Act where
  | go
  | observe (empty running : Bool)
  | clock (reading : Timeval)
  | clockFails
  deriving DecidableEq

/-- The variables of `wait` and the history: the first and the latest reading, what the last test
has shown, whether a reading has reached the deadline, and whether a sleep came after that. -/
structure State where
  control : Control
  timeoutNSecs : UInt64
  timedOut : Bool
  calls : Nat
  first : Option Timeval
  latest : Option Timeval
  lastTest : Option (Bool × Bool)
  reached : Bool
  late : Bool
  deriving DecidableEq

/-- The reading has reached the deadline that the first one sets. -/
def State.reaches (s : State) (cfg : Config) (t : Timeval) : Bool :=
  s.first.any fun t₀ => cfg.deadline t₀ ≤ t.nanoseconds

/-- The next step of `wait`. -/
def step (cfg : Config) (s : State) (act : Act) : Option State :=
  match s.control, act with
  | .enter, .go =>
    if neverTimeOut = cfg.timeOut then some { s with control := .foreverTest }
    else if cfg.timeOut < 1000 * nanosecondsPerMicrosecond then some { s with control := .short }
    else some { s with control := .firstRead }
  | .foreverTest, .observe empty running =>
    some { s with
      lastTest := some (empty, running)
      control := if empty && running then .foreverBody else .returned }
  | .foreverBody, .go =>
    some { s with calls := if cfg.func then s.calls + 1 else s.calls, control := .foreverTest }
  | .short, .go =>
    some { s with
      calls := if cfg.func && cfg.timeOut != 0 then s.calls + 1 else s.calls
      control := .returned }
  | .firstRead, .clock t =>
    some { s with
      timeoutNSecs := cfg.timeoutNSecs t, first := some t, latest := some t, control := .test }
  | .firstRead, .clockFails => some { s with control := .threw }
  | .test, .observe empty running =>
    some { s with
      lastTest := some (empty, running)
      control := if empty && running && !s.timedOut then .body else .returned }
  | .body, .go =>
    some { s with
      calls := if cfg.func && cfg.timeOut != 0 then s.calls + 1 else s.calls
      late := s.late || s.reached
      control := .read }
  | .read, .clock t =>
    some { s with
      timedOut := if s.timeoutNSecs ≤ t.nSecs then true else s.timedOut
      latest := some t
      reached := s.reached || s.reaches cfg t
      control := .test }
  | .read, .clockFails => some { s with control := .threw }
  | _, _ => none

/-- The start of the call. -/
def State.start : State := ⟨.enter, 0, false, 0, none, none, none, false, false⟩

/-- A call of `wait`. -/
def system (cfg : Config) : System State Act where
  init s := s = .start
  step := step cfg

/-- The latest reading is at or behind the deadline. -/
def State.Reached (s : State) (cfg : Config) : Prop :=
  ∃ t₀ t, s.first = some t₀ ∧ s.latest = some t ∧ cfg.deadline t₀ ≤ t.nanoseconds

/-- The last test has shown a pipe that is not empty or a reader that is stopped. -/
def State.Stopped (s : State) : Prop :=
  ∃ empty running, s.lastTest = some (empty, running) ∧ (empty = false ∨ running = false)

/-- An empty pipe and a running reader are no reason to return. -/
theorem not_stopped {s : State} (seen : s.lastTest = some (true, true)) : ¬ s.Stopped := by
  intro stopped
  have ⟨empty, running, last, stop⟩ := stopped
  have ⟨isEmpty, isRunning⟩ := Prod.mk.inj (Option.some.inj (seen.symm.trans last))
  subst isEmpty isRunning
  exact stop.elim Bool.noConfusion Bool.noConfusion

/-- `wait` does not return early, and does not sleep when a reading has reached the deadline. -/
structure State.InTime (s : State) (cfg : Config) : Prop where
  returned : s.control = .returned → s.Stopped ∨ s.Reached cfg
  sleeps : s.late = false

/-- The first reading of the clock is the given one, and the later ones are in the set. -/
def Readings (t₀ : Timeval) (others : Set Timeval) (s : State) (act : Act) : Prop :=
  ∀ t, act = .clock t → if s.control = .firstRead then t = t₀ else t ∈ others

/-- The order of the numbers is the order of what 64 bits keep of them: they are in one period of
`2 ^ 64`, or the remainders are ordered like the periods. -/
def Agrees (deadline reading : Nat) : Prop :=
  reading / 2 ^ 64 = deadline / 2 ^ 64 ∨
    (deadline / 2 ^ 64 < reading / 2 ^ 64 ∧ deadline % 2 ^ 64 ≤ reading % 2 ^ 64) ∨
    (reading / 2 ^ 64 < deadline / 2 ^ 64 ∧ reading % 2 ^ 64 < deadline % 2 ^ 64)

section Arithmetic

/-- The arithmetic on a reading loses the multiples of `2 ^ 64`. -/
theorem nSecs_toNat (t : Timeval) : t.nSecs.toNat = t.nanoseconds % 2 ^ 64 := by
  rw [Timeval.nSecs, Timeval.nanoseconds, UInt64.toNat_add, UInt64.toNat_mul, UInt64.toNat_mul,
    UInt64.toNat_ofNat', UInt64.toNat_ofNat', nanosecondsPerSecond, nanosecondsPerMicrosecond]
  change (t.sec % 2 ^ 64 * 10 ^ 9 % 2 ^ 64 + t.usec % 2 ^ 64 * 10 ^ 3 % 2 ^ 64) % 2 ^ 64 = _
  omega

/-- The arithmetic on the deadline loses the multiples of `2 ^ 64`. -/
theorem timeoutNSecs_toNat (cfg : Config) (t : Timeval) :
    (cfg.timeoutNSecs t).toNat = cfg.deadline t % 2 ^ 64 := by
  have sum : cfg.timeoutNSecs t = cfg.timeOut + t.nSecs := UInt64.add_assoc _ _ _
  rw [sum, UInt64.toNat_add, nSecs_toNat, Config.deadline]
  omega

/-- The comparison in 64 bits is the exact one exactly when the numbers agree. -/
theorem agrees_iff (deadline reading : Nat) :
    Agrees deadline reading ↔
      (deadline % 2 ^ 64 ≤ reading % 2 ^ 64 ↔ deadline ≤ reading) := by
  rw [Agrees]
  omega

/-- A reading that agrees with the deadline is compared with it as it should be. -/
theorem compare_iff {cfg : Config} {t₀ t : Timeval}
    (agrees : Agrees (cfg.deadline t₀) t.nanoseconds) :
    cfg.timeoutNSecs t₀ ≤ t.nSecs ↔ cfg.deadline t₀ ≤ t.nanoseconds := by
  rw [UInt64.le_iff_toNat_le, nSecs_toNat, timeoutNSecs_toNat]
  exact (agrees_iff _ _).mp agrees

/-- Numbers below `2 ^ 64` agree. -/
theorem agrees_of_lt {deadline reading : Nat} (first : deadline < 2 ^ 64)
    (second : reading < 2 ^ 64) : Agrees deadline reading := by
  rw [agrees_iff]
  omega

end Arithmetic

/-- The steps of `wait`, by the control point. -/
inductive Move (cfg : Config) (s : State) : Act → State → Prop where
  | forever (control : s.control = .enter) (never : neverTimeOut = cfg.timeOut) :
    Move cfg s .go { s with control := .foreverTest }
  | short (control : s.control = .enter) (finite : neverTimeOut ≠ cfg.timeOut)
    (short : cfg.timeOut < 1000 * nanosecondsPerMicrosecond) :
    Move cfg s .go { s with control := .short }
  | long (control : s.control = .enter) (finite : neverTimeOut ≠ cfg.timeOut)
    (long : ¬ cfg.timeOut < 1000 * nanosecondsPerMicrosecond) :
    Move cfg s .go { s with control := .firstRead }
  | foreverStop (control : s.control = .foreverTest) (empty running : Bool)
    (stop : (empty && running) = false) :
    Move cfg s (.observe empty running)
      { s with lastTest := some (empty, running), control := .returned }
  | foreverWait (control : s.control = .foreverTest) (empty running : Bool)
    (wait : (empty && running) = true) :
    Move cfg s (.observe empty running)
      { s with lastTest := some (empty, running), control := .foreverBody }
  | foreverBody (control : s.control = .foreverBody) (calls : Nat) :
    Move cfg s .go { s with calls := calls, control := .foreverTest }
  | nanosleep (control : s.control = .short) (calls : Nat) :
    Move cfg s .go { s with calls := calls, control := .returned }
  | firstRead (control : s.control = .firstRead) (t : Timeval) :
    Move cfg s (.clock t)
      { s with
        timeoutNSecs := cfg.timeoutNSecs t, first := some t, latest := some t, control := .test }
  | firstFails (control : s.control = .firstRead) :
    Move cfg s .clockFails { s with control := .threw }
  | stop (control : s.control = .test) (empty running : Bool)
    (stop : (empty && running && !s.timedOut) = false) :
    Move cfg s (.observe empty running)
      { s with lastTest := some (empty, running), control := .returned }
  | wait (control : s.control = .test) (empty running : Bool)
    (wait : (empty && running && !s.timedOut) = true) :
    Move cfg s (.observe empty running)
      { s with lastTest := some (empty, running), control := .body }
  | body (control : s.control = .body) (calls : Nat) :
    Move cfg s .go { s with calls := calls, late := s.late || s.reached, control := .read }
  | read (control : s.control = .read) (t : Timeval) :
    Move cfg s (.clock t)
      { s with
        timedOut := if s.timeoutNSecs ≤ t.nSecs then true else s.timedOut
        latest := some t
        reached := s.reached || s.reaches cfg t
        control := .test }
  | readFails (control : s.control = .read) :
    Move cfg s .clockFails { s with control := .threw }

/-- Every step of `wait` is one of `Move`. -/
theorem step_move {cfg : Config} {s s' : State} {act : Act} (taken : step cfg s act = some s') :
    Move cfg s act s' := by
  rw [step.eq_def] at taken
  split at taken
  · rename_i control
    split_ifs at taken with never short
    all_goals cases taken
    · exact .forever control never
    · exact .short control never short
    · exact .long control never short
  · rename_i empty running control
    cases taken
    cases shown : empty && running with
    | true => exact .foreverWait control empty running shown
    | false => exact .foreverStop control empty running shown
  · rename_i control
    cases taken
    exact .foreverBody control _
  · rename_i control
    cases taken
    exact .nanosleep control _
  · rename_i t control
    cases taken
    exact .firstRead control t
  · rename_i control
    cases taken
    exact .firstFails control
  · rename_i empty running control
    cases taken
    cases shown : empty && running && !s.timedOut with
    | true => exact .wait control empty running shown
    | false => exact .stop control empty running shown
  · rename_i control
    cases taken
    exact .body control _
  · rename_i t control
    cases taken
    exact .read control t
  · rename_i control
    cases taken
    exact .readFails control
  · contradiction

/-- The deadline has been computed from the first reading. -/
structure Counting (cfg : Config) (t₀ : Timeval) (s : State) : Prop where
  first : s.first = some t₀
  timeoutNSecs : s.timeoutNSecs = cfg.timeoutNSecs t₀

/-- What holds at each control point of a call with a deadline when the readings agree: the loop
goes on exactly as long as no reading has reached the deadline. -/
def Phase (cfg : Config) (t₀ : Timeval) (s : State) : Prop :=
  match s.control with
  | .enter | .firstRead => s.timedOut = false ∧ s.reached = false
  | .test => Counting cfg t₀ s ∧ s.timedOut = s.reached ∧ (s.reached = true → s.Reached cfg)
  | .body | .read => Counting cfg t₀ s ∧ s.timedOut = false ∧ s.reached = false
  | .returned => s.Stopped ∨ s.Reached cfg
  | .threw => True
  | .foreverTest | .foreverBody | .short => False

section Runs

variable {cfg : Config} {t₀ : Timeval} {others : Set Timeval}

/-- As long as no reading has ended the loop, the next one decides. -/
theorem timedOut_eq {s : State} (counting : Counting cfg t₀ s) (running : s.timedOut = false)
    (t : Timeval) : (if s.timeoutNSecs ≤ t.nSecs then true else s.timedOut) =
      decide (cfg.timeoutNSecs t₀ ≤ t.nSecs) := by
  rw [counting.timeoutNSecs, running, Bool.if_true_left, Bool.or_false]

/-- As long as no reading has reached the deadline of the first one, the next one decides. -/
theorem reached_eq {s : State} (counting : Counting cfg t₀ s) (early : s.reached = false)
    (t : Timeval) : (s.reached || s.reaches cfg t) =
      decide (cfg.deadline t₀ ≤ t.nanoseconds) := by
  rw [State.reaches, counting.first, Option.any_some, early, Bool.false_or]

/-- Where the test of the loop fails, the pipe is filled, the reader is stopped or the time is out.
-/
theorem reason_of_stop {s : State} {empty running : Bool}
    (stop : (empty && running && !s.timedOut) = false) :
    (empty = false ∨ running = false) ∨ s.timedOut = true := by
  rw [Bool.and_eq_false_iff, Bool.and_eq_false_iff, Bool.not_eq_false'] at stop
  exact stop

/-- Where the test of the loop succeeds, the time is not out. -/
theorem running_of_wait {s : State} {empty running : Bool}
    (wait : (empty && running && !s.timedOut) = true) : s.timedOut = false := by
  rw [Bool.and_eq_true, Bool.not_eq_true'] at wait
  exact wait.2

/-- For a time-out of at least a millisecond that is not infinite, every step keeps the phase. -/
theorem Phase.move {s s' : State} {act : Act} (phase : Phase cfg t₀ s)
    (long : 10 ^ 6 ≤ cfg.timeOut.toNat) (finite : cfg.timeOut ≠ neverTimeOut)
    (agree : ∀ t ∈ others, Agrees (cfg.deadline t₀) t.nanoseconds)
    (readings : Readings t₀ others s act) (move : Move cfg s act s') :
    Phase cfg t₀ s' ∧ (s.late = false → s'.late = false) := by
  cases move with
  | forever control never => exact absurd never.symm finite
  | short control _ short =>
    have below := UInt64.lt_iff_toNat_lt.mp short
    have unit : (1000 * nanosecondsPerMicrosecond).toNat = 10 ^ 6 := by decide
    omega
  | long control =>
    rw [Phase, control] at phase
    exact ⟨phase, id⟩
  | foreverStop control | foreverWait control | foreverBody control | nanosleep control =>
    rw [Phase, control] at phase
    exact phase.elim
  | firstRead control t =>
    rw [Phase, control] at phase
    have same := readings t rfl
    rw [if_pos control] at same
    have ⟨running, early⟩ := phase
    subst same
    refine ⟨⟨⟨rfl, rfl⟩, running.trans early.symm, ?_⟩, id⟩
    intro reached
    exact absurd (early.symm.trans reached) Bool.false_ne_true
  | firstFails control => exact ⟨trivial, id⟩
  | stop control empty running stop =>
    rw [Phase, control] at phase
    have ⟨_, same, reached⟩ := phase
    refine ⟨?_, id⟩
    cases reason_of_stop stop with
    | inl shown => exact Or.inl ⟨empty, running, rfl, shown⟩
    | inr timedOut => exact Or.inr (reached (same.symm.trans timedOut))
  | wait control empty running wait =>
    rw [Phase, control] at phase
    have ⟨counting, same, _⟩ := phase
    have timedOut := running_of_wait wait
    exact ⟨⟨⟨counting.first, counting.timeoutNSecs⟩, timedOut, same.symm.trans timedOut⟩, id⟩
  | body control calls =>
    rw [Phase, control] at phase
    have ⟨counting, timedOut, early⟩ := phase
    refine ⟨⟨⟨counting.first, counting.timeoutNSecs⟩, timedOut, early⟩, ?_⟩
    intro late
    change (s.late || s.reached) = false
    rw [late, early, Bool.or_false]
  | read control t =>
    rw [Phase, control] at phase
    have ⟨counting, timedOut, early⟩ := phase
    have member := readings t rfl
    rw [control, if_neg (by decide)] at member
    have compared := compare_iff (agree t member)
    refine ⟨⟨⟨counting.first, counting.timeoutNSecs⟩, ?_, ?_⟩, id⟩
    · change (if s.timeoutNSecs ≤ t.nSecs then true else s.timedOut) =
        (s.reached || s.reaches cfg t)
      rw [timedOut_eq counting timedOut, reached_eq counting early, decide_eq_decide]
      exact compared
    · intro reached
      change (s.reached || s.reaches cfg t) = true at reached
      rw [reached_eq counting early, decide_eq_true_eq] at reached
      exact ⟨t₀, t, counting.first, rfl, reached⟩
  | readFails control => exact ⟨trivial, id⟩

/-- When the readings agree, every run is in time. -/
theorem inTime_of_agrees (long : 10 ^ 6 ≤ cfg.timeOut.toNat) (finite : cfg.timeOut ≠ neverTimeOut)
    (agree : ∀ t ∈ others, Agrees (cfg.deadline t₀) t.nanoseconds) {s : State}
    (reached : (system cfg).Reachable (Readings t₀ others) s) : s.InTime cfg := by
  have ⟨phase, late⟩ : Phase cfg t₀ s ∧ s.late = false := by
    apply reached.invariant
    · intro first initial
      obtain rfl : first = .start := initial
      exact ⟨⟨rfl, rfl⟩, rfl⟩
    · intro before act after _ facts readings taken
      have ⟨phase, late⟩ := facts
      have ⟨next, kept⟩ := phase.move long finite agree readings (step_move taken)
      exact ⟨next, kept late⟩
  refine ⟨?_, late⟩
  intro returned
  rw [Phase, returned] at phase
  exact phase

/-- The reading in the loop, as long as no earlier one has ended it. -/
theorem step_read {s : State} (control : s.control = .read) (counting : Counting cfg t₀ s)
    (running : s.timedOut = false) (early : s.reached = false) (t : Timeval) :
    step cfg s (.clock t) =
      some { s with
        timedOut := cfg.timeoutNSecs t₀ ≤ t.nSecs
        latest := some t
        reached := cfg.deadline t₀ ≤ t.nanoseconds
        control := .test } := by
  simp only [step, control, timedOut_eq counting running, reached_eq counting early]

/-- The test of the loop with an empty pipe and a running reader. -/
theorem step_test {s : State} (control : s.control = .test) :
    step cfg s (.observe true true) =
      some { s with
        lastTest := some (true, true), control := if s.timedOut then .returned else .body } := by
  cases timedOut : s.timedOut <;> simp [step, control, timedOut]

/-- The state at the test of the loop behind the second reading. -/
def State.second (cfg : Config) (t₀ t : Timeval) : State where
  control := .test
  timeoutNSecs := cfg.timeoutNSecs t₀
  timedOut := cfg.timeoutNSecs t₀ ≤ t.nSecs
  calls := if cfg.func && cfg.timeOut != 0 then 1 else 0
  first := some t₀
  latest := some t
  lastTest := some (true, true)
  reached := cfg.deadline t₀ ≤ t.nanoseconds
  late := false

/-- A step of the reader alone is not restricted. -/
theorem readings_go (s : State) : Readings t₀ others s .go := by
  intro t same
  contradiction

/-- A test of the pipe is not restricted. -/
theorem readings_observe (s : State) (empty running : Bool) :
    Readings t₀ others s (.observe empty running) := by
  intro t same
  contradiction

/-- Every second reading can be reached, with an empty pipe and a running reader. -/
theorem reachable_second (long : 10 ^ 6 ≤ cfg.timeOut.toNat) (finite : cfg.timeOut ≠ neverTimeOut)
    {t : Timeval} (member : t ∈ others) :
    (system cfg).Reachable (Readings t₀ others) (.second cfg t₀ t) := by
  have notShort : ¬ cfg.timeOut < 1000 * nanosecondsPerMicrosecond := by
    have unit : (1000 * nanosecondsPerMicrosecond).toNat = 10 ^ 6 := by decide
    rw [UInt64.lt_iff_toNat_lt]
    omega
  let entered : State := { State.start with control := .firstRead }
  let counting : State :=
    { entered with
      timeoutNSecs := cfg.timeoutNSecs t₀, first := some t₀, latest := some t₀, control := .test }
  let waiting : State := { counting with lastTest := some (true, true), control := .body }
  let slept : State :=
    { waiting with
      calls := if cfg.func && cfg.timeOut != 0 then 1 else 0, control := .read }
  have start : (system cfg).Reachable (Readings t₀ others) .start := System.Reachable.start rfl
  have first : (system cfg).Reachable (Readings t₀ others) entered := by
    refine start.next (readings_go _) ?_
    change (if neverTimeOut = cfg.timeOut then _ else if _ then _ else _) = _
    rw [if_neg finite.symm, if_neg notShort]
  have initial : Readings t₀ others entered (.clock t₀) := by
    intro other same
    rw [if_pos rfl]
    exact (Act.clock.inj same).symm
  have second : (system cfg).Reachable (Readings t₀ others) counting := first.next initial rfl
  have third : (system cfg).Reachable (Readings t₀ others) waiting :=
    second.next (readings_observe _ true true) rfl
  have fourth : (system cfg).Reachable (Readings t₀ others) slept :=
    third.next (readings_go _) rfl
  have admitted : Readings t₀ others slept (.clock t) := by
    intro other same
    have control : slept.control ≠ .firstRead := Control.noConfusion
    rw [if_neg control]
    exact Act.clock.inj same ▸ member
  have taken := @step_read cfg t₀ slept rfl ⟨rfl, rfl⟩ rfl rfl t
  exact fourth.next admitted taken

/-- Where every run is in time, the readings agree: a reading that does not ends the wait early or
lets it go on. -/
theorem agrees_of_inTime (long : 10 ^ 6 ≤ cfg.timeOut.toNat) (finite : cfg.timeOut ≠ neverTimeOut)
    (inTime : ∀ s, (system cfg).Reachable (Readings t₀ others) s → s.InTime cfg)
    {t : Timeval} (member : t ∈ others) : Agrees (cfg.deadline t₀) t.nanoseconds := by
  have second := @reachable_second cfg t₀ others long finite t member
  have test := @step_test cfg (.second cfg t₀ t) rfl
  have early : cfg.timeoutNSecs t₀ ≤ t.nSecs → cfg.deadline t₀ ≤ t.nanoseconds := by
    intro timedOut
    have shown : (State.second cfg t₀ t).timedOut = true := decide_eq_true timedOut
    rw [shown] at test
    have third := inTime _ (second.next (readings_observe _ true true) test)
    cases third.returned rfl with
    | inl stopped => exact absurd stopped (not_stopped rfl)
    | inr reached =>
      have ⟨_, _, first, latest, passed⟩ := reached
      rw [Option.some.inj first, Option.some.inj latest]
      exact passed
  have late : cfg.deadline t₀ ≤ t.nanoseconds → cfg.timeoutNSecs t₀ ≤ t.nSecs := by
    intro reached
    by_contra running
    have shown : (State.second cfg t₀ t).timedOut = false := decide_eq_false running
    have passed : (State.second cfg t₀ t).reached = true := decide_eq_true reached
    rw [shown] at test
    have third := second.next (readings_observe _ true true) test
    have fourth := inTime _ (third.next (readings_go _) rfl)
    have sleeps : (false || (State.second cfg t₀ t).reached) = false := fourth.sleeps
    rw [passed] at sleeps
    exact Bool.noConfusion sleeps
  rw [agrees_iff, ← nSecs_toNat, ← timeoutNSecs_toNat, ← UInt64.le_iff_toNat_le]
  exact ⟨early, late⟩

/-- `wait` with a deadline does not return early and does not sleep behind the deadline, whatever
the tests show, exactly when every later reading agrees with the deadline. -/
theorem wait_in_time_iff (cfg : Config) (t₀ : Timeval) (others : Set Timeval)
    (long : 10 ^ 6 ≤ cfg.timeOut.toNat) (finite : cfg.timeOut ≠ neverTimeOut) :
    (∀ s, (system cfg).Reachable (Readings t₀ others) s → s.InTime cfg) ↔
      ∀ t ∈ others, Agrees (cfg.deadline t₀) t.nanoseconds := by
  constructor
  · intro inTime t member
    exact agrees_of_inTime long finite inTime member
  · intro agree s reached
    exact inTime_of_agrees long finite agree reached

/-- A wait of one second is in time as long as the readings count their seconds in 32 bits. -/
theorem wait_in_time_iff_second :
    (10 ^ 6 ≤ (1000000000 : UInt64).toNat ∧ 1000000000 ≠ neverTimeOut) ∧
      ∀ s, (system ⟨1000000000, true⟩).Reachable
        (Readings ⟨1, 0, by decide, by decide⟩ fun t => t.sec < 2 ^ 32) s →
          s.InTime ⟨1000000000, true⟩ := by
  have inTime := wait_in_time_iff ⟨1000000000, true⟩ ⟨1, 0, by decide, by decide⟩
    (fun t => t.sec < 2 ^ 32) (by decide) (by decide)
  refine ⟨⟨by decide, by decide⟩, inTime.mpr ?_⟩
  intro t member
  have seconds : t.sec < 2 ^ 32 := member
  have microseconds := t.usec_lt
  apply agrees_of_lt (by decide)
  rw [Timeval.nanoseconds]
  omega

end Runs

/-- The longest finite time-out. -/
def Config.longest : Config := ⟨UInt64.ofNat (2 ^ 64 - 2), false⟩

/-- One second after the epoch. -/
def Timeval.second : Timeval := ⟨1, 0, by decide, by decide⟩

/-- The longest finite time-out wraps: the pipe stays empty, the reader runs, the clock stands
still, and `wait` returns after one sleep. -/
theorem longest_wait_returns :
    10 ^ 6 ≤ Config.longest.timeOut.toNat ∧ Config.longest.timeOut ≠ neverTimeOut ∧
      ∃ s, (system .longest).Reachable System.always s ∧ ¬ s.InTime .longest := by
  refine ⟨by decide, by decide, ?_⟩
  have replay : ((system .longest).run .start [.go, .clock .second, .observe true true, .go,
      .clock .second, .observe true true]).map (fun s =>
        (s.control, s.lastTest, s.first, s.latest)) =
      some (.returned, some (true, true), some .second, some .second) := by
    decide +kernel
  have ⟨s, replayed, shown⟩ := Option.map_eq_some_iff.mp replay
  simp only [Prod.mk.injEq] at shown
  have ⟨returned, seen, first, latest⟩ := shown
  refine ⟨s, System.Reachable.of_run rfl _ (fun _ _ _ => trivial) replayed, ?_⟩
  intro inTime
  cases inTime.returned returned with
  | inl stopped => exact not_stopped seen stopped
  | inr reached =>
    have ⟨t₀, t, firstIs, latestIs, passed⟩ := reached
    obtain rfl := Option.some.inj (first.symm.trans firstIs)
    obtain rfl := Option.some.inj (latest.symm.trans latestIs)
    have notPassed : ¬ Config.longest.deadline .second ≤ Timeval.second.nanoseconds := by decide
    exact notPassed passed

end PerfVerif.Wait
