import PerfVerif.Lib.System
import Mathlib.Algebra.Group.Int.Defs
import Mathlib.Algebra.Group.Nat.Defs

/-!
# `aio_write_test` and its signal thread

The main thread submits batches of `max_aios` writes and waits at a condition variable behind
each batch; `sig_thread` takes one completion signal at a time and counts it. An action is one
micro-step of a thread, the completion of one write, or a spurious wake-up. Every submission
succeeds, every write completes once and sends one signal (the signals are real-time signals
and queue), `MYSIG_STOP` is never sent, and `sigwaitinfo` fails only with `EINTR`. The writes
differ in nothing that either thread looks at, so the state counts them.

The loop counters `i` and `j` are 32-bit `int`s and wrap. The `long` counters are natural
numbers: they never pass the iteration count, which fits a `long`.
-/

namespace PerfVerif.Aio

open Transition

/-- What a call of `aio_write_test` works with: `filesize / blocksize` and the batch size,
which `sysconf` reports as a `long`. -/
structure Config where
  iterations : Nat
  maxAios : Nat
  iterations_lt : iterations < 2 ^ 63
  maxAios_pos : 0 < maxAios
  maxAios_lt : maxAios < 2 ^ 63

/-- Conversion to a 32-bit `int`. -/
def toInt (value : Int) : Int := value.bmod (2 ^ 32)

/-- Conversion of an `int` to `unsigned long`. -/
def toUnsignedLong (value : Int) : Nat := (value % 2 ^ 64).toNat

/-- Where the main thread is. -/
inductive Main where
  /-- At the test of the outer loop. -/
  | outer (i : Int)
  /-- At the test of the inner loop. -/
  | inner (i j : Int)
  /-- Before `pthread_mutex_lock`. -/
  | lock (i : Int)
  /-- At the test of the wait loop, with the mutex. -/
  | test (i : Int)
  /-- In `pthread_cond_wait`, without the mutex. -/
  | waiting (i : Int)
  /-- In `pthread_cond_wait`, woken, before it has the mutex again. -/
  | reacquire (i : Int)
  /-- Before `pthread_mutex_unlock`. -/
  | unlock (i : Int)
  /-- In `pthread_join`. -/
  | join
  | returned
  deriving DecidableEq, Repr

/-- Where `sig_thread` is. -/
inductive Sig where
  /-- In `sigwaitinfo`. -/
  | sigwaitinfo
  /-- Before `ios_completed_per_batch++`. -/
  | perBatch
  /-- Before `pthread_mutex_lock`. -/
  | lock
  /-- Before `total_ios_completed++`. -/
  | total
  /-- Before `pthread_mutex_unlock`. -/
  | unlock
  /-- At the test for a full batch. -/
  | batch
  /-- Before the interim `pthread_cond_signal`. -/
  | interim
  /-- At the exit test. -/
  | exitTest
  /-- Behind the loop, before `pthread_mutex_lock`. -/
  | finalLock
  /-- Before the final `pthread_cond_signal`. -/
  | finalSignal
  /-- Before the final `pthread_mutex_unlock`. -/
  | finalUnlock
  | exited
  deriving DecidableEq, Repr

/-- The two threads. -/
inductive Thread where
  | main
  | sig
  deriving DecidableEq, Repr

/-- The control points, the shared fields, the writes under way and the history. -/
structure State where
  main : Main
  sig : Sig
  /-- Who holds the mutex. -/
  mutex : Option Thread
  iosCompletedPerBatch : Nat
  totalIosCompleted : Nat
  /-- Writes submitted and not completed. -/
  inFlight : Nat
  /-- Completion signals sent and not taken. -/
  pending : Nat
  /-- Writes submitted so far. -/
  submitted : Nat
  /-- Times the main thread has left the barrier behind a batch. -/
  batches : Nat
  deriving DecidableEq, Repr

/-- `pthread_cond_signal` wakes the main thread when it waits, and is lost otherwise. -/
def Main.wake : Main → Main
  | .waiting i => .reacquire i
  | main => main

/-- The next micro-step of the main thread; `none` while it is blocked. -/
def mainStep (cfg : Config) (s : State) : Option State :=
  match s.main with
  | .outer i =>
    if toUnsignedLong i < cfg.iterations then some { s with main := .inner i 0 }
    else some { s with main := .join }
  | .inner i j =>
    if j < cfg.maxAios then
      some { s with main := .inner i (toInt (j + 1)), inFlight := s.inFlight + 1,
                    submitted := s.submitted + 1 }
    else some { s with main := .lock i }
  | .lock i | .reacquire i =>
    if s.mutex = none then some { s with main := .test i, mutex := some .main } else none
  | .test i =>
    if s.totalIosCompleted % cfg.maxAios = 0 then
      some { s with main := .waiting i, mutex := none }
    else some { s with main := .unlock i }
  | .waiting _ => none
  | .unlock i =>
    some { s with main := .outer (toInt (i + cfg.maxAios)), mutex := none,
                  batches := s.batches + 1 }
  | .join => if s.sig = .exited then some { s with main := .returned } else none
  | .returned => none

/-- The next micro-step of `sig_thread`; `none` while it is blocked. -/
def sigStep (cfg : Config) (s : State) : Option State :=
  match s.sig with
  | .sigwaitinfo =>
    if s.pending = 0 then none
    else some { s with sig := .perBatch, pending := s.pending - 1 }
  | .perBatch =>
    some { s with sig := .lock, iosCompletedPerBatch := s.iosCompletedPerBatch + 1 }
  | .lock => if s.mutex = none then some { s with sig := .total, mutex := some .sig } else none
  | .total => some { s with sig := .unlock, totalIosCompleted := s.totalIosCompleted + 1 }
  | .unlock => some { s with sig := .batch, mutex := none }
  | .batch =>
    if s.iosCompletedPerBatch ≥ cfg.maxAios then
      some { s with sig := .interim, iosCompletedPerBatch := 0 }
    else some { s with sig := .exitTest }
  | .interim => some { s with sig := .exitTest, main := s.main.wake }
  | .exitTest =>
    if s.totalIosCompleted ≥ cfg.iterations then some { s with sig := .finalLock }
    else some { s with sig := .sigwaitinfo }
  | .finalLock =>
    if s.mutex = none then some { s with sig := .finalSignal, mutex := some .sig } else none
  | .finalSignal => some { s with sig := .finalUnlock, main := s.main.wake }
  | .finalUnlock => some { s with sig := .exited, mutex := none }
  | .exited => none

/-- What can happen next. -/
inductive Act where
  | main
  | sig
  /-- A write in flight completes and its signal is queued. -/
  | complete
  /-- A spurious wake-up of the main thread. -/
  | wake
  /-- `sigwaitinfo` fails with `EINTR` and the loop of `sig_thread` goes around. -/
  | eintr
  deriving DecidableEq, Repr

/-- One action. -/
def step (cfg : Config) (s : State) : Act → Option State
  | .main => mainStep cfg s
  | .sig => sigStep cfg s
  | .complete =>
    if s.inFlight = 0 then none
    else some { s with inFlight := s.inFlight - 1, pending := s.pending + 1 }
  | .wake => some { s with main := s.main.wake }
  | .eintr => if s.sig = .sigwaitinfo then some s else none

/-- The state after `pthread_create`. -/
def State.start : State := ⟨.outer 0, .sigwaitinfo, none, 0, 0, 0, 0, 0, 0⟩

/-- A call of `aio_write_test` with its signal thread. -/
def system (cfg : Config) : System State Act where
  init s := s = .start
  step := step cfg

end PerfVerif.Aio
