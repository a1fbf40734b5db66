import PerfVerif.Aio.AioWriteTest

/-!
# `lio_listio_test` and its signal thread

The main thread fills an array with freshly allocated control blocks, submits the array as one
list with `LIO_NOWAIT`, sleeps, frees the blocks of the array and goes around; `sig_thread`
takes one signal for each completed list. An action is one micro-step of a thread, a result of
`lio_listio`, the completion of one entry of a list, or an interrupted `sigwaitinfo`. The sleep
imposes no order on the completions: it may end before any of them and behind all of them.

A block is named by the number of its allocation, so that an address given out again by `malloc`
is another block. `lio_listio` either succeeds and queues every entry, or fails with any of them
queued. The last completion of a list that was taken on sends one signal (real-time signals
queue), and `sigwaitinfo` fails only with `EINTR`. As in `aio_write_test`, the loop counters are
32-bit `int`s and wrap.
-/

namespace PerfVerif.Lio

open Transition
open Aio (toInt toUnsignedLong)

/-- What a call of `lio_listio_test` works with: `filesize / blocksize` and the length of a list,
which `sysconf` reports as a `long`. -/
structure Config where
  iterations : Nat
  aioListioMax : Nat
  iterations_lt : iterations < 2 ^ 63
  aioListioMax_pos : 0 < aioListioMax
  aioListioMax_lt : aioListioMax < 2 ^ 63

/-- The bounds of the outer loop, whose header is that of `aio_write_test`. -/
def Config.batches (cfg : Config) : Aio.Config :=
  ⟨cfg.iterations, cfg.aioListioMax, cfg.iterations_lt, cfg.aioListioMax_pos,
    cfg.aioListioMax_lt⟩

/-- Where the main thread is. -/
inductive Main where
  /-- At the test of the outer loop. -/
  | outer (i : Int)
  /-- At the test of the loop that allocates the control blocks. -/
  | inner (i j : Int)
  /-- Before `lio_listio`. -/
  | submit (i : Int)
  /-- In `sleep`, with the result of `lio_listio`. -/
  | sleep (i ret : Int)
  /-- At the test of the loop that frees the control blocks, whose own `i` is `k` here. -/
  | free (i k : Int)
  /-- In `pthread_join`. -/
  | join
  | returned
  deriving DecidableEq, Repr

/-- Where `sig_thread` is. -/
inductive Sig where
  /-- In `sigwaitinfo`. -/
  | sigwaitinfo
  /-- Before `count++`. -/
  | handling
  | exited
  deriving DecidableEq, Repr

/-- The signals of the set that `sig_thread` waits for. -/
inductive Signal where
  /-- `MYSIG_AIO_COMPLETE`, with the number of the list it is for. -/
  | aioComplete (list : Nat)
  /-- `MYSIG_STOP`. -/
  | stop
  deriving DecidableEq, Repr

/-- An entry of a submitted list: the number of the list and the control block. -/
structure Entry where
  list : Nat
  block : Nat
  deriving DecidableEq, Repr

/-- The control points, the array, the entries under way and the history. -/
structure State where
  main : Main
  sig : Sig
  /-- `control_blocks[]`; `none` is an element that was never written. -/
  controlBlocks : Int → Option Nat
  /-- Blocks allocated so far; the next one has this number. -/
  allocated : Nat
  /-- Blocks passed to `free`, in order. -/
  freed : List Nat
  /-- Calls of `lio_listio` so far; the next list has this number. -/
  lists : Nat
  /-- Lists that `lio_listio` took on. -/
  accepted : List Nat
  /-- Entries queued so far. -/
  submitted : Nat
  /-- Entries queued and not completed. -/
  inFlight : List Entry
  /-- Lists taken on whose signal has not been sent. -/
  unsignalled : List Nat
  /-- Signals sent and not taken. -/
  pending : List Signal
  /-- Lists whose signal `sig_thread` has taken. -/
  received : List Nat
  /-- `count` of `sig_thread`. -/
  count : Nat
  /-- The texts given to `perror`. -/
  errors : List String

/-- What `lio_listio` did. -/
inductive Listio where
  /-- It returned 0 with every entry queued. -/
  | success
  /-- It returned -1 with the entries of these blocks queued. -/
  | failure (queued : Nat → Bool)

/-- The blocks that the first `nent` elements of the array point to, where `nent` is
`(int)aio_listio_max`. -/
def State.listed (cfg : Config) (s : State) : List Nat :=
  (List.range (toInt cfg.aioListioMax).toNat).filterMap fun k : Nat => s.controlBlocks k

/-- `lio_listio(LIO_NOWAIT, control_blocks, (int)aio_listio_max, &per_io_list_sigevent)`. -/
def State.listio (cfg : Config) (s : State) : Listio → State
  | .success =>
    { s with
      lists := s.lists + 1, accepted := s.accepted ++ [s.lists],
      submitted := s.submitted + (s.listed cfg).length,
      inFlight := s.inFlight ++ (s.listed cfg).map (Entry.mk s.lists),
      unsignalled := s.unsignalled ++ [s.lists] }
  | .failure queued =>
    { s with
      lists := s.lists + 1,
      submitted := s.submitted + ((s.listed cfg).filter queued).length,
      inFlight := s.inFlight ++ ((s.listed cfg).filter queued).map (Entry.mk s.lists) }

/-- The `int` that `lio_listio` returned. -/
def Listio.ret : Listio → Int
  | .success => 0
  | .failure _ => -1

/-- `control_blocks[j] = control_block`, with a block from `malloc`. -/
def State.allocate (s : State) (j : Int) : State :=
  { s with
    controlBlocks := fun k => if k = j then some s.allocated else s.controlBlocks k,
    allocated := s.allocated + 1 }

/-- `free(control_blocks[k])`. -/
def State.free (s : State) (k : Int) : State :=
  { s with freed := s.freed ++ (s.controlBlocks k).toList }

/-- The next micro-step of the main thread other than `lio_listio`; `none` while it is blocked. -/
def mainStep (cfg : Config) (s : State) : Option State :=
  match s.main with
  | .outer i =>
    if toUnsignedLong i < cfg.iterations then some { s with main := .inner i 0 }
    else some { s with main := .join }
  | .inner i j =>
    if j < cfg.aioListioMax then
      some { s.allocate j with main := .inner i (toInt (j + 1)) }
    else some { s with main := .submit i }
  | .submit _ => none
  | .sleep i ret =>
    if ret = 0 then some { s with main := .free i 0 }
    else some { s with main := .free i 0, errors := s.errors ++ ["lio_listio FAILED"] }
  | .free i k =>
    if k < cfg.aioListioMax then
      some { s.free k with main := .free i (toInt (k + 1)) }
    else some { s with main := .outer (toInt (i + cfg.aioListioMax)) }
  | .join => if s.sig = .exited then some { s with main := .returned } else none
  | .returned => none

/-- The next micro-step of `sig_thread`; `none` while it is blocked. -/
def sigStep (s : State) : Option State :=
  match s.sig with
  | .sigwaitinfo =>
    match s.pending with
    | [] => none
    | .aioComplete list :: rest =>
      some { s with sig := .handling, pending := rest, received := s.received ++ [list] }
    | .stop :: rest => some { s with sig := .exited, pending := rest }
  | .handling => some { s with sig := .sigwaitinfo, count := s.count + 1 }
  | .exited => none

/-- An entry completes; the last one of a list that was taken on sends the signal of the list. -/
def State.complete (s : State) (entry : Entry) : State :=
  if entry.list ∈ s.unsignalled ∧
      ∀ other ∈ s.inFlight.erase entry, other.list ≠ entry.list then
    { s with
      inFlight := s.inFlight.erase entry,
      unsignalled := s.unsignalled.filter (· ≠ entry.list),
      pending := s.pending ++ [.aioComplete entry.list] }
  else { s with inFlight := s.inFlight.erase entry }

/-- What can happen next. -/
inductive Act where
  | main
  /-- `lio_listio` returns. -/
  | listio (result : Listio)
  | sig
  /-- An entry in flight completes. -/
  | complete (entry : Entry)
  /-- `sigwaitinfo` fails with `EINTR` and the loop of `sig_thread` goes around. -/
  | eintr

/-- One action. -/
def step (cfg : Config) (s : State) : Act → Option State
  | .main => mainStep cfg s
  | .listio result =>
    match s.main with
    | .submit i => some { s.listio cfg result with main := .sleep i result.ret }
    | _ => none
  | .sig => sigStep s
  | .complete entry => if entry ∈ s.inFlight then some (s.complete entry) else none
  | .eintr => if s.sig = .sigwaitinfo then some s else none

/-- The state after `pthread_create`. -/
def State.start : State :=
  ⟨.outer 0, .sigwaitinfo, fun _ => none, 0, [], 0, [], 0, [], [], [], [], 0, []⟩

/-- A call of `lio_listio_test` with its signal thread. -/
def system (cfg : Config) : System State Act where
  init s := s = .start
  step := step cfg

end PerfVerif.Lio
