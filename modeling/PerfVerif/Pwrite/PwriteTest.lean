import PerfVerif.Aio.Invariant

/-!
# `pwrite_test`

The synchronous driver writes one block at a time, the `k`-th at offset `k * blocksize`, and
returns. Every `pwrite` writes all its bytes, so the file grows to the end of the furthest write;
that the file is opened with `O_APPEND` makes no difference here, since every write starts at the
end. Which of the random buffers a write takes its bytes from is left out. The loop counter is a
32-bit `int` and wraps.
-/

namespace PerfVerif.Pwrite

open Transition
open Aio (toInt toUnsignedLong loopLimit)

/-- The sizes given with `--filesize` and `--blocksize`, which are `long long`s. -/
structure Config where
  filesize : Nat
  blocksize : Nat
  filesize_lt : filesize < 2 ^ 63
  blocksize_pos : 0 < blocksize
  blocksize_lt : blocksize < 2 ^ 63

/-- `filesize / blocksize`. -/
def Config.iterations (cfg : Config) : Nat := cfg.filesize / cfg.blocksize

/-- The iterations fit a `long`. -/
theorem Config.iterations_lt (cfg : Config) : cfg.iterations < 2 ^ 63 :=
  Nat.lt_of_le_of_lt (Nat.div_le_self _ _) cfg.filesize_lt

/-- One fits a `long`. -/
theorem one_lt_long : 1 < 2 ^ 63 := by decide

/-- The bounds of the loop, which is an outer loop of `aio_write_test` in steps of one. -/
def Config.batches (cfg : Config) : Aio.Config :=
  ⟨cfg.iterations, 1, cfg.iterations_lt, Nat.one_pos, one_lt_long⟩

/-- A call of `pwrite`. -/
structure Call where
  offset : Int
  nbytes : Nat
  deriving DecidableEq, Repr

/-- Where the driver is. -/
inductive Main where
  /-- At the test of the loop. -/
  | loop (i : Int)
  | returned
  deriving DecidableEq, Repr

/-- The control point, the calls so far and the length of the file. -/
structure State where
  main : Main
  calls : List Call
  size : Nat
  deriving DecidableEq, Repr

/-- `pwrite` extends the file to the end of the bytes it writes. -/
def State.pwrite (s : State) (call : Call) : State :=
  { s with
    calls := s.calls ++ [call], size := max s.size (call.offset + call.nbytes).toNat }

/-- The next step of the driver. -/
def step (cfg : Config) (s : State) : Option State :=
  match s.main with
  | .loop i =>
    if toUnsignedLong i < cfg.iterations then
      some { s.pwrite ⟨i * cfg.blocksize, cfg.blocksize⟩ with main := .loop (toInt (i + 1)) }
    else some { s with main := .returned }
  | .returned => none

/-- The writes submitted so far. -/
def State.submitted (s : State) : Nat := s.calls.length

/-- The start of the call, with an empty file. -/
def State.start : State := ⟨.loop 0, [], 0⟩

/-- A call of `pwrite_test`, with no other thread. -/
def system (cfg : Config) : System State Unit where
  init s := s = .start
  step s _ := step cfg s

section Runs

variable {cfg : Config}

/-- The calls of the first blocks. -/
def tiles (cfg : Config) (count : Nat) : List Call :=
  (List.range count).map fun k : Nat => ⟨k * cfg.blocksize, cfg.blocksize⟩

/-- The driver has written the first blocks, and its counter shows how many. -/
structure Tiled (cfg : Config) (s : State) (count : Nat) : Prop where
  calls : s.calls = tiles cfg count
  size : s.size = count * cfg.blocksize
  control : (s.main = .loop (toInt count) ∧ count ≤ loopLimit cfg.batches) ∨
    (s.main = .returned ∧ count = loopLimit cfg.batches)

/-- The loop test on the counter. -/
theorem loop_test_iff {count : Nat} (most : count ≤ loopLimit cfg.batches) :
    toUnsignedLong (toInt count) < cfg.iterations ↔ count < loopLimit cfg.batches := by
  have limit : loopLimit cfg.batches ≤ 2 ^ 31 := Nat.min_le_right _ _
  exact Aio.outer_test_iff cfg.batches (by omega)

/-- The counter after a round is the converted number of the next block, even where it wraps. -/
theorem counter_succ (count : Nat) : toInt (toInt count + 1) = toInt (count + 1 : Nat) := by
  rw [Aio.toInt_add_left, Int.natCast_add, Int.natCast_one]

/-- A round of the loop writes the next block. -/
theorem Tiled.round {s : State} {count : Nat} (tiled : Tiled cfg s count)
    (control : s.main = .loop (toInt count)) (left : count < loopLimit cfg.batches) :
    ∃ s', step cfg s = some s' ∧ Tiled cfg s' (count + 1) := by
  have limit : loopLimit cfg.batches ≤ 2 ^ 31 := Nat.min_le_right _ _
  have counter : toInt count = count := Aio.toInt_of_range (by omega) (by omega)
  have next := counter_succ count
  have more := (loop_test_iff (Nat.le_of_lt left)).mpr left
  refine ⟨{ s.pwrite ⟨toInt count * cfg.blocksize, cfg.blocksize⟩ with
      main := .loop (toInt (count + 1 : Nat)) }, ?_, ?_, ?_, Or.inl ⟨rfl, left⟩⟩
  · simp only [step, control, if_pos more, next]
  · change s.calls ++ [⟨toInt count * cfg.blocksize, cfg.blocksize⟩] = tiles cfg (count + 1)
    rw [tiled.calls, counter, tiles, tiles, List.range_succ, List.map_append]
    rfl
  · change max s.size (toInt count * cfg.blocksize + cfg.blocksize).toNat = _
    have furthest : (toInt count * cfg.blocksize + cfg.blocksize).toNat =
        (count + 1) * cfg.blocksize := by
      rw [counter, Nat.succ_mul]
      omega
    rw [tiled.size, furthest]
    exact Nat.max_eq_right (Nat.mul_le_mul_right _ (Nat.le_succ _))

/-- A step writes the next block or returns. -/
theorem Tiled.step {s s' : State} {count : Nat} (tiled : Tiled cfg s count)
    (taken : step cfg s = some s') : ∃ later, Tiled cfg s' later := by
  rcases tiled.control with ⟨control, most⟩ | ⟨control, _⟩
  · by_cases left : count < loopLimit cfg.batches
    · have ⟨after, stepped, written⟩ := tiled.round control left
      rw [taken] at stepped
      cases stepped
      exact ⟨count + 1, written⟩
    · have done := mt (loop_test_iff most).mp left
      simp only [Pwrite.step, control, if_neg done, Option.some.injEq] at taken
      subst taken
      exact ⟨count, tiled.calls, tiled.size, Or.inr ⟨rfl, by omega⟩⟩
  · simp [Pwrite.step, control] at taken

/-- Every run has written the first blocks. -/
theorem reachable_tiled {s : State} (reached : (system cfg).Reachable System.always s) :
    ∃ count, Tiled cfg s count := by
  apply reached.invariant
  · rintro first rfl
    exact ⟨0, rfl, (Nat.zero_mul _).symm, Or.inl ⟨rfl, Nat.zero_le _⟩⟩
  · intro before _ after _ facts _ taken
    have ⟨_, tiled⟩ := facts
    exact tiled.step taken

/-- The calls are as many as the blocks written. -/
theorem Tiled.submitted {s : State} {count : Nat} (tiled : Tiled cfg s count) :
    s.submitted = count := by
  rw [State.submitted, tiled.calls, tiles, List.length_map, List.length_range]

/-- The blocks written are at most those that the counter reaches. -/
theorem Tiled.most {s : State} {count : Nat} (tiled : Tiled cfg s count) :
    count ≤ loopLimit cfg.batches := by
  rcases tiled.control with ⟨_, most⟩ | ⟨_, all⟩
  · exact most
  · exact Nat.le_of_eq all

/-- At the return the blocks written are all that the counter reaches. -/
theorem Tiled.returned_count {s : State} {count : Nat} (tiled : Tiled cfg s count)
    (returned : s.main = .returned) : count = loopLimit cfg.batches := by
  rcases tiled.control with ⟨control, _⟩ | ⟨_, all⟩
  · rw [returned] at control
    contradiction
  · exact all

/-- The blocks that are left can be written. -/
theorem Tiled.finish (rounds : Nat) {s : State} {count : Nat} (tiled : Tiled cfg s count)
    (enough : count + rounds = loopLimit cfg.batches) :
    ∃ s', (system cfg).Leads System.always s s' ∧ s'.submitted = loopLimit cfg.batches := by
  induction rounds generalizing s count with
  | zero => exact ⟨s, .refl, tiled.submitted.trans enough⟩
  | succ rounds ih =>
    rcases tiled.control with ⟨control, _⟩ | ⟨_, all⟩
    · have ⟨after, taken, written⟩ := tiled.round control (by omega)
      have ⟨s', rest, all⟩ := ih written (by omega)
      exact ⟨s', .trans (System.leads_single () trivial taken) rest, all⟩
    · omega

/-- `pwrite_test` makes as many calls as the loop has rounds. -/
theorem countsTo_loopLimit :
    (system cfg).CountsTo System.always State.submitted (loopLimit cfg.batches) := by
  intro s reached
  have ⟨count, tiled⟩ := reachable_tiled reached
  have most := tiled.most
  rw [tiled.submitted]
  exact ⟨most, tiled.finish (loopLimit cfg.batches - count) (by omega)⟩

end Runs

end PerfVerif.Pwrite
