import PerfVerif.Pwrite.PwriteTest
import Mathlib.Tactic.SplitIfs

/-!
# The blocks that `pwrite_test` writes

The driver is a deterministic program: its run is the one replay of as many steps as it takes.
It is to write every block of the file once, in order. Its counter is an `int`, so the loop test,
which compares the counter as an `unsigned long`, fails for good when the counter becomes
negative: blocks from `2 ^ 31` on are never written.
-/

namespace PerfVerif.Pwrite

open Transition
open Aio (toInt toUnsignedLong loopLimit)

/-- The call writes this byte of the file. -/
def Call.Covers (call : Call) (byte : Nat) : Prop :=
  call.offset ≤ byte ∧ byte < call.offset + call.nbytes

instance (call : Call) (byte : Nat) : Decidable (call.Covers byte) :=
  inferInstanceAs (Decidable (_ ∧ _))

/-- The driver has returned, the `k`-th of its calls is the `k`-th block of the file, and the
calls write each byte of the whole blocks once and no other byte. -/
structure TilesFile (cfg : Config) (last : State) : Prop where
  returned : last.main = .returned
  count : last.calls.length = cfg.iterations
  block : ∀ (k : Nat) (call : Call), last.calls[k]? = some call →
    call = ⟨k * cfg.blocksize, cfg.blocksize⟩
  once : ∀ byte : Nat, last.calls.countP (fun call => call.Covers byte) =
    if byte < cfg.iterations * cfg.blocksize then 1 else 0

/-- The run of the driver for a number of steps. -/
def runFor (cfg : Config) (steps : Nat) : Option State :=
  (system cfg).run .start (List.replicate steps ())

section Tiling

variable {cfg : Config}

/-- The first blocks have no gap and no overlap. -/
theorem tiles_once (count byte : Nat) :
    (tiles cfg count).countP (fun call => call.Covers byte) =
      if byte < count * cfg.blocksize then 1 else 0 := by
  induction count with
  | zero => simp [tiles]
  | succ count ih =>
    have grown : tiles cfg (count + 1) =
        tiles cfg count ++ [⟨count * cfg.blocksize, cfg.blocksize⟩] := by
      simp [tiles, List.range_succ]
    have next : Call.Covers ⟨count * cfg.blocksize, cfg.blocksize⟩ byte ↔
        count * cfg.blocksize ≤ byte ∧ byte < (count + 1) * cfg.blocksize := by
      rw [Call.Covers, Nat.succ_mul]
      dsimp only
      omega
    have larger : count * cfg.blocksize ≤ (count + 1) * cfg.blocksize :=
      Nat.mul_le_mul_right _ (Nat.le_succ _)
    rw [grown, List.countP_append, ih, List.countP_singleton]
    simp only [decide_eq_true_eq, next]
    split_ifs <;> omega

/-- A tile of the file starts where its number says and is one block long. -/
theorem tiles_block {count k : Nat} {call : Call} (found : (tiles cfg count)[k]? = some call) :
    call = ⟨k * cfg.blocksize, cfg.blocksize⟩ := by
  have ⟨inside, same⟩ := List.getElem?_eq_some_iff.mp found
  simpa [tiles] using same.symm

/-- A round of the loop goes back to its test. -/
theorem step_continues {s s' : State} {i : Int} (control : s.main = .loop i)
    (more : toUnsignedLong i < cfg.iterations) (taken : step cfg s = some s') :
    s'.main = .loop (toInt (i + 1)) := by
  simp only [step, control, if_pos more, Option.some.injEq] at taken
  subst taken
  rfl

/-- The loop runs to its end and the driver returns. -/
theorem Tiled.halts (rounds : Nat) {s : State} {count : Nat} (tiled : Tiled cfg s count)
    (control : s.main = .loop (toInt count)) (left : count + rounds = loopLimit cfg.batches) :
    ∃ last, (system cfg).run s (List.replicate (rounds + 1) ()) = some last ∧
      last.main = .returned := by
  induction rounds generalizing s count with
  | zero =>
    have all : count = loopLimit cfg.batches := left
    have done := mt (loop_test_iff (Nat.le_of_eq all)).mp (by omega)
    have taken : (system cfg).step s () = some { s with main := .returned } := by
      simp only [system, Pwrite.step, control, if_neg done]
    exact ⟨{ s with main := .returned }, by simp [System.run, taken], rfl⟩
  | succ rounds ih =>
    obtain ⟨after, taken, written⟩ := tiled.round control (by omega)
    have below : count < loopLimit cfg.batches := by omega
    have more := (loop_test_iff (Nat.le_of_lt below)).mpr below
    have again := step_continues control more taken
    rw [counter_succ] at again
    obtain ⟨last, rest, returned⟩ := ih written again (by omega)
    refine ⟨last, ?_, returned⟩
    change ((system cfg).step s ()).bind _ = _
    rw [show (system cfg).step s () = some after from taken]
    exact rest

/-- A run of the driver is a run of the system. -/
theorem runFor_tiled {steps : Nat} {last : State} (runs : runFor cfg steps = some last) :
    ∃ count, Tiled cfg last count :=
  reachable_tiled (System.Reachable.of_run rfl _ (fun _ _ _ => trivial) runs)

/-- The driver returns, and it has written the blocks that the counter reaches. -/
theorem runFor_returns (cfg : Config) : ∃ steps last, runFor cfg steps = some last ∧
    last.main = .returned ∧ Tiled cfg last (loopLimit cfg.batches) := by
  have start : Tiled cfg .start 0 := ⟨rfl, (Nat.zero_mul _).symm, Or.inl ⟨rfl, Nat.zero_le _⟩⟩
  have ⟨last, runs, returned⟩ := start.halts (loopLimit cfg.batches) rfl (Nat.zero_add _)
  have ⟨count, tiled⟩ := runFor_tiled runs
  exact ⟨_, last, runs, returned, tiled.returned_count returned ▸ tiled⟩

/-- A driver that returns with all its blocks written has tiled the file. -/
theorem Tiled.tilesFile {last : State} {count : Nat} (tiled : Tiled cfg last count)
    (returned : last.main = .returned) (whole : count = cfg.iterations) :
    TilesFile cfg last := by
  have all : last.calls = tiles cfg cfg.iterations := whole ▸ tiled.calls
  refine ⟨returned, ?_, ?_, ?_⟩
  · rw [← State.submitted, tiled.submitted, whole]
  · intro k call found
    exact tiles_block (all ▸ found)
  · intro byte
    rw [all, tiles_once]

/-- Where the file is tiled, the counter has reached all its blocks. -/
theorem TilesFile.iterations_eq {steps : Nat} {last : State} (tiles : TilesFile cfg last)
    (runs : runFor cfg steps = some last) : cfg.iterations = loopLimit cfg.batches := by
  have ⟨count, tiled⟩ := runFor_tiled runs
  have counted : count = cfg.iterations := tiled.submitted.symm.trans tiles.count
  exact counted.symm.trans (tiled.returned_count tiles.returned)

end Tiling

/-- The driver returns and has tiled the file exactly when an `int` counts the blocks. -/
theorem pwrite_test_tiles_iff (cfg : Config) :
    (∃ steps last, runFor cfg steps = some last ∧ TilesFile cfg last) ↔
      cfg.iterations ≤ 2 ^ 31 := by
  have most : loopLimit cfg.batches = min cfg.iterations (2 ^ 31) := rfl
  constructor
  · intro ⟨steps, last, runs, tiles⟩
    have all := tiles.iterations_eq runs
    omega
  · intro short
    have ⟨steps, last, runs, returned, tiled⟩ := runFor_returns cfg
    exact ⟨steps, last, runs, tiled.tilesFile returned (by omega)⟩

/-- A file of `2 ^ 31 + 1` bytes in blocks of one byte. -/
def longFile : Config := ⟨2 ^ 31 + 1, 1, by decide, Nat.one_pos, one_lt_long⟩

/-- The last byte of the long file is never written. -/
theorem long_file_not_tiled :
    ¬ ∃ steps last, runFor longFile steps = some last ∧ TilesFile longFile last := by
  intro ⟨steps, last, runs, tiles⟩
  have all := tiles.iterations_eq runs
  have blocks : longFile.iterations = 2 ^ 31 + 1 := Nat.div_one _
  have most : loopLimit longFile.batches = min longFile.iterations (2 ^ 31) := rfl
  omega

end PerfVerif.Pwrite
