import PerfVerif.Lib.File
import PerfVerif.Aio.Results
import PerfVerif.Pwrite.PwriteTest
import Mathlib.Algebra.GroupWithZero.Nat

/-!
# The file that `pwrite_test` leaves

`main` opens the file with `O_APPEND`, and `pwrite_test` gives an offset with each write. Whether
the offset counts then depends on the system: POSIX has `pwrite` write at its offset, and some
systems append the bytes all the same. The driver reports a failed write and goes on with the next
block; a short one it does not even notice. Both make a difference between the systems as soon as
another byte is written.
-/

namespace PerfVerif.Contents

open Transition
open Aio (Blocks Done toInt toUnsignedLong loopLimit)
open Pwrite (Config Main)

/-- Where `pwrite` puts its bytes in a file opened with `O_APPEND`. -/
inductive Placement where
  /-- At its offset. -/
  | offset
  /-- At the end of the file. -/
  | append
  deriving DecidableEq, Repr

/-- The file after a `pwrite`. -/
def Placement.write (placement : Placement) (file : List UInt8) (offset : Nat)
    (data : List UInt8) : List UInt8 :=
  match placement with
  | .offset => File.writeAt 0 file offset data
  | .append => file ++ data

/-- The sizes of a call and the buffers it writes from. -/
structure Job where
  cfg : Config
  blocks : Blocks
  same : blocks.blocksize = cfg.blocksize

/-- The control point, the file and the writes so far. -/
structure State where
  main : Main
  file : List UInt8
  done : List Done

/-- What a round depends on: the value of `rand()`, and what `pwrite` returns. -/
structure Round where
  rand : Nat
  wrote : Option Nat
  deriving DecidableEq, Repr

/-- The next step of the driver. -/
def step (placement : Placement) (job : Job) (s : State) (round : Round) : Option State :=
  match s.main with
  | .loop i =>
    if toUnsignedLong i < job.cfg.iterations then
      if round.wrote.getD 0 ≤ job.cfg.blocksize then
        let done : Done := ⟨round.rand % job.blocks.bufferCount, round.wrote⟩
        some {
          main := .loop (toInt (i + 1))
          file := placement.write s.file (i * job.cfg.blocksize).toNat (done.bytes job.blocks)
          done := s.done ++ [done] }
      else none
    else some { s with main := .returned }
  | .returned => none

/-- The start of the call, with a new file. -/
def State.start : State := ⟨.loop 0, [], []⟩

/-- A call of `pwrite_test` on a system. -/
def system (placement : Placement) (job : Job) : System State Round where
  init s := s = .start
  step := step placement job

/-- No write that wrote something came behind one that fell short. -/
def FullBefore (blocksize : Nat) (done : List Done) : Prop :=
  done.Pairwise fun earlier later => 0 < later.count → earlier.count = blocksize

section Rounds

variable {placement : Placement} {job : Job} {s s' : State} {round : Round}

/-- The bytes of a write are as many as it has written. -/
theorem length_bytes (round : Round) (short : round.wrote.getD 0 ≤ job.cfg.blocksize) :
    (Done.bytes job.blocks ⟨round.rand % job.blocks.bufferCount, round.wrote⟩).length =
      round.wrote.getD 0 := by
  have buffer := job.blocks.length_bytes _ (Nat.mod_lt round.rand job.blocks.bufferCount_pos)
  rw [job.same] at buffer
  rw [Done.bytes, List.length_take, buffer]
  exact Nat.min_eq_left short

/-- A step writes the next block, or returns. -/
theorem step_cases (stepped : step placement job s round = some s') :
    (∃ i, s.main = .loop i ∧ toUnsignedLong i < job.cfg.iterations ∧
      round.wrote.getD 0 ≤ job.cfg.blocksize ∧ s' = {
        main := .loop (toInt (i + 1))
        file := placement.write s.file (i * job.cfg.blocksize).toNat
          (Done.bytes job.blocks ⟨round.rand % job.blocks.bufferCount, round.wrote⟩)
        done := s.done ++ [⟨round.rand % job.blocks.bufferCount, round.wrote⟩] }) ∨
    (∃ i, s.main = .loop i ∧ ¬ toUnsignedLong i < job.cfg.iterations ∧
      s' = { s with main := .returned }) := by
  unfold step at stepped
  split at stepped
  · rename_i i control
    split at stepped
    · rename_i more
      have ⟨short, same⟩ := Option.ite_none_right_eq_some.mp stepped
      exact Or.inl ⟨i, control, more, short, (Option.some.inj same).symm⟩
    · rename_i done
      exact Or.inr ⟨i, control, done, (Option.some.inj stepped).symm⟩
  · contradiction

/-- Writes that are all full have written their blocks. -/
theorem sum_counts_of_full {blocksize : Nat} {done : List Done}
    (full : ∀ write ∈ done, write.count = blocksize) :
    (done.map Done.count).sum = done.length * blocksize := by
  induction done with
  | nil => exact (Nat.zero_mul _).symm
  | cons write rest ih =>
    have ⟨first, others⟩ := List.forall_mem_cons.mp full
    rw [List.map_cons, List.sum_cons, List.length_cons, Nat.succ_mul, first, ih others,
      Nat.add_comm]

/-- Writes that are not all full have written fewer bytes than their blocks. -/
theorem sum_counts_lt {blocksize : Nat} {done : List Done}
    (counts : ∀ write ∈ done, write.count ≤ blocksize)
    (short : ¬ ∀ write ∈ done, write.count = blocksize) :
    (done.map Done.count).sum < done.length * blocksize := by
  induction done with
  | nil => exact absurd (fun _ member => absurd member List.not_mem_nil) short
  | cons write rest ih =>
    have ⟨first, others⟩ := List.forall_mem_cons.mp counts
    rw [List.map_cons, List.sum_cons, List.length_cons, Nat.succ_mul]
    by_cases full : ∀ other ∈ rest, other.count = blocksize
    · have whole := sum_counts_of_full full
      have less : write.count ≠ blocksize :=
        fun same => short (List.forall_mem_cons.mpr ⟨same, full⟩)
      omega
    · have fewer := ih others full
      omega

/-- A write that wrote nothing comes behind any. -/
theorem fullBefore_of_none {blocksize : Nat} {done : List Done} {write : Done}
    (none : write.count = 0) : FullBefore blocksize (done ++ [write]) ↔ FullBefore blocksize done := by
  unfold FullBefore
  rw [List.pairwise_append]
  constructor
  · exact And.left
  · intro before
    refine ⟨before, List.pairwise_singleton _ _, ?_⟩
    intro earlier _ later last positive
    rw [List.mem_singleton.mp last, none] at positive
    exact absurd positive (Nat.lt_irrefl 0)

/-- A write that wrote something comes behind full ones only. -/
theorem fullBefore_of_some {blocksize : Nat} {done : List Done} {write : Done}
    (positive : 0 < write.count) :
    FullBefore blocksize (done ++ [write]) ↔ ∀ earlier ∈ done, earlier.count = blocksize := by
  unfold FullBefore
  rw [List.pairwise_append]
  constructor
  · rintro ⟨_, _, across⟩ earlier member
    exact across earlier member write (List.mem_singleton.mpr rfl) positive
  · intro full
    refine ⟨?_, List.pairwise_singleton _ _, fun earlier member _ _ _ => full earlier member⟩
    exact List.pairwise_of_forall_mem_list fun earlier member _ _ _ => full earlier member

/-- The states after the same rounds on a system that appends and on one that does not. -/
structure Beside (job : Job) (s t : State) : Prop where
  main : t.main = s.main
  done : t.done = s.done
  counter : ∀ i, s.main = .loop i →
    i = toInt s.done.length ∧ s.done.length ≤ loopLimit job.cfg.batches
  counts : ∀ write ∈ s.done, write.count ≤ job.cfg.blocksize
  length : s.file.length = (s.done.map Done.count).sum
  reach : t.file.length ≤ s.done.length * job.cfg.blocksize
  same : FullBefore job.cfg.blocksize s.done → s.file = t.file
  apart : ¬ FullBefore job.cfg.blocksize s.done → s.file.length < t.file.length

/-- A new file is the same on both. -/
theorem Beside.start (job : Job) : Beside job .start .start := by
  have zero : (0 : Int) = toInt (0 : Nat) := by decide
  refine ⟨rfl, rfl, ?_, fun _ member => absurd member List.not_mem_nil, rfl, Nat.zero_le _,
    fun _ => rfl, fun broken => absurd List.Pairwise.nil broken⟩
  intro i control
  exact ⟨(Main.loop.inj control).symm.trans zero, Nat.zero_le _⟩

/-- The offset of a round is behind the blocks of the rounds before it. -/
theorem Beside.offset {s t : State} (beside : Beside job s t) {i : Int} (control : s.main = .loop i)
    (more : toUnsignedLong i < job.cfg.iterations) :
    (i * job.cfg.blocksize).toNat = s.done.length * job.cfg.blocksize ∧
      s.done.length < loopLimit job.cfg.batches := by
  have ⟨counter, most⟩ := beside.counter i control
  have limit : loopLimit job.cfg.batches ≤ 2 ^ 31 := Nat.min_le_right _ _
  rw [counter] at more ⊢
  have below := (Pwrite.loop_test_iff most).mp more
  rw [Aio.toInt_of_range (by omega) (by omega), ← Int.natCast_mul, Int.toNat_natCast]
  exact ⟨rfl, below⟩

/-- A block written on both systems keeps their states beside each other. -/
theorem Beside.write {s t : State} (beside : Beside job s t) {i : Int} (control : s.main = .loop i)
    (more : toUnsignedLong i < job.cfg.iterations)
    (short : round.wrote.getD 0 ≤ job.cfg.blocksize) :
    let done : Done := ⟨round.rand % job.blocks.bufferCount, round.wrote⟩
    Beside job
      { main := .loop (toInt (i + 1))
        file := Placement.append.write s.file (i * job.cfg.blocksize).toNat (done.bytes job.blocks)
        done := s.done ++ [done] }
      { main := .loop (toInt (i + 1))
        file := Placement.offset.write t.file (i * job.cfg.blocksize).toNat (done.bytes job.blocks)
        done := s.done ++ [done] } := by
  intro done
  have ⟨_, _, counter, counts, length, reach, same, apart⟩ := beside
  have ⟨offset, below⟩ := beside.offset control more
  have count : (done.bytes job.blocks).length = done.count := length_bytes round short
  have total : ((s.done ++ [done]).map Done.count).sum = s.file.length + done.count := by
    rw [List.map_append, List.sum_append, List.map_singleton, List.sum_singleton, length]
  have longer : (s.done ++ [done]).length * job.cfg.blocksize =
      s.done.length * job.cfg.blocksize + job.cfg.blocksize := by
    rw [List.length_append, List.length_singleton, Nat.succ_mul]
  have all : ∀ write ∈ s.done ++ [done], write.count ≤ job.cfg.blocksize := by
    intro write member
    rcases List.mem_append.mp member with before | last
    · exact counts write before
    · exact (List.mem_singleton.mp last) ▸ short
  have appended : (s.file ++ done.bytes job.blocks).length = s.file.length + done.count := by
    rw [List.length_append, count]
  have next : ∀ j, Main.loop (toInt (i + 1)) = .loop j →
      j = toInt (s.done ++ [done]).length ∧
        (s.done ++ [done]).length ≤ loopLimit job.cfg.batches := by
    rintro j ⟨⟩
    rw [(counter i control).1, Pwrite.counter_succ, List.length_append, List.length_singleton]
    exact ⟨rfl, below⟩
  dsimp only [Placement.write]
  rw [offset]
  by_cases none : done.count = 0
  · -- nothing is written anywhere
    have empty : done.bytes job.blocks = [] := List.eq_nil_of_length_eq_zero (count.trans none)
    rw [empty, List.append_nil, File.writeAt]
    have before := @fullBefore_of_none job.cfg.blocksize s.done _ none
    refine ⟨rfl, rfl, next, all, ?_, ?_, fun full => same (before.mp full),
      fun broken => apart (mt before.mpr broken)⟩
    · change s.file.length = ((s.done ++ [done]).map Done.count).sum
      omega
    · change t.file.length ≤ (s.done ++ [done]).length * job.cfg.blocksize
      omega
  · have positive : 0 < done.count := Nat.pos_of_ne_zero none
    have nonempty : done.bytes job.blocks ≠ [] := by
      intro empty
      rw [empty] at count
      exact none count.symm
    have placed := File.length_writeAt 0 t.file (s.done.length * job.cfg.blocksize) nonempty
    rw [count] at placed
    have before := @fullBefore_of_some job.cfg.blocksize s.done _ positive
    refine ⟨rfl, rfl, next, all, ?_, ?_, ?_, ?_⟩
    · change (s.file ++ done.bytes job.blocks).length = ((s.done ++ [done]).map Done.count).sum
      omega
    · change (File.writeAt 0 t.file (s.done.length * job.cfg.blocksize)
        (done.bytes job.blocks)).length ≤ (s.done ++ [done]).length * job.cfg.blocksize
      have fits : done.count ≤ job.cfg.blocksize := short
      omega
    · intro full
      have whole := before.mp full
      have equal := same (List.pairwise_of_forall_mem_list
        fun earlier member _ _ _ => whole earlier member)
      have ends := sum_counts_of_full whole
      rw [← length, equal] at ends
      change s.file ++ _ = _
      rw [← ends, File.writeAt_end, equal]
    · intro broken
      have fewer := sum_counts_lt counts (mt before.mpr broken)
      change (s.file ++ done.bytes job.blocks).length <
        (File.writeAt 0 t.file (s.done.length * job.cfg.blocksize) (done.bytes job.blocks)).length
      omega

/-- A round on both systems keeps their states beside each other. -/
theorem Beside.step {s t s' t' : State} (beside : Beside job s t)
    (appends : step .append job s round = some s') (places : step .offset job t round = some t') :
    Beside job s' t' := by
  have ⟨main, done, counter, counts, length, reach, same, apart⟩ := beside
  rcases step_cases appends with ⟨i, control, more, short, rfl⟩ | ⟨i, control, finished, rfl⟩
  · rcases step_cases places with ⟨j, control', _, _, rfl⟩ | ⟨j, control', finished, rfl⟩
    · obtain rfl := Main.loop.inj (control.symm.trans (main.symm.trans control'))
      rw [done]
      exact beside.write control more short
    · obtain rfl := Main.loop.inj (control.symm.trans (main.symm.trans control'))
      exact absurd more finished
  · rcases step_cases places with ⟨j, control', more, _, rfl⟩ | ⟨j, control', _, rfl⟩
    · obtain rfl := Main.loop.inj (control.symm.trans (main.symm.trans control'))
      exact absurd more finished
    · exact ⟨rfl, done, nofun, counts, length, reach, same, apart⟩

/-- Any number of rounds on both systems keep their states beside each other. -/
theorem Beside.run {rounds : List Round} {s t s' t' : State} (beside : Beside job s t)
    (appends : (system .append job).run s rounds = some s')
    (places : (system .offset job).run t rounds = some t') : Beside job s' t' := by
  induction rounds generalizing s t with
  | nil =>
    cases appends
    cases places
    exact beside
  | cons round rest ih =>
    obtain ⟨middle, first, appends⟩ := Option.bind_eq_some_iff.mp appends
    obtain ⟨middle', first', places⟩ := Option.bind_eq_some_iff.mp places
    exact ih (beside.step first first') appends places

end Rounds

/-- Behind any rounds of `pwrite_test` on a new file, whatever each `pwrite` came to, a system that
appends in spite of the offsets has the same file as one that writes at them exactly when no write
that wrote something came behind one that failed or fell short. Otherwise its file is shorter. -/
theorem same_file_iff (job : Job) (rounds : List Round) (s t : State)
    (appends : (system .append job).run .start rounds = some s)
    (places : (system .offset job).run .start rounds = some t) :
    (s.file = t.file ↔ FullBefore job.cfg.blocksize s.done) ∧
      (s.file ≠ t.file → s.file.length < t.file.length) := by
  have ⟨_, _, _, _, _, _, same, apart⟩ := (Beside.start job).run appends places
  by_cases full : FullBefore job.cfg.blocksize s.done
  · exact ⟨iff_of_true (same full) full, fun other => absurd (same full) other⟩
  · have shorter := apart full
    refine ⟨iff_of_false (fun equal => ?_) full, fun _ => shorter⟩
    rw [equal] at shorter
    exact Nat.lt_irrefl _ shorter

/-- Two blocks of two bytes. -/
def smallJob : Job :=
  ⟨⟨4, 2, by decide, Nat.two_pos, Aio.oddConfig.maxAios_lt⟩,
    ⟨2, 1, fun _ => [7, 8], Nat.one_pos, fun _ _ => rfl⟩, rfl⟩

/-- With a byte of the first block missing, the second one leaves a gap where it is not appended. -/
theorem same_file_iff_short :
    ∃ s t, (system .append smallJob).run .start [⟨0, some 1⟩, ⟨0, some 2⟩] = some s ∧
      (system .offset smallJob).run .start [⟨0, some 1⟩, ⟨0, some 2⟩] = some t ∧
      s.file = [7, 7, 8] ∧ t.file = [7, 0, 7, 8] ∧ ¬ FullBefore 2 s.done := by
  have replay : ((system .append smallJob).run .start [⟨0, some 1⟩, ⟨0, some 2⟩]).map State.file =
      some [7, 7, 8] := by decide +kernel
  have replay' : ((system .offset smallJob).run .start [⟨0, some 1⟩, ⟨0, some 2⟩]).map State.file =
      some [7, 0, 7, 8] := by decide +kernel
  have ⟨s, appends, file⟩ := Option.map_eq_some_iff.mp replay
  have ⟨t, places, file'⟩ := Option.map_eq_some_iff.mp replay'
  have different : s.file ≠ t.file := by
    rw [file, file']
    decide
  have ⟨iff, _⟩ := same_file_iff smallJob _ s t appends places
  exact ⟨s, t, appends, places, file, file', fun full => different (iff.mpr full)⟩

end PerfVerif.Contents
