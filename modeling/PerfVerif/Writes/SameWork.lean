import PerfVerif.Pwrite.PwriteTest
import PerfVerif.Lio.Submission

/-!
# The three write drivers

`--test` chooses the way to write a file of `--filesize` bytes in blocks of `--blocksize`. The
drivers are compared by the writes they submit, given that every submission succeeds, and by the
length of the file when nothing more is submitted and every write has completed. `pwrite_test`
writes the blocks that the file has; the other two round them up to whole batches, and
`aio_write_test` may stop behind its first batch. The file is opened with `O_APPEND`, so every
write of the asynchronous drivers adds a block to it.
-/

namespace PerfVerif.Writes

open Transition

/-- The options of a call and the limits that `sysconf` reports, with as many iterations as an
`int` counts. -/
structure Job where
  filesize : Nat
  blocksize : Nat
  maxAios : Nat
  aioListioMax : Nat
  filesize_lt : filesize < 2 ^ 63
  blocksize_pos : 0 < blocksize
  blocksize_lt : blocksize < 2 ^ 63
  maxAios_pos : 0 < maxAios
  maxAios_lt : maxAios < 2 ^ 63
  aioListioMax_pos : 0 < aioListioMax
  aioListioMax_lt : aioListioMax < 2 ^ 63
  short : filesize / blocksize < 2 ^ 31

namespace Job

/-- `filesize / blocksize`, as each of the drivers computes it. -/
def iterations (job : Job) : Nat := job.filesize / job.blocksize

/-- The iterations fit a `long`. -/
theorem iterations_lt (job : Job) : job.iterations < 2 ^ 63 :=
  Nat.lt_trans job.short (by decide)

/-- What `pwrite_test` works with. -/
def pwrite (job : Job) : Pwrite.Config :=
  ⟨job.filesize, job.blocksize, job.filesize_lt, job.blocksize_pos, job.blocksize_lt⟩

/-- What `aio_write_test` works with. -/
def aioWrite (job : Job) : Aio.Config :=
  ⟨job.iterations, job.maxAios, job.iterations_lt, job.maxAios_pos, job.maxAios_lt⟩

/-- What `lio_listio_test` works with. -/
def lioListio (job : Job) : Lio.Config :=
  ⟨job.iterations, job.aioListioMax, job.iterations_lt, job.aioListioMax_pos,
    job.aioListioMax_lt⟩

end Job

/-- `enum test_type`. -/
inductive TestType where
  | pwrite
  | aioWrite
  | lioListio
  deriving DecidableEq, Repr

/-- A driver as the comparison sees it. -/
structure Driver where
  State : Type
  Act : Type
  system : System State Act
  /-- The steps in which every submission succeeds. -/
  succeeds : State → Act → Prop
  /-- Writes submitted so far. -/
  submitted : State → Nat
  /-- Writes submitted and not completed. -/
  inFlight : State → Nat
  /-- The length of the file, with the writes that have completed. -/
  fileLength : State → Nat

/-- The driver that `main` calls for a test. -/
def Job.driver (job : Job) : TestType → Driver
  | .pwrite =>
    { State := Pwrite.State, Act := Unit, system := Pwrite.system job.pwrite,
      succeeds := System.always, submitted := Pwrite.State.submitted, inFlight := fun _ => 0,
      fileLength := Pwrite.State.size }
  | .aioWrite =>
    { State := Aio.State, Act := Aio.Act, system := Aio.system job.aioWrite,
      succeeds := System.always, submitted := Aio.State.submitted,
      inFlight := Aio.State.inFlight,
      fileLength := fun s => (s.submitted - s.inFlight) * job.blocksize }
  | .lioListio =>
    { State := Lio.State, Act := Lio.Act, system := Lio.system job.lioListio,
      succeeds := Lio.Succeeds, submitted := Lio.State.submitted,
      inFlight := fun s => s.inFlight.length,
      fileLength := fun s => (s.submitted - s.inFlight.length) * job.blocksize }

/-- Every run of the driver submits a number of writes: no more, and no fewer if it goes on. -/
def Driver.Submits (driver : Driver) (count : Nat) : Prop :=
  driver.system.CountsTo driver.succeeds driver.submitted count

/-- The driver submits nothing more and every write has completed. -/
structure Driver.Finished (driver : Driver) (s : driver.State) : Prop where
  reached : driver.system.Reachable driver.succeeds s
  settled : driver.system.Settled driver.succeeds driver.submitted s
  landed : driver.inFlight s = 0

/-- Whichever test is chosen, the blocks of the file are submitted, and the files have the same
length. -/
structure SameWork (job : Job) : Prop where
  submits : ∀ test, (job.driver test).Submits job.iterations
  lengths : ∀ first second (s : (job.driver first).State) (t : (job.driver second).State),
    (job.driver first).Finished s → (job.driver second).Finished t →
    (job.driver first).fileLength s = (job.driver second).fileLength t

section Lengths

variable {job : Job}

/-- With every write completed, the file has the blocks submitted. -/
theorem fileLength_of_finished (test : TestType) {s : (job.driver test).State}
    (finished : (job.driver test).Finished s) :
    (job.driver test).fileLength s = (job.driver test).submitted s * job.blocksize := by
  have ⟨reached, _, landed⟩ := finished
  cases test with
  | pwrite =>
    have ⟨count, tiled⟩ := Pwrite.reachable_tiled reached
    change s.size = s.submitted * job.blocksize
    rw [tiled.submitted]
    exact tiled.size
  | aioWrite =>
    change s.inFlight = 0 at landed
    change (s.submitted - s.inFlight) * job.blocksize = s.submitted * job.blocksize
    rw [landed, Nat.sub_zero]
  | lioListio =>
    change s.inFlight.length = 0 at landed
    change (s.submitted - s.inFlight.length) * job.blocksize = s.submitted * job.blocksize
    rw [landed, Nat.sub_zero]

/-- Drivers that submit the same writes leave files of the same length. -/
theorem SameWork.of_submits (submits : ∀ test, (job.driver test).Submits job.iterations) :
    SameWork job := by
  refine ⟨submits, ?_⟩
  intro first second s t left right
  rw [fileLength_of_finished first left, fileLength_of_finished second right,
    (submits first).settled left.reached left.settled,
    (submits second).settled right.reached right.settled]

/-- `pwrite_test` submits the blocks of the file. -/
theorem pwrite_submits : (job.driver .pwrite).Submits job.iterations := by
  have limit : Aio.loopLimit job.pwrite.batches = job.iterations :=
    Aio.loopLimit_of_short job.short
  rw [← limit]
  exact Pwrite.countsTo_loopLimit

end Lengths

/-- The three drivers do the same work exactly when there is nothing to write, or the iterations
are one batch of `aio_write_test` and whole lists of `lio_listio_test`. -/
theorem same_work_iff (job : Job) :
    SameWork job ↔ job.iterations = 0 ∨
      (job.maxAios = job.iterations ∧ job.aioListioMax ∣ job.iterations) := by
  have aio := @Aio.countsTo_iff job.aioWrite job.short
  have lio := @Lio.countsTo_iff job.lioListio job.short
  constructor
  · intro same
    have divides := lio.mp (same.submits .lioListio)
    rcases aio.mp (same.submits .aioWrite) with none | single
    · exact Or.inl none
    · exact Or.inr ⟨single, divides⟩
  · intro condition
    apply SameWork.of_submits
    intro test
    cases test with
    | pwrite => exact pwrite_submits
    | aioWrite =>
      apply aio.mpr
      rcases condition with none | ⟨single, _⟩
      · exact Or.inl none
      · exact Or.inr single
    | lioListio =>
      apply lio.mpr
      rcases condition with none | ⟨_, divides⟩
      · change job.aioListioMax ∣ job.iterations
        rw [none]
        exact Nat.dvd_zero _
      · exact divides

/-- Three blocks, with batches and lists of two. -/
def oddJob : Job :=
  ⟨3, 1, 2, 2, Aio.oddConfig.iterations_lt, Nat.one_pos, Pwrite.one_lt_long,
    Aio.oddConfig.maxAios_pos, Aio.oddConfig.maxAios_lt, Aio.oddConfig.maxAios_pos,
    Aio.oddConfig.maxAios_lt, by decide⟩

/-- A round of `lio_listio_test` with a list of two: the array is filled and submitted, the main
thread sleeps, and the blocks are freed. -/
def roundOfTwo : List Lio.Act :=
  List.replicate 4 Lio.Act.main ++ Lio.Act.listio .success :: List.replicate 4 Lio.Act.main

/-- With three iterations in lists of two, `lio_listio_test` submits a fourth write. -/
theorem fourth_write_submitted : ¬ ∀ job : Job, SameWork job := by
  intro claimed
  have replay : ((Lio.system oddJob.lioListio).run .start (roundOfTwo ++ roundOfTwo)).map
      Lio.State.submitted = some 4 := by decide +kernel
  have ⟨s, replayed, submitted⟩ := Option.map_eq_some_iff.mp replay
  have succeeds : ∀ s, ∀ act ∈ roundOfTwo ++ roundOfTwo, Lio.Succeeds s act := by
    simp [roundOfTwo, Lio.Succeeds]
  have reached : (Lio.system oddJob.lioListio).Reachable Lio.Succeeds s :=
    .of_run rfl (roundOfTwo ++ roundOfTwo) succeeds replayed
  have ⟨most, _⟩ := (claimed oddJob).submits .lioListio s reached
  change s.submitted ≤ 3 at most
  omega

end PerfVerif.Writes
