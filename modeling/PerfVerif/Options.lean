import PerfVerif.Lib.CommandLine
import PerfVerif.Buffers
import PerfVerif.Writes.SameWork
import Mathlib.Tactic.SplitIfs

/-!
# The options of the write tests

`collect_options` stores what `getopt_long` finds through the pointers that `main` passes, and
`main` calls the driver that `test` names. A variable that has no value is `none` here: `main`
initializes only `rename_delay` and `sync_type`. The arguments are those behind the program's
name, and `PATH_MAX`, the size of `filepath`, is a parameter.
-/

namespace PerfVerif.Options

open CommandLine
open Aio (toUnsignedLong)
open Buffers (toLongLong)
open Writes (TestType)

/-- `O_SYNC`, `O_DSYNC` or `0`. -/
inductive SyncType where
  | sync
  | dsync
  | zero
  deriving DecidableEq, Repr

/-- The variables of `main` that the options set. -/
structure Locals where
  filepath : Option Text
  filesize : Option Int
  blocksize : Option Int
  test : Option TestType
  syncType : SyncType
  renameDelay : Int
  deriving DecidableEq, Repr

/-- The variables as `main` declares them. -/
def Locals.start : Locals := ⟨none, none, none, none, .zero, 0⟩

/-- `long_options` and the short options. -/
def options : Spec where
  optstring := [('f', true), ('s', true), ('b', true), ('t', true), ('y', true), ('r', true)]
  longopts :=
    [⟨"filepath".toList, true, 'f'⟩, ⟨"filesize".toList, true, 's'⟩,
      ⟨"blocksize".toList, true, 'b'⟩, ⟨"test".toList, true, 't'⟩,
      ⟨"sync_type".toList, true, 'y'⟩, ⟨"rename_delay".toList, true, 'r'⟩]

/-- How the option loop ends. -/
inductive Outcome where
  /-- It returns to `main`. -/
  | returns (opts : Locals)
  /-- `usage` ends the program. -/
  | exits
  /-- `strcpy` writes behind `filepath`, or reads from a null pointer. -/
  | undefined
  deriving DecidableEq, Repr

/-- The test of this name, or the one that was set before. -/
def testOf (previous : Option TestType) (optarg : Text) : Option TestType :=
  if optarg = "pwrite".toList then some .pwrite
  else if optarg = "aio_write".toList then some .aioWrite
  else if optarg = "lio_listio".toList then some .lioListio
  else previous

/-- The synchronization of this name. -/
def syncTypeOf (optarg : Text) : SyncType :=
  if optarg = "O_SYNC".toList then .sync
  else if optarg = "O_DSYNC".toList then .dsync
  else .zero

/-- The `switch` on the result of a call of `getopt_long`. -/
def Locals.take (pathMax : Nat) (opts : Locals) : Result → Outcome
  | .unknown => .exits
  | .found _ none => .undefined
  | .found val (some optarg) =>
    if val = 'f' then
      if optarg.length < pathMax then .returns { opts with filepath := some optarg }
      else .undefined
    else if val = 's' then .returns { opts with filesize := some (strtoll optarg) }
    else if val = 'b' then .returns { opts with blocksize := some (strtoll optarg) }
    else if val = 't' then .returns { opts with test := testOf opts.test optarg }
    else if val = 'y' then .returns { opts with syncType := syncTypeOf optarg }
    else if val = 'r' then .returns { opts with renameDelay := strtoll optarg }
    else .exits

/-- The option loop. -/
def collect (pathMax : Nat) (opts : Locals) : List Result → Outcome
  | [] => .returns opts
  | result :: rest =>
    match opts.take pathMax result with
    | .returns opts => collect pathMax opts rest
    | .exits => .exits
    | .undefined => .undefined

/-- `collect_options`. -/
def collectOptions (pathMax : Nat) (order : Order) (args : List Text) : Outcome :=
  collect pathMax .start (options.getoptLong order args)

/-- A driver and the sizes it is called with. -/
structure Call where
  test : TestType
  filesize : Option Int
  blocksize : Option Int
  deriving DecidableEq, Repr

/-- The driver that `main` calls, if any. When `test` has no value, the comparisons see what was
in memory. -/
def main (pathMax : Nat) (order : Order) (memory : Option TestType) (args : List Text) :
    Option Call :=
  match collectOptions pathMax order args with
  | .returns opts =>
    match opts.test.or memory with
    | some test => some ⟨test, opts.filesize, opts.blocksize⟩
    | none => none
  | _ => none

/-- The `long long` quotient of the drivers. -/
def quotient (filesize blocksize : Int) : Int := toLongLong (filesize.tdiv blocksize)

/-- The sizes have values, the division is defined and not negative, and `iterations` is the
number of whole blocks. -/
def Call.Defined (call : Call) : Prop :=
  ∃ filesize blocksize, call.filesize = some filesize ∧ call.blocksize = some blocksize ∧
    blocksize ≠ 0 ∧ 0 ≤ quotient filesize blocksize ∧
      (toUnsignedLong (quotient filesize blocksize) : Int) = filesize.tdiv blocksize

/-- The signs of the sizes agree and the quotient is a `long long`, or the file has no whole
block. -/
def Divisible (filesize blocksize : Int) : Prop :=
  (0 ≤ filesize ∧ 0 < blocksize) ∨
    (filesize ≤ 0 ∧ blocksize < 0 ∧ ¬ (filesize = -2 ^ 63 ∧ blocksize = -1)) ∨
    filesize.natAbs < blocksize.natAbs

/-- Both sizes are among the arguments, and the quotient of the last of each is a `long long` that
is not negative. -/
def SizesGiven (order : Order) (args : List Text) : Prop :=
  ∃ filesize blocksize, lastArgument 's' (options.getoptLong order args) = some filesize ∧
    lastArgument 'b' (options.getoptLong order args) = some blocksize ∧
    Divisible (strtoll filesize) (strtoll blocksize)

section Quotient

/-- The truncated quotient is not negative when the signs agree or it is zero. -/
theorem tdiv_nonneg_iff {a b : Int} (nonzero : b ≠ 0) :
    0 ≤ a.tdiv b ↔ (0 ≤ a ∧ 0 < b) ∨ (a ≤ 0 ∧ b < 0) ∨ a.natAbs < b.natAbs := by
  have sign := Int.sign_tdiv a b
  by_cases less : a.natAbs < b.natAbs
  · rw [if_pos less, Int.sign_eq_zero_iff_zero] at sign
    omega
  · rw [if_neg less] at sign
    rw [← Int.sign_nonneg_iff, sign]
    rcases Int.lt_or_gt_of_ne nonzero with negative | positive
    · rw [Int.sign_eq_neg_one_of_neg negative, Int.mul_neg, Int.mul_one, Int.neg_nonneg,
        Int.sign_nonpos_iff]
      omega
    · rw [Int.sign_eq_one_of_pos positive, Int.mul_one, Int.sign_nonneg_iff]
      omega

/-- The only quotient of `long long`s that is not one is that of the least and of `-1`. -/
theorem tdiv_lt_iff {a b : Int} (least : -2 ^ 63 ≤ a) (most : a < 2 ^ 63) :
    a.tdiv b < 2 ^ 63 ↔ ¬ (a = -2 ^ 63 ∧ b = -1) := by
  have bound := Int.natAbs_tdiv_le_natAbs a b
  constructor
  · rintro below ⟨rfl, rfl⟩
    exact absurd below (by decide)
  · intro other
    by_contra large
    have whole : a = -2 ^ 63 := by omega
    have size : a.natAbs / b.natAbs = 2 ^ 63 := by
      have same : (a.tdiv b).natAbs = a.natAbs / b.natAbs := Int.natAbs_tdiv a b
      omega
    have positive : 0 < b.natAbs := by
      by_contra zero
      rw [Nat.eq_zero_of_not_pos zero, Nat.div_zero] at size
      contradiction
    have unit : b.natAbs ≤ 1 := by
      by_contra more
      have smaller := Nat.div_lt_self (show 0 < a.natAbs by omega) (Nat.lt_of_not_le more)
      omega
    have one : b = 1 := by omega
    rw [one, Int.tdiv_one] at large
    omega

/-- The quotient of the drivers is the exact one when that is a `long long`. -/
theorem quotient_iff (filesize blocksize : Int) :
    (0 ≤ quotient filesize blocksize ∧
        (toUnsignedLong (quotient filesize blocksize) : Int) = filesize.tdiv blocksize) ↔
      0 ≤ filesize.tdiv blocksize ∧ filesize.tdiv blocksize < 2 ^ 63 := by
  rw [quotient, toLongLong, toUnsignedLong, Int.bmod]
  omega

/-- The arithmetic of the drivers is defined for these sizes and no others. -/
theorem defined_iff_divisible {filesize blocksize : Int} (least : -2 ^ 63 ≤ filesize)
    (most : filesize < 2 ^ 63) :
    (blocksize ≠ 0 ∧ 0 ≤ quotient filesize blocksize ∧
        (toUnsignedLong (quotient filesize blocksize) : Int) = filesize.tdiv blocksize) ↔
      Divisible filesize blocksize := by
  rw [quotient_iff, tdiv_lt_iff least most, Divisible]
  by_cases zero : blocksize = 0
  · omega
  · rw [tdiv_nonneg_iff zero]
    omega

end Quotient

/-- The branches of the `switch` that return to the loop. -/
inductive Taken (pathMax : Nat) (opts : Locals) : Result → Locals → Prop where
  | filepath (optarg : Text) (short : optarg.length < pathMax) :
    Taken pathMax opts (.found 'f' (some optarg)) { opts with filepath := some optarg }
  | filesize (optarg : Text) :
    Taken pathMax opts (.found 's' (some optarg)) { opts with filesize := some (strtoll optarg) }
  | blocksize (optarg : Text) :
    Taken pathMax opts (.found 'b' (some optarg)) { opts with blocksize := some (strtoll optarg) }
  | test (optarg : Text) :
    Taken pathMax opts (.found 't' (some optarg)) { opts with test := testOf opts.test optarg }
  | syncType (optarg : Text) :
    Taken pathMax opts (.found 'y' (some optarg)) { opts with syncType := syncTypeOf optarg }
  | renameDelay (optarg : Text) :
    Taken pathMax opts (.found 'r' (some optarg)) { opts with renameDelay := strtoll optarg }

section Loop

variable {pathMax : Nat} {order : Order} {args : List Text}

/-- A result after which the option loop goes on has been taken by one of the branches of `Taken`.
-/
theorem take_taken {opts next : Locals} {result : Result}
    (taken : opts.take pathMax result = .returns next) : Taken pathMax opts result next := by
  rw [Locals.take.eq_def] at taken
  split at taken
  · contradiction
  · contradiction
  · rename_i val optarg
    split_ifs at taken with f short s b t y r
    all_goals obtain rfl := Outcome.returns.inj taken
    · exact f ▸ .filepath optarg short
    · exact s ▸ .filesize optarg
    · exact b ▸ .blocksize optarg
    · exact t ▸ .test optarg
    · exact y ▸ .syncType optarg
    · exact r ▸ .renameDelay optarg

/-- The loop leaves the defined behaviour only by a path that does not fit, or by a missing
argument. -/
theorem take_undefined {opts : Locals} {result : Result}
    (taken : opts.take pathMax result = .undefined) :
    ¬ result.Complete ∨
      ∃ path, result = .found 'f' (some path) ∧ pathMax ≤ path.length := by
  rw [Locals.take.eq_def] at taken
  split at taken
  · contradiction
  · exact Or.inl (by simp [Result.Complete])
  · rename_i val optarg
    split_ifs at taken with f short
    exact Or.inr ⟨optarg, f ▸ rfl, Nat.le_of_not_lt short⟩

/-- A variable of `main` that holds the number in the last argument of one option. -/
def Records (val : Char) (field : Locals → Option Int) : Prop :=
  ∀ pathMax opts result next, Taken pathMax opts result next →
    field next = ((Result.argument val result).map strtoll).or (field opts)

/-- `--filesize` is stored in `filesize`, and nothing else is. -/
theorem filesize_records : Records 's' Locals.filesize := by
  intro pathMax opts result next taken
  cases taken with
  | filesize => rfl
  | filepath | blocksize | test | syncType | renameDelay => rfl

/-- `--blocksize` is stored in `blocksize`, and nothing else is. -/
theorem blocksize_records : Records 'b' Locals.blocksize := by
  intro pathMax opts result next taken
  cases taken with
  | blocksize => rfl
  | filepath | filesize | test | syncType | renameDelay => rfl

/-- After the option loop a variable of `Records` has the number of the last option that is stored
in it, and its old value without one. -/
theorem Records.collect {val : Char} {field : Locals → Option Int} (records : Records val field)
    (results : List Result) {opts last : Locals}
    (returned : collect pathMax opts results = .returns last) :
    field last = ((lastArgument val results).map strtoll).or (field opts) := by
  induction results generalizing opts with
  | nil =>
    obtain rfl := Outcome.returns.inj returned
    rfl
  | cons result rest ih =>
    rw [Options.collect] at returned
    split at returned
    · rename_i next taken
      rw [ih returned, records pathMax opts result next (take_taken taken), lastArgument_cons,
        Option.map_or, Option.or_assoc]
    all_goals contradiction

/-- The loop is undefined at the first path that does not fit into `filepath`, unless it ends the
program before. -/
theorem collect_undefined_iff {results : List Result} {opts : Locals}
    (complete : ∀ result ∈ results, result.Complete) :
    collect pathMax opts results = .undefined ↔ ∃ before path after last,
      results = before ++ .found 'f' (some path) :: after ∧
        collect pathMax opts before = .returns last ∧ pathMax ≤ path.length := by
  induction results generalizing opts with
  | nil =>
    constructor
    · intro stops
      contradiction
    · rintro ⟨before, path, after, last, split, -⟩
      simp at split
  | cons result rest ih =>
    have ⟨first, others⟩ := List.forall_mem_cons.mp complete
    constructor
    · intro stops
      rw [Options.collect] at stops
      split at stops
      · rename_i next taken
        obtain ⟨before, path, after, last, rfl, returned, long⟩ := (ih others).mp stops
        refine ⟨result :: before, path, after, last, rfl, ?_, long⟩
        rw [Options.collect, taken]
        exact returned
      · contradiction
      · rename_i taken
        rcases take_undefined taken with absent | ⟨path, rfl, long⟩
        · exact absurd first absent
        · exact ⟨[], path, rest, opts, rfl, rfl, long⟩
    · rintro ⟨before, path, after, last, split, returned, long⟩
      cases before with
      | nil =>
        obtain ⟨rfl, -⟩ := List.cons.inj split
        have taken : opts.take pathMax (.found 'f' (some path)) = .undefined := by
          rw [Locals.take, if_pos rfl, if_neg (Nat.not_lt.mpr long)]
        rw [Options.collect, taken]
      | cons other before =>
        obtain ⟨rfl, rfl⟩ := List.cons.inj split
        rw [Options.collect] at returned ⊢
        cases taken : opts.take pathMax result with
        | returns next =>
          rw [taken] at returned
          exact (ih others).mpr ⟨before, path, after, last, rfl, returned, long⟩
        | exits =>
          rw [taken] at returned
          contradiction
        | undefined => rfl

/-- A call of `getopt_long` never finds an option without its argument. -/
theorem options_take_arguments : options.AllTakeArguments := by
  constructor
  all_goals decide

/-- The sizes with which `main` calls a driver are those of the last `--filesize` and `--blocksize`,
if any. -/
theorem main_sizes {memory : Option TestType} {call : Call}
    (called : main pathMax order memory args = some call) :
    call.filesize = (lastArgument 's' (options.getoptLong order args)).map strtoll ∧
      call.blocksize = (lastArgument 'b' (options.getoptLong order args)).map strtoll := by
  rw [main] at called
  split at called
  · rename_i opts returned
    split at called
    · obtain rfl := Option.some.inj called
      have filesize := filesize_records.collect _ returned
      have blocksize := blocksize_records.collect _ returned
      exact ⟨filesize.trans Option.or_none, blocksize.trans Option.or_none⟩
    · contradiction
  · contradiction

-- An option may take the next argument, and text behind a number is ignored.
example : collectOptions 4096 .permute ["--filesize=8k".toList, "-b".toList, " -2".toList] =
    .returns { Locals.start with filesize := some 8, blocksize := some (-2) } := by
  decide +kernel

end Loop

/-- Whenever `main` calls a driver, the arithmetic of the driver is defined exactly when both
sizes are among the arguments and their quotient is a `long long` that is not negative. -/
theorem driver_arithmetic_defined_iff (pathMax : Nat) (order : Order) (memory : Option TestType)
    (args : List Text) (call : Call) (called : main pathMax order memory args = some call) :
    call.Defined ↔ SizesGiven order args := by
  have ⟨filesize, blocksize⟩ := main_sizes called
  constructor
  · intro ⟨size, block, sizeIs, blockIs, defined⟩
    rw [filesize, Option.map_eq_some_iff] at sizeIs
    rw [blocksize, Option.map_eq_some_iff] at blockIs
    have ⟨sizeText, sizeLast, sizeValue⟩ := sizeIs
    have ⟨blockText, blockLast, blockValue⟩ := blockIs
    subst sizeValue blockValue
    have ⟨least, most⟩ := strtoll_range sizeText
    exact ⟨sizeText, blockText, sizeLast, blockLast, (defined_iff_divisible least most).mp defined⟩
  · intro ⟨sizeText, blockText, sizeLast, blockLast, divisible⟩
    have ⟨least, most⟩ := strtoll_range sizeText
    refine ⟨strtoll sizeText, strtoll blockText, ?_, ?_,
      (defined_iff_divisible least most).mpr divisible⟩
    · rw [filesize, sizeLast, Option.map_some]
    · rw [blocksize, blockLast, Option.map_some]

/-- A command line with both sizes. -/
def completeLine : List Text :=
  ["--test=pwrite".toList, "--filesize".toList, "8192".toList, "-b1024".toList]

/-- The arithmetic for 8192 bytes in blocks of 1024 is defined. -/
theorem driver_arithmetic_defined_iff_complete :
    (Call.mk .pwrite (some 8192) (some 1024)).Defined :=
  (driver_arithmetic_defined_iff 4096 .permute none completeLine ⟨.pwrite, some 8192, some 1024⟩
    (by decide +kernel)).mpr
    ⟨"8192".toList, "1024".toList, by decide +kernel, by decide +kernel,
      Or.inl (by decide +kernel)⟩

/-- A command line without a block size. -/
def lineWithoutBlocksize : List Text := ["--test=pwrite".toList, "--filesize=8192".toList]

/-- `collect_options` accepts it, and `main` calls `pwrite_test` with a block size that has no
value. -/
theorem missing_blocksize_accepted :
    ∃ call, main 4096 .permute none lineWithoutBlocksize = some call ∧ ¬ call.Defined := by
  refine ⟨⟨.pwrite, some 8192, none⟩, by decide +kernel, ?_⟩
  intro ⟨_, _, _, absent, _⟩
  contradiction

-- A block size that is no number is zero, and is accepted too.
example : main 4096 .permute none
    ["-tpwrite".toList, "-s".toList, "8192".toList, "-b".toList, "x".toList] =
      some ⟨.pwrite, some 8192, some 0⟩ := by
  decide +kernel

end PerfVerif.Options
