import Mathlib.Algebra.Group.Int.Defs
import Mathlib.Algebra.Group.Nat.Defs
import Mathlib.Data.List.Basic

/-!
# Command lines

The documented behaviour of `getopt_long` and `strtoll`. The arguments are scanned from the
left; an argument that is no option is passed over, or ends the scan where the environment asks
for POSIX order. Long options may be shortened as long as one option is meant, and short options
may share an argument. A null character ends every text and is left out; the other characters
are bytes.
-/

namespace CommandLine

/-- An argument of a program. -/
abbrev Text := List Char

/-- A line of the table of long options; the flag pointer of each is null. -/
structure LongOption where
  name : Text
  takesArgument : Bool
  val : Char
  deriving DecidableEq, Repr

/-- The short options, with whether each takes an argument, and the long ones. -/
structure Spec where
  optstring : List (Char × Bool)
  longopts : List LongOption

/-- What a call of `getopt_long` finds. -/
inductive Result where
  /-- The value of an option and `optarg`. -/
  | found (val : Char) (optarg : Option Text)
  /-- `'?'`, for an unknown or ambiguous option and for a missing or unwanted argument. -/
  | unknown
  deriving DecidableEq, Repr

/-- Whether arguments that are no options are passed over. -/
inductive Order where
  | permute
  | requireOrder
  deriving DecidableEq, Repr

/-- An option that has been recognised, or one that takes the next argument for its own. -/
inductive Scanned where
  | complete (result : Result)
  | wants (val : Char)
  deriving DecidableEq, Repr

/-- The form of an argument. -/
inductive Form where
  | terminator
  | long (body : Text)
  | short (letters : Text)
  | operand
  deriving DecidableEq, Repr

/-- What an argument looks like; a single hyphen is no option. -/
def form : Text → Form
  | ['-', '-'] => .terminator
  | '-' :: '-' :: body => .long body
  | '-' :: letter :: letters => .short (letter :: letters)
  | _ => .operand

/-- The long option of this name, or the one that the name is the beginning of. -/
def Spec.lookupLong (spec : Spec) (name : Text) : Option LongOption :=
  match spec.longopts.find? (fun option => option.name == name) with
  | some same => some same
  | none =>
    match spec.longopts.filter (fun option => name.isPrefixOf option.name) with
    | [] => none
    | first :: others =>
      if others.all (fun option =>
          option.takesArgument == first.takesArgument && option.val == first.val) then
        some first
      else none

/-- A long option, with its argument behind an equals sign. -/
def Spec.scanLong (spec : Spec) (body : Text) : Scanned :=
  let name := body.takeWhile (· != '=')
  match spec.lookupLong name with
  | none => .complete .unknown
  | some option =>
    match option.takesArgument, body.drop name.length with
    | true, [] => .wants option.val
    | true, _ :: value => .complete (.found option.val (some value))
    | false, [] => .complete (.found option.val none)
    | false, _ :: _ => .complete .unknown

/-- The short options of one argument; the last of them may take the next argument. -/
def Spec.scanShort (spec : Spec) : Text → List Result × Option Char
  | [] => ([], none)
  | letter :: more =>
    match spec.optstring.lookup letter with
    | none => (.unknown :: (spec.scanShort more).1, (spec.scanShort more).2)
    | some false => (.found letter none :: (spec.scanShort more).1, (spec.scanShort more).2)
    | some true =>
      match more with
      | [] => ([], some letter)
      | _ :: _ => ([.found letter (some more)], none)

/-- The results of the calls of `getopt_long` up to the one that returns `-1`. -/
def Spec.getoptLong (spec : Spec) (order : Order) : List Text → List Result
  | [] => []
  | arg :: rest =>
    match form arg with
    | .terminator => []
    | .operand => if order = .permute then spec.getoptLong order rest else []
    | .long body =>
      match spec.scanLong body with
      | .complete result => result :: spec.getoptLong order rest
      | .wants val =>
        match rest with
        | [] => [.unknown]
        | value :: rest => .found val (some value) :: spec.getoptLong order rest
    | .short letters =>
      match (spec.scanShort letters).2 with
      | none => (spec.scanShort letters).1 ++ spec.getoptLong order rest
      | some val =>
        match rest with
        | [] => (spec.scanShort letters).1 ++ [.unknown]
        | value :: rest =>
          (spec.scanShort letters).1 ++ .found val (some value) :: spec.getoptLong order rest

/-- The argument of an option with this value. -/
def Result.argument (val : Char) : Result → Option Text
  | .found other optarg => if other = val then optarg else none
  | .unknown => none

/-- The argument of the last option with this value. -/
def lastArgument (val : Char) (results : List Result) : Option Text :=
  (results.filterMap (Result.argument val)).getLast?

/-- `isspace` in the C locale. -/
def isSpace (c : Char) : Bool := c == ' ' || (9 ≤ c.toNat && c.toNat ≤ 13)

/-- The number that the digits at the beginning of a text denote; `0` when there are none. -/
def digits (text : Text) : Nat :=
  (text.takeWhile Char.isDigit).foldl (fun value digit => 10 * value + (digit.toNat - 48)) 0

/-- The nearest `long long`. -/
def saturate (value : Int) : Int := max (-2 ^ 63) (min value (2 ^ 63 - 1))

/-- `strtoll` for base ten, without the end pointer. -/
def strtoll (text : Text) : Int :=
  match text.dropWhile isSpace with
  | '-' :: rest => saturate (-(digits rest : Int))
  | '+' :: rest => saturate (digits rest)
  | rest => saturate (digits rest)

/-- A `long long` has 64 bits. -/
theorem saturate_range (value : Int) : -2 ^ 63 ≤ saturate value ∧ saturate value < 2 ^ 63 := by
  rw [saturate]
  omega

/-- Whatever the text is, `strtoll` returns a `long long`. -/
theorem strtoll_range (text : Text) : -2 ^ 63 ≤ strtoll text ∧ strtoll text < 2 ^ 63 := by
  rw [strtoll]
  split
  all_goals exact saturate_range _

section Arguments

variable {spec : Spec}

/-- The last of one result and others is the last of the others, if they have one. -/
theorem lastArgument_cons (val : Char) (result : Result) (rest : List Result) :
    lastArgument val (result :: rest) =
      (lastArgument val rest).or (Result.argument val result) := by
  cases taken : Result.argument val result with
  | none => simp [lastArgument, taken]
  | some text =>
    simp only [lastArgument, List.filterMap_cons, taken, List.getLast?_cons]
    cases (rest.filterMap (Result.argument val)).getLast? with
    | none => rfl
    | some last => rfl

/-- An option that was found comes with an argument. -/
def Result.Complete : Result → Prop
  | .found _ optarg => optarg.isSome
  | .unknown => True

/-- Every option of the program takes an argument. -/
def Spec.AllTakeArguments (spec : Spec) : Prop :=
  (∀ entry ∈ spec.optstring, entry.2 = true) ∧
    ∀ option ∈ spec.longopts, option.takesArgument = true

/-- A long option that is looked up is one of the table. -/
theorem Spec.lookupLong_mem {name : Text} {option : LongOption}
    (found : spec.lookupLong name = some option) : option ∈ spec.longopts := by
  rw [Spec.lookupLong] at found
  split at found
  · rename_i same exactly
    obtain rfl := Option.some.inj found
    exact List.mem_of_find?_eq_some exactly
  · split at found
    · contradiction
    · rename_i first others candidates
      split at found
      · obtain rfl := Option.some.inj found
        exact List.mem_of_mem_filter (candidates ▸ List.mem_cons_self)
      · contradiction

/-- A long option has its argument or waits for it, in a program whose options all take one. -/
theorem Spec.scanLong_complete (all : spec.AllTakeArguments) {body : Text} {result : Result}
    (scanned : spec.scanLong body = .complete result) : result.Complete := by
  rw [Spec.scanLong] at scanned
  split at scanned
  · obtain rfl := Scanned.complete.inj scanned
    trivial
  · rename_i option found
    have takes := all.2 option (Spec.lookupLong_mem found)
    rw [takes] at scanned
    split at scanned
    · contradiction
    · obtain rfl := Scanned.complete.inj scanned
      rfl
    · contradiction
    · contradiction

/-- A short option has its argument or waits for it, in a program whose options all take one. -/
theorem Spec.scanShort_complete (all : spec.AllTakeArguments) (letters : Text) :
    ∀ result ∈ (spec.scanShort letters).1, result.Complete := by
  fun_induction Spec.scanShort spec letters with
  | case1 => simp
  | case2 letter more missing ih => exact List.forall_mem_cons.mpr ⟨trivial, ih⟩
  | case3 letter more found ih =>
    have ⟨before, after, split, _⟩ := List.lookup_eq_some_iff.mp found
    have takes := all.1 (letter, false) (by simp [split])
    contradiction
  | case4 letter found => simp
  | case5 letter found first others => simp [Result.Complete]

/-- Every option that `getopt_long` finds has its argument, in a program whose options all take one.
-/
theorem Spec.getoptLong_complete (all : spec.AllTakeArguments) (order : Order)
    (args : List Text) : ∀ result ∈ spec.getoptLong order args, result.Complete := by
  fun_induction Spec.getoptLong spec order args with
  | case1 => simp
  | case2 arg rest terminator => simp
  | case3 arg rest operand permuted ih => exact ih
  | case4 arg rest operand => simp
  | case5 arg rest body long result scanned ih =>
    exact List.forall_mem_cons.mpr ⟨Spec.scanLong_complete all scanned, ih⟩
  | case6 arg body long val scanned => simp [Result.Complete]
  | case7 arg body long val scanned value rest ih =>
    exact List.forall_mem_cons.mpr ⟨rfl, ih⟩
  | case8 arg rest letters short none ih =>
    exact List.forall_mem_append.mpr ⟨Spec.scanShort_complete all letters, ih⟩
  | case9 arg letters short val wants =>
    have last : Result.unknown.Complete := trivial
    exact List.forall_mem_append.mpr ⟨Spec.scanShort_complete all letters, by simpa using last⟩
  | case10 arg letters short val wants value rest ih =>
    exact List.forall_mem_append.mpr
      ⟨Spec.scanShort_complete all letters, List.forall_mem_cons.mpr ⟨rfl, ih⟩⟩

end Arguments

end CommandLine
