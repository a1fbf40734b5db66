import PerfVerif.Lib.System
import Mathlib.Algebra.Group.Nat.Defs

/-!
# `aio_suspend_test`

The program submits all its writes and then calls `aio_suspend` for each control block in turn, so
that the file is closed only when every write is done. A write that `aio_write` refuses keeps its
place among the control blocks; `aio_suspend` does not wait for it. But a call of `aio_suspend` may
fail, for one when a signal interrupts it, and the program then reports the error and goes on.
The buffers and the bytes are left out: the program looks at neither after it has submitted.
-/

namespace PerfVerif.Suspend

open Transition

/-- What has become of a write. -/
inductive Status where
  | inFlight
  | done
  /-- `aio_write` returned -1. -/
  | refused
  deriving DecidableEq, Repr

/-- An element of `control_blocks`, and whether the call of `aio_suspend` for it returned 0. -/
structure Block where
  status : Status
  suspended : Option Bool
  deriving DecidableEq, Repr

/-- Where the program is. -/
inductive Main where
  /-- At the test `iterations--`, with this value. -/
  | submit (iterations : Nat)
  /-- At the test of the loop over the control blocks, or in its `aio_suspend`. -/
  | suspend (it : Nat)
  /-- Before `close`. -/
  | close
  | returned
  deriving DecidableEq, Repr

/-- The control point and the control blocks. -/
structure State where
  main : Main
  controlBlocks : List Block
  deriving DecidableEq, Repr

/-- What can happen next. -/
inductive Act where
  /-- A step of the program; where it submits a write, whether `aio_write` refuses it. -/
  | main (refuse : Bool)
  /-- `aio_suspend` returns 0, or it fails. -/
  | suspend (succeeds : Bool)
  /-- A write is done. -/
  | complete (index : Nat)
  deriving DecidableEq, Repr

/-- The next step of the program, unless it is in `aio_suspend`. -/
def mainStep (s : State) (refuse : Bool) : Option State :=
  match s.main with
  | .submit 0 => some { s with main := .suspend 0 }
  | .submit (left + 1) =>
    some {
      main := .submit left
      controlBlocks := s.controlBlocks ++ [⟨if refuse then .refused else .inFlight, none⟩] }
  | .suspend it =>
    match s.controlBlocks[it]? with
    | some _ => none
    | none => some { s with main := .close }
  | .close => some { s with main := .returned }
  | .returned => none

/-- `aio_suspend` returns 0 only for a write that is not in flight; it may fail for any. -/
def suspendStep (s : State) (succeeds : Bool) : Option State :=
  match s.main with
  | .suspend it =>
    match s.controlBlocks[it]? with
    | some block =>
      if succeeds = true ∧ block.status = .inFlight then none
      else
        some {
          main := .suspend (it + 1)
          controlBlocks := s.controlBlocks.set it { block with suspended := some succeeds } }
    | none => none
  | _ => none

/-- A write in flight is done. -/
def completeStep (s : State) (index : Nat) : Option State :=
  match s.controlBlocks[index]? with
  | some ⟨.inFlight, suspended⟩ =>
    some { s with controlBlocks := s.controlBlocks.set index ⟨.done, suspended⟩ }
  | _ => none

/-- One action. -/
def step (s : State) : Act → Option State
  | .main refuse => mainStep s refuse
  | .suspend succeeds => suspendStep s succeeds
  | .complete index => completeStep s index

/-- The program, behind its `srand`, with this many iterations; its own are `2 ^ 32 / 8192`. -/
def system (iterations : Nat) : System State Act where
  init s := s = ⟨.submit iterations, []⟩
  step := step

/-- The control blocks for which `aio_suspend` has been called. -/
def State.passed (s : State) : Nat :=
  match s.main with
  | .submit _ => 0
  | .suspend it => it
  | .close | .returned => s.controlBlocks.length

/-- The writes that are left to submit. -/
def Main.left : Main → Nat
  | .submit left => left
  | _ => 0

/-- A call of `aio_suspend` that has returned 0 was for a write that is not in flight. -/
def Block.Sound (block : Block) : Prop := block.suspended = some true → block.status ≠ .inFlight

/-- All the writes have a control block or are left to submit, and `aio_suspend` has been called for
those behind the loop. -/
structure Facts (iterations : Nat) (s : State) : Prop where
  count : s.controlBlocks.length + s.main.left = iterations
  passed : s.passed ≤ s.controlBlocks.length
  sound : ∀ block ∈ s.controlBlocks, block.Sound
  called : ∀ index < s.passed, ∀ block, s.controlBlocks[index]? = some block →
    block.suspended.isSome

section Steps

variable {n : Nat} {s s' : State}

/-- A step of the program keeps the facts. -/
theorem mainStep_facts {refuse : Bool} (facts : Facts n s) (taken : mainStep s refuse = some s') :
    Facts n s' := by
  have ⟨count, passed, sound, called⟩ := facts
  unfold mainStep at taken
  split at taken
  · rename_i control
    cases taken
    rw [control] at count
    exact ⟨count, Nat.zero_le _, sound, fun _ below => absurd below (Nat.not_lt_zero _)⟩
  · rename_i left control
    cases taken
    rw [control] at count
    refine ⟨?_, Nat.zero_le _, ?_, fun _ below => absurd below (Nat.not_lt_zero _)⟩
    · change (s.controlBlocks ++ [_]).length + left = n
      rw [List.length_append, List.length_singleton, Nat.add_assoc, Nat.add_comm 1]
      exact count
    · intro block member
      rcases List.mem_append.mp member with before | last
      · exact sound block before
      · rw [List.mem_singleton.mp last]
        exact fun never => nomatch never
  · rename_i it control
    split at taken
    · contradiction
    · rename_i behind
      cases taken
      have ends : s.controlBlocks.length ≤ it := List.getElem?_eq_none_iff.mp behind
      have all : s.passed = s.controlBlocks.length := by
        rw [State.passed, control] at passed ⊢
        exact Nat.le_antisymm passed ends
      rw [control] at count
      rw [all] at called
      exact ⟨count, Nat.le_refl _, sound, called⟩
  · rename_i control
    cases taken
    rw [State.passed, control] at called
    rw [control] at count
    exact ⟨count, Nat.le_refl _, sound, called⟩
  · contradiction

/-- What holds of every block and of a new one holds of every block after the replacement. -/
theorem forall_mem_set {blocks : List Block} {index : Nat} {block : Block} {good : Block → Prop}
    (all : ∀ other ∈ blocks, good other) (new : good block) :
    ∀ other ∈ blocks.set index block, good other := by
  intro other member
  rcases List.mem_or_eq_of_mem_set member with kept | rfl
  · exact all other kept
  · exact new

/-- A return of `aio_suspend` keeps the facts. -/
theorem suspendStep_facts {succeeds : Bool} (facts : Facts n s)
    (taken : suspendStep s succeeds = some s') : Facts n s' := by
  have ⟨count, passed, sound, called⟩ := facts
  unfold suspendStep at taken
  split at taken
  · rename_i it control
    split at taken
    · rename_i block found
      split at taken
      · contradiction
      · rename_i returns
        cases taken
        rw [State.passed, control] at called
        rw [control] at count
        obtain ⟨inside, _⟩ := List.getElem?_eq_some_iff.mp found
        refine ⟨?_, ?_, ?_, ?_⟩
        · rw [List.length_set]
          exact count
        · rw [List.length_set]
          exact inside
        · apply forall_mem_set sound
          intro same flying
          exact returns ⟨Option.some.inj same, flying⟩
        · intro index below other shown
          change index < it + 1 at below
          rw [List.getElem?_set] at shown
          by_cases here : it = index
          · rw [if_pos here, if_pos (here ▸ inside)] at shown
            rw [← Option.some.inj shown]
            rfl
          · rw [if_neg here] at shown
            have fewer : index < it := by omega
            exact called index fewer other shown
    · contradiction
  · contradiction

/-- The end of a write keeps the facts. -/
theorem completeStep_facts {index : Nat} (facts : Facts n s)
    (taken : completeStep s index = some s') : Facts n s' := by
  have ⟨count, passed, sound, called⟩ := facts
  unfold completeStep at taken
  split at taken
  · rename_i suspended found
    cases taken
    obtain ⟨inside, _⟩ := List.getElem?_eq_some_iff.mp found
    have same : State.passed { s with controlBlocks := s.controlBlocks.set index ⟨.done, suspended⟩ } =
        s.passed := by
      rw [State.passed, State.passed, List.length_set]
    refine ⟨?_, ?_, ?_, ?_⟩
    · rw [List.length_set]
      exact count
    · rw [same, List.length_set]
      exact passed
    · exact forall_mem_set sound (fun _ => nofun)
    · intro place below other shown
      rw [same] at below
      rw [List.getElem?_set] at shown
      by_cases here : index = place
      · rw [if_pos here, if_pos (here ▸ inside)] at shown
        rw [← Option.some.inj shown]
        have before := called index (here ▸ below) _ found
        exact before
      · rw [if_neg here] at shown
        exact called place below other shown
  · contradiction

end Steps

section Runs

variable {n : Nat}

/-- The facts hold in every run. -/
theorem reachable_facts {s : State} (reached : (system n).Reachable System.always s) :
    Facts n s := by
  apply reached.invariant
  · rintro first rfl
    exact ⟨Nat.zero_add n, Nat.zero_le _, fun _ member => absurd member List.not_mem_nil,
      fun _ below => absurd below (Nat.not_lt_zero _)⟩
  · intro before act after _ facts _ taken
    cases act with
    | main refuse => exact mainStep_facts facts taken
    | suspend succeeds => exact suspendStep_facts facts taken
    | complete index => exact completeStep_facts facts taken

/-- The runs of the program. -/
abbrev Leads (n : Nat) : State → State → Prop := (system n).Leads System.always

/-- A control block as it is submitted. -/
def Block.submitted (block : Block) : Block :=
  ⟨if block.status = .refused then .refused else .inFlight, none⟩

/-- A control block before `aio_suspend` is called for it. -/
def Block.landed (block : Block) : Block := ⟨block.status, none⟩

/-- The program submits the blocks that are left. -/
theorem submits (rest : List Block) {prior : List Block} :
    Leads n ⟨.submit rest.length, prior⟩ ⟨.suspend 0, prior ++ rest.map Block.submitted⟩ := by
  induction rest generalizing prior with
  | nil =>
    rw [List.map_nil, List.append_nil]
    exact System.leads_single (.main false) trivial rfl
  | cons block rest ih =>
    have next : Leads n ⟨.submit (rest.length + 1), prior⟩
        ⟨.submit rest.length, prior ++ [block.submitted]⟩ := by
      apply System.leads_single (.main (decide (block.status = .refused))) trivial
      simp [system, step, mainStep, Block.submitted]
    have path := next.trans ih
    rw [List.append_assoc] at path
    exact path

/-- The writes that are to be done complete, one after the other. -/
theorem completes (main : Main) (rest : List Block) {prior : List Block} :
    Leads n ⟨main, prior ++ rest.map Block.submitted⟩ ⟨main, prior ++ rest.map Block.landed⟩ := by
  induction rest generalizing prior with
  | nil => exact .refl
  | cons block rest ih =>
    have next : Leads n ⟨main, prior ++ (block :: rest).map Block.submitted⟩
        ⟨main, prior ++ [block.landed] ++ rest.map Block.submitted⟩ := by
      cases status : block.status with
      | done =>
        apply System.leads_single (.complete prior.length) trivial
        simp [system, step, completeStep, Block.submitted, Block.landed, status]
      | inFlight | refused =>
        have same : block.submitted = block.landed := by
          simp [Block.submitted, Block.landed, status]
        rw [List.map_cons, same, List.append_assoc]
        exact .refl
    have path := next.trans ih
    rw [List.append_assoc] at path
    exact path

/-- The calls of `aio_suspend` return what they may, and the program closes the file. -/
theorem suspends (rest : List Block) {prior : List Block}
    (may : ∀ block ∈ rest, block.Sound ∧ block.suspended.isSome) :
    Leads n ⟨.suspend prior.length, prior ++ rest.map Block.landed⟩ ⟨.returned, prior ++ rest⟩ := by
  induction rest generalizing prior with
  | nil =>
    apply System.leads_of_run [.main false, .main false] (fun _ _ _ => trivial)
    simp [System.run, system, step, mainStep]
  | cons block rest ih =>
    obtain ⟨⟨sound, called⟩, others⟩ := List.forall_mem_cons.mp may
    obtain ⟨succeeds, result⟩ := Option.isSome_iff_exists.mp called
    have next : Leads n ⟨.suspend prior.length, prior ++ (block :: rest).map Block.landed⟩
        ⟨.suspend (prior ++ [block]).length, prior ++ [block] ++ rest.map Block.landed⟩ := by
      apply System.leads_single (.suspend succeeds) trivial
      have waits : ¬ (succeeds = true ∧ block.status = .inFlight) := by
        rintro ⟨rfl, flying⟩
        exact sound result flying
      simp [system, step, suspendStep, Block.landed, ← result, waits]
    have path := next.trans (ih others)
    rw [List.append_assoc] at path
    exact path

end Runs

/-- The program can return with these control blocks exactly when there is one for each iteration,
`aio_suspend` was called for each, and where that returned 0 the write is not in flight. So the file
is closed with writes in flight only where `aio_suspend` has failed, and then with any of these. -/
theorem returned_iff (n : Nat) (blocks : List Block) :
    (system n).Reachable System.always ⟨.returned, blocks⟩ ↔
      blocks.length = n ∧ ∀ block ∈ blocks, block.suspended.isSome ∧
        (block.suspended = some true → block.status ≠ .inFlight) := by
  constructor
  · intro reached
    have ⟨count, _, sound, called⟩ := reachable_facts reached
    refine ⟨count, ?_⟩
    intro block member
    obtain ⟨index, inside, rfl⟩ := List.mem_iff_getElem.mp member
    exact ⟨called index inside _ (List.getElem?_eq_getElem inside), sound _ member⟩
  · rintro ⟨rfl, may⟩
    have path := ((submits blocks).trans (completes (.suspend 0) blocks)).trans
      (@suspends blocks.length blocks [] fun block member =>
        ⟨(may block member).2, (may block member).1⟩)
    exact ⟨_, rfl, path⟩

end PerfVerif.Suspend
