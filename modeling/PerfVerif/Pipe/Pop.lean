import PerfVerif.Pipe.Fifo

/-!
# `pop` behind `read`

`pop` takes the length that `read` returns and throws `InternalReadError` when it is zero.
`push` accepts the empty value, whose record has that length, so the error does not only
report a damaged pipe: in every run a pop throws exactly when the value it should return is
empty, and returns the value otherwise.
-/

namespace PerfVerif.Pipe

open Transition

/-- How a call of `pop` ends. -/
inductive PopResult where
  /-- `value` is set to a handle on these bytes of the buffer. -/
  | value (bytes : List UInt8)
  /-- `InternalReadError` was thrown. -/
  | internalReadError
  deriving DecidableEq, Repr

/-- `pop` on the length that `read` returned and the bytes that it left in the buffer. -/
def pop (length : UInt32) (buffer : List UInt8) : PopResult :=
  if length = 0 then .internalReadError else .value (buffer.take length.toNat)

/-- The pipe with a reader that calls `pop`, and the results of the calls that ended. -/
structure PopState where
  fifo : FifoState
  popped : List PopResult

/-- One action; `pop` ends with the `read` it calls. -/
def popStep (cfg : Config) (rule : ReadRule) (s : PopState) (act : FifoAct) : Option PopState :=
  (fifoStep cfg rule s.fifo act).map fun fifo =>
    match act, s.fifo.read with
    | .finish, .finishing _ length buffer => ⟨fifo, s.popped ++ [pop length buffer]⟩
    | _, _ => ⟨fifo, s.popped⟩

/-- The pipe with a reader that calls `pop`, started over any storage. -/
def popSystem (cfg : Config) (rule : ReadRule) : System PopState FifoAct where
  init s := ∃ storage, s = ⟨⟨.start storage, .idle, []⟩, []⟩
  step := popStep cfg rule

/-- The steps of the runs in which the writer, never stopped, pushes admissible values. -/
def PopPushes (cfg : Config) (s : PopState) (act : FifoAct) : Prop := FifoPushes cfg s.fifo act

/-- `read` has copied no more bytes than the header announced, and all of them when it is
done. -/
def Read.Measured : Read → Prop
  | .copying _ length got => got.length ≤ length.toNat
  | .finishing _ length payload => payload.length = length.toNat
  | _ => True

/-- The result of a pop that should return a value. -/
def popOf (value : List UInt8) : PopResult :=
  if value = [] then .internalReadError else .value value

/-- `pop` on a whole payload. -/
theorem pop_eq_popOf {length : UInt32} {payload : List UInt8}
    (measured : payload.length = length.toNat) : pop length payload = popOf payload := by
  have empty : length = 0 ↔ payload = [] := by
    rw [← List.length_eq_zero_iff, measured]
    constructor
    · intro zero
      rw [zero]
      rfl
    · intro zero
      exact UInt32.toNat.inj zero
  unfold pop popOf
  by_cases nothing : payload = []
  · rw [if_pos (empty.mpr nothing), if_pos nothing]
  · rw [if_neg (mt empty.mp nothing), if_neg nothing, ← measured, List.take_length]

/-- A pop returns every value but the empty one. -/
theorem popOf_eq_value_iff (value : List UInt8) : popOf value = .value value ↔ value ≠ [] := by
  unfold popOf
  by_cases nothing : value = []
  · simp [nothing]
  · simp [nothing]

/-- Every step of `read` keeps its measure. -/
theorem fifoStep_measured {cfg : Config} {rule : ReadRule} {s s' : FifoState} {act : FifoAct}
    (measured : s.read.Measured) (taken : fifoStep cfg rule s act = some s') :
    s'.read.Measured := by
  cases fifoStep_move taken with
  | pipe | wait | store | count => exact measured
  | begin | finish => trivial
  | loadHeader => exact Nat.zero_le _
  | @copyByte vptr length got control more =>
    change (got ++ _).length ≤ length.toNat
    rw [List.length_append, List.length_singleton]
    exact more
  | copied control done =>
    rw [control] at measured
    exact Nat.le_antisymm measured (Nat.not_lt.mp done)

/-- Only the end of a `read` returns a payload. -/
theorem fifoStep_returned {cfg : Config} {rule : ReadRule} {s s' : FifoState} {act : FifoAct}
    (other : act ≠ .finish) (taken : fifoStep cfg rule s act = some s') :
    s'.returned = s.returned := by
  cases fifoStep_move taken with
  | finish => exact absurd rfl other
  | pipe | wait | begin | loadHeader | copyByte | copied | store | count => rfl

/-- The pipe below is one with a reader that runs `read`, and the results are those of the
payloads it returned. -/
structure PopFacts (cfg : Config) (rule : ReadRule) (s : PopState) : Prop where
  fifo : (fifoSystem cfg rule).Reachable (FifoPushes cfg) s.fifo
  measured : s.fifo.read.Measured
  popped : s.popped = s.fifo.returned.map popOf

/-- Every admitted step keeps the results those of the payloads returned. -/
theorem popStep_facts {cfg : Config} {rule : ReadRule} {s s' : PopState} {act : FifoAct}
    (facts : PopFacts cfg rule s) (admitted : PopPushes cfg s act)
    (taken : popStep cfg rule s act = some s') : PopFacts cfg rule s' := by
  have ⟨reached, measured, popped⟩ := facts
  have ⟨fifo, stepped, same⟩ := Option.map_eq_some_iff.mp taken
  have next := reached.next admitted stepped
  have kept := fifoStep_measured measured stepped
  by_cases finishing : act = .finish
  · subst finishing
    cases fifoStep_move stepped with
    | @finish vptr length payload control resting =>
      rw [control] at measured
      simp only [control] at same
      subst same
      refine ⟨next, kept, ?_⟩
      change s.popped ++ [pop length payload] = (s.fifo.returned ++ [payload]).map popOf
      rw [List.map_append, ← popped, pop_eq_popOf measured, List.map_singleton]
  · have unchanged : s' = ⟨fifo, s.popped⟩ := by
      rw [← same]
      split
      · exact absurd rfl finishing
      · rfl
    subst unchanged
    refine ⟨next, kept, ?_⟩
    rw [fifoStep_returned finishing stepped]
    exact popped

/-- The results of the pops are those of the payloads returned, in every run of pushes and
pops. -/
theorem reachable_popFacts {cfg : Config} {rule : ReadRule} {s : PopState}
    (reached : (popSystem cfg rule).Reachable (PopPushes cfg) s) : PopFacts cfg rule s := by
  apply reached.invariant
  · rintro first ⟨storage, rfl⟩
    exact ⟨.start ⟨storage, rfl⟩, trivial, rfl⟩
  · intro before act after _ facts admitted taken
    exact popStep_facts facts admitted taken

/-- In every run of pushes and pops, the pops so far have returned the values pushed, in their
order and without an `InternalReadError`, exactly when none of these values is empty. -/
theorem pops_return_pushed_iff {cfg : Config} {rule : ReadRule} {s : PopState}
    (mirrors : rule.Mirrors cfg.pipeSize) (bounds : WordBounds cfg.pipeSize)
    (reached : (popSystem cfg rule).Reachable (PopPushes cfg) s) :
    s.popped <+: s.fifo.base.calls.map (fun call => .value call.bytes) ↔
      ∀ call ∈ s.fifo.base.calls.take s.popped.length, call.bytes ≠ [] := by
  have ⟨fifo, _, popped⟩ := reachable_popFacts reached
  have pushed := returned_pushed mirrors bounds fifo
  have length : s.popped.length = s.fifo.returned.length := by rw [popped, List.length_map]
  have values : (s.fifo.base.calls.take s.popped.length).map WriteCall.bytes =
      s.fifo.returned := by
    rw [List.map_take, length]
    exact (List.prefix_iff_eq_take.mp pushed).symm
  have expected : (s.fifo.base.calls.map fun call => PopResult.value call.bytes).take
      s.popped.length = s.fifo.returned.map PopResult.value := by
    rw [← values, List.map_map, List.map_take]
    rfl
  have nonempty : (∀ call ∈ s.fifo.base.calls.take s.popped.length, call.bytes ≠ []) ↔
      ∀ value ∈ s.fifo.returned, value ≠ [] := by
    rw [← values]
    simp only [List.forall_mem_map]
  rw [List.prefix_iff_eq_take, expected, nonempty, popped, List.map_inj_left]
  apply forall₂_congr
  intro value _
  exact popOf_eq_value_iff value

/-- A run in which an empty value is pushed and popped. -/
def popEmptyRun : List FifoAct :=
  (Act.call (.push []) :: List.replicate 9 Act.writer).map FifoAct.pipe ++
    [FifoAct.begin, .loadHeader, .copyByte, .count, .store, .finish]

/-- The pop of an empty value throws `InternalReadError`, from a sound and running pipe. -/
theorem pop_of_empty_value_throws :
    ¬ ∀ (cfg : Config) (rule : ReadRule) (s : PopState), SizeBounds cfg.pipeSize →
      rule.Mirrors cfg.pipeSize → (popSystem cfg rule).Reachable (PopPushes cfg) s →
      s.fifo.base.pipe.isWriterRunning = true →
      s.fifo.base.pipe.validate cfg.pipeSize = true →
      s.popped <+: s.fifo.base.calls.map (fun call => .value call.bytes) := by
  intro claimed
  have replay : ((popSystem smallConfig (mirrorRule 12)).run
      ⟨⟨.start blankStorage, .idle, []⟩, []⟩ popEmptyRun).map
      (fun s => (s.popped, s.fifo.base.calls, s.fifo.base.pipe.isWriterRunning,
        s.fifo.base.pipe.validate 12)) =
      some ([.internalReadError], [.push []], true, true) := by decide +kernel
  have ⟨s, replayed, shown⟩ := Option.map_eq_some_iff.mp replay
  have ⟨popped, calls, running, valid⟩ : s.popped = [.internalReadError] ∧
      s.fifo.base.calls = [.push []] ∧ s.fifo.base.pipe.isWriterRunning = true ∧
      s.fifo.base.pipe.validate 12 = true := by simpa using shown
  have admitted : ∀ state : PopState, ∀ act ∈ popEmptyRun, PopPushes smallConfig state act :=
    fun state => @fifoPushes_of_all smallConfig [] (by decide) popEmptyRun (by decide) state.fifo
  have reached : (popSystem smallConfig (mirrorRule 12)).Reachable (PopPushes smallConfig) s :=
    .of_run ⟨blankStorage, rfl⟩ popEmptyRun admitted replayed
  have returns := claimed smallConfig (mirrorRule 12) s ⟨by decide, by decide⟩
    (mirrorRule_mirrors ⟨by decide, by decide⟩) reached running valid
  rw [popped, calls] at returns
  exact absurd returns (by decide)

/-- After one push and one pop of a byte the value returned is the byte pushed. -/
theorem pops_return_pushed_iff_byte :
    ∃ s, (popSystem smallConfig (mirrorRule 12)).Reachable (PopPushes smallConfig) s ∧
      s.popped = [.value [7]] ∧
      s.popped <+: s.fifo.base.calls.map (fun call => .value call.bytes) := by
  let acts : List FifoAct := pushByte.map FifoAct.pipe ++
    [FifoAct.begin, .loadHeader, .copyByte, .copyByte, .count, .store, .finish]
  have replay : ((popSystem smallConfig (mirrorRule 12)).run
      ⟨⟨.start blankStorage, .idle, []⟩, []⟩ acts).map
      (fun s => (s.popped, s.fifo.base.calls)) = some ([.value [7]], [.push [7]]) := by
    decide +kernel
  have ⟨s, replayed, shown⟩ := Option.map_eq_some_iff.mp replay
  have ⟨popped, calls⟩ : s.popped = [.value [7]] ∧ s.fifo.base.calls = [.push [7]] := by
    simpa using shown
  have admitted : ∀ state : PopState, ∀ act ∈ acts, PopPushes smallConfig state act :=
    fun state => @fifoPushes_of_all smallConfig [7] (by decide) acts (by decide) state.fifo
  have reached : (popSystem smallConfig (mirrorRule 12)).Reachable (PopPushes smallConfig) s :=
    .of_run ⟨blankStorage, rfl⟩ acts admitted replayed
  refine ⟨s, reached, popped, (pops_return_pushed_iff (mirrorRule_mirrors ⟨by decide, by decide⟩)
    ⟨by decide, by decide⟩ reached).mpr ?_⟩
  rw [popped, calls]
  decide

end PerfVerif.Pipe
