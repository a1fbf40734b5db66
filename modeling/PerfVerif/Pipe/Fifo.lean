import PerfVerif.Pipe.Representation

/-!
# The pipe as a FIFO queue

The body of `read` is not part of the source. Here it is a parameter: a rule that says where
a read looks for the header and the payload and what it stores in `readVPtr_`. A rule that
mirrors the placement of `startWrite` makes the reader below a reader of the pipe system,
step for step, so the invariant of the pipe holds beside it, and the payloads it returns are
the values of the pushes in their order.
-/

namespace PerfVerif.Pipe

open RecordRing Transition

/-- Where a read that loaded `readVPtr_` finds the next record. -/
structure ReadRule where
  /-- Offset of the header. -/
  lengthPtr : UInt64 → UInt32
  /-- Offset of a payload of the given length. -/
  payloadPtr : UInt64 → UInt32 → UInt32
  /-- The value to store in `readVPtr_` behind a payload of the given length. -/
  nextReadVPtr : UInt64 → UInt32 → UInt64

/-- The rule follows the placement of `startWrite`: the header is at the read pointer unless
it would pass the end of the buffer, the payload is behind the header unless it would, either
starts again at the front otherwise, with the next version, and the new read pointer is the
end of the payload. This is asked for pointers into the buffer and for lengths that `startWrite`
accepts. -/
structure ReadRule.Mirrors (rule : ReadRule) (pipeSize : UInt32) : Prop where
  header_stays : ∀ vptr, (getPointer vptr).toNat + 4 ≤ pipeSize.toNat →
    rule.lengthPtr vptr = getPointer vptr
  header_wraps : ∀ vptr, getPointer vptr ≤ pipeSize →
    pipeSize.toNat < (getPointer vptr).toNat + 4 → rule.lengthPtr vptr = 0
  payload_stays : ∀ vptr length, getPointer vptr ≤ pipeSize →
    length ≤ maxPipeElementSize pipeSize →
    (rule.lengthPtr vptr).toNat + 4 + length.toNat ≤ pipeSize.toNat →
    rule.payloadPtr vptr length = rule.lengthPtr vptr + 4
  payload_wraps : ∀ vptr length, getPointer vptr ≤ pipeSize →
    length ≤ maxPipeElementSize pipeSize →
    pipeSize.toNat < (rule.lengthPtr vptr).toNat + 4 + length.toNat →
    rule.payloadPtr vptr length = 0
  next_pointer : ∀ vptr length, getPointer vptr ≤ pipeSize →
    length ≤ maxPipeElementSize pipeSize →
    getPointer (rule.nextReadVPtr vptr length) = rule.payloadPtr vptr length + length
  next_version : ∀ vptr length, getPointer vptr ≤ pipeSize →
    length ≤ maxPipeElementSize pipeSize →
    getVersion (rule.nextReadVPtr vptr length) =
      getVersion vptr + (if pipeSize.toNat < (getPointer vptr).toNat + 4 then 1 else 0) +
        (if pipeSize.toNat < (rule.lengthPtr vptr).toNat + 4 + length.toNat then 1 else 0)

/-- Where a call of `read` is. -/
inductive Read where
  /-- No call in progress. -/
  | idle
  /-- `isEmpty` was false; before the load of the header. -/
  | begun (vptr : UInt64)
  /-- In the copy of the payload. -/
  | copying (vptr : UInt64) (length : UInt32) (got : List UInt8)
  /-- The payload is copied; before the return. -/
  | finishing (vptr : UInt64) (length : UInt32) (payload : List UInt8)
  deriving DecidableEq, Repr

/-- The pipe with a reader that runs `read`, and the payloads returned so far. -/
structure FifoState where
  base : State
  read : Read
  returned : List (List UInt8)

/-- A step of the pipe's other threads, or a micro-step of `read`. -/
inductive FifoAct where
  | pipe (act : Act)
  | begin
  | loadHeader
  | copyByte
  | store
  | count
  | finish
  deriving DecidableEq, Repr

/-- One action; the steps of the reader are those of `read`. -/
def fifoStep (cfg : Config) (rule : ReadRule) (s : FifoState) : FifoAct → Option FifoState
  | .pipe (.reader _) => none
  | .pipe act => (step cfg s.base act).map fun base => { s with base := base }
  | .begin =>
    match s.read with
    | .idle =>
      if s.base.pipe.isEmpty then some s
      else some { s with base := { s.base with reader := .busy false false },
                         read := .begun s.base.pipe.readVPtr }
    | _ => none
  | .loadHeader =>
    match s.read with
    | .begun vptr =>
      let bytes := Memory.load s.base.pipe.buf (rule.lengthPtr vptr).toNat 4
      some { s with read := .copying vptr (cfg.order.decode bytes) [] }
    | _ => none
  | .copyByte =>
    match s.read with
    | .copying vptr length got =>
      if got.length < length.toNat then
        let byte := s.base.pipe.buf ((rule.payloadPtr vptr length).toNat + got.length)
        some { s with read := .copying vptr length (got ++ [byte]) }
      else some { s with read := .finishing vptr length got }
    | _ => none
  | .store =>
    match s.read, s.base.reader with
    | .finishing vptr length _, .busy false counted =>
      some { s with base := { s.base with
        pipe := { s.base.pipe with readVPtr := rule.nextReadVPtr vptr length },
        reader := .settle true counted,
        consumed := s.base.consumed + 1 } }
    | _, _ => none
  | .count =>
    match s.read, s.base.reader with
    | .finishing _ _ _, .busy stored false =>
      some { s with base := { s.base with
        pipe := { s.base.pipe with numRead := s.base.pipe.numRead + 1 },
        reader := .settle stored true } }
    | _, _ => none
  | .finish =>
    match s.read, s.base.reader with
    | .finishing _ _ payload, .idle =>
      some { s with read := .idle, returned := s.returned ++ [payload] }
    | _, _ => none

/-- The pipe with a reader that runs `read`, started over any storage. -/
def fifoSystem (cfg : Config) (rule : ReadRule) : System FifoState FifoAct where
  init s := ∃ storage, s = ⟨.start storage, .idle, []⟩
  step := fifoStep cfg rule

/-- The steps of the runs in which the writer, never stopped, pushes admissible values. -/
def FifoPushes (cfg : Config) (s : FifoState) : FifoAct → Prop
  | .pipe act => RunningPushes cfg s.base act
  | _ => True

/-- The decision of `FifoPushes` for runs that push one value. -/
def FifoAct.pushes (value : List UInt8) : FifoAct → Bool
  | .pipe (.call call) => call == .push value
  | .pipe .writer => true
  | .pipe _ => false
  | _ => true

/-- The condition on the pushes does not depend on the state. -/
theorem fifoPushes_of_all {cfg : Config} {value : List UInt8}
    (short : value.length ≤ (maxPipeElementSize cfg.pipeSize).toNat) (acts : List FifoAct)
    (all : acts.all (FifoAct.pushes value) = true) (s : FifoState) :
    ∀ act ∈ acts, FifoPushes cfg s act := by
  intro act member
  have holds := List.all_eq_true.mp all act member
  cases act with
  | pipe act =>
    cases act with
    | call call => exact ⟨value, beq_iff_eq.mp holds, short⟩
    | stopWriter | startWriter => contradiction
    | _ => trivial
  | _ => trivial

section Mirror

variable {cfg : Config} {rule : ReadRule}

/-- On a pointer of the ring, a rule that mirrors the placement finds the slot that
`startWrite` reserved there. -/
theorem ReadRule.Mirrors.finds_slot (mirrors : rule.Mirrors cfg.pipeSize)
    (bounds : WordBounds cfg.pipeSize) {length : UInt32}
    (short : length ≤ maxPipeElementSize cfg.pipeSize) (pos : Nat) :
    (⟨rule.lengthPtr (vptrAt cfg.pipeSize pos), rule.payloadPtr (vptrAt cfg.pipeSize pos) length,
      rule.nextReadVPtr (vptrAt cfg.pipeSize pos) length⟩ : Reservation) =
      reserve cfg.pipeSize (vptrAt cfg.pipeSize pos) length := by
  have half := half_of_le_max bounds.ten_le short
  have most := bounds.sums_fit
  have pointer := getPointer_vptrAt_toNat cfg.pipeSize pos
  have offset : pos % (cfg.pipeSize.toNat + 1) < cfg.pipeSize.toNat + 1 :=
    Nat.mod_lt _ (Nat.succ_pos _)
  have within : getPointer (vptrAt cfg.pipeSize pos) ≤ cfg.pipeSize := by
    rw [UInt32.le_iff_toNat_le, pointer]
    exact Nat.le_of_lt_succ offset
  generalize vptrAt cfg.pipeSize pos = vptr at pointer within ⊢
  have fourWord : lengthBytes.toNat = 4 := rfl
  have headerWraps := isWrap_iff cfg.pipeSize lengthBytes (getPointer vptr) (by omega)
  rw [fourWord] at headerWraps
  have lengthPtr : rule.lengthPtr vptr =
      if isWrap cfg.pipeSize lengthBytes (getPointer vptr) then 0 else getPointer vptr := by
    by_cases wrapped : cfg.pipeSize.toNat < (getPointer vptr).toNat + 4
    · rw [if_pos (headerWraps.mpr wrapped), mirrors.header_wraps vptr within wrapped]
    · rw [if_neg (mt headerWraps.mp wrapped), mirrors.header_stays vptr (by omega)]
  have inside : (rule.lengthPtr vptr).toNat ≤ cfg.pipeSize.toNat := by
    rw [lengthPtr]
    split
    · exact Nat.zero_le _
    · omega
  have behind : (rule.lengthPtr vptr + lengthBytes).toNat = (rule.lengthPtr vptr).toNat + 4 :=
    ptr_add_toNat _ _ (by omega)
  have payloadWraps := isWrap_iff cfg.pipeSize length (rule.lengthPtr vptr + lengthBytes)
    (by omega)
  rw [behind] at payloadWraps
  have payloadPtr : rule.payloadPtr vptr length =
      if isWrap cfg.pipeSize length (rule.lengthPtr vptr + lengthBytes) then 0
      else rule.lengthPtr vptr + lengthBytes := by
    by_cases wrapped : cfg.pipeSize.toNat < (rule.lengthPtr vptr).toNat + 4 + length.toNat
    · rw [if_pos (payloadWraps.mpr wrapped),
        mirrors.payload_wraps vptr length within short wrapped]
    · rw [if_neg (mt payloadWraps.mp wrapped),
        mirrors.payload_stays vptr length within short (by omega)]
      rfl
  have version := mirrors.next_version vptr length within short
  simp only [← headerWraps, ← payloadWraps] at version
  have next : rule.nextReadVPtr vptr length =
      getVersionedPointer (getVersion (rule.nextReadVPtr vptr length))
        (getPointer (rule.nextReadVPtr vptr length)) :=
    versionedPointer_ext (by simp) (by simp)
  rw [next, mirrors.next_pointer vptr length within short, version, payloadPtr, reserve]
  rw [lengthPtr]
  by_cases headerWrapped : isWrap cfg.pipeSize lengthBytes (getPointer vptr) = true
  · simp only [headerWrapped, ↓reduceIte]
    split <;> simp
  · simp only [headerWrapped, Bool.false_eq_true, ↓reduceIte]
    split <;> simp

end Mirror

/-- What the progress of `read` says about the pipe. A finished copy is either still to be
stored in `readVPtr_` or already passed by it. -/
def ReadFacts (base : State) (returned : Nat) : Read → Prop
  | .idle => base.reader = .idle ∧ base.consumed = returned
  | .begun vptr => base.reader = .busy false false ∧ base.consumed = returned ∧
      base.pipe.readVPtr = vptr ∧ ∃ record, base.published[returned]? = some record
  | .copying vptr length got => base.reader = .busy false false ∧ base.consumed = returned ∧
      base.pipe.readVPtr = vptr ∧ ∃ record, base.published[returned]? = some record ∧
        record.length = length ∧ got <+: record.payload
  | .finishing vptr length payload => ∃ record, base.published[returned]? = some record ∧
      record.payload = payload ∧
      ((∃ counted, base.reader = .busy false counted ∧ base.consumed = returned ∧
          base.pipe.readVPtr = vptr ∧ record.length = length) ∨
        ((∀ counted, base.reader ≠ .busy false counted) ∧ base.consumed = returned + 1))

/-- The pipe is one of the pipe system's, and the payloads returned are those of its oldest
records. -/
structure FifoFacts (cfg : Config) (s : FifoState) : Prop where
  base : (system cfg).Reachable (RunningPushes cfg) s.base
  returned : s.returned = (s.base.published.take s.returned.length).map Record.payload
  read : ReadFacts s.base s.returned.length s.read

/-- What a step can do, with a case for each branch of `read`. -/
inductive FifoMove (cfg : Config) (rule : ReadRule) (s : FifoState) : FifoAct → FifoState → Prop
  | pipe {act : Act} {base : State} (other : ∀ inner, act ≠ .reader inner)
      (stepped : step cfg s.base act = some base) :
      FifoMove cfg rule s (.pipe act) { s with base := base }
  | wait (control : s.read = .idle) (empty : s.base.pipe.isEmpty = true) :
      FifoMove cfg rule s .begin s
  | begin (control : s.read = .idle) (filled : s.base.pipe.isEmpty = false) :
      FifoMove cfg rule s .begin
        { s with base := { s.base with reader := .busy false false },
                 read := .begun s.base.pipe.readVPtr }
  | loadHeader {vptr : UInt64} (control : s.read = .begun vptr) :
      FifoMove cfg rule s .loadHeader
        { s with
          read := .copying vptr
            (cfg.order.decode (Memory.load s.base.pipe.buf (rule.lengthPtr vptr).toNat 4)) [] }
  | copyByte {vptr : UInt64} {length : UInt32} {got : List UInt8}
      (control : s.read = .copying vptr length got) (more : got.length < length.toNat) :
      FifoMove cfg rule s .copyByte
        { s with
          read := .copying vptr length
            (got ++ [s.base.pipe.buf ((rule.payloadPtr vptr length).toNat + got.length)]) }
  | copied {vptr : UInt64} {length : UInt32} {got : List UInt8}
      (control : s.read = .copying vptr length got) (done : ¬ got.length < length.toNat) :
      FifoMove cfg rule s .copyByte { s with read := .finishing vptr length got }
  | store {vptr : UInt64} {length : UInt32} {payload : List UInt8} {counted : Bool}
      (control : s.read = .finishing vptr length payload)
      (busy : s.base.reader = .busy false counted) :
      FifoMove cfg rule s .store
        { s with base := { s.base with
          pipe := { s.base.pipe with readVPtr := rule.nextReadVPtr vptr length },
          reader := .settle true counted,
          consumed := s.base.consumed + 1 } }
  | count {vptr : UInt64} {length : UInt32} {payload : List UInt8} {stored : Bool}
      (control : s.read = .finishing vptr length payload)
      (busy : s.base.reader = .busy stored false) :
      FifoMove cfg rule s .count
        { s with base := { s.base with
          pipe := { s.base.pipe with numRead := s.base.pipe.numRead + 1 },
          reader := .settle stored true } }
  | finish {vptr : UInt64} {length : UInt32} {payload : List UInt8}
      (control : s.read = .finishing vptr length payload) (resting : s.base.reader = .idle) :
      FifoMove cfg rule s .finish
        { s with read := .idle, returned := s.returned ++ [payload] }

section Simulation

variable {cfg : Config} {rule : ReadRule} {s s' : FifoState}

/-- What `read` knows survives a step of another thread. -/
theorem ReadFacts.frame {base base' : State} {returned : Nat} {read : Read}
    (facts : ReadFacts base returned read) (same : BesideReader base base') :
    ReadFacts base' returned read := by
  have ⟨reader, consumed, _, readVPtr, published, _⟩ := same
  have kept : ∀ record, base.published[returned]? = some record →
      base'.published[returned]? = some record := by
    intro record found
    have ⟨more, appended⟩ := published
    rw [← appended, List.getElem?_append_left (List.getElem?_eq_some_iff.mp found).1, found]
  cases read with
  | idle => exact ⟨reader.trans facts.1, consumed.trans facts.2⟩
  | begun vptr =>
    have ⟨control, index, loaded, record, found⟩ := facts
    exact ⟨reader.trans control, consumed.trans index, readVPtr.trans loaded, record,
      kept record found⟩
  | copying vptr length got =>
    have ⟨control, index, loaded, record, found, rest⟩ := facts
    exact ⟨reader.trans control, consumed.trans index, readVPtr.trans loaded, record,
      kept record found, rest⟩
  | finishing vptr length payload =>
    have ⟨record, found, copied, stage⟩ := facts
    refine ⟨record, kept record found, copied, ?_⟩
    rw [reader, consumed, readVPtr]
    exact stage

/-- The record behind the read pointer is stored where the rule looks for it, and its end is
the pointer the rule stores. -/
theorem rule_finds_record (mirrors : rule.Mirrors cfg.pipeSize)
    (bounds : WordBounds cfg.pipeSize) {base : State} {record : Record} {index : Nat}
    (reached : (system cfg).Reachable (RunningPushes cfg) base) (unread : base.consumed = index)
    (found : base.published[index]? = some record) :
    record.slot = ⟨rule.lengthPtr base.pipe.readVPtr,
        rule.payloadPtr base.pipe.readVPtr record.length,
        rule.nextReadVPtr base.pipe.readVPtr record.length⟩ ∧
      record.Stored cfg base.pipe.buf ∧ record.payload.length = record.length.toNat := by
  have inv := reachable_inv bounds (reached.mono (runningPushes_disciplined cfg))
  have ⟨inside, same⟩ := List.getElem?_eq_some_iff.mp found
  subst same
  have located := inv.layout.located index inside
  refine ⟨?_, inv.content index inside (Nat.le_of_eq unread), located.payload_length⟩
  rw [inv.layout.readVPtr_eq, unread, mirrors.finds_slot bounds located.short, located.slot_eq,
    located.start_eq]

/-- `read` starts only when a record is unread. -/
theorem unread_of_filled (bounds : WordBounds cfg.pipeSize) {base : State}
    (reached : (system cfg).Reachable (RunningPushes cfg) base)
    (filled : base.pipe.isEmpty = false) :
    ∃ record, base.published[base.consumed]? = some record := by
  have layout := (reachable_inv bounds (reached.mono (runningPushes_disciplined cfg))).layout
  have different : base.pipe.readVPtr ≠ base.pipe.writeVPtr := by
    simpa [LocklessPipe.isEmpty] using filled
  rw [Ne, layout.pointers_eq_iff] at different
  have bound := layout.consumed_le
  exact ⟨_, List.getElem?_eq_getElem (by omega)⟩

/-- A micro-step of the pipe system's reader is admitted in every run. -/
theorem reachable_readerStep {base base' : State} {act : ReaderAct}
    (reached : (system cfg).Reachable (RunningPushes cfg) base)
    (stepped : step cfg base (.reader act) = some base') :
    (system cfg).Reachable (RunningPushes cfg) base' :=
  reached.next (show RunningPushes cfg base (.reader act) from trivial) stepped

/-- A step of another thread is a step of the pipe below. -/
theorem fifoStep_pipe {act : Act} (taken : fifoStep cfg rule s (.pipe act) = some s') :
    (∀ inner, act ≠ .reader inner) ∧ ∃ base, step cfg s.base act = some base ∧
      { s with base := base } = s' := by
  have other : ∀ inner, act ≠ .reader inner := by
    rintro inner rfl
    simp [fifoStep] at taken
  refine ⟨other, ?_⟩
  cases act with
  | reader inner => exact absurd rfl (other inner)
  | _ => exact Option.map_eq_some_iff.mp taken

/-- Every step of the pipe and its reader in `read` is one of `FifoMove`. -/
theorem fifoStep_move {act : FifoAct} (taken : fifoStep cfg rule s act = some s') :
    FifoMove cfg rule s act s' := by
  cases act with
  | pipe act =>
    obtain ⟨other, base, stepped, rfl⟩ := fifoStep_pipe taken
    exact .pipe other stepped
  | begin =>
    simp only [fifoStep] at taken
    split at taken
    · rename_i control
      split at taken
      · rename_i empty
        cases taken
        exact .wait control empty
      · rename_i filled
        cases taken
        exact .begin control (Bool.eq_false_of_not_eq_true filled)
    · contradiction
  | loadHeader =>
    simp only [fifoStep] at taken
    split at taken
    · rename_i vptr control
      cases taken
      exact .loadHeader control
    · contradiction
  | copyByte =>
    simp only [fifoStep] at taken
    split at taken
    · rename_i vptr length got control
      split at taken
      · rename_i more
        cases taken
        exact .copyByte control more
      · rename_i done
        cases taken
        exact .copied control done
    · contradiction
  | store =>
    simp only [fifoStep] at taken
    split at taken
    · rename_i vptr length payload counted control busy
      cases taken
      exact .store control busy
    · contradiction
  | count =>
    simp only [fifoStep] at taken
    split at taken
    · rename_i vptr length payload stored control busy
      cases taken
      exact .count control busy
    · contradiction
  | finish =>
    simp only [fifoStep] at taken
    split at taken
    · rename_i vptr length payload control resting
      cases taken
      exact .finish control resting
    · contradiction

/-- A step of another thread keeps what is known of `read`. -/
theorem pipe_fifoFacts (facts : FifoFacts cfg s) {act : Act} {base : State}
    (admitted : RunningPushes cfg s.base act) (other : ∀ inner, act ≠ .reader inner)
    (stepped : step cfg s.base act = some base) : FifoFacts cfg { s with base := base } := by
  have ⟨reached, returned, reading⟩ := facts
  have beside := step_beside_reader other stepped
  refine ⟨reached.next admitted stepped, ?_, reading.frame beside⟩
  have ⟨more, appended⟩ := beside.published
  have bound : s.returned.length ≤ s.base.published.length := by
    have lengths := congrArg List.length returned
    rw [List.length_map, List.length_take] at lengths
    omega
  change s.returned = (base.published.take s.returned.length).map Record.payload
  rw [← appended, List.take_append_of_le_length bound]
  exact returned

/-- The start of a `read` keeps what is known of it. -/
theorem begin_fifoFacts (bounds : WordBounds cfg.pipeSize) (facts : FifoFacts cfg s)
    (control : s.read = .idle) (filled : s.base.pipe.isEmpty = false) :
    FifoFacts cfg
      { s with base := { s.base with reader := .busy false false },
               read := .begun s.base.pipe.readVPtr } := by
  have ⟨reached, returned, reading⟩ := facts
  rw [control] at reading
  have ⟨resting, index⟩ := reading
  have ⟨record, found⟩ := unread_of_filled bounds reached filled
  have stepped : step cfg s.base (.reader .begin) =
      some { s.base with reader := .busy false false } := by
    simp [step, readerStep, resting, filled]
  rw [index] at found
  exact ⟨reachable_readerStep reached stepped, returned, rfl, index, rfl, record, found⟩

/-- The header that `read` loads is the length of the oldest unread record. -/
theorem loadHeader_fifoFacts (mirrors : rule.Mirrors cfg.pipeSize)
    (bounds : WordBounds cfg.pipeSize) (facts : FifoFacts cfg s) {vptr : UInt64}
    (control : s.read = .begun vptr) :
    FifoFacts cfg { s with
      read := .copying vptr
        (cfg.order.decode (Memory.load s.base.pipe.buf (rule.lengthPtr vptr).toNat 4)) [] } := by
  have ⟨reached, returned, reading⟩ := facts
  rw [control] at reading
  have ⟨busy, index, loaded, record, found⟩ := reading
  have ⟨slot, stored, _⟩ := rule_finds_record mirrors bounds reached index found
  have header := stored.1
  rw [slot, loaded] at header
  refine ⟨reached, returned, busy, index, loaded, record, found, ?_, List.nil_prefix⟩
  rw [header, Words.ByteOrder.decode_encode]

/-- The payload that `read` loads is that of the oldest unread record. -/
theorem copying_payload (mirrors : rule.Mirrors cfg.pipeSize)
    (bounds : WordBounds cfg.pipeSize) {base : State} {record : Record} {index : Nat}
    {vptr : UInt64} {length : UInt32} (reached : (system cfg).Reachable (RunningPushes cfg) base)
    (unread : base.consumed = index) (loaded : base.pipe.readVPtr = vptr)
    (found : base.published[index]? = some record) (announced : record.length = length) :
    Memory.load base.pipe.buf (rule.payloadPtr vptr length).toNat length.toNat = record.payload ∧
      record.payload.length = length.toNat := by
  have ⟨slot, stored, payloadLength⟩ := rule_finds_record mirrors bounds reached unread found
  have payload := stored.2
  rw [slot, loaded, announced] at payload
  exact ⟨payload, announced ▸ payloadLength⟩

/-- The bytes that `read` copies are those of the oldest unread record. -/
theorem copyByte_fifoFacts (mirrors : rule.Mirrors cfg.pipeSize)
    (bounds : WordBounds cfg.pipeSize) (facts : FifoFacts cfg s) {vptr : UInt64} {length : UInt32}
    {got : List UInt8} (control : s.read = .copying vptr length got)
    (more : got.length < length.toNat) :
    FifoFacts cfg { s with
      read := .copying vptr length
        (got ++ [s.base.pipe.buf ((rule.payloadPtr vptr length).toNat + got.length)]) } := by
  have ⟨reached, returned, reading⟩ := facts
  rw [control] at reading
  have ⟨busy, index, loaded, record, found, announced, copied⟩ := reading
  have ⟨payload, _⟩ := copying_payload mirrors bounds reached index loaded found announced
  refine ⟨reached, returned, busy, index, loaded, record, found, announced, ?_⟩
  have next : got ++ [s.base.pipe.buf ((rule.payloadPtr vptr length).toNat + got.length)] =
      record.payload.take (got.length + 1) := by
    rw [← payload, Memory.take_load _ _ _ _ more, Memory.load_succ,
      ← Memory.take_load _ _ length.toNat _ (Nat.le_of_lt more), payload,
      ← List.prefix_iff_eq_take.mp copied]
  rw [next]
  exact List.take_prefix _ _

/-- When `read` has copied as many bytes as the header says, it has the whole record. -/
theorem copied_fifoFacts (mirrors : rule.Mirrors cfg.pipeSize)
    (bounds : WordBounds cfg.pipeSize) (facts : FifoFacts cfg s) {vptr : UInt64} {length : UInt32}
    {got : List UInt8} (control : s.read = .copying vptr length got)
    (done : ¬ got.length < length.toNat) :
    FifoFacts cfg { s with read := .finishing vptr length got } := by
  have ⟨reached, returned, reading⟩ := facts
  rw [control] at reading
  have ⟨busy, index, loaded, record, found, announced, copied⟩ := reading
  have ⟨_, payloadLength⟩ := copying_payload mirrors bounds reached index loaded found announced
  have whole : got = record.payload := copied.eq_of_length_le (by omega)
  exact ⟨reached, returned, record, found, whole.symm,
    Or.inl ⟨false, busy, index, loaded, announced⟩⟩

/-- The store of `readVPtr_` is the pipe system's: the rule computes the end of the record. -/
theorem store_fifoFacts (mirrors : rule.Mirrors cfg.pipeSize) (bounds : WordBounds cfg.pipeSize)
    (facts : FifoFacts cfg s) {vptr : UInt64} {length : UInt32} {payload : List UInt8}
    {counted : Bool} (control : s.read = .finishing vptr length payload)
    (busy : s.base.reader = .busy false counted) :
    FifoFacts cfg { s with base := { s.base with
      pipe := { s.base.pipe with readVPtr := rule.nextReadVPtr vptr length },
      reader := .settle true counted,
      consumed := s.base.consumed + 1 } } := by
  have ⟨reached, returned, reading⟩ := facts
  rw [control] at reading
  have ⟨record, found, copied, stage⟩ := reading
  rcases stage with ⟨-, -, index, loaded, announced⟩ | ⟨passed, -⟩
  · have ⟨slot, _, _⟩ := rule_finds_record mirrors bounds reached index found
    rw [loaded, announced] at slot
    have stepped : step cfg s.base (.reader .store) = some { s.base with
        pipe := { s.base.pipe with readVPtr := rule.nextReadVPtr vptr length },
        reader := .settle true counted,
        consumed := s.base.consumed + 1 } := by
      simp [step, readerStep, busy, index, found, slot]
    refine ⟨reachable_readerStep reached stepped, returned, ?_⟩
    change ReadFacts _ _ s.read
    rw [control]
    refine ⟨record, found, copied, Or.inr ⟨?_, by rw [index]⟩⟩
    intro flag
    cases counted <;> simp [Reader.settle]
  · exact absurd busy (passed counted)

/-- The increment of `numRead_` keeps what is known of `read`. -/
theorem count_fifoFacts (facts : FifoFacts cfg s) {vptr : UInt64} {length : UInt32}
    {payload : List UInt8} {stored : Bool} (control : s.read = .finishing vptr length payload)
    (busy : s.base.reader = .busy stored false) :
    FifoFacts cfg { s with base := { s.base with
      pipe := { s.base.pipe with numRead := s.base.pipe.numRead + 1 },
      reader := .settle stored true } } := by
  have ⟨reached, returned, reading⟩ := facts
  rw [control] at reading
  have ⟨record, found, copied, stage⟩ := reading
  have stepped : step cfg s.base (.reader .count) = some { s.base with
      pipe := { s.base.pipe with numRead := s.base.pipe.numRead + 1 },
      reader := .settle stored true } := by
    simp [step, readerStep, busy]
  refine ⟨reachable_readerStep reached stepped, returned, ?_⟩
  change ReadFacts _ _ s.read
  rw [control]
  refine ⟨record, found, copied, ?_⟩
  cases stored with
  | false =>
    rcases stage with ⟨-, -, index, loaded, announced⟩ | ⟨passed, -⟩
    · exact Or.inl ⟨true, rfl, index, loaded, announced⟩
    · exact absurd busy (passed false)
  | true =>
    rcases stage with ⟨counted, pending, -⟩ | ⟨-, index⟩
    · simp [busy] at pending
    · exact Or.inr ⟨by simp [Reader.settle], index⟩

/-- A read that returns has passed its record, and returns the payload of it. -/
theorem finish_fifoFacts (facts : FifoFacts cfg s) {vptr : UInt64} {length : UInt32}
    {payload : List UInt8} (control : s.read = .finishing vptr length payload)
    (resting : s.base.reader = .idle) :
    FifoFacts cfg { s with read := .idle, returned := s.returned ++ [payload] } := by
  have ⟨reached, returned, reading⟩ := facts
  rw [control] at reading
  have ⟨record, found, copied, stage⟩ := reading
  rcases stage with ⟨counted, pending, -⟩ | ⟨-, index⟩
  · simp [resting] at pending
  · refine ⟨reached, ?_, resting, by simpa using index⟩
    have ⟨inside, same⟩ := List.getElem?_eq_some_iff.mp found
    change s.returned ++ [payload] =
      (s.base.published.take (s.returned ++ [payload]).length).map Record.payload
    rw [List.length_append, List.length_singleton, ← List.take_append_getElem inside,
      List.map_append, ← returned, List.map_singleton, same, copied]

/-- Every admitted step keeps what is known of `read`. -/
theorem fifoStep_facts (mirrors : rule.Mirrors cfg.pipeSize) (bounds : WordBounds cfg.pipeSize)
    (facts : FifoFacts cfg s) {act : FifoAct} (admitted : FifoPushes cfg s act)
    (taken : fifoStep cfg rule s act = some s') : FifoFacts cfg s' := by
  cases fifoStep_move taken with
  | pipe other stepped => exact pipe_fifoFacts facts admitted other stepped
  | wait => exact facts
  | begin control filled => exact begin_fifoFacts bounds facts control filled
  | loadHeader control => exact loadHeader_fifoFacts mirrors bounds facts control
  | copyByte control more => exact copyByte_fifoFacts mirrors bounds facts control more
  | copied control done => exact copied_fifoFacts mirrors bounds facts control done
  | store control busy => exact store_fifoFacts mirrors bounds facts control busy
  | count control busy => exact count_fifoFacts facts control busy
  | finish control resting => exact finish_fifoFacts facts control resting

/-- What is known of `read` holds in every run of pushes and reads. -/
theorem reachable_fifoFacts (mirrors : rule.Mirrors cfg.pipeSize)
    (bounds : WordBounds cfg.pipeSize)
    (reached : (fifoSystem cfg rule).Reachable (FifoPushes cfg) s) : FifoFacts cfg s := by
  apply reached.invariant
  · rintro first ⟨storage, rfl⟩
    exact ⟨.start ⟨storage, rfl⟩, rfl, rfl, rfl⟩
  · intro before act after _ facts admitted taken
    exact fifoStep_facts mirrors bounds facts admitted taken

end Simulation

/-- No push of a running writer is lost: the values of the calls made are the payloads
published and the value of the call in progress. -/
structure PushFacts (cfg : Config) (s : State) : Prop where
  running : s.pipe.isWriterRunning = true
  admissible : ∀ call, s.writer.call? = some call →
    call.block = true ∧ call.length ≤ maxPipeElementSize cfg.pipeSize
  values : s.calls.map WriteCall.bytes =
    s.published.map Record.payload ++ s.writer.call?.toList.map WriteCall.bytes

/-- A micro-step of the writer loses no push. -/
theorem writerStep_pushFacts {cfg : Config} {s s' : State} (facts : PushFacts cfg s)
    (taken : writerStep cfg s = some s') : PushFacts cfg s' := by
  have ⟨running, admissible, values⟩ := facts
  have same := writerStep_elsewhere taken
  rcases writerStep_ends taken with ⟨call, _, records⟩ |
    ⟨call, outcome, records, current, control, ends, _, appended⟩
  · exact ⟨same.isWriterRunning.trans running, by rw [call]; exact admissible,
      by rw [same.calls, records, call]; exact values⟩
  · have ⟨blocking, short⟩ := admissible call current
    have written : records.map Record.payload = [call.bytes] := by
      cases ends with
      | tooLarge _ long => exact absurd long (UInt32.not_lt.mpr short)
      | interrupted _ stopped => simp [running] at stopped
      | refused _ _ tries => simp [blocking] at tries
      | written control => rfl
    refine ⟨same.isWriterRunning.trans running, by simp [control, Writer.call?], ?_⟩
    rw [same.calls, values, appended, current, control, List.map_append, written]
    exact (List.append_nil _).symm

/-- No push is lost in any run of pushes and reads. -/
theorem reachable_pushFacts {cfg : Config} {s : State}
    (reached : (system cfg).Reachable (RunningPushes cfg) s) : PushFacts cfg s := by
  apply reached.invariant
  · rintro first ⟨storage, rfl⟩
    exact ⟨rfl, by simp [State.start, Writer.call?], rfl⟩
  · intro before act after _ facts admitted taken
    obtain ⟨running, admissible, values⟩ := facts
    cases act with
    | call call =>
      obtain ⟨control, rfl⟩ := @step_call cfg _ _ _ taken
      obtain ⟨value, same, short⟩ := admitted
      subst same
      refine ⟨running, ?_, ?_⟩
      · intro call current
        obtain rfl := Option.some.inj current
        refine ⟨rfl, ?_⟩
        rw [UInt32.le_iff_toNat_le]
        exact Nat.le_trans (Nat.mod_le _ _) short
      · rw [control] at values
        simp only [List.map_append, values, List.append_assoc]
        rfl
    | writer => exact writerStep_pushFacts ⟨running, admissible, values⟩ taken
    | reader act =>
      rcases readerStep_cases taken with ⟨-, -, -, rfl⟩ | ⟨-, -, -, rfl⟩ |
        ⟨-, counted, -, inside, rfl⟩ | ⟨-, stored, -, rfl⟩ <;>
        exact ⟨running, admissible, values⟩
    | stopWriter => exact admitted.elim
    | startWriter => exact admitted.elim
    | validate =>
      obtain ⟨validator, rfl⟩ := @step_validate cfg _ _ taken
      exact ⟨running, admissible, values⟩

/-- The payloads returned are at every moment a prefix of the values pushed. -/
theorem returned_pushed {cfg : Config} {rule : ReadRule} {s : FifoState}
    (mirrors : rule.Mirrors cfg.pipeSize) (bounds : WordBounds cfg.pipeSize)
    (reached : (fifoSystem cfg rule).Reachable (FifoPushes cfg) s) :
    s.returned <+: s.base.calls.map WriteCall.bytes := by
  have ⟨base, returned, _⟩ := reachable_fifoFacts mirrors bounds reached
  rw [(reachable_pushFacts base).values, returned]
  exact ((List.take_prefix _ _).map _).trans (List.prefix_append _ _)

/-- The payloads returned are at every moment a prefix of the values pushed, and all of them
once nobody is writing or reading and the pipe is empty. -/
theorem returned_prefix_of_pushed {cfg : Config} {rule : ReadRule} {s : FifoState}
    (mirrors : rule.Mirrors cfg.pipeSize) (bounds : SizeBounds cfg.pipeSize)
    (reached : (fifoSystem cfg rule).Reachable (FifoPushes cfg) s) :
    s.returned <+: s.base.calls.map WriteCall.bytes ∧
      (s.base.writer = .idle → s.read = .idle → s.base.pipe.isEmpty = true →
        s.returned = s.base.calls.map WriteCall.bytes) := by
  have ⟨base, returned, reading⟩ := reachable_fifoFacts mirrors bounds.words reached
  have values := (reachable_pushFacts base).values
  constructor
  · exact returned_pushed mirrors bounds.words reached
  · intro writing resting empty
    rw [resting] at reading
    have layout := (reachable_inv bounds.words (base.mono (runningPushes_disciplined cfg))).layout
    have all : s.base.consumed = s.base.published.length :=
      layout.pointers_eq_iff.mp (beq_iff_eq.mp empty)
    rw [values, writing, returned, ← reading.2, all, List.take_length]
    exact (List.append_nil _).symm

/-- The rule of a reader that computes as `startWrite` does, in 32-bit words. -/
def mirrorRule (pipeSize : UInt32) : ReadRule :=
  let headerWraps vptr := isWrap pipeSize lengthBytes (getPointer vptr)
  let lengthPtr vptr := if headerWraps vptr then 0 else getPointer vptr
  let payloadWraps vptr length := isWrap pipeSize length (lengthPtr vptr + lengthBytes)
  let payloadPtr vptr length := if payloadWraps vptr length then 0 else lengthPtr vptr + lengthBytes
  { lengthPtr := lengthPtr
    payloadPtr := payloadPtr
    nextReadVPtr := fun vptr length => getVersionedPointer
      (getVersion vptr + (if headerWraps vptr then 1 else 0) +
        (if payloadWraps vptr length then 1 else 0))
      (payloadPtr vptr length + length) }

section MirrorRule

variable {pipeSize : UInt32} {vptr : UInt64} {length : UInt32}

/-- On a pointer into the buffer, the wrap test of a header is exact. -/
theorem mirrorRule_header (bounds : WordBounds pipeSize)
    (within : getPointer vptr ≤ pipeSize) :
    isWrap pipeSize lengthBytes (getPointer vptr) = true ↔
      pipeSize.toNat < (getPointer vptr).toNat + 4 := by
  have fits := bounds.sums_fit
  have least := bounds.ten_le
  have fourWord : lengthBytes.toNat = 4 := rfl
  rw [UInt32.le_iff_toNat_le] at within
  rw [isWrap_iff pipeSize lengthBytes (getPointer vptr) (by omega), fourWord]

/-- On a pointer into the buffer, the wrap test of a payload that `startWrite` accepts is exact. -/
theorem mirrorRule_payload (bounds : WordBounds pipeSize)
    (within : getPointer vptr ≤ pipeSize) (short : length ≤ maxPipeElementSize pipeSize) :
    isWrap pipeSize length ((mirrorRule pipeSize).lengthPtr vptr + lengthBytes) = true ↔
      pipeSize.toNat < ((mirrorRule pipeSize).lengthPtr vptr).toNat + 4 + length.toNat := by
  have fits := bounds.sums_fit
  have half := half_of_le_max bounds.ten_le short
  have fourWord : lengthBytes.toNat = 4 := rfl
  have inside : ((mirrorRule pipeSize).lengthPtr vptr).toNat ≤ pipeSize.toNat := by
    change (if isWrap pipeSize lengthBytes (getPointer vptr) then 0 else getPointer vptr).toNat ≤ _
    split
    · exact Nat.zero_le _
    · exact UInt32.le_iff_toNat_le.mp within
  have behind : ((mirrorRule pipeSize).lengthPtr vptr + lengthBytes).toNat =
      ((mirrorRule pipeSize).lengthPtr vptr).toNat + 4 := ptr_add_toNat _ _ (by omega)
  rw [isWrap_iff pipeSize length _ (by omega), behind]

/-- The rule mirrors the placement in every pipe in which the arithmetic of `startWrite` is exact.
-/
theorem mirrorRule_mirrors (bounds : WordBounds pipeSize) :
    (mirrorRule pipeSize).Mirrors pipeSize where
  header_stays vptr fits := by
    have within : getPointer vptr ≤ pipeSize := by
      rw [UInt32.le_iff_toNat_le]
      omega
    exact if_neg (mt (mirrorRule_header bounds within).mp (Nat.not_lt.mpr fits))
  header_wraps _ within passes := if_pos ((mirrorRule_header bounds within).mpr passes)
  payload_stays _ _ within short fits :=
    if_neg (mt (mirrorRule_payload bounds within short).mp (Nat.not_lt.mpr fits))
  payload_wraps _ _ within short passes :=
    if_pos ((mirrorRule_payload bounds within short).mpr passes)
  next_pointer _ _ _ _ := getPointer_getVersionedPointer _ _
  next_version vptr length within short := by
    simp only [← mirrorRule_header bounds within, ← mirrorRule_payload bounds within short]
    exact getVersion_getVersionedPointer _ _

end MirrorRule

/-- After one push and one read the payload returned is the value pushed. -/
theorem returned_prefix_of_pushed_read :
    ∃ s, (fifoSystem smallConfig (mirrorRule 12)).Reachable (FifoPushes smallConfig) s ∧
      s.returned = [[7]] ∧ s.returned <+: s.base.calls.map WriteCall.bytes := by
  let acts : List FifoAct := pushByte.map FifoAct.pipe ++
    [FifoAct.begin, .loadHeader, .copyByte, .copyByte, .count, .store, .finish]
  have replay : ((fifoSystem smallConfig (mirrorRule 12)).run
      ⟨.start blankStorage, .idle, []⟩ acts).map FifoState.returned = some [[7]] := by
    decide +kernel
  have ⟨s, replayed, returned⟩ := Option.map_eq_some_iff.mp replay
  have admitted : ∀ state, ∀ act ∈ acts, FifoPushes smallConfig state act :=
    @fifoPushes_of_all smallConfig [7] (by decide) acts (by decide)
  have reached : (fifoSystem smallConfig (mirrorRule 12)).Reachable (FifoPushes smallConfig) s :=
    .of_run ⟨blankStorage, rfl⟩ acts admitted replayed
  exact ⟨s, reached, returned, (returned_prefix_of_pushed
    (mirrorRule_mirrors ⟨by decide, by decide⟩) ⟨by decide, by decide⟩ reached).1⟩

end PerfVerif.Pipe
