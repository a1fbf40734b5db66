import PerfVerif.Pipe.Admission
import PerfVerif.Pipe.Fullness
import PerfVerif.Pipe.Interrupt
import PerfVerif.Pipe.Overflow

/-!
# The bytes a push writes

`push` narrows the length of its value to 32 bits for `startWrite` and copies with the full
length. For the lengths that survive the narrowing, the copy stays inside the reservation and
the header holds the length; a longer value passes the size check exactly when its low 32 bits
do, and then its header is wrong.

While a push is in progress, the bytes it has changed lie between `writeVPtr_` and
`nextWriteVPtr_`, in two pieces of the buffer when the record wraps.
-/

namespace PerfVerif.Pipe

open RecordRing Transition

/-- The three placements of an admissible record: header and payload at the front, the payload
alone at the front, and both behind the write pointer. -/
theorem reserve_cases {pipeSize length : UInt32} {writeVPtr : UInt64}
    (bounds : WordBounds pipeSize) (short : length ≤ maxPipeElementSize pipeSize)
    (inside : getPointer writeVPtr ≤ pipeSize) :
    let slot := reserve pipeSize writeVPtr length
    let write := (getPointer writeVPtr).toNat
    (getPointer slot.nextWriteVPtr).toNat = slot.payloadPtr.toNat + length.toNat ∧
    ((pipeSize.toNat < write + 4 ∧ slot.lengthPtr.toNat = 0 ∧ slot.payloadPtr.toNat = 4 ∧
        getVersion slot.nextWriteVPtr = getVersion writeVPtr + 1) ∨
      (write + 4 ≤ pipeSize.toNat ∧ pipeSize.toNat < write + 4 + length.toNat ∧
        slot.lengthPtr.toNat = write ∧ slot.payloadPtr.toNat = 0 ∧
        getVersion slot.nextWriteVPtr = getVersion writeVPtr + 1) ∨
      (write + 4 + length.toNat ≤ pipeSize.toNat ∧ slot.lengthPtr.toNat = write ∧
        slot.payloadPtr.toNat = write + 4 ∧
        getVersion slot.nextWriteVPtr = getVersion writeVPtr)) := by
  intro slot write
  have half := half_of_le_max bounds.ten_le short
  have ⟨lengthPtr, payloadPtr, nextPtr, version⟩ :=
    reserve_of_exact (reserveSums_exact bounds short inside)
  have bumped : UInt32.ofNat ((getVersion writeVPtr).toNat + 1) = getVersion writeVPtr + 1 := by
    rw [UInt32.ofNat_add, UInt32.ofNat_toNat]
    rfl
  simp only [reserveUnbounded] at lengthPtr payloadPtr nextPtr version
  refine ⟨by rw [nextPtr, payloadPtr], ?_⟩
  by_cases header : pipeSize.toNat < (getPointer writeVPtr).toNat + 4
  · have kept : ¬ pipeSize.toNat < 0 + 4 + length.toNat := by omega
    simp only [if_pos header, if_neg kept, Nat.add_zero] at lengthPtr payloadPtr version
    exact Or.inl ⟨header, lengthPtr, payloadPtr, version.trans bumped⟩
  · simp only [if_neg header] at lengthPtr payloadPtr version
    by_cases payload : pipeSize.toNat < (getPointer writeVPtr).toNat + 4 + length.toNat
    · simp only [if_pos payload, Nat.add_zero] at payloadPtr version
      exact Or.inr (Or.inl ⟨Nat.not_lt.mp header, payload, lengthPtr, payloadPtr,
        version.trans bumped⟩)
    · simp only [if_neg payload, Nat.add_zero, UInt32.ofNat_toNat] at payloadPtr version
      exact Or.inr (Or.inr ⟨Nat.not_lt.mp payload, lengthPtr, payloadPtr, version⟩)

section Lengths

variable {cfg : Config} {s s' : State}

/-- The header of a call that copies what it announced is in the buffer from the copy on. -/
def HeaderStored (cfg : Config) (s : State) : Prop :=
  match s.writer with
  | .copying call slot _ | .counting call slot | .publishing call slot => call.Copies →
    Memory.load s.pipe.buf slot.lengthPtr.toNat 4 = cfg.order.encode call.length
  | _ => True

/-- The header and the payload of a reservation share no byte. -/
theorem reserve_apart {pipeSize length : UInt32} {writeVPtr : UInt64}
    (bounds : WordBounds pipeSize) (short : length ≤ maxPipeElementSize pipeSize)
    (inside : getPointer writeVPtr ≤ pipeSize) {copied : Nat} (more : copied < length.toNat) :
    (reserve pipeSize writeVPtr length).lengthPtr.toNat + 4 ≤
        (reserve pipeSize writeVPtr length).payloadPtr.toNat + copied ∨
      (reserve pipeSize writeVPtr length).payloadPtr.toNat + copied + 1 ≤
        (reserve pipeSize writeVPtr length).lengthPtr.toNat := by
  have half := half_of_le_max bounds.ten_le short
  have ⟨_, cases⟩ := reserve_cases bounds short inside
  rcases cases with ⟨-, header, payload, -⟩ | ⟨-, wraps, header, payload, -⟩ |
    ⟨-, header, payload, -⟩
  · omega
  · omega
  · omega

/-- A micro-step of the writer keeps the header it has stored. -/
theorem writerStep_headerStored (bounds : WordBounds cfg.pipeSize) (facts : PointerFacts cfg s)
    (stored : HeaderStored cfg s) (taken : writerStep cfg s = some s') : HeaderStored cfg s' := by
  have ⟨_, write, _, reserves⟩ := facts
  cases writerStep_move taken with
  | store stores =>
    cases stores with
    | header control =>
      rename_i call slot
      intro _
      have same := Memory.load_store_same s.pipe.buf slot.lengthPtr.toNat
        (cfg.order.encode call.length)
      rwa [Words.ByteOrder.length_encode] at same
    | copy control inside =>
      rename_i call slot copied
      simp only [HeaderStored, control] at stored
      rw [control] at reserves
      have ⟨short, slotEq, _⟩ := reserves
      intro copies
      have more : copied < call.length.toNat := by
        rw [← copies]
        exact inside
      have apart := reserve_apart bounds short write more
      rw [← slotEq] at apart
      rw [← stored copies]
      exact Memory.load_store_apart _ _ _ _ _ apart
    | count control =>
      simp only [HeaderStored, control] at stored
      exact stored
    | _ => trivial
  | copied control _ =>
    simp only [HeaderStored, control] at stored
    exact stored
  | _ => trivial

/-- The header of a copying call is in the buffer in every run. -/
theorem reachable_headerStored {ok : State → Act → Prop} (bounds : WordBounds cfg.pipeSize)
    (reached : (system cfg).Reachable ok s) : HeaderStored cfg s := by
  apply reached.invariant
  · rintro first ⟨storage, rfl⟩
    trivial
  · intro before act after prior stored _ taken
    by_cases writing : act = .writer
    · subst writing
      exact writerStep_headerStored bounds (reachable_pointerFacts bounds.ten_le prior) stored taken
    · rcases step_same_write writing taken with ⟨call, -, -, rfl⟩ | same
      · trivial
      · unfold HeaderStored at stored ⊢
        rw [same.writer, same.buf]
        exact stored

/-- What a push whose `startWrite` returned a pointer does to the buffer: its header holds the
length of the value, and the bytes it copies go between the returned offset and the pointer
of `nextWriteVPtr_`. -/
structure CopiesReserved (cfg : Config) (s : State) (value : List UInt8) : Prop where
  header : ∀ slot copied, s.writer = .copying (.push value) slot copied →
    (cfg.order.decode (Memory.load s.pipe.buf slot.lengthPtr.toNat 4)).toNat = value.length
  payload : ∀ slot copied s' address, s.writer = .copying (.push value) slot copied →
    step cfg s .writer = some s' → s'.pipe.buf address ≠ s.pipe.buf address →
    slot.payloadPtr.toNat ≤ address ∧ address < (getPointer s.pipe.nextWriteVPtr).toNat

/-- A value shorter than `2 ^ 32` bytes is copied into its reservation. -/
theorem copiesReserved_of_narrow {ok : State → Act → Prop} {value : List UInt8}
    (bounds : WordBounds cfg.pipeSize) (reached : (system cfg).Reachable ok s)
    (narrow : value.length < 2 ^ 32) : CopiesReserved cfg s value := by
  have facts := reachable_pointerFacts bounds.ten_le reached
  have stored := reachable_headerStored bounds reached
  have announced := push_length_toNat narrow
  constructor
  · intro slot copied control
    simp only [HeaderStored, control] at stored
    rw [stored (push_copies narrow), Words.ByteOrder.decode_encode, announced]
  · intro slot copied s' address control taken changed
    have reserves := facts.reserves
    rw [control] at reserves
    have ⟨short, slotEq, next⟩ := reserves
    have ⟨ending, _⟩ := reserve_cases bounds short facts.writePtr_le
    rw [← slotEq, ← next, announced] at ending
    rcases writerStep_buf taken with same | ⟨_, _, other, -⟩ |
      ⟨call, current, index, byte, same, found, stores⟩
    · exact absurd (congrFun same address) changed
    · simp [control] at other
    · obtain ⟨rfl, rfl, rfl⟩ := Writer.copying.inj (control.symm.trans same)
      have more := (List.getElem?_eq_some_iff.mp found).1
      rw [stores] at changed
      have inside := Memory.store_changes _ _ _ _ changed
      rw [List.length_singleton] at inside
      change copied < value.length at more
      omega

/-- An empty pipe has room for every admissible element. -/
theorem isFull_start (bounds : WordBounds cfg.pipeSize) {length : UInt32}
    (short : length ≤ maxPipeElementSize cfg.pipeSize) (storage : LocklessPipe) :
    (State.start storage).pipe.isFull cfg.pipeSize length = false := by
  have room : nextPos cfg.pipeSize 0 length.toNat < 0 + (cfg.pipeSize.toNat + 1) :=
    endAt_lt_lap _ _ (half_of_le_max bounds.ten_le short)
  have tested := isFullAt_iff bounds short (Nat.le_refl 0) (by omega)
  rw [vptrAt_zero] at tested
  exact tested.mpr room

/-- The header of a value that passes the size check by its low 32 bits holds those bits. -/
theorem wide_push_header (bounds : WordBounds cfg.pipeSize) {value : List UInt8}
    (short : (WriteCall.push value).length ≤ maxPipeElementSize cfg.pipeSize) :
    ∃ s slot, (system cfg).Reachable System.always s ∧
      s.writer = .copying (.push value) slot 0 ∧
      (cfg.order.decode (Memory.load s.pipe.buf slot.lengthPtr.toNat 4)).toNat =
        value.length % 2 ^ 32 := by
  have returned := run_startWrite rfl rfl short (isFull_start bounds short blankStorage)
  refine ⟨_, _, .of_run ⟨blankStorage, rfl⟩ _ (fun _ _ _ => trivial) returned, rfl, ?_⟩
  have same := Memory.load_store_same (State.start blankStorage).pipe.buf
    (reserve cfg.pipeSize (State.start blankStorage).pipe.writeVPtr
      (WriteCall.push value).length).lengthPtr.toNat
    (cfg.order.encode (WriteCall.push value).length)
  rw [Words.ByteOrder.length_encode] at same
  change (cfg.order.decode (Memory.load (Memory.store _ _ _) _ 4)).toNat = _
  rw [same, Words.ByteOrder.decode_encode, WriteCall.push, UInt32.toNat_ofNat']

end Lengths

/-- In every run the pushes of a value copy what they reserved exactly when the length of the
value fits 32 bits, or its low 32 bits exceed the element limit, so that no push of it gets
past the size check. -/
theorem push_copies_reserved_iff {cfg : Config} {value : List UInt8}
    (bounds : SizeBounds cfg.pipeSize) :
    (∀ s, (system cfg).Reachable System.always s → CopiesReserved cfg s value) ↔
      value.length < 2 ^ 32 ∨
        (maxPipeElementSize cfg.pipeSize).toNat < value.length % 2 ^ 32 := by
  have announced : (WriteCall.push value).length.toNat = value.length % 2 ^ 32 :=
    UInt32.toNat_ofNat'
  constructor
  · intro copied
    by_contra! wide
    have short : (WriteCall.push value).length ≤ maxPipeElementSize cfg.pipeSize := by
      rw [UInt32.le_iff_toNat_le, announced]
      exact wide.2
    have ⟨s, slot, reached, control, stored⟩ := wide_push_header bounds.words short
    have header := (copied s reached).header slot 0 control
    rw [stored] at header
    have low : value.length % 2 ^ 32 < 2 ^ 32 := Nat.mod_lt _ (by decide)
    omega
  · intro condition s reached
    rcases condition with narrow | long
    · exact copiesReserved_of_narrow bounds.words reached narrow
    · -- no push of such a value is past the size check
      have reserves := (reachable_pointerFacts bounds.ten_le reached).reserves
      have refused : ∀ slot copied, s.writer ≠ .copying (.push value) slot copied := by
        intro slot copied control
        rw [control] at reserves
        have short := UInt32.le_iff_toNat_le.mp reserves.1
        rw [announced] at short
        omega
      exact ⟨fun slot copied control => absurd control (refused slot copied),
        fun slot copied _ _ control => absurd control (refused slot copied)⟩

/-- A value of `2 ^ 32 + 1` bytes is pushed into a pipe of twelve bytes with a header that
says one. -/
theorem push_narrows_length :
    ¬ ∀ (cfg : Config) (value : List UInt8) (s : State), SizeBounds cfg.pipeSize →
      value.length < 2 ^ 64 → (system cfg).Reachable System.always s →
      CopiesReserved cfg s value := by
  intro claimed
  have length : (List.replicate (2 ^ 32 + 1) (7 : UInt8)).length = 2 ^ 32 + 1 :=
    List.length_replicate
  have announced : (WriteCall.push (List.replicate (2 ^ 32 + 1) (7 : UInt8))).length = 1 := by
    rw [WriteCall.push, length]
    rfl
  obtain ⟨s, slot, reached, control, stored⟩ := @wide_push_header smallConfig
    ⟨by decide, by decide⟩ (List.replicate (2 ^ 32 + 1) (7 : UInt8))
    (by rw [announced]; decide)
  have copied := claimed smallConfig _ s ⟨by decide, by decide⟩ (by rw [length]; decide) reached
  have header := copied.header slot 0 control
  rw [stored, length] at header
  exact absurd header (by decide)

/-- The pushes of one byte copy what they reserved. -/
theorem push_copies_reserved_iff_byte :
    SizeBounds smallConfig.pipeSize ∧ CopiesReserved smallConfig (.start blankStorage) [7] :=
  ⟨⟨by decide, by decide⟩, (push_copies_reserved_iff ⟨by decide, by decide⟩).mpr
    (Or.inl (by decide)) _ (.start ⟨blankStorage, rfl⟩)⟩

section Coverage

variable {cfg : Config} {s s' s'' : State}

/-- The offsets that a call with a reservation stores into. -/
def Writer.footprint : Writer → Set Nat
  | .header call slot | .copying call slot _ | .counting call slot | .publishing call slot =>
    block slot.lengthPtr 4 ∪ block slot.payloadPtr call.bytes.length
  | _ => ∅

/-- A micro-step that carries a call on changes bytes of its footprint only, and keeps the
footprint. -/
theorem writerStep_footprint (taken : writerStep cfg s = some s') (busy : s'.writer ≠ .idle) :
    s.writer.footprint ⊆ s'.writer.footprint ∧
      ∀ address, s'.pipe.buf address ≠ s.pipe.buf address → address ∈ s'.writer.footprint := by
  have kept : s.writer.footprint ⊆ s'.writer.footprint := by
    cases writerStep_move taken with
    | store stored =>
      cases stored with
      | reserve control =>
        rw [control]
        exact Set.empty_subset _
      | header control | copy control _ | count control =>
        rw [control]
        exact subset_rfl
      | publish _ => exact absurd rfl busy
    | copied control _ =>
      rw [control]
      exact subset_rfl
    | tooLarge _ _ | interrupt _ _ | refuse _ _ _ => exact absurd rfl busy
    | enter control _ | loadRead control | full control _ | free control _ | again control
    | leave control _ | pass control _ _ =>
      rw [control]
      exact Set.empty_subset _
  refine ⟨kept, fun address changed => kept ?_⟩
  rcases writerStep_buf taken with same | ⟨call, slot, control, stores⟩ |
    ⟨call, slot, copied, byte, control, found, stores⟩
  · exact absurd (congrFun same address) changed
  · rw [stores] at changed
    have inside := Memory.store_changes _ _ _ _ changed
    rw [Words.ByteOrder.length_encode] at inside
    rw [control]
    exact Or.inl inside
  · rw [stores] at changed
    have inside := Memory.store_changes _ _ _ _ changed
    have more := (List.getElem?_eq_some_iff.mp found).1
    rw [List.length_singleton] at inside
    rw [control]
    exact Or.inr ⟨by omega, by omega⟩

/-- The bytes changed since a call began lie in its footprint, as long as no other call is
made and the call is in progress. -/
def ChangesInside (began s : State) : Prop :=
  began.calls.length < s.calls.length ∨ s.calls = began.calls ∧
    (s.writer = .idle ∨ ∀ address, s.pipe.buf address ≠ began.pipe.buf address →
      address ∈ s.writer.footprint)

/-- Every step keeps the changed bytes inside the footprint. -/
theorem step_changesInside {act : Act} (inside : ChangesInside s s')
    (taken : step cfg s' act = some s'') : ChangesInside s s'' := by
  by_cases writing : act = .writer
  · subst writing
    unfold ChangesInside
    rw [(writerStep_elsewhere taken).calls]
    rcases inside with more | ⟨calls, resting | changes⟩
    · exact Or.inl more
    · simp [step, writerStep, resting] at taken
    · refine Or.inr ⟨calls, ?_⟩
      by_cases resting : s''.writer = .idle
      · exact Or.inl resting
      · right
        intro address changed
        obtain ⟨kept, fresh⟩ := writerStep_footprint taken resting
        by_cases same : s''.pipe.buf address = s'.pipe.buf address
        · exact kept (changes address (same ▸ changed))
        · exact fresh address same
  · rcases step_same_write writing taken with ⟨made, -, -, rfl⟩ | same
    · exact Or.inl (calls_length_lt made inside)
    · unfold ChangesInside at inside ⊢
      rw [same.calls, same.writer, same.buf]
      exact inside

/-- The bytes that a call in progress has changed since it began lie in its footprint. -/
theorem changes_in_footprint {ok : State → Act → Prop}
    (path : (system cfg).Leads ok s s') (calls : s'.calls = s.calls) (busy : s'.writer ≠ .idle)
    (address : Nat) (changed : s'.pipe.buf address ≠ s.pipe.buf address) :
    address ∈ s'.writer.footprint := by
  have inside := System.leads_invariant (ChangesInside s)
    (fun _ _ _ inside _ taken => step_changesInside inside taken) path
    (Or.inr ⟨rfl, Or.inr fun _ changed => absurd rfl changed⟩)
  rcases inside with more | ⟨-, resting | changes⟩
  · rw [calls] at more
    exact absurd more (Nat.lt_irrefl _)
  · exact absurd resting busy
  · exact changes address changed

/-- The footprint of a call with a reservation is the bytes of the slot granted to it. -/
theorem footprint_granted (inv : Inv cfg s) {address : Nat}
    (member : address ∈ s.writer.footprint) :
    ∃ call slot, Granted cfg s.pipe.writeVPtr s.pipe.nextWriteVPtr
      (posOf cfg (s.published.take s.consumed)) (posOf cfg s.published) call slot ∧
      address ∈ slot.bytes call.length := by
  have facts := inv.writer
  have bytes {call : WriteCall} {slot : Reservation} (copies : call.Copies) :
      block slot.lengthPtr 4 ∪ block slot.payloadPtr call.bytes.length = slot.bytes call.length := by
    rw [copies]
    rfl
  cases control : s.writer with
  | header call slot =>
    rw [control] at facts member
    change Granted cfg s.pipe.writeVPtr s.pipe.nextWriteVPtr _ _ call slot at facts
    exact ⟨call, slot, facts, bytes facts.admissible.copies ▸ member⟩
  | copying call slot copied =>
    rw [control] at facts member
    exact ⟨call, slot, facts.1, bytes facts.1.admissible.copies ▸ member⟩
  | counting call slot | publishing call slot =>
    rw [control] at facts member
    exact ⟨call, slot, facts.1, bytes facts.1.admissible.copies ▸ member⟩
  | _ =>
    rw [control] at member
    exact member.elim

/-- The cyclic interval of offsets between two versioned pointers. -/
def Between (pipeSize : UInt32) (first last : UInt64) (address : Nat) : Prop :=
  if getVersion last = getVersion first then
    (getPointer first).toNat ≤ address ∧ address < (getPointer last).toNat
  else ((getPointer first).toNat ≤ address ∧ address < pipeSize.toNat) ∨
    address < (getPointer last).toNat

/-- The two parts of a reservation lie between the write pointer and its end. -/
theorem reserve_between {pipeSize length : UInt32} {writeVPtr : UInt64}
    (bounds : WordBounds pipeSize) (short : length ≤ maxPipeElementSize pipeSize)
    (inside : getPointer writeVPtr ≤ pipeSize) {address : Nat}
    (member : address ∈ (reserve pipeSize writeVPtr length).bytes length) :
    Between pipeSize writeVPtr (reserve pipeSize writeVPtr length).nextWriteVPtr address := by
  have ⟨ending, cases⟩ := reserve_cases bounds short inside
  have ⟨nextNe, _⟩ := version_succ_ne (getVersion writeVPtr)
  simp only [Reservation.bytes, block, Set.mem_union, Set.mem_Ico] at member
  unfold Between
  rcases cases with ⟨-, header, payload, version⟩ | ⟨fits, -, header, payload, version⟩ |
    ⟨fits, header, payload, version⟩
  · rw [version, if_neg nextNe]
    omega
  · rw [version, if_neg nextNe]
    omega
  · rw [version, if_pos rfl]
    omega

/-- A versioned pointer is the positional number of its version and its pointer. -/
theorem versionedPointer_toNat (vptr : UInt64) :
    vptr.toNat = (getVersion vptr).toNat * 2 ^ 32 + (getPointer vptr).toNat := by
  simp only [getVersion, getPointer, Words.high_toNat, Words.low_toNat]
  omega

/-- The end of a reservation is a larger number than the write pointer, unless the version
wraps. -/
theorem reserve_increases {pipeSize length : UInt32} {writeVPtr : UInt64}
    (bounds : WordBounds pipeSize) (short : length ≤ maxPipeElementSize pipeSize)
    (inside : getPointer writeVPtr ≤ pipeSize) :
    writeVPtr < (reserve pipeSize writeVPtr length).nextWriteVPtr ∨
      (getVersion writeVPtr = 0xFFFFFFFF ∧
        getVersion (reserve pipeSize writeVPtr length).nextWriteVPtr = 0) := by
  have ⟨ending, cases⟩ := reserve_cases bounds short inside
  rw [UInt64.lt_iff_toNat_lt, versionedPointer_toNat writeVPtr, versionedPointer_toNat
    (reserve pipeSize writeVPtr length).nextWriteVPtr]
  have pointer := (getPointer writeVPtr).toNat_lt
  have bumped (next : getVersion (reserve pipeSize writeVPtr length).nextWriteVPtr =
      getVersion writeVPtr + 1) :
      (getVersion writeVPtr).toNat * 2 ^ 32 + (getPointer writeVPtr).toNat <
        (getVersion (reserve pipeSize writeVPtr length).nextWriteVPtr).toNat * 2 ^ 32 +
          (getPointer (reserve pipeSize writeVPtr length).nextWriteVPtr).toNat ∨
      (getVersion writeVPtr = 0xFFFFFFFF ∧
        getVersion (reserve pipeSize writeVPtr length).nextWriteVPtr = 0) := by
    by_cases last : getVersion writeVPtr = 0xFFFFFFFF
    · exact Or.inr ⟨last, by rw [next, last]; rfl⟩
    · left
      have bound := (getVersion writeVPtr).toNat_lt
      have different : (getVersion writeVPtr).toNat ≠ 2 ^ 32 - 1 :=
        fun same => last (UInt32.toNat.inj same)
      have advanced : (getVersion writeVPtr + 1).toNat = (getVersion writeVPtr).toNat + 1 :=
        ptr_add_toNat _ 1 (by change _ + 1 < _; omega)
      rw [next, advanced]
      omega
  rcases cases with ⟨-, -, -, version⟩ | ⟨-, -, -, -, version⟩ | ⟨-, -, payload, version⟩
  · exact bumped version
  · exact bumped version
  · left
    rw [version]
    omega

end Coverage

/-- At every micro-step of every run of pushes, the bytes changed since the current push began
lie between `writeVPtr_` and `nextWriteVPtr_`; the two are equal while no push is in progress;
and a publication increases `writeVPtr_` as a number unless its version wraps. -/
theorem next_pointer_covers_changes {cfg : Config} {s : State} (bounds : SizeBounds cfg.pipeSize)
    (reached : (system cfg).Reachable (RunningPushes cfg) s) :
    (∀ began call, (system cfg).Reachable (RunningPushes cfg) began →
      began.writer = .entered call → (system cfg).Leads (RunningPushes cfg) began s →
      s.calls = began.calls → s.writer ≠ .idle →
      ∀ address, s.pipe.buf address ≠ began.pipe.buf address →
        Between cfg.pipeSize s.pipe.writeVPtr s.pipe.nextWriteVPtr address) ∧
    (s.writer = .idle → s.pipe.nextWriteVPtr = s.pipe.writeVPtr) ∧
    (∀ call slot s', s.writer = .publishing call slot → step cfg s .writer = some s' →
      s.pipe.writeVPtr < s'.pipe.writeVPtr ∨
        (getVersion s.pipe.writeVPtr = 0xFFFFFFFF ∧ getVersion s'.pipe.writeVPtr = 0)) := by
  have ⟨_, writeLe, _, reserves⟩ := reachable_pointerFacts bounds.ten_le reached
  have inv := reachable_inv bounds.words (reached.mono (runningPushes_disciplined cfg))
  refine ⟨?_, ?_, ?_⟩
  · intro began call _ entered path calls busy address changed
    have member := changes_in_footprint path calls busy address changed
    have ⟨current, slot, granted, inside⟩ := footprint_granted inv member
    rw [granted.slot_eq] at inside
    rw [granted.next_eq, granted.slot_eq]
    exact reserve_between bounds.words granted.admissible.short writeLe inside
  · intro resting
    rw [resting] at reserves
    exact reserves
  · intro call slot s' control taken
    rw [control] at reserves
    have ⟨short, slotEq, next⟩ := reserves
    simp only [step, writerStep, control, Option.some.injEq] at taken
    subst taken
    change s.pipe.writeVPtr < s.pipe.nextWriteVPtr ∨ _ ∧ getVersion s.pipe.nextWriteVPtr = 0
    rw [next, slotEq]
    exact reserve_increases bounds.words short writeLe

/-- A push of one byte into an empty pipe of twelve bytes, when the byte is copied. -/
theorem next_pointer_covers_changes_push :
    ∃ began s, (system smallConfig).Leads (RunningPushes smallConfig) began s ∧
      s.pipe.buf 4 ≠ began.pipe.buf 4 ∧
      Between 12 s.pipe.writeVPtr s.pipe.nextWriteVPtr 4 := by
  let began : State := { State.start blankStorage with
    writer := .entered (.push [7]), calls := [.push [7]] }
  have entered : (system smallConfig).Reachable (RunningPushes smallConfig) began :=
    .next (.start ⟨blankStorage, rfl⟩) (show RunningPushes smallConfig _ (.call (.push [7])) from
      ⟨[7], rfl, by decide⟩) rfl
  have replay : ((system smallConfig).run began (List.replicate 7 .writer)).map
      (fun s => (s.writer, s.calls, s.pipe.buf 4)) =
      some (.copying (.push [7]) ⟨0, 4, 5⟩ 1, [.push [7]], 7) := by decide +kernel
  have ⟨s, replayed, shown⟩ := Option.map_eq_some_iff.mp replay
  have ⟨control, calls, byte⟩ : s.writer = .copying (.push [7]) ⟨0, 4, 5⟩ 1 ∧
      s.calls = [.push [7]] ∧ s.pipe.buf 4 = 7 := by simpa using shown
  have path : (system smallConfig).Leads (RunningPushes smallConfig) began s :=
    System.leads_of_run _ (admits_writers (fun _ => trivial) 7) replayed
  have changed : s.pipe.buf 4 ≠ began.pipe.buf 4 := by
    rw [byte]
    decide
  have covers := next_pointer_covers_changes ⟨by decide, by decide⟩ (entered.leads path)
  exact ⟨began, s, path, changed, covers.1 began _ entered rfl path calls (by simp [control]) 4
    changed⟩

end PerfVerif.Pipe
