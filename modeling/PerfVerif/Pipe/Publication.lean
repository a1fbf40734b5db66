import PerfVerif.Pipe.StoreOrder

/-!
# Publication on hardware that reorders stores

A publication has a call of `MF_write_sync` behind every store of its record, so on hardware that
keeps the order of all stores, or of those with a fence between them, it reaches memory behind
all of them. What the reader then finds of the record is what the writer wrote, since no store
that still waits goes there. The pipe in program order is therefore one of the sequentially
consistent system's, step for step, and its FIFO order holds on every platform of `membar.h`.
-/

namespace PerfVerif.Pipe

open RecordRing StoreBuffer Transition

section Writes

variable {cfg : Config} {s s' : State}

/-- Writing a block byte by byte is storing it. -/
theorem foldl_blockWrites (written : Written) (base : Nat) (bytes : List UInt8) :
    (blockWrites base bytes).foldl Write.apply written =
      { written with buf := Memory.store written.buf base bytes } := by
  induction bytes generalizing written base with
  | nil =>
    have same : Memory.store written.buf base [] = written.buf := by
      funext address
      exact Memory.store_outside _ _ _ _ (by rw [List.length_nil]; omega)
    rw [same]
    rfl
  | cons byte rest ih =>
    rw [Memory.store_cons]
    exact ih _ _

/-- The stores of a block are stores of its bytes. -/
theorem mem_blockWrites {write : Write} {base : Nat} {bytes : List UInt8}
    (member : write ∈ blockWrites base bytes) :
    ∃ address value, write = .byte address value ∧ base ≤ address ∧
      address < base + bytes.length := by
  induction bytes generalizing base with
  | nil => exact absurd member List.not_mem_nil
  | cons byte rest ih =>
    rw [List.length_cons]
    rcases List.mem_cons.mp member with rfl | later
    · exact ⟨base, byte, rfl, Nat.le_refl _, by omega⟩
    · have ⟨address, value, same, least, most⟩ := ih later
      exact ⟨address, value, same, by omega, by omega⟩

/-- The writer issues no store at the control points where it does not store into the pipe. -/
theorem writes_eq_nil {pipe : LocklessPipe} {writer : Writer} (silent : writer.stores = false) :
    writer.writes cfg pipe = [] := by
  cases writer with
  | copying call slot copied =>
    have done : call.bytes.length ≤ copied := Nat.not_lt.mp (of_decide_eq_false silent)
    rw [Writer.writes, List.getElem?_eq_none done]
    rfl
  | reserving _ _ | header _ _ | counting _ _ | publishing _ _ => contradiction
  | _ => rfl

/-- What the writer sees of its fields is what it has stored. -/
theorem writerStep_written (taken : writerStep cfg s = some s') :
    (s.writer.writes cfg s.pipe).foldl Write.apply (.of s.pipe) = .of s'.pipe := by
  rcases writerStep_stores taken with stored | silent
  · cases stored with
    | header control =>
      rw [control]
      exact foldl_blockWrites _ _ _
    | copy control inside =>
      rw [control, Writer.writes, List.getElem?_eq_getElem inside]
      rfl
    | reserve control | count control | publish control =>
      rw [control]
      rfl
  · rw [writes_eq_nil silent.stores, silent.pipe]
    rfl

/-- The writer publishes by the store of `writeVPtr_` alone, behind a call of
`MF_write_sync`. -/
theorem writes_publication {pipe : LocklessPipe} {writer : Writer} {write : Write}
    (member : write ∈ writer.writes cfg pipe) (publishes : write.publication?.isSome) :
    writer.writes cfg pipe = [write] ∧ writer.syncs = 1 ∧
      ∃ call slot, writer = .publishing call slot := by
  cases writer with
  | publishing call slot =>
    obtain rfl := List.mem_singleton.mp member
    exact ⟨rfl, rfl, call, slot, rfl⟩
  | header call slot =>
    obtain ⟨address, value, rfl, -, -⟩ := mem_blockWrites member
    contradiction
  | copying call slot copied =>
    simp only [Writer.writes, Option.mem_toList, Option.map_eq_some_iff] at member
    obtain ⟨byte, -, rfl⟩ := member
    contradiction
  | reserving call full | counting call slot =>
    obtain rfl := List.mem_singleton.mp member
    contradiction
  | idle | entered call | loadRead call | loadWrite call localReadPtr | loopFlag call
  | gate call full => exact absurd member List.not_mem_nil

/-- The stores of a micro-step publish the records that it adds. -/
theorem writerStep_published (inv : Inv cfg s) (taken : writerStep cfg s = some s') :
    ∃ records, s'.published = s.published ++ records ∧
      (s.writer.writes cfg s.pipe).filterMap Write.publication? =
        records.map fun record => record.slot.nextWriteVPtr := by
  rcases writerStep_publishes taken with ⟨call, slot, control, published⟩ | ⟨other, published⟩
  · have facts := inv.writer
    rw [control] at facts ⊢
    exact ⟨[⟨s.pipe.writeVPtr, call.length, slot, call.bytes⟩], published,
      congrArg (fun word => [word]) facts.1.next_eq⟩
  · refine ⟨[], by rw [published, List.append_nil], ?_⟩
    apply List.filterMap_eq_nil_iff.mpr
    intro write member
    by_contra publishes
    obtain ⟨_, _, call, slot, control⟩ :=
      writes_publication member (Option.isSome_iff_ne_none.mpr publishes)
    exact other call slot control

/-- Two records share no byte when the later one ends at most a lap behind the header of the
earlier one. -/
theorem Record.At.apart (bounds : WordBounds cfg.pipeSize) {early late : Record} {pos place : Nat}
    (first : early.At cfg pos) (second : late.At cfg place)
    (behind : nextPos cfg.pipeSize pos early.length.toNat ≤ place)
    (within : nextPos cfg.pipeSize place late.length.toNat ≤
      headerAt cfg.pipeSize.toNat 4 pos + (cfg.pipeSize.toNat + 1)) :
    Disjoint (early.slot.bytes early.length) (late.slot.bytes late.length) := by
  have half := half_of_le_max bounds.ten_le first.short
  have half' := half_of_le_max bounds.ten_le second.short
  have placed := first.placed bounds
  have placed' := second.placed bounds
  -- the four blocks in the order of their positions
  have header : headerAt cfg.pipeSize.toNat 4 pos + 4 ≤
      payloadAt cfg.pipeSize.toNat 4 pos early.length.toNat := headerAt_add_le_payloadAt _ _
  have next : place ≤ headerAt cfg.pipeSize.toNat 4 place := le_headerAt _
  have header' : headerAt cfg.pipeSize.toNat 4 place + 4 ≤
      payloadAt cfg.pipeSize.toNat 4 place late.length.toNat := headerAt_add_le_payloadAt _ _
  unfold nextPos endAt at behind within
  have headerFits := @headerAt_offset cfg.pipeSize.toNat 4 pos (by omega)
  have headerFits' := @headerAt_offset cfg.pipeSize.toNat 4 place (by omega)
  have payloadFits := @payloadAt_offset cfg.pipeSize.toNat 4 pos early.length.toNat
    (by omega)
  have payloadFits' := @payloadAt_offset cfg.pipeSize.toNat 4 place late.length.toNat
    (by omega)
  simp only [Reservation.bytes, Set.disjoint_union_left, Set.disjoint_union_right]
  refine ⟨⟨block_disjoint ?_, block_disjoint ?_⟩, block_disjoint ?_, block_disjoint ?_⟩
  · rw [placed.lengthPtr, placed'.lengthPtr]
    exact blocks_apart _ _ _ _ (by omega) (by omega) headerFits headerFits'
  · rw [placed.payloadPtr, placed'.lengthPtr]
    exact blocks_apart _ _ _ _ (by omega) (by omega) payloadFits headerFits'
  · rw [placed.lengthPtr, placed'.payloadPtr]
    exact blocks_apart _ _ _ _ (by omega) (by omega) headerFits payloadFits'
  · rw [placed.payloadPtr, placed'.payloadPtr]
    exact blocks_apart _ _ _ _ (by omega) (by omega) payloadFits payloadFits'

/-- The record that a call past its reservation is going to publish is placed at the write position.
-/
theorem Granted.located (inv : Inv cfg s) {call : WriteCall} {slot : Reservation}
    (granted : Granted cfg s.pipe.writeVPtr s.pipe.nextWriteVPtr
      (posOf cfg (s.published.take s.consumed)) (posOf cfg s.published) call slot) :
    Record.At cfg (posOf cfg s.published) ⟨s.pipe.writeVPtr, call.length, slot, call.bytes⟩ :=
  ⟨granted.admissible.short, inv.layout.writeVPtr_eq, granted.slot_eq, granted.admissible.copies⟩

/-- The slot of a call past its reservation shares no byte with an unread record. -/
theorem Granted.apart (bounds : WordBounds cfg.pipeSize) (inv : Inv cfg s) {call : WriteCall}
    {slot : Reservation}
    (granted : Granted cfg s.pipe.writeVPtr s.pipe.nextWriteVPtr
      (posOf cfg (s.published.take s.consumed)) (posOf cfg s.published) call slot)
    {index : Nat} (inside : index < s.published.length) (unread : s.consumed ≤ index) :
    Disjoint (slot.bytes call.length)
      (s.published[index].slot.bytes s.published[index].length) := by
  have behind := posOf_take_le cfg s.published inside
  rw [posOf_take_succ cfg s.published index inside] at behind
  have head := posOf_take_mono cfg s.published unread (Nat.le_of_lt inside)
  have header : posOf cfg (s.published.take index) ≤ headerAt cfg.pipeSize.toNat 4
      (posOf cfg (s.published.take index)) := le_headerAt _
  have room := granted.room
  unfold Room at room
  have within : nextPos cfg.pipeSize (posOf cfg s.published) call.length.toNat ≤
      headerAt cfg.pipeSize.toNat 4 (posOf cfg (s.published.take index)) +
        (cfg.pipeSize.toNat + 1) := by omega
  exact ((inv.layout.located index inside).apart bounds (granted.located inv) behind within).symm

/-- No store of the writer goes to a byte of an unread record. -/
theorem writes_apart (bounds : WordBounds cfg.pipeSize) (inv : Inv cfg s) {address : Nat}
    {value : UInt8} (member : .byte address value ∈ s.writer.writes cfg s.pipe) {index : Nat}
    (inside : index < s.published.length) (unread : s.consumed ≤ index) :
    address ∉ s.published[index].slot.bytes s.published[index].length := by
  have facts := inv.writer
  cases control : s.writer with
  | header call slot =>
    rw [control] at facts member
    change Granted cfg s.pipe.writeVPtr s.pipe.nextWriteVPtr _ _ call slot at facts
    have ⟨target, byte, same, least, most⟩ := mem_blockWrites member
    obtain ⟨rfl, rfl⟩ := Write.byte.inj same
    rw [Words.ByteOrder.length_encode] at most
    exact Set.disjoint_left.mp (facts.apart bounds inv inside unread) (Or.inl ⟨least, most⟩)
  | copying call slot copied =>
    rw [control] at facts member
    have granted := facts.1
    have length : call.bytes.length = call.length.toNat := granted.admissible.copies
    simp only [Writer.writes, Option.mem_toList, Option.map_eq_some_iff] at member
    have ⟨byte, found, same⟩ := member
    obtain ⟨rfl, rfl⟩ := Write.byte.inj same
    have more := (List.getElem?_eq_some_iff.mp found).1
    exact Set.disjoint_left.mp (granted.apart bounds inv inside unread)
      (Or.inr ⟨by omega, by omega⟩)
  | reserving call full | counting call slot | publishing call slot =>
    rw [control] at member
    exact absurd (List.mem_singleton.mp member) (by simp)
  | idle | entered call | loadRead call | loadWrite call localReadPtr | loopFlag call
  | gate call full =>
    rw [control] at member
    exact absurd member List.not_mem_nil

end Writes

/-- Two waiting stores in program order: the later one is of the same record or a later one, of a
later one behind a publication, and has a fence before it if it is a publication. -/
def InSequence (earlier later : Entry Issue) : Prop :=
  earlier.store.record ≤ later.store.record ∧
    ((publicationOf earlier).isSome → earlier.store.record < later.store.record) ∧
    ((publicationOf later).isSome → earlier.fences < later.fences)

/-- A waiting store: its record is not in memory yet, and it goes to no byte of an earlier record
that is unread. -/
structure Waiting (base : State) (visible fences : Nat) (entry : Entry Issue) : Prop where
  visible_le : visible ≤ entry.store.record
  record_le : entry.store.record ≤ base.published.length
  published : (publicationOf entry).isSome → entry.store.record < base.published.length
  fences_le : entry.fences ≤ fences
  apart : ∀ index (inside : index < base.published.length), base.consumed ≤ index →
    index < entry.store.record → ∀ address value, entry.store.write = .byte address value →
    address ∉ base.published[index].slot.bytes base.published[index].length

/-- The pipe in program order is one of the sequentially consistent system's; what still waits
leads from the memory to it; and the reader is not past what memory shows of it. -/
structure OrderFacts (cfg : Config) (rule : ReadRule) (s : OrderState) : Prop where
  reached : (fifoSystem cfg rule).Reachable (FifoPushes cfg) s.fifo
  view : view pipeStores s.memory s.buffer = .of s.fifo.base.pipe
  visible_le : s.visible ≤ s.fifo.base.published.length
  consumed_le : s.fifo.base.consumed ≤ s.visible
  reading : ∀ counted, s.fifo.base.reader = .busy false counted →
    s.fifo.base.consumed < s.visible
  writeVPtr : s.memory.writeVPtr =
    vptrAt cfg.pipeSize (posOf cfg (s.fifo.base.published.take s.visible))
  publications : s.buffer.filterMap publicationOf =
    (s.fifo.base.published.drop s.visible).map fun record => record.slot.nextWriteVPtr
  sequence : s.buffer.Pairwise InSequence
  waiting : ∀ entry ∈ s.buffer, Waiting s.fifo.base s.visible s.fences entry

section Preservation

variable {cfg : Config} {rule : ReadRule} {ordering : StoreBuffer.Ordering} {s s' : OrderState}

/-- The invariant of the pipe holds in program order. -/
theorem OrderFacts.inv (mirrors : rule.Mirrors cfg.pipeSize) (bounds : WordBounds cfg.pipeSize)
    (facts : OrderFacts cfg rule s) : Inv cfg s.fifo.base := by
  have base := (reachable_fifoFacts mirrors bounds facts.reached).base
  exact reachable_inv bounds (base.mono (runningPushes_disciplined cfg))

/-- What memory shows of an unread record is what the writer has written. -/
theorem OrderFacts.agrees (facts : OrderFacts cfg rule s) {index : Nat}
    (inside : index < s.fifo.base.published.length) (unread : s.fifo.base.consumed ≤ index)
    (shown : index < s.visible) {address : Nat}
    (member : address ∈ s.fifo.base.published[index].slot.bytes
      s.fifo.base.published[index].length) :
    s.memory.buf address = s.fifo.base.pipe.buf address := by
  have untouched : ∀ entry ∈ s.buffer, ∀ written : Written,
      (pipeStores.apply entry.store written).buf address = written.buf address := by
    intro entry waits written
    have waiting := facts.waiting entry waits
    have later := Nat.lt_of_lt_of_le shown waiting.visible_le
    change (entry.store.write.apply written).buf address = _
    cases write : entry.store.write with
    | byte target value =>
      have apart := waiting.apart index inside unread later target value write
      apply Memory.store_outside
      rw [List.length_singleton]
      have different : target ≠ address := fun same => apart (same ▸ member)
      omega
    | _ => rfl
  have observed := observe_view (fun written : Written => written.buf address) untouched s.memory
  rw [facts.view] at observed
  exact observed.symm

/-- The facts survive a step that leaves the writer's fields, the records and the memory alone and
does not lead the reader past what memory shows. -/
theorem OrderFacts.frame (facts : OrderFacts cfg rule s) {fifo : FifoState}
    (reached : (fifoSystem cfg rule).Reachable (FifoPushes cfg) fifo)
    (written : Written.of fifo.base.pipe = .of s.fifo.base.pipe)
    (published : fifo.base.published = s.fifo.base.published)
    (advanced : s.fifo.base.consumed ≤ fifo.base.consumed)
    (consumed_le : fifo.base.consumed ≤ s.visible)
    (reading : ∀ counted, fifo.base.reader = .busy false counted →
      fifo.base.consumed < s.visible) :
    OrderFacts cfg rule { s with fifo := fifo } where
  reached := reached
  view := facts.view.trans written.symm
  visible_le := by
    rw [published]
    exact facts.visible_le
  consumed_le := consumed_le
  reading := reading
  writeVPtr := by
    rw [published]
    exact facts.writeVPtr
  publications := by
    rw [published]
    exact facts.publications
  sequence := facts.sequence
  waiting entry waits := by
    have waiting := facts.waiting entry waits
    refine ⟨waiting.visible_le, ?_, ?_, waiting.fences_le, ?_⟩
    · rw [published]
      exact waiting.record_le
    · rw [published]
      exact waiting.published
    · simp only [published]
      intro index inside unread
      exact waiting.apart index inside (Nat.le_trans advanced unread)

/-- What the writer sees once the stores of a micro-step have joined the buffer. -/
theorem view_issued (written : Written) (writes : List Write) (record fences : Nat) :
    view pipeStores written (writes.map fun write => ⟨⟨write, record⟩, fences⟩) =
      writes.foldl Write.apply written :=
  List.foldl_map

/-- The stores of one micro-step are in sequence: a publication is the only store of its
micro-step. -/
theorem issued_sequence (pipe : LocklessPipe) (writer : Writer) (record fences : Nat) :
    ((writer.writes cfg pipe).map fun write =>
      (⟨⟨write, record⟩, fences⟩ : Entry Issue)).Pairwise InSequence := by
  rw [List.pairwise_map]
  by_cases publishes : ∃ write ∈ writer.writes cfg pipe, write.publication?.isSome
  · have ⟨write, member, publication⟩ := publishes
    rw [(writes_publication member publication).1]
    exact List.pairwise_singleton _ _
  · apply List.pairwise_of_forall_mem_list
    intro earlier former later latter
    exact ⟨Nat.le_refl _, fun publication => absurd ⟨earlier, former, publication⟩ publishes,
      fun publication => absurd ⟨later, latter, publication⟩ publishes⟩

/-- A micro-step of the writer keeps the facts. -/
theorem issue_facts (mirrors : rule.Mirrors cfg.pipeSize) (bounds : WordBounds cfg.pipeSize)
    (facts : OrderFacts cfg rule s) {after : State}
    (taken : writerStep cfg s.fifo.base = some after) :
    OrderFacts cfg rule (s.issue cfg after) := by
  have inv := facts.inv mirrors bounds
  have same := writerStep_elsewhere taken
  obtain ⟨records, published, publications⟩ := writerStep_published inv taken
  have visible_le := facts.visible_le
  have longer : s.fifo.base.published.length ≤ after.published.length := by
    rw [published, List.length_append]
    exact Nat.le_add_right _ _
  have stepped : fifoStep cfg rule s.fifo (.pipe .writer) = some { s.fifo with base := after } := by
    simp [fifoStep, step, taken]
  -- a publication comes with its record
  have grown : ∀ write ∈ s.fifo.base.writer.writes cfg s.fifo.base.pipe,
      write.publication?.isSome → s.fifo.base.published.length < after.published.length := by
    intro write member publishes
    obtain ⟨value, publication⟩ := Option.isSome_iff_exists.mp publishes
    obtain ⟨alone, _⟩ := writes_publication member publishes
    have counted := congrArg List.length publications
    rw [alone, List.filterMap_cons_some publication, List.length_map] at counted
    rw [published, List.length_append, ← counted]
    exact Nat.lt_add_of_pos_right (Nat.succ_pos _)
  refine ⟨facts.reached.next (show FifoPushes cfg s.fifo (.pipe .writer) from trivial) stepped, ?_,
    Nat.le_trans visible_le longer, ?_, ?_, ?_, ?_, ?_, ?_⟩
  · change view pipeStores s.memory (s.buffer ++ _) = _
    rw [view_append, facts.view, view_issued, writerStep_written taken]
    rfl
  · change after.consumed ≤ s.visible
    rw [same.consumed]
    exact facts.consumed_le
  · intro counted busy
    change after.reader = _ at busy
    rw [same.reader] at busy
    change after.consumed < s.visible
    rw [same.consumed]
    exact facts.reading counted busy
  · change s.memory.writeVPtr = vptrAt cfg.pipeSize (posOf cfg (after.published.take s.visible))
    rw [published, List.take_append_of_le_length visible_le]
    exact facts.writeVPtr
  · change (s.buffer ++ _).filterMap _ = (after.published.drop s.visible).map _
    rw [published, List.drop_append_of_le_length visible_le, List.map_append, ← publications,
      List.filterMap_append, facts.publications, List.filterMap_map]
    rfl
  · apply List.pairwise_append.mpr
    refine ⟨facts.sequence, issued_sequence _ _ _ _, ?_⟩
    intro earlier former later latter
    have waiting := facts.waiting earlier former
    obtain ⟨write, member, entry⟩ := List.mem_map.mp latter
    subst entry
    refine ⟨waiting.record_le, waiting.published, ?_⟩
    intro publishes
    obtain ⟨_, fenced, _⟩ := writes_publication member publishes
    have before := waiting.fences_le
    change earlier.fences < s.fences + s.fifo.base.writer.syncs
    omega
  · intro entry waits
    rcases List.mem_append.mp waits with former | latter
    · have waiting := facts.waiting entry former
      refine ⟨waiting.visible_le, Nat.le_trans waiting.record_le longer,
        fun publishes => Nat.lt_of_lt_of_le (waiting.published publishes) longer,
        Nat.le_add_right_of_le waiting.fences_le, ?_⟩
      intro index inside unread earlier address value write
      change after.consumed ≤ index at unread
      rw [same.consumed] at unread
      have old := Nat.lt_of_lt_of_le earlier waiting.record_le
      change address ∉ after.published[index].slot.bytes after.published[index].length
      simp only [published, List.getElem_append_left old]
      exact waiting.apart index old unread earlier address value write
    · obtain ⟨write, member, same'⟩ := List.mem_map.mp latter
      subst same'
      refine ⟨visible_le, longer, fun publishes => grown write member publishes, Nat.le_refl _, ?_⟩
      intro index inside unread earlier address value stored
      change write = .byte address value at stored
      subst stored
      change after.consumed ≤ index at unread
      rw [same.consumed] at unread
      change address ∉ after.published[index].slot.bytes after.published[index].length
      simp only [published, List.getElem_append_left earlier]
      exact writes_apart bounds inv member earlier unread

/-- A store that is no publication leaves `writeVPtr_` alone. -/
theorem Write.apply_writeVPtr {write : Write} (silent : write.publication? = none)
    (written : Written) : (write.apply written).writeVPtr = written.writeVPtr := by
  cases write with
  | writeVPtr value => contradiction
  | _ => rfl

/-- A store that reaches memory and publishes nothing keeps the facts. -/
theorem drain_silent (facts : OrderFacts cfg rule s) {entry : Entry Issue} {memory : Written}
    {buffer : List (Entry Issue)} {index : Nat}
    (drained : drain pipeStores ordering s.memory s.buffer index = some (entry, memory, buffer))
    (silent : publicationOf entry = none) :
    OrderFacts cfg rule { s with memory := memory, buffer := buffer } := by
  have ⟨before, after, split, rest, applied, _⟩ := drain_split drained
  have fewer : buffer.Sublist s.buffer := by
    rw [split, rest]
    exact (List.sublist_cons_self entry after).append_left before
  have publications := facts.publications
  rw [split, List.filterMap_append, List.filterMap_cons_none silent, ← List.filterMap_append,
    ← rest] at publications
  refine ⟨facts.reached, (view_drain drained).trans facts.view, facts.visible_le,
    facts.consumed_le, facts.reading, ?_, publications, facts.sequence.sublist fewer,
    fun other waits => facts.waiting other (fewer.subset waits)⟩
  change memory.writeVPtr = _
  rw [applied]
  exact (Write.apply_writeVPtr silent s.memory).trans facts.writeVPtr

/-- A publication reaches memory behind everything that was stored before it, and shows the next
record. -/
theorem drain_publication (kept : ordering.inOrder = true ∨ ordering.fences = true)
    (mirrors : rule.Mirrors cfg.pipeSize) (bounds : WordBounds cfg.pipeSize)
    (facts : OrderFacts cfg rule s) {entry : Entry Issue} {memory : Written}
    {buffer : List (Entry Issue)} {index : Nat} {value : UInt64}
    (drained : drain pipeStores ordering s.memory s.buffer index = some (entry, memory, buffer))
    (publishes : publicationOf entry = some value) :
    OrderFacts cfg rule { s with memory := memory, buffer := buffer, visible := s.visible + 1 } := by
  have inv := facts.inv mirrors bounds
  have ⟨before, after, split, rest, applied, passes⟩ := drain_split drained
  have publication : (publicationOf entry).isSome := publishes ▸ rfl
  have sequence := facts.sequence
  rw [split] at sequence
  have ⟨_, behind, across⟩ := List.pairwise_append.mp sequence
  have first : before = [] := passes.first kept fun other member =>
    (across other member entry List.mem_cons_self).2.2 publication
  subst first
  rw [List.nil_append] at split rest
  subst rest
  have publications := facts.publications
  rw [split, List.filterMap_cons_some publishes] at publications
  -- the next record to become visible is the one of this store
  have inside : s.visible < s.fifo.base.published.length := by
    by_contra all
    rw [List.drop_of_length_le (by omega)] at publications
    contradiction
  rw [List.drop_eq_getElem_cons inside, List.map_cons] at publications
  have ⟨next, others⟩ := List.cons.inj publications
  have placed := (inv.layout.located s.visible inside).placed bounds
  refine ⟨facts.reached, (view_drain drained).trans facts.view, inside,
    Nat.le_succ_of_le facts.consumed_le,
    fun counted busy => Nat.lt_succ_of_lt (facts.reading counted busy), ?_, others,
    (List.pairwise_cons.mp behind).2, ?_⟩
  · change memory.writeVPtr = _
    have stored : entry.store.write = .writeVPtr value := by
      unfold publicationOf at publishes
      cases write : entry.store.write with
      | writeVPtr other =>
        rw [write] at publishes
        exact congrArg Write.writeVPtr (Option.some.inj publishes)
      | _ =>
        rw [write] at publishes
        contradiction
    have now : memory.writeVPtr = value := by
      rw [applied]
      change (entry.store.write.apply s.memory).writeVPtr = value
      rw [stored]
      rfl
    rw [now, next, placed.nextWriteVPtr, posOf_take_succ cfg _ _ inside]
  · intro other waits
    have member : other ∈ s.buffer := by
      rw [split]
      exact List.mem_cons_of_mem _ waits
    have waiting := facts.waiting other member
    have here : entry ∈ s.buffer := by
      rw [split]
      exact List.mem_cons_self
    have later := ((List.pairwise_cons.mp behind).1 other waits).2.1 publication
    exact ⟨Nat.lt_of_le_of_lt (facts.waiting entry here).visible_le later, waiting.record_le,
      waiting.published, waiting.fences_le, waiting.apart⟩

/-- The bytes of a record that is shown and unread are in memory as in program order. -/
theorem OrderFacts.load_eq (facts : OrderFacts cfg rule s) {record : Record} {base count : Nat}
    (found : s.fifo.base.published[s.fifo.base.consumed]? = some record)
    (shown : s.fifo.base.consumed < s.visible)
    (inside : ∀ address, base ≤ address → address < base + count →
      address ∈ record.slot.bytes record.length) :
    Memory.load s.memory.buf base count = Memory.load s.fifo.base.pipe.buf base count := by
  have ⟨bound, same⟩ := List.getElem?_eq_some_iff.mp found
  subst same
  apply Memory.load_congr
  intro address least most
  exact facts.agrees bound (Nat.le_refl _) shown (inside address least most)

/-- The start of a read on what memory shows is one in program order. -/
theorem begin_orderFacts (mirrors : rule.Mirrors cfg.pipeSize) (bounds : WordBounds cfg.pipeSize)
    (facts : OrderFacts cfg rule s) (control : s.fifo.read = .idle)
    (filled : s.seen.base.pipe.isEmpty = false) :
    OrderFacts cfg rule { s with fifo := { s.fifo with
      base := { s.fifo.base with reader := .busy false false },
      read := .begun s.fifo.base.pipe.readVPtr } } := by
  have layout := (facts.inv mirrors bounds).layout
  have shown : s.fifo.base.consumed < s.visible := by
    apply Nat.lt_of_le_of_ne facts.consumed_le
    intro same
    have pointers : s.fifo.base.pipe.readVPtr = s.memory.writeVPtr := by
      rw [layout.readVPtr_eq, facts.writeVPtr, same]
    change (s.fifo.base.pipe.readVPtr == s.memory.writeVPtr) = false at filled
    rw [pointers, beq_self_eq_true] at filled
    contradiction
  have unread : s.fifo.base.pipe.isEmpty = false := by
    rw [LocklessPipe.isEmpty, beq_eq_false_iff_ne, Ne, layout.pointers_eq_iff]
    have bound := facts.visible_le
    omega
  have stepped : fifoStep cfg rule s.fifo .begin = some { s.fifo with
      base := { s.fifo.base with reader := .busy false false },
      read := .begun s.fifo.base.pipe.readVPtr } := by
    simp [fifoStep, control, unread]
  exact facts.frame (facts.reached.next (show FifoPushes cfg s.fifo .begin from trivial) stepped)
    rfl rfl (Nat.le_refl _) facts.consumed_le fun _ _ => shown

/-- The header that a read finds in memory is the one in program order. -/
theorem loadHeader_orderFacts (mirrors : rule.Mirrors cfg.pipeSize)
    (bounds : WordBounds cfg.pipeSize) (facts : OrderFacts cfg rule s) {vptr : UInt64}
    (control : s.fifo.read = .begun vptr) :
    OrderFacts cfg rule { s with fifo := { s.fifo with
      read := .copying vptr
        (cfg.order.decode (Memory.load s.memory.buf (rule.lengthPtr vptr).toNat 4)) [] } } := by
  have ⟨base, _, reading⟩ := reachable_fifoFacts mirrors bounds facts.reached
  rw [control] at reading
  have ⟨busy, index, loaded, record, found⟩ := reading
  have ⟨slot, _, _⟩ := rule_finds_record mirrors bounds base index found
  have shown := facts.reading false busy
  rw [← index] at found
  have bytes : Memory.load s.memory.buf (rule.lengthPtr vptr).toNat 4 =
      Memory.load s.fifo.base.pipe.buf (rule.lengthPtr vptr).toNat 4 := by
    apply facts.load_eq found shown
    intro address least most
    rw [← loaded] at least most
    rw [slot]
    exact Or.inl ⟨least, most⟩
  have stepped : fifoStep cfg rule s.fifo .loadHeader = some { s.fifo with
      read := .copying vptr
        (cfg.order.decode (Memory.load s.memory.buf (rule.lengthPtr vptr).toNat 4)) [] } := by
    simp [fifoStep, control, bytes]
  exact facts.frame
    (facts.reached.next (show FifoPushes cfg s.fifo .loadHeader from trivial) stepped)
    rfl rfl (Nat.le_refl _) facts.consumed_le facts.reading

/-- The payload bytes that a read finds in memory are those in program order. -/
theorem copyByte_orderFacts (mirrors : rule.Mirrors cfg.pipeSize)
    (bounds : WordBounds cfg.pipeSize) (facts : OrderFacts cfg rule s) {vptr : UInt64}
    {length : UInt32} {got : List UInt8} (control : s.fifo.read = .copying vptr length got)
    (more : got.length < length.toNat) :
    OrderFacts cfg rule { s with fifo := { s.fifo with
      read := .copying vptr length
        (got ++ [s.memory.buf ((rule.payloadPtr vptr length).toNat + got.length)]) } } := by
  have ⟨base, _, reading⟩ := reachable_fifoFacts mirrors bounds facts.reached
  rw [control] at reading
  have ⟨busy, index, loaded, record, found, announced, _⟩ := reading
  have ⟨slot, _, _⟩ := rule_finds_record mirrors bounds base index found
  have ⟨inside, same⟩ := List.getElem?_eq_some_iff.mp found
  rw [loaded, announced] at slot
  have byte : s.memory.buf ((rule.payloadPtr vptr length).toNat + got.length) =
      s.fifo.base.pipe.buf ((rule.payloadPtr vptr length).toNat + got.length) := by
    apply facts.agrees inside (Nat.le_of_eq index) (index ▸ facts.reading false busy)
    rw [same, slot, announced]
    exact Or.inr ⟨Nat.le_add_right _ _, Nat.add_lt_add_left more _⟩
  have stepped : fifoStep cfg rule s.fifo .copyByte = some { s.fifo with
      read := .copying vptr length
        (got ++ [s.memory.buf ((rule.payloadPtr vptr length).toNat + got.length)]) } := by
    simp [fifoStep, control, more, byte]
  exact facts.frame
    (facts.reached.next (show FifoPushes cfg s.fifo .copyByte from trivial) stepped)
    rfl rfl (Nat.le_refl _) facts.consumed_le facts.reading

/-- A step of the reader on what memory shows is one in program order, or changes nothing. -/
theorem reader_facts (mirrors : rule.Mirrors cfg.pipeSize) (bounds : WordBounds cfg.pipeSize)
    (facts : OrderFacts cfg rule s) {act : FifoAct} {after : FifoState}
    (reads : ∀ inner, act ≠ .pipe inner) (taken : fifoStep cfg rule s.seen act = some after) :
    OrderFacts cfg rule (s.readerMoved after) := by
  have admitted : FifoPushes cfg s.fifo act := by
    cases act with
    | pipe inner => exact absurd rfl (reads inner)
    | _ => trivial
  cases fifoStep_move taken with
  | pipe _ _ => exact absurd rfl (reads _)
  | wait _ _ => exact facts
  | begin control filled => exact begin_orderFacts mirrors bounds facts control filled
  | loadHeader control => exact loadHeader_orderFacts mirrors bounds facts control
  | copyByte control more => exact copyByte_orderFacts mirrors bounds facts control more
  | @copied vptr length got control done =>
    change s.fifo.read = _ at control
    have stepped : fifoStep cfg rule s.fifo .copyByte =
        some { s.fifo with read := .finishing vptr length got } := by
      simp [fifoStep, control, done]
    exact facts.frame (facts.reached.next admitted stepped) rfl rfl (Nat.le_refl _)
      facts.consumed_le facts.reading
  | @store vptr length payload counted control busy =>
    change s.fifo.read = _ at control
    change s.fifo.base.reader = _ at busy
    have stepped : fifoStep cfg rule s.fifo .store = some { s.fifo with base := { s.fifo.base with
        pipe := { s.fifo.base.pipe with readVPtr := rule.nextReadVPtr vptr length },
        reader := .settle true counted,
        consumed := s.fifo.base.consumed + 1 } } := by
      simp [fifoStep, control, busy]
    refine facts.frame (facts.reached.next admitted stepped) rfl rfl (Nat.le_succ _)
      (facts.reading counted busy) ?_
    intro flag passed
    cases counted <;> simp [Reader.settle] at passed
  | @count vptr length payload stored control busy =>
    change s.fifo.read = _ at control
    change s.fifo.base.reader = _ at busy
    have stepped : fifoStep cfg rule s.fifo .count = some { s.fifo with base := { s.fifo.base with
        pipe := { s.fifo.base.pipe with numRead := s.fifo.base.pipe.numRead + 1 },
        reader := .settle stored true } } := by
      simp [fifoStep, control, busy]
    refine facts.frame (facts.reached.next admitted stepped) rfl rfl (Nat.le_refl _)
      facts.consumed_le ?_
    intro flag pending
    cases stored with
    | false => exact facts.reading false busy
    | true => simp [Reader.settle] at pending
  | @finish vptr length payload control resting =>
    change s.fifo.read = _ at control
    change s.fifo.base.reader = _ at resting
    have stepped : fifoStep cfg rule s.fifo .finish =
        some { s.fifo with read := .idle, returned := s.fifo.returned ++ [payload] } := by
      simp [fifoStep, control, resting]
    exact facts.frame (facts.reached.next admitted stepped) rfl rfl (Nat.le_refl _)
      facts.consumed_le facts.reading

/-- A call, and every other step of a thread beside the writer and the reader, keeps the facts. -/
theorem pipe_orderFacts (facts : OrderFacts cfg rule s) {act : Act} {after : FifoState}
    (other : act ≠ .writer) (admitted : RunningPushes cfg s.fifo.base act)
    (taken : fifoStep cfg rule s.fifo (.pipe act) = some after) :
    OrderFacts cfg rule { s with fifo := after } := by
  have reached := facts.reached.next (show FifoPushes cfg s.fifo (.pipe act) from admitted) taken
  obtain ⟨beside, base, stepped, rfl⟩ := fifoStep_pipe taken
  obtain ⟨reader, consumed, _, _, _, _⟩ := step_beside_reader beside stepped
  have written : Written.of base.pipe = .of s.fifo.base.pipe ∧
      base.published = s.fifo.base.published := by
    rcases step_same_write other stepped with ⟨_, _, _, rfl⟩ | same
    · exact ⟨rfl, rfl⟩
    · simp only [Written.of, same.buf, same.numWritten, same.nextWriteVPtr, same.writeVPtr,
        same.published, and_self]
  refine facts.frame reached written.1 written.2 (Nat.le_of_eq consumed.symm) ?_ ?_
  · rw [consumed]
    exact facts.consumed_le
  · intro counted busy
    rw [consumed]
    exact facts.reading counted (reader.symm.trans busy)

/-- Every admitted step keeps the facts. -/
theorem orderStep_facts (kept : ordering.inOrder = true ∨ ordering.fences = true)
    (mirrors : rule.Mirrors cfg.pipeSize) (bounds : WordBounds cfg.pipeSize)
    (facts : OrderFacts cfg rule s) {act : OrderAct} (admitted : OrderPushes cfg s act)
    (taken : orderStep cfg rule ordering s act = some s') : OrderFacts cfg rule s' := by
  cases act with
  | drain index =>
    obtain ⟨⟨entry, memory, buffer⟩, drained, rfl⟩ := Option.map_eq_some_iff.mp taken
    change OrderFacts cfg rule { s with
      memory := memory, buffer := buffer,
      visible := s.visible + (publicationOf entry).toList.length }
    cases publishes : publicationOf entry with
    | none => exact drain_silent facts drained publishes
    | some value => exact drain_publication kept mirrors bounds facts drained publishes
  | fifo act =>
    cases act with
    | pipe act =>
      cases act with
      | writer =>
        obtain ⟨after, stepped, rfl⟩ := Option.map_eq_some_iff.mp taken
        exact issue_facts mirrors bounds facts stepped
      | validate => contradiction
      | call call =>
        obtain ⟨after, stepped, rfl⟩ := Option.map_eq_some_iff.mp taken
        have pushes : RunningPushes cfg s.fifo.base (.call call) := admitted
        exact pipe_orderFacts facts (by simp) pushes stepped
      | reader inner => contradiction
      | stopWriter | startWriter => exact admitted.elim
    | begin | loadHeader | copyByte | store | count | finish =>
      obtain ⟨after, stepped, rfl⟩ := Option.map_eq_some_iff.mp taken
      exact reader_facts mirrors bounds facts (by simp) stepped

/-- The facts hold in every run of pushes and reads, whatever order the stores reach memory in. -/
theorem reachable_orderFacts (kept : ordering.inOrder = true ∨ ordering.fences = true)
    (mirrors : rule.Mirrors cfg.pipeSize) (bounds : WordBounds cfg.pipeSize)
    (reached : (orderSystem cfg rule ordering).Reachable (OrderPushes cfg) s) :
    OrderFacts cfg rule s := by
  apply reached.invariant
  · rintro first ⟨storage, rfl⟩
    have origin : 0 = vptrAt cfg.pipeSize (posOf cfg []) := (vptrAt_zero cfg.pipeSize).symm
    exact ⟨.start ⟨storage, rfl⟩, rfl, Nat.le_refl _, Nat.le_refl _,
      fun _ busy => Reader.noConfusion busy, origin, rfl, .nil,
      fun _ member => absurd member List.not_mem_nil⟩
  · intro before act after _ facts admitted taken
    exact orderStep_facts kept mirrors bounds facts admitted taken

end Preservation

/-- The payloads returned are at every moment a prefix of the values pushed, and all of them once
nobody is writing or reading, no store waits and memory shows an empty pipe. -/
def FifoOrder (ordering : StoreBuffer.Ordering) : Prop :=
  ∀ (cfg : Config) (rule : ReadRule) (s : OrderState), SizeBounds cfg.pipeSize →
    rule.Mirrors cfg.pipeSize → (orderSystem cfg rule ordering).Reachable (OrderPushes cfg) s →
    s.fifo.returned <+: s.fifo.base.calls.map WriteCall.bytes ∧
      (s.fifo.base.writer = .idle → s.fifo.read = .idle → s.buffer = [] →
        s.seen.base.pipe.isEmpty = true → s.fifo.returned = s.fifo.base.calls.map WriteCall.bytes)

/-- The FIFO order is kept where the hardware keeps the order of all stores or of those around a
fence. -/
theorem fifoOrder_of_kept {ordering : StoreBuffer.Ordering}
    (kept : ordering.inOrder = true ∨ ordering.fences = true) : FifoOrder ordering := by
  intro cfg rule s bounds mirrors reached
  have facts := reachable_orderFacts kept mirrors bounds.words reached
  refine ⟨returned_pushed mirrors bounds.words facts.reached, ?_⟩
  intro writing resting drained empty
  have ⟨base, returned, reading⟩ := reachable_fifoFacts mirrors bounds.words facts.reached
  have values := (reachable_pushFacts base).values
  have layout := (facts.inv mirrors bounds.words).layout
  -- with no store under way, memory is what the writer has written
  have memory : s.memory = .of s.fifo.base.pipe := by
    have view := facts.view
    rw [drained] at view
    exact view
  have pointers : s.fifo.base.pipe.readVPtr = s.fifo.base.pipe.writeVPtr := by
    change (s.fifo.base.pipe.readVPtr == s.memory.writeVPtr) = true at empty
    rw [memory] at empty
    exact beq_iff_eq.mp empty
  have all := layout.pointers_eq_iff.mp pointers
  rw [resting] at reading
  rw [values, writing, returned, ← reading.2, all, List.take_length]
  exact (List.append_nil _).symm

/-- The decision of `OrderPushes` for runs that push one value. -/
def OrderAct.pushes (value : List UInt8) : OrderAct → Bool
  | .fifo act => act.pushes value
  | .drain _ => true

/-- The condition on the pushes does not depend on the state. -/
theorem orderPushes_of_all {cfg : Config} {value : List UInt8}
    (short : value.length ≤ (maxPipeElementSize cfg.pipeSize).toNat) (acts : List OrderAct)
    (all : acts.all (OrderAct.pushes value) = true) (s : OrderState) :
    ∀ act ∈ acts, OrderPushes cfg s act := by
  intro act member
  have holds := List.all_eq_true.mp all act member
  cases act with
  | drain index => trivial
  | fifo act =>
    have alone : [act].all (FifoAct.pushes value) = true := by
      rw [List.all_cons, List.all_nil, Bool.and_true]
      exact holds
    exact fifoPushes_of_all short [act] alone s.fifo act List.mem_cons_self

/-- A push of one byte whose publication reaches memory before its header and its payload, and the
read that finds it. -/
def reorderedRun : List OrderAct :=
  pushByte.map (fun act => .fifo (.pipe act)) ++
    [.drain 7, .fifo .begin, .fifo .loadHeader, .fifo .copyByte, .fifo .count, .fifo .store,
      .fifo .finish]

/-- Where the hardware keeps neither, a read returns a value that was not pushed. -/
theorem not_fifoOrder_unordered : ¬ FifoOrder ⟨false, false⟩ := by
  intro ordered
  have replay : ((orderSystem smallConfig (mirrorRule 12) ⟨false, false⟩).run
      ⟨⟨.start blankStorage, .idle, []⟩, .of (.construct blankStorage), [], 0, 0⟩
      reorderedRun).map (fun s => (s.fifo.returned, s.fifo.base.calls)) =
      some ([[]], [.push [7]]) := by
    decide +kernel
  obtain ⟨s, replayed, shown⟩ := Option.map_eq_some_iff.mp replay
  obtain ⟨returned, calls⟩ := Prod.mk.inj shown
  have reached : (orderSystem smallConfig (mirrorRule 12) ⟨false, false⟩).Reachable
      (OrderPushes smallConfig) s :=
    .of_run ⟨blankStorage, rfl⟩ reorderedRun
      (@orderPushes_of_all smallConfig [7] (by decide) reorderedRun (by decide)) replayed
  have prefixed := (ordered smallConfig (mirrorRule 12) s ⟨by decide, by decide⟩
    (mirrorRule_mirrors ⟨by decide, by decide⟩) reached).1
  rw [returned, calls] at prefixed
  exact absurd prefixed (by decide)

/-- The reader gets the values pushed, in their order and undamaged, exactly on hardware that keeps
the order of all stores or of those around `MF_write_sync`; every platform of `membar.h` does one
of the two. -/
theorem fifo_order_iff_stores_kept :
    (∀ ordering : StoreBuffer.Ordering,
      FifoOrder ordering ↔ ordering.inOrder = true ∨ ordering.fences = true) ∧
    ∀ platform : Platform, FifoOrder platform.ordering := by
  constructor
  · intro ordering
    refine ⟨?_, fifoOrder_of_kept⟩
    intro ordered
    by_contra unordered
    rw [not_or, Bool.not_eq_true, Bool.not_eq_true] at unordered
    have neither : ordering = ⟨false, false⟩ := by
      cases ordering
      simpa using unordered
    exact not_fifoOrder_unordered (neither ▸ ordered)
  · intro platform
    apply fifoOrder_of_kept
    cases platform <;> decide

end PerfVerif.Pipe
