import PerfVerif.Pipe.Publication
import Mathlib.Data.List.Basic

/-!
# Peeking from a separate thread

`startWrite` calls `MF_write_sync` a second time, between the store of `nextWriteVPtr_` and the
first byte of the record, for the sake of a thread that looks at records without consuming them.
Such a thread copies a record, which may be read and overwritten meanwhile, and looks at
`nextWriteVPtr_` afterwards: unless that has passed the header of the record one lap later, no byte
of the copy was overwritten. The records for which `nextWriteVPtr_` is stored are announced; memory
shows a byte of a record only behind its announcement.
-/

namespace PerfVerif.Pipe

open RecordRing StoreBuffer Transition

/-- The record that the writer has reserved and not yet published. -/
def State.reserved (s : State) : Option Record :=
  match s.writer with
  | .header call slot | .copying call slot _ | .counting call slot | .publishing call slot =>
    some ⟨s.pipe.writeVPtr, call.length, slot, call.bytes⟩
  | _ => none

/-- The records for which `nextWriteVPtr_` is stored, oldest first. -/
def State.announced (s : State) : List Record := s.published ++ s.reserved.toList

/-- The announcement that a store is, if it is one. -/
def Write.announcement? : Write → Option UInt64
  | .nextWriteVPtr value => some value
  | _ => none

/-- The announcement that a waiting store is, with the index of its record. -/
def announcementOf (entry : Entry Issue) : Option (Nat × UInt64) :=
  entry.store.write.announcement?.map (Prod.mk entry.store.record)

/-- The announcements of the records of a list, with their indices. -/
def announcementsOf (records : List Record) : List (Nat × UInt64) :=
  records.zipIdx.map fun (record, index) => (index, record.slot.nextWriteVPtr)

/-- What a peeking thread can tell from `nextWriteVPtr_`: it has not passed the header of the
record one lap later. -/
def Record.spared (pipeSize : UInt32) (record : Record) (nextWriteVPtr : UInt64) : Bool :=
  let version := getVersion record.start
  let version :=
    if isWrap pipeSize lengthBytes (getPointer record.start) then version + 1 else version
  getVersion nextWriteVPtr == version ||
    (getVersion nextWriteVPtr == version + 1 &&
      decide (getPointer nextWriteVPtr ≤ record.slot.lengthPtr))

section Announcements

variable {cfg : Config} {s s' : State}

/-- The record reserved is that of the call with a reservation, at its slot. -/
theorem reserved_eq (s : State) : s.reserved = s.writer.slot?.map fun (call, slot) =>
    ⟨s.pipe.writeVPtr, call.length, slot, call.bytes⟩ := by
  unfold State.reserved
  cases s.writer <;> rfl

/-- A silent micro-step leaves the announced records alone. -/
theorem Silent.announced (silent : Silent s s') : s'.announced = s.announced := by
  rw [State.announced, State.announced, reserved_eq, reserved_eq, silent.slot?, silent.pipe,
    silent.published]

/-- A micro-step of the writer announces the record that it reserves, and nothing else. -/
theorem writerStep_announced (taken : writerStep cfg s = some s') :
    (s'.announced = s.announced ∧
      ∀ write ∈ s.writer.writes cfg s.pipe, write.announcement? = none) ∨
    ∃ record, s.announced = s.published ∧ s'.announced = s.published ++ [record] ∧
      s.writer.writes cfg s.pipe = [.nextWriteVPtr record.slot.nextWriteVPtr] ∧
      ∃ call slot, s'.writer = .header call slot := by
  rcases writerStep_stores taken with stored | silent
  · cases stored with
    | reserve control =>
      right
      refine ⟨_, ?_, rfl, ?_, _, _, rfl⟩
      · simp [State.announced, State.reserved, control]
      · rw [control]
        rfl
    | header control =>
      left
      refine ⟨by simp [State.announced, State.reserved, control], ?_⟩
      intro write member
      rw [control] at member
      obtain ⟨address, value, rfl, -, -⟩ := mem_blockWrites member
      rfl
    | copy control inside =>
      left
      refine ⟨by simp [State.announced, State.reserved, control], ?_⟩
      intro write member
      rw [control] at member
      simp only [Writer.writes, Option.mem_toList, Option.map_eq_some_iff] at member
      obtain ⟨byte, -, rfl⟩ := member
      rfl
    | count control | publish control =>
      left
      refine ⟨by simp [State.announced, State.reserved, control], ?_⟩
      intro write member
      rw [control] at member
      obtain rfl := List.mem_singleton.mp member
      rfl
  · left
    rw [writes_eq_nil silent.stores]
    exact ⟨silent.announced, by simp⟩

/-- Every announced record is placed at its ring position. -/
theorem announced_located (bounds : WordBounds cfg.pipeSize) (inv : Inv cfg s) :
    ∀ index (inside : index < s.announced.length),
      s.announced[index].At cfg (posOf cfg (s.announced.take index)) := by
  have ⟨layout, _, facts⟩ := inv
  unfold State.announced State.reserved
  cases control : s.writer with
  | header call slot =>
    rw [control] at facts
    exact (layout.publish bounds (Granted.located inv facts) facts.room).located
  | copying call slot _ | counting call slot | publishing call slot =>
    rw [control] at facts
    exact (layout.publish bounds (Granted.located inv facts.1) facts.1.room).located
  | _ =>
    simp only [Option.toList_none, List.append_nil]
    exact layout.located

/-- The bytes that a micro-step stores are of the reserved record. -/
theorem writes_reserved (inv : Inv cfg s) {address : Nat} {value : UInt8}
    (member : .byte address value ∈ s.writer.writes cfg s.pipe) :
    ∃ record, s.reserved = some record ∧ address ∈ record.slot.bytes record.length := by
  have facts := inv.writer
  cases control : s.writer with
  | header call slot =>
    rw [control] at member
    refine ⟨_, by rw [State.reserved, control], ?_⟩
    obtain ⟨target, byte, same, least, most⟩ := mem_blockWrites member
    obtain ⟨rfl, rfl⟩ := Write.byte.inj same
    rw [Words.ByteOrder.length_encode] at most
    exact Or.inl ⟨least, most⟩
  | copying call slot copied =>
    rw [control] at facts member
    refine ⟨_, by rw [State.reserved, control], ?_⟩
    have length : call.bytes.length = call.length.toNat := facts.1.admissible.copies
    simp only [Writer.writes, Option.mem_toList, Option.map_eq_some_iff] at member
    obtain ⟨byte, found, same⟩ := member
    obtain ⟨rfl, rfl⟩ := Write.byte.inj same
    have more := (List.getElem?_eq_some_iff.mp found).1
    exact Or.inr ⟨Nat.le_add_right _ _, Nat.add_lt_add_left (length ▸ more) _⟩
  | reserving call full | counting call slot | publishing call slot =>
    rw [control] at member
    exact absurd (List.mem_singleton.mp member) (by simp)
  | idle | entered call | loadRead call | loadWrite call localReadPtr | loopFlag call
  | gate call full =>
    rw [control] at member
    exact absurd member List.not_mem_nil

/-- A micro-step that stores something leaves its record announced. -/
theorem writes_announced (taken : writerStep cfg s = some s')
    {write : Write} (member : write ∈ s.writer.writes cfg s.pipe) :
    s.published.length < s'.announced.length := by
  rcases writerStep_stores taken with stored | silent
  · cases stored <;> simp [State.announced, State.reserved]
  · rw [writes_eq_nil silent.stores] at member
    exact absurd member List.not_mem_nil

/-- Where the writer stores bytes, it has a fence behind the announcement: right now, or since the
header. -/
theorem writes_byte_control {pipe : LocklessPipe} {writer : Writer} {address : Nat}
    {value : UInt8} (member : .byte address value ∈ writer.writes cfg pipe) :
    writer.syncs = 1 ∨ ∃ call slot copied, writer = .copying call slot copied := by
  cases writer with
  | header call slot => exact Or.inl rfl
  | copying call slot copied => exact Or.inr ⟨call, slot, copied, rfl⟩
  | reserving call full | counting call slot | publishing call slot =>
    exact absurd (List.mem_singleton.mp member) (by simp)
  | idle | entered call | loadRead call | loadWrite call localReadPtr | loopFlag call
  | gate call full => exact absurd member List.not_mem_nil

/-- One more announced record has one more announcement. -/
theorem announcementsOf_concat (records : List Record) (record : Record) :
    announcementsOf (records ++ [record]) =
      announcementsOf records ++ [(records.length, record.slot.nextWriteVPtr)] := by
  simp [announcementsOf, List.zipIdx_append]

/-- Every record has its announcement. -/
theorem length_announcementsOf (records : List Record) :
    (announcementsOf records).length = records.length := by
  simp [announcementsOf]

/-- Behind the announcements shown comes that of the next record, unless all are shown. -/
theorem drop_announcementsOf {records : List Record} {shown : Nat}
    (inside : shown < records.length) :
    (announcementsOf records).drop shown = (shown, records[shown].slot.nextWriteVPtr) ::
      (announcementsOf records).drop (shown + 1) := by
  have bound : shown < (announcementsOf records).length := by
    rwa [length_announcementsOf]
  rw [List.drop_eq_getElem_cons bound]
  simp [announcementsOf]

end Announcements

/-- Two waiting stores in program order: an announcement is the first store of its record, and
there is a fence between it and the next byte. -/
def AnnouncedFirst (earlier later : Entry Issue) : Prop :=
  ((announcementOf later).isSome → earlier.store.record < later.store.record) ∧
    ((announcementOf earlier).isSome → ∀ address value,
      later.store.write = .byte address value → earlier.fences < later.fences)

/-- Memory shows the announcements up to some record, at least up to the last one published there;
the bytes under way are of announced records; and a record that memory shows as published is intact
unless an announcement there is past its header one lap later. -/
structure PeekFacts (cfg : Config) (s : OrderState) (shown : Nat) : Prop where
  visible_le : s.visible ≤ shown
  nextWriteVPtr : s.memory.nextWriteVPtr =
    vptrAt cfg.pipeSize (posOf cfg (s.fifo.base.announced.take shown))
  announcements : s.buffer.filterMap announcementOf =
    (announcementsOf s.fifo.base.announced).drop shown
  sequence : s.buffer.Pairwise AnnouncedFirst
  record_lt : ∀ entry ∈ s.buffer, entry.store.record < s.fifo.base.announced.length
  bytes : ∀ entry ∈ s.buffer, ∀ address value, entry.store.write = .byte address value →
    ∃ record, s.fifo.base.announced[entry.store.record]? = some record ∧
      address ∈ record.slot.bytes record.length
  fenced : ∀ call slot copied, s.fifo.base.writer = .copying call slot copied →
    ∀ entry ∈ s.buffer, (announcementOf entry).isSome → entry.fences < s.fences
  shown_le : shown ≤ s.fifo.base.announced.length
  intact : ∀ index (inside : index < s.fifo.base.published.length), index < s.visible →
    posOf cfg (s.fifo.base.announced.take shown) ≤
      headerAt cfg.pipeSize.toNat 4 (posOf cfg (s.fifo.base.published.take index)) +
        (cfg.pipeSize.toNat + 1) →
    s.fifo.base.published[index].Stored cfg s.memory.buf

section Preservation

variable {cfg : Config} {rule : ReadRule} {ordering : StoreBuffer.Ordering} {s s' : OrderState}
  {shown : Nat}

/-- The facts survive a step that leaves the announced records and the memory alone and does not
bring the writer into a copy. -/
theorem PeekFacts.frame (peek : PeekFacts cfg s shown) {fifo : FifoState}
    (published : fifo.base.published = s.fifo.base.published)
    (announced : fifo.base.announced = s.fifo.base.announced)
    (copying : ∀ call slot copied, fifo.base.writer = .copying call slot copied →
      s.fifo.base.writer = .copying call slot copied) :
    PeekFacts cfg { s with fifo := fifo } shown where
  visible_le := peek.visible_le
  nextWriteVPtr := by
    rw [announced]
    exact peek.nextWriteVPtr
  announcements := by
    rw [announced]
    exact peek.announcements
  sequence := peek.sequence
  record_lt := by
    rw [announced]
    exact peek.record_lt
  bytes := by
    rw [announced]
    exact peek.bytes
  fenced call slot copied control := peek.fenced call slot copied (copying call slot copied control)
  shown_le := by
    rw [announced]
    exact peek.shown_le
  intact := by
    simp only [announced, published]
    exact peek.intact

/-- The facts survive a store that reaches memory, given what it changes there. -/
theorem PeekFacts.drain (peek : PeekFacts cfg s shown) {memory : Written}
    {buffer : List (Entry Issue)} {visible shown' : Nat} (fewer : buffer.Sublist s.buffer)
    (visible_le : visible ≤ shown') (shown_le : shown' ≤ s.fifo.base.announced.length)
    (nextWriteVPtr : memory.nextWriteVPtr =
      vptrAt cfg.pipeSize (posOf cfg (s.fifo.base.announced.take shown')))
    (announcements : buffer.filterMap announcementOf =
      (announcementsOf s.fifo.base.announced).drop shown')
    (intact : ∀ index (inside : index < s.fifo.base.published.length), index < visible →
      posOf cfg (s.fifo.base.announced.take shown') ≤
        headerAt cfg.pipeSize.toNat 4 (posOf cfg (s.fifo.base.published.take index)) +
          (cfg.pipeSize.toNat + 1) →
      s.fifo.base.published[index].Stored cfg memory.buf) :
    PeekFacts cfg { s with memory := memory, buffer := buffer, visible := visible } shown' where
  visible_le := visible_le
  nextWriteVPtr := nextWriteVPtr
  announcements := announcements
  sequence := peek.sequence.sublist fewer
  record_lt entry waits := peek.record_lt entry (fewer.subset waits)
  bytes entry waits := peek.bytes entry (fewer.subset waits)
  fenced call slot copied control entry waits :=
    peek.fenced call slot copied control entry (fewer.subset waits)
  shown_le := shown_le
  intact := intact

/-- A micro-step of the writer keeps the facts. -/
theorem issue_peek (mirrors : rule.Mirrors cfg.pipeSize) (bounds : WordBounds cfg.pipeSize)
    (facts : OrderFacts cfg rule s) (peek : PeekFacts cfg s shown) {after : State}
    (taken : writerStep cfg s.fifo.base = some after) :
    PeekFacts cfg (s.issue cfg after) shown := by
  have inv := facts.inv mirrors bounds
  have announced := writerStep_announced taken
  obtain ⟨records, published, -⟩ := writerStep_published inv taken
  have visible_le := facts.visible_le
  have shown_le := peek.shown_le
  -- what was announced stays announced, in its place
  obtain ⟨more, grown⟩ : ∃ more, after.announced = s.fifo.base.announced ++ more := by
    rcases announced with ⟨same, -⟩ | ⟨record, same, more, -, -⟩
    · exact ⟨[], by rw [same, List.append_nil]⟩
    · exact ⟨[record], by rw [same, more]⟩
  have takes : after.announced.take shown = s.fifo.base.announced.take shown := by
    rw [grown, List.take_append_of_le_length shown_le]
  have longer : s.fifo.base.announced.length ≤ after.announced.length := by
    rw [grown, List.length_append]
    exact Nat.le_add_right _ _
  refine ⟨peek.visible_le, ?_, ?_, ?_, ?_, ?_, ?_, Nat.le_trans shown_le longer, ?_⟩
  · change s.memory.nextWriteVPtr = vptrAt cfg.pipeSize (posOf cfg (after.announced.take shown))
    rw [takes]
    exact peek.nextWriteVPtr
  · change (s.buffer ++ _).filterMap _ = (announcementsOf after.announced).drop shown
    rw [List.filterMap_append, peek.announcements]
    rcases announced with ⟨same, silent⟩ | ⟨record, same, now, alone, -⟩
    · rw [same, List.filterMap_eq_nil_iff.mpr, List.append_nil]
      intro entry member
      obtain ⟨write, issued, rfl⟩ := List.mem_map.mp member
      rw [announcementOf, silent write issued]
      rfl
    · rw [now, ← same, announcementsOf_concat, alone,
        List.drop_append_of_le_length (by rw [length_announcementsOf]; exact shown_le), same]
      rfl
  · apply List.pairwise_append.mpr
    refine ⟨peek.sequence, ?_, ?_⟩
    · rw [List.pairwise_map]
      rcases announced with ⟨-, silent⟩ | ⟨record, -, -, alone, -⟩
      · apply List.pairwise_of_forall_mem_list
        intro earlier former later latter
        simp [AnnouncedFirst, announcementOf, silent earlier former, silent later latter]
      · rw [alone]
        exact List.pairwise_singleton _ _
    · intro earlier former later latter
      obtain ⟨write, issued, rfl⟩ := List.mem_map.mp latter
      refine ⟨?_, ?_⟩
      · intro announces
        rcases announced with ⟨-, silent⟩ | ⟨record, same, -, -, -⟩
        · rw [announcementOf, silent write issued] at announces
          contradiction
        · have bound := peek.record_lt earlier former
          rwa [same] at bound
      · intro announces address value stored
        change write = .byte address value at stored
        subst stored
        change earlier.fences < s.fences + s.fifo.base.writer.syncs
        have before := (facts.waiting earlier former).fences_le
        rcases writes_byte_control issued with fence | ⟨call, slot, copied, control⟩
        · omega
        · have behind := peek.fenced call slot copied control earlier former announces
          omega
  · intro entry waits
    change entry.store.record < after.announced.length
    rcases List.mem_append.mp waits with former | latter
    · exact Nat.lt_of_lt_of_le (peek.record_lt entry former) longer
    · obtain ⟨write, issued, rfl⟩ := List.mem_map.mp latter
      exact writes_announced taken issued
  · intro entry waits address value stored
    change ∃ record, after.announced[entry.store.record]? = some record ∧ _
    rcases List.mem_append.mp waits with former | latter
    · rw [grown, List.getElem?_append_left (peek.record_lt entry former)]
      exact peek.bytes entry former address value stored
    · obtain ⟨write, issued, rfl⟩ := List.mem_map.mp latter
      change write = .byte address value at stored
      subst stored
      obtain ⟨record, reserved, inside⟩ := writes_reserved inv issued
      refine ⟨record, ?_, inside⟩
      have here : s.fifo.base.announced = s.fifo.base.published ++ [record] := by
        rw [State.announced, reserved]
        rfl
      rw [grown, here, List.append_assoc, List.getElem?_append_right (Nat.le_refl _)]
      simp
  · intro call slot copied control entry waits announces
    change after.writer = _ at control
    change entry.fences < s.fences + s.fifo.base.writer.syncs
    -- no announcement is among the stores that lead into a copy
    have former : entry ∈ s.buffer := by
      rcases List.mem_append.mp waits with former | latter
      · exact former
      · obtain ⟨write, issued, rfl⟩ := List.mem_map.mp latter
        rcases announced with ⟨-, silent⟩ | ⟨record, -, -, -, call, slot, header⟩
        · rw [announcementOf, silent write issued] at announces
          contradiction
        · rw [control] at header
          contradiction
    have before := (facts.waiting entry former).fences_le
    cases writerStep_move taken with
    | store stored =>
      cases stored with
      | header prior =>
        rw [prior, Writer.syncs]
        omega
      | copy prior _ => exact Nat.lt_add_right _ (peek.fenced _ _ _ prior entry former announces)
      | _ => contradiction
    | _ => contradiction
  · intro index inside visible spared
    change index < after.published.length at inside
    have old := Nat.lt_of_lt_of_le visible visible_le
    change posOf cfg (after.announced.take shown) ≤
      headerAt cfg.pipeSize.toNat 4 (posOf cfg (after.published.take index)) + _ at spared
    change after.published[index].Stored cfg s.memory.buf
    rw [takes, published, List.take_append_of_le_length (Nat.le_of_lt old)] at spared
    simp only [published, List.getElem_append_left old]
    exact peek.intact index old visible spared

/-- An announcement that memory does not show waits in the buffer. -/
theorem PeekFacts.announcement_waits (peek : PeekFacts cfg s shown) {index : Nat}
    (late : shown ≤ index) (inside : index < s.fifo.base.announced.length) :
    ∃ entry ∈ s.buffer, (announcementOf entry).isSome ∧ entry.store.record = index := by
  have member : (index, s.fifo.base.announced[index].slot.nextWriteVPtr) ∈
      s.buffer.filterMap announcementOf := by
    rw [peek.announcements]
    apply @List.mem_of_mem_drop _ _ (index - shown)
    rw [List.drop_drop, Nat.add_sub_cancel' late, drop_announcementsOf inside]
    exact List.mem_cons_self
  obtain ⟨entry, waits, announces⟩ := List.mem_filterMap.mp member
  refine ⟨entry, waits, by rw [announces]; rfl, ?_⟩
  obtain ⟨value, -, same⟩ := Option.map_eq_some_iff.mp announces
  exact congrArg Prod.fst same

variable {entry : Entry Issue} {before after : List (Entry Issue)}

/-- A byte reaches memory behind the announcement of its record. -/
theorem PeekFacts.byte_shown (kept : ordering.inOrder = true ∨ ordering.fences = true)
    (peek : PeekFacts cfg s shown) (split : s.buffer = before ++ entry :: after)
    (passes : MayPass pipeStores ordering before entry) {address : Nat} {value : UInt8}
    (stored : entry.store.write = .byte address value) : entry.store.record < shown := by
  by_contra late
  have here : entry ∈ s.buffer := by
    rw [split]
    exact List.mem_append_right _ List.mem_cons_self
  obtain ⟨other, waits, announces, record⟩ :=
    peek.announcement_waits (Nat.le_of_not_lt late) (peek.record_lt entry here)
  have sequence := peek.sequence
  rw [split] at sequence waits
  have ⟨_, behind, across⟩ := List.pairwise_append.mp sequence
  rcases List.mem_append.mp waits with prior | later
  · have fenced := (across other prior entry List.mem_cons_self).2 announces address value stored
    have unfenced := passes.unfenced kept prior
    omega
  · rcases List.mem_cons.mp later with same | later
    · rw [same, announcementOf, stored] at announces
      contradiction
    · have next := ((List.pairwise_cons.mp behind).1 other later).1 announces
      omega

/-- The publication of a record reaches memory behind its announcement. -/
theorem PeekFacts.publication_shown (kept : ordering.inOrder = true ∨ ordering.fences = true)
    (facts : OrderFacts cfg rule s) (peek : PeekFacts cfg s shown)
    (split : s.buffer = before ++ entry :: after)
    (passes : MayPass pipeStores ordering before entry) {value : UInt64}
    (stored : entry.store.write = .writeVPtr value)
    (more : s.visible < s.fifo.base.published.length) : s.visible < shown := by
  by_contra late
  have here : entry ∈ s.buffer := by
    rw [split]
    exact List.mem_append_right _ List.mem_cons_self
  have inside : s.visible < s.fifo.base.announced.length := by
    rw [State.announced, List.length_append]
    exact Nat.lt_add_right _ more
  obtain ⟨other, waits, announces, record⟩ :=
    peek.announcement_waits (Nat.le_of_not_lt late) inside
  have sequence := peek.sequence
  have ordered := facts.sequence
  rw [split] at sequence waits ordered
  have ⟨_, behind, _⟩ := List.pairwise_append.mp sequence
  have ⟨_, _, across⟩ := List.pairwise_append.mp ordered
  rcases List.mem_append.mp waits with prior | later
  · have publication : (publicationOf entry).isSome := by
      rw [publicationOf, stored]
      rfl
    have fenced := (across other prior entry List.mem_cons_self).2.2 publication
    have unfenced := passes.unfenced kept prior
    omega
  · rcases List.mem_cons.mp later with same | later
    · rw [same, announcementOf, stored] at announces
      contradiction
    · have next := ((List.pairwise_cons.mp behind).1 other later).1 announces
      have least := (facts.waiting entry here).visible_le
      omega

/-- The bytes of a record survive a store elsewhere. -/
theorem Record.Stored.store_apart {record : Record} {buf : Nat → UInt8}
    (stored : record.Stored cfg buf) {address : Nat} {value : UInt8}
    (apart : address ∉ record.slot.bytes record.length) :
    record.Stored cfg (Memory.store buf address [value]) := by
  have kept : ∀ target ∈ record.slot.bytes record.length,
      Memory.store buf address [value] target = buf target := by
    intro target member
    apply Memory.store_outside
    rw [List.length_singleton]
    have different : address ≠ target := fun same => apart (same ▸ member)
    omega
  constructor
  · rw [← stored.1]
    exact Memory.load_congr fun target least most => kept target (Or.inl ⟨least, most⟩)
  · rw [← stored.2]
    exact Memory.load_congr fun target least most => kept target (Or.inr ⟨least, most⟩)

/-- A byte that reaches memory spares every record that memory shows as published and that no
announcement there is past. -/
theorem drain_byte (kept : ordering.inOrder = true ∨ ordering.fences = true)
    (bounds : WordBounds cfg.pipeSize) (inv : Inv cfg s.fifo.base) (facts : OrderFacts cfg rule s)
    (peek : PeekFacts cfg s shown) (split : s.buffer = before ++ entry :: after)
    (passes : MayPass pipeStores ordering before entry) {address : Nat} {value : UInt8}
    (stored : entry.store.write = .byte address value) {index : Nat}
    (inside : index < s.fifo.base.published.length) (visible : index < s.visible)
    (spared : posOf cfg (s.fifo.base.announced.take shown) ≤
      headerAt cfg.pipeSize.toNat 4 (posOf cfg (s.fifo.base.published.take index)) +
        (cfg.pipeSize.toNat + 1)) :
    s.fifo.base.published[index].Stored cfg
      (Memory.store s.memory.buf address [value]) := by
  have here : entry ∈ s.buffer := by
    rw [split]
    exact List.mem_append_right _ List.mem_cons_self
  have announced := peek.byte_shown kept split passes stored
  have later := Nat.lt_of_lt_of_le visible (facts.waiting entry here).visible_le
  obtain ⟨record, found, member⟩ := peek.bytes entry here address value stored
  obtain ⟨bound, rfl⟩ := List.getElem?_eq_some_iff.mp found
  have located := announced_located bounds inv entry.store.record bound
  have takes : s.fifo.base.published.take (index + 1) =
      s.fifo.base.announced.take (index + 1) := by
    rw [State.announced, List.take_append_of_le_length inside]
  have behind : nextPos cfg.pipeSize (posOf cfg (s.fifo.base.published.take index))
      s.fifo.base.published[index].length.toNat ≤
        posOf cfg (s.fifo.base.announced.take entry.store.record) := by
    rw [← posOf_take_succ cfg _ index inside, takes]
    exact posOf_take_mono cfg _ later (Nat.le_of_lt bound)
  have within := posOf_take_mono cfg _ announced peek.shown_le
  rw [posOf_take_succ cfg _ _ bound] at within
  have apart := (inv.layout.located index inside).apart bounds located behind
    (Nat.le_trans within spared)
  exact (peek.intact index inside visible spared).store_apart
    (Set.disjoint_right.mp apart member)

/-- A store that reaches memory keeps the facts; an announcement shows one more record. -/
theorem drain_peek (kept : ordering.inOrder = true ∨ ordering.fences = true)
    (mirrors : rule.Mirrors cfg.pipeSize) (bounds : WordBounds cfg.pipeSize)
    (facts : OrderFacts cfg rule s) (peek : PeekFacts cfg s shown) {memory : Written}
    {buffer : List (Entry Issue)} {index visible : Nat}
    (counted : visible = s.visible + (publicationOf entry).toList.length)
    (drained : drain pipeStores ordering s.memory s.buffer index = some (entry, memory, buffer))
    (facts' : OrderFacts cfg rule { s with memory := memory, buffer := buffer, visible := visible }) :
    ∃ shown', shown ≤ shown' ∧
      PeekFacts cfg { s with memory := memory, buffer := buffer, visible := visible } shown' := by
  have inv := facts.inv mirrors bounds
  obtain ⟨before, after, split, rest, applied, passes⟩ := drain_split drained
  have fewer : buffer.Sublist s.buffer := by
    rw [split, rest]
    exact (List.sublist_cons_self entry after).append_left before
  have announcements := peek.announcements
  rw [split, List.filterMap_append] at announcements
  change memory = entry.store.write.apply s.memory at applied
  cases stored : entry.store.write with
  | byte address value =>
    have silent : announcementOf entry = none := by rw [announcementOf, stored]; rfl
    have unpublished : publicationOf entry = none := by rw [publicationOf, stored]; rfl
    rw [List.filterMap_cons_none silent, ← List.filterMap_append, ← rest] at announcements
    rw [unpublished] at counted
    rw [stored] at applied
    subst counted applied
    exact ⟨shown, Nat.le_refl _, peek.drain fewer peek.visible_le peek.shown_le peek.nextWriteVPtr
      announcements fun index inside visible spared =>
        drain_byte kept bounds inv facts peek split passes stored inside visible spared⟩
  | numWritten value =>
    have silent : announcementOf entry = none := by rw [announcementOf, stored]; rfl
    have unpublished : publicationOf entry = none := by rw [publicationOf, stored]; rfl
    rw [List.filterMap_cons_none silent, ← List.filterMap_append, ← rest] at announcements
    rw [unpublished] at counted
    rw [stored] at applied
    subst counted applied
    exact ⟨shown, Nat.le_refl _, peek.drain fewer peek.visible_le peek.shown_le peek.nextWriteVPtr
      announcements peek.intact⟩
  | nextWriteVPtr value =>
    have announces : announcementOf entry = some (entry.store.record, value) := by
      rw [announcementOf, stored]
      rfl
    have unpublished : publicationOf entry = none := by rw [publicationOf, stored]; rfl
    rw [unpublished] at counted
    rw [stored] at applied
    subst counted applied
    -- announcements go to one cell, so they reach memory in their order
    have first : before.filterMap announcementOf = [] := by
      apply List.filterMap_eq_nil_iff.mpr
      intro other prior
      by_contra another
      obtain ⟨pair, found⟩ := Option.ne_none_iff_exists'.mp another
      obtain ⟨older, announced, -⟩ := Option.map_eq_some_iff.mp found
      have apart := (passes other prior).1
      change other.store.write.cell ≠ entry.store.write.cell at apart
      cases write : other.store.write with
      | nextWriteVPtr _ => exact apart (by rw [write, stored]; rfl)
      | _ =>
        rw [write] at announced
        contradiction
    rw [first, List.nil_append, List.filterMap_cons_some announces] at announcements
    have more : shown < s.fifo.base.announced.length := by
      by_contra all
      rw [List.drop_of_length_le (by rw [length_announcementsOf]; omega)] at announcements
      contradiction
    rw [drop_announcementsOf more] at announcements
    obtain ⟨head, tail⟩ := List.cons.inj announcements
    have next : value = s.fifo.base.announced[shown].slot.nextWriteVPtr := congrArg Prod.snd head
    have placed := (announced_located bounds inv shown more).placed bounds
    refine ⟨shown + 1, Nat.le_succ _, peek.drain fewer (Nat.le_succ_of_le peek.visible_le) more ?_
      ?_ ?_⟩
    · change value = _
      rw [next, placed.nextWriteVPtr, posOf_take_succ cfg _ _ more]
    · rw [rest, List.filterMap_append, first]
      exact tail
    · intro index inside visible spared
      have grown := posOf_take_mono cfg s.fifo.base.announced (Nat.le_succ shown) more
      exact peek.intact index inside visible (Nat.le_trans grown spared)
  | writeVPtr value =>
    have silent : announcementOf entry = none := by rw [announcementOf, stored]; rfl
    have publishes : publicationOf entry = some value := by rw [publicationOf, stored]; rfl
    rw [List.filterMap_cons_none silent, ← List.filterMap_append, ← rest] at announcements
    rw [publishes] at counted
    rw [stored] at applied
    subst counted applied
    have more : s.visible < s.fifo.base.published.length := facts'.visible_le
    refine ⟨shown, Nat.le_refl _, peek.drain fewer
      (peek.publication_shown kept facts split passes stored more) peek.shown_le peek.nextWriteVPtr
      announcements ?_⟩
    intro index inside visible spared
    rcases Nat.lt_succ_iff_lt_or_eq.mp visible with old | now
    · exact peek.intact index inside old spared
    · -- the record just published is unread, and in memory as it was written
      subst now
      have content := inv.content s.visible inside facts.consumed_le
      have agrees := fun address => @OrderFacts.agrees cfg rule _ facts' s.visible inside
        facts.consumed_le (Nat.lt_succ_self _) address
      constructor
      · rw [← content.1]
        exact Memory.load_congr fun address least most => agrees address (Or.inl ⟨least, most⟩)
      · rw [← content.2]
        exact Memory.load_congr fun address least most => agrees address (Or.inr ⟨least, most⟩)

/-- A step of the reader leaves the records and the writer alone. -/
theorem fifoStep_reader {state after : FifoState} {act : FifoAct}
    (reads : ∀ inner, act ≠ .pipe inner) (taken : fifoStep cfg rule state act = some after) :
    after.base.published = state.base.published ∧ after.base.writer = state.base.writer := by
  cases fifoStep_move taken with
  | pipe _ _ => exact absurd rfl (reads _)
  | _ => exact ⟨rfl, rfl⟩

/-- No announcement is taken back. -/
theorem writerStep_announced_grows {state after : State}
    (taken : writerStep cfg state = some after) : state.announced <+: after.announced := by
  rcases writerStep_announced taken with ⟨same, -⟩ | ⟨record, same, more, -, -⟩
  · exact ⟨[], by rw [same, List.append_nil]⟩
  · exact ⟨[record], by rw [same, more]⟩

/-- Every admitted step keeps the facts and every announcement. -/
theorem orderStep_peek (kept : ordering.inOrder = true ∨ ordering.fences = true)
    (mirrors : rule.Mirrors cfg.pipeSize) (bounds : WordBounds cfg.pipeSize)
    (facts : OrderFacts cfg rule s) (peek : PeekFacts cfg s shown) {act : OrderAct}
    (admitted : OrderPushes cfg s act) (taken : orderStep cfg rule ordering s act = some s') :
    s.fifo.base.announced <+: s'.fifo.base.announced ∧
      ∃ shown', shown ≤ shown' ∧ PeekFacts cfg s' shown' := by
  have facts' := orderStep_facts kept mirrors bounds facts admitted taken
  cases act with
  | drain index =>
    obtain ⟨⟨entry, memory, buffer⟩, drained, rfl⟩ := Option.map_eq_some_iff.mp taken
    exact ⟨List.prefix_refl _, drain_peek kept mirrors bounds facts peek rfl drained facts'⟩
  | fifo act =>
    cases act with
    | pipe act =>
      cases act with
      | writer =>
        obtain ⟨after, stepped, rfl⟩ := Option.map_eq_some_iff.mp taken
        exact ⟨writerStep_announced_grows stepped, shown, Nat.le_refl _,
          issue_peek mirrors bounds facts peek stepped⟩
      | call call =>
        obtain ⟨after, stepped, rfl⟩ := Option.map_eq_some_iff.mp taken
        obtain ⟨_, base, called, rfl⟩ := fifoStep_pipe stepped
        obtain ⟨control, rfl⟩ := step_call called
        have announced : s.fifo.base.announced = s.fifo.base.published := by
          simp [State.announced, State.reserved, control]
        refine ⟨announced ▸ List.prefix_append _ _, shown, Nat.le_refl _,
          peek.frame rfl ?_ ?_⟩
        · simp [State.announced, State.reserved, control]
        · intro call slot copied copying
          contradiction
      | validate | reader inner => contradiction
      | stopWriter | startWriter => exact admitted.elim
    | begin | loadHeader | copyByte | store | count | finish =>
      obtain ⟨after, stepped, rfl⟩ := Option.map_eq_some_iff.mp taken
      have ⟨published, writer⟩ := fifoStep_reader (by simp) stepped
      change after.base.published = s.fifo.base.published at published
      change after.base.writer = s.fifo.base.writer at writer
      have announced : (s.readerMoved after).fifo.base.announced = s.fifo.base.announced := by
        simp only [OrderState.readerMoved, State.announced, State.reserved, published, writer]
        rfl
      refine ⟨⟨[], by rw [announced, List.append_nil]⟩, shown, Nat.le_refl _,
        peek.frame published announced ?_⟩
      intro call slot copied copying
      exact writer.symm.trans copying

/-- The facts hold throughout a run, in which memory shows more and more announcements. -/
theorem leads_peek (kept : ordering.inOrder = true ∨ ordering.fences = true)
    (mirrors : rule.Mirrors cfg.pipeSize) (bounds : WordBounds cfg.pipeSize)
    (facts : OrderFacts cfg rule s) (peek : PeekFacts cfg s shown)
    (path : (orderSystem cfg rule ordering).Leads (OrderPushes cfg) s s') :
    OrderFacts cfg rule s' ∧ s.fifo.base.announced <+: s'.fifo.base.announced ∧
      ∃ shown', shown ≤ shown' ∧ PeekFacts cfg s' shown' := by
  apply System.leads_invariant
    (fun state => OrderFacts cfg rule state ∧
      s.fifo.base.announced <+: state.fifo.base.announced ∧
      ∃ shown', shown ≤ shown' ∧ PeekFacts cfg state shown') ?_ path
  · exact ⟨facts, List.prefix_refl _, shown, Nat.le_refl _, peek⟩
  · intro before act after holds admitted taken
    obtain ⟨facts, announced, shown', more, peek⟩ := holds
    obtain ⟨grown, latest, further, peek'⟩ :=
      orderStep_peek kept mirrors bounds facts peek admitted taken
    exact ⟨orderStep_facts kept mirrors bounds facts admitted taken, announced.trans grown, latest,
      Nat.le_trans more further, peek'⟩

/-- A pipe just constructed shows no announcement. -/
theorem start_peek (cfg : Config) (storage : LocklessPipe) :
    PeekFacts cfg ⟨⟨.start storage, .idle, []⟩, .of (.construct storage), [], 0, 0⟩ 0 where
  visible_le := Nat.le_refl _
  nextWriteVPtr := (vptrAt_zero cfg.pipeSize).symm
  announcements := by simp [announcementsOf, State.announced, State.reserved, State.start]
  sequence := .nil
  record_lt _ waits := absurd waits List.not_mem_nil
  bytes _ waits := absurd waits List.not_mem_nil
  fenced _ _ _ _ _ waits := absurd waits List.not_mem_nil
  shown_le := Nat.zero_le _
  intact _ _ visible := absurd visible (Nat.not_lt_zero _)

end Preservation

/-- The version that a peeking thread computes for a header is the lap of the header. -/
theorem headerVersion {pipeSize : UInt32} (bounds : WordBounds pipeSize) (pos : Nat) :
    (if isWrap pipeSize lengthBytes (getPointer (vptrAt pipeSize pos)) then
        getVersion (vptrAt pipeSize pos) + 1
      else getVersion (vptrAt pipeSize pos)) =
      UInt32.ofNat (headerAt pipeSize.toNat 4 pos / (pipeSize.toNat + 1)) := by
  have least := bounds.ten_le
  have most := bounds.sums_fit
  have offset : pos % (pipeSize.toNat + 1) < pipeSize.toNat + 1 := Nat.mod_lt _ (Nat.succ_pos _)
  have four : lengthBytes.toNat = 4 := rfl
  have wraps := isWrap_iff pipeSize lengthBytes (getPointer (vptrAt pipeSize pos))
    (by rw [getPointer_vptrAt_toNat, four]; omega)
  rw [getPointer_vptrAt_toNat, four] at wraps
  rw [getVersion_vptrAt, headerAt, fit]
  by_cases wrapped : pipeSize.toNat < pos % (pipeSize.toNat + 1) + 4
  · rw [if_pos (wraps.mpr wrapped), if_pos wrapped, Nat.mul_div_cancel _ (Nat.succ_pos _),
      UInt32.ofNat_add]
    rfl
  · rw [if_neg fun wrap => wrapped (wraps.mp wrap), if_neg wrapped]

/-- What a peeking thread tells from the two halves of `nextWriteVPtr_` is where the announcements
stand, as long as they are fewer than `2 ^ 32` laps ahead. -/
theorem Record.spared_iff {cfg : Config} {pos place : Nat} {record : Record}
    (bounds : WordBounds cfg.pipeSize) (located : record.At cfg pos)
    (behind : headerAt cfg.pipeSize.toNat 4 pos ≤ place)
    (recent : place / (cfg.pipeSize.toNat + 1) < pos / (cfg.pipeSize.toNat + 1) + 2 ^ 32) :
    record.spared cfg.pipeSize (vptrAt cfg.pipeSize place) = true ↔
      place ≤ headerAt cfg.pipeSize.toNat 4 pos + (cfg.pipeSize.toNat + 1) := by
  have laps := Nat.div_le_div_right (c := cfg.pipeSize.toNat + 1) behind
  have lap := Nat.div_le_div_right (c := cfg.pipeSize.toNat + 1)
    (le_headerAt pos : pos ≤ headerAt cfg.pipeSize.toNat 4 pos)
  have version := headerVersion bounds pos
  rw [← located.start_eq] at version
  simp only [Record.spared, version, Bool.or_eq_true, Bool.and_eq_true, beq_iff_eq,
    decide_eq_true_eq, UInt32.le_iff_toNat_le, getPointer_vptrAt_toNat,
    (located.placed bounds).lengthPtr, getVersion_vptrAt]
  rw [le_lap_iff behind, ← UInt32.toNat_inj, ← UInt32.toNat_inj]
  generalize headerAt cfg.pipeSize.toNat 4 pos / (cfg.pipeSize.toNat + 1) = header at laps lap ⊢
  generalize place / (cfg.pipeSize.toNat + 1) = last at laps recent ⊢
  simp only [UInt32.toNat_add, UInt32.toNat_ofNat', UInt32.toNat_one]
  constructor
  · rintro (same | ⟨next, within⟩)
    · left
      omega
    · right
      exact ⟨by omega, within⟩
  · rintro (same | ⟨next, within⟩)
    · left
      rw [same]
    · right
      exact ⟨by rw [next]; omega, within⟩

/-- A thread that finds a record published in memory, copies it meanwhile and then finds that
`nextWriteVPtr_` spares it has copied what was written. -/
def PeekSafe (ordering : StoreBuffer.Ordering) : Prop :=
  ∀ (cfg : Config) (rule : ReadRule) (s s' : OrderState) (index : Nat) (record : Record),
    SizeBounds cfg.pipeSize → rule.Mirrors cfg.pipeSize →
    (orderSystem cfg rule ordering).Reachable (OrderPushes cfg) s →
    (orderSystem cfg rule ordering).Leads (OrderPushes cfg) s s' → index < s.visible →
    s.fifo.base.published[index]? = some record →
    posOf cfg s'.fifo.base.announced / (cfg.pipeSize.toNat + 1) <
      posOf cfg (s.fifo.base.published.take index) / (cfg.pipeSize.toNat + 1) + 2 ^ 32 →
    record.spared cfg.pipeSize s'.memory.nextWriteVPtr = true →
    record.Stored cfg s.memory.buf

section Safety

variable {cfg : Config} {rule : ReadRule} {ordering : StoreBuffer.Ordering} {s s' : OrderState}

/-- The facts hold in every run of pushes and reads. -/
theorem reachable_peek (kept : ordering.inOrder = true ∨ ordering.fences = true)
    (mirrors : rule.Mirrors cfg.pipeSize) (bounds : WordBounds cfg.pipeSize)
    (reached : (orderSystem cfg rule ordering).Reachable (OrderPushes cfg) s) :
    ∃ shown, PeekFacts cfg s shown := by
  obtain ⟨first, ⟨storage, rfl⟩, path⟩ := reached
  have facts : OrderFacts cfg rule _ :=
    reachable_orderFacts kept mirrors bounds (.start ⟨storage, rfl⟩)
  obtain ⟨-, -, shown, -, peek⟩ :=
    leads_peek kept mirrors bounds facts (start_peek cfg storage) path
  exact ⟨shown, peek⟩

/-- Peeking is safe where the hardware keeps the order of all stores or of those around a
fence. -/
theorem peekSafe_of_kept (kept : ordering.inOrder = true ∨ ordering.fences = true) :
    PeekSafe ordering := by
  intro cfg rule s s' index record bounds mirrors reached path visible found recent spared
  have facts := reachable_orderFacts kept mirrors bounds.words reached
  have inv := facts.inv mirrors bounds.words
  obtain ⟨shown, peek⟩ := reachable_peek kept mirrors bounds.words reached
  obtain ⟨-, ⟨more, grown⟩, shown', further, peek'⟩ :=
    leads_peek kept mirrors bounds.words facts peek path
  obtain ⟨inside, rfl⟩ := List.getElem?_eq_some_iff.mp found
  have shown_le := peek.shown_le
  have shown_le' := peek'.shown_le
  have located := inv.layout.located index inside
  -- what was announced then is announced now, in the same place
  have takes : s'.fifo.base.announced.take shown = s.fifo.base.announced.take shown := by
    rw [← grown, List.take_append_of_le_length shown_le]
  have advanced := posOf_take_mono cfg s'.fifo.base.announced further shown_le'
  rw [takes] at advanced
  have record_le := posOf_take_mono cfg s.fifo.base.announced
    (Nat.lt_of_lt_of_le visible peek.visible_le) shown_le
  have published : s.fifo.base.announced.take (index + 1) =
      s.fifo.base.published.take (index + 1) := by
    rw [State.announced, List.take_append_of_le_length inside]
  rw [published, posOf_take_succ cfg _ index inside, nextPos, endAt] at record_le
  have header : headerAt cfg.pipeSize.toNat 4 (posOf cfg (s.fifo.base.published.take index)) + 4 ≤
      payloadAt cfg.pipeSize.toNat 4 (posOf cfg (s.fifo.base.published.take index))
        s.fifo.base.published[index].length.toNat := headerAt_add_le_payloadAt _ _
  have last := posOf_take_le cfg s'.fifo.base.announced shown_le'
  rw [peek'.nextWriteVPtr, Record.spared_iff bounds.words located (by omega)
    (Nat.lt_of_le_of_lt (Nat.div_le_div_right last) recent)] at spared
  exact peek.intact index inside visible (Nat.le_trans advanced spared)

end Safety

/-- A push of one byte whose publication reaches memory before everything else. -/
def publishedFirst : List OrderAct :=
  pushByte.map (fun act => .fifo (.pipe act)) ++ [.drain 7]

/-- Where the hardware keeps neither, a record that `nextWriteVPtr_` spares was never written. -/
theorem not_peekSafe_unordered : ¬ PeekSafe ⟨false, false⟩ := by
  intro safe
  have replay : ((orderSystem smallConfig (mirrorRule 12) ⟨false, false⟩).run
      ⟨⟨.start blankStorage, .idle, []⟩, .of (.construct blankStorage), [], 0, 0⟩
      publishedFirst).map (fun s => (s.visible, s.fifo.base.published, s.fifo.base.reserved,
        s.memory.nextWriteVPtr, Memory.load s.memory.buf 0 4)) =
      some (1, [⟨0, 1, ⟨0, 4, 5⟩, [7]⟩], none, 0, [0, 0, 0, 0]) := by
    decide +kernel
  obtain ⟨s, replayed, shown⟩ := Option.map_eq_some_iff.mp replay
  simp only [Prod.mk.injEq] at shown
  obtain ⟨visible, published, reserved, next, header⟩ := shown
  have reached : (orderSystem smallConfig (mirrorRule 12) ⟨false, false⟩).Reachable
      (OrderPushes smallConfig) s :=
    .of_run ⟨blankStorage, rfl⟩ publishedFirst
      (@orderPushes_of_all smallConfig [7] (by decide) publishedFirst (by decide)) replayed
  have stored := safe smallConfig (mirrorRule 12) s s 0 ⟨0, 1, ⟨0, 4, 5⟩, [7]⟩
    ⟨by decide, by decide⟩ (mirrorRule_mirrors ⟨by decide, by decide⟩) reached .refl
    (by rw [visible]; decide) (by rw [published]; rfl)
    (by rw [State.announced, published, reserved]; decide) (by rw [next]; decide)
  have different : Memory.load s.memory.buf 0 4 = smallConfig.order.encode 1 := stored.1
  rw [header] at different
  exact absurd different (by decide)

/-- A thread beside the reader that copies a record and looks at `nextWriteVPtr_` afterwards can
trust the copy exactly on hardware that keeps the order of all stores or of those around
`MF_write_sync`; every platform of `membar.h` does one of the two. -/
theorem peek_safe_iff_stores_kept :
    (∀ ordering : StoreBuffer.Ordering,
      PeekSafe ordering ↔ ordering.inOrder = true ∨ ordering.fences = true) ∧
    ∀ platform : Platform, PeekSafe platform.ordering := by
  constructor
  · intro ordering
    refine ⟨?_, peekSafe_of_kept⟩
    intro safe
    by_contra unordered
    rw [not_or, Bool.not_eq_true, Bool.not_eq_true] at unordered
    have neither : ordering = ⟨false, false⟩ := by
      cases ordering
      simpa using unordered
    exact not_peekSafe_unordered (neither ▸ safe)
  · intro platform
    apply peekSafe_of_kept
    cases platform <;> decide

end PerfVerif.Pipe
