import PerfVerif.Pipe.Layout
import PerfVerif.Pipe.Gate

/-!
# The invariant of the pipe

The records published so far determine a ring position for each record end. In every state
the two versioned pointers show the positions behind the consumed and behind the published
records, less than one lap apart; the bytes of every unread record are in the buffer; and
the writer, from the moment `isFull` was false, has room up to its next position.

The invariant holds in every run whose calls copy as many bytes as they announce and in
which `startWriter` does not fall between the two flag loads of a blocking `startWrite`
that left its wait loop because the writer was stopped.
-/

namespace PerfVerif.Pipe

open RecordRing Transition

/-- The ring position behind a list of records. -/
def posOf (cfg : Config) (records : List Record) : Nat :=
  position cfg.pipeSize.toNat 4 (records.map fun record => record.length.toNat)

/-- The position behind one more record. -/
theorem posOf_concat (cfg : Config) (records : List Record) (record : Record) :
    posOf cfg (records ++ [record]) =
      nextPos cfg.pipeSize (posOf cfg records) record.length.toNat := by
  simp only [posOf, List.map_append, List.map_cons, List.map_nil]
  exact position_concat _ _

/-- The position behind the next record of a list. -/
theorem posOf_take_succ (cfg : Config) (records : List Record) (index : Nat)
    (inside : index < records.length) :
    posOf cfg (records.take (index + 1)) =
      nextPos cfg.pipeSize (posOf cfg (records.take index)) records[index].length.toNat := by
  rw [← posOf_concat, List.take_append_getElem inside]

/-- Every record advances the position by at least its header. -/
theorem posOf_take_add_le (cfg : Config) (records : List Record) (index count : Nat)
    (inside : index + count ≤ records.length) :
    posOf cfg (records.take index) + count * 4 ≤ posOf cfg (records.take (index + count)) := by
  simp only [posOf, List.map_take]
  exact position_take_add_le _ index count (by simpa using inside)

/-- Positions grow along the records. -/
theorem posOf_take_mono (cfg : Config) (records : List Record) {first last : Nat}
    (ordered : first ≤ last) (inside : last ≤ records.length) :
    posOf cfg (records.take first) ≤ posOf cfg (records.take last) := by
  simp only [posOf, List.map_take]
  exact position_take_mono _ ordered (by simpa using inside)

/-- The position behind some of the records is not past the position behind all. -/
theorem posOf_take_le (cfg : Config) (records : List Record) {count : Nat}
    (inside : count ≤ records.length) : posOf cfg (records.take count) ≤ posOf cfg records := by
  have grown := posOf_take_mono cfg records inside (Nat.le_refl _)
  rwa [List.take_length] at grown

/-- A record that `startWrite` placed at a ring position. -/
structure Record.At (cfg : Config) (pos : Nat) (record : Record) : Prop where
  short : record.length ≤ maxPipeElementSize cfg.pipeSize
  start_eq : record.start = vptrAt cfg.pipeSize pos
  slot_eq : record.slot = reserve cfg.pipeSize record.start record.length
  payload_length : record.payload.length = record.length.toNat

/-- The slot of a record is where the ring places it. -/
theorem Record.At.placed {cfg : Config} {pos : Nat} {record : Record}
    (bounds : WordBounds cfg.pipeSize) (located : record.At cfg pos) :
    Placed cfg.pipeSize pos record.length record.slot := by
  rw [located.slot_eq, located.start_eq]
  exact reserve_placed bounds located.short pos

/-- The two versioned pointers show the positions behind the consumed and behind the
published records, less than one lap apart. -/
structure Layout (cfg : Config) (readVPtr writeVPtr : UInt64) (published : List Record)
    (consumed : Nat) : Prop where
  consumed_le : consumed ≤ published.length
  readVPtr_eq : readVPtr = vptrAt cfg.pipeSize (posOf cfg (published.take consumed))
  writeVPtr_eq : writeVPtr = vptrAt cfg.pipeSize (posOf cfg published)
  window : posOf cfg published <
    posOf cfg (published.take consumed) + (cfg.pipeSize.toNat + 1)
  located : ∀ index (inside : index < published.length),
    published[index].At cfg (posOf cfg (published.take index))

namespace Layout

variable {cfg : Config} {readVPtr writeVPtr : UInt64} {published : List Record} {consumed : Nat}

/-- The read position is not past the write position. -/
theorem ordered (layout : Layout cfg readVPtr writeVPtr published consumed) :
    posOf cfg (published.take consumed) ≤ posOf cfg published :=
  posOf_take_le cfg published layout.consumed_le

/-- Consuming the oldest unread record keeps the layout. -/
theorem consume (bounds : WordBounds cfg.pipeSize)
    (layout : Layout cfg readVPtr writeVPtr published consumed)
    (inside : consumed < published.length) :
    Layout cfg published[consumed].slot.nextWriteVPtr writeVPtr published (consumed + 1) where
  consumed_le := inside
  readVPtr_eq := by
    rw [((layout.located consumed inside).placed bounds).nextWriteVPtr,
      posOf_take_succ cfg published consumed inside]
  writeVPtr_eq := layout.writeVPtr_eq
  window := by
    have grown : posOf cfg (published.take consumed) ≤ posOf cfg (published.take (consumed + 1)) :=
      posOf_take_mono cfg published (Nat.le_succ consumed) inside
    have window := layout.window
    omega
  located := layout.located

/-- Publishing a record for which there is room keeps the layout. -/
theorem publish (bounds : WordBounds cfg.pipeSize)
    (layout : Layout cfg readVPtr writeVPtr published consumed) {record : Record}
    (located : record.At cfg (posOf cfg published))
    (room : nextPos cfg.pipeSize (posOf cfg published) record.length.toNat <
      posOf cfg (published.take consumed) + (cfg.pipeSize.toNat + 1)) :
    Layout cfg readVPtr record.slot.nextWriteVPtr (published ++ [record]) consumed := by
  have kept : (published ++ [record]).take consumed = published.take consumed :=
    List.take_append_of_le_length layout.consumed_le
  refine ⟨?_, ?_, ?_, ?_, ?_⟩
  · rw [List.length_append]
    exact Nat.le_add_right_of_le layout.consumed_le
  · rw [kept]
    exact layout.readVPtr_eq
  · rw [posOf_concat, (located.placed bounds).nextWriteVPtr]
  · rw [posOf_concat, kept]
    exact room
  · intro index inside
    by_cases old : index < published.length
    · rw [List.getElem_append_left old, List.take_append_of_le_length (Nat.le_of_lt old)]
      exact layout.located index old
    · have last : index = published.length := by
        simp only [List.length_append, List.length_singleton] at inside
        omega
      subst last
      rw [List.getElem_append_right (Nat.le_refl _), List.take_left]
      simpa using located

/-- The pointers are equal exactly when every record is consumed. -/
theorem pointers_eq_iff (layout : Layout cfg readVPtr writeVPtr published consumed) :
    readVPtr = writeVPtr ↔ consumed = published.length := by
  constructor
  · intro same
    rw [layout.readVPtr_eq, layout.writeVPtr_eq] at same
    have positions := vptrAt_inj layout.ordered layout.window same
    have grown := posOf_take_add_le cfg published consumed (published.length - consumed)
      (by have := layout.consumed_le; omega)
    rw [Nat.add_sub_cancel' layout.consumed_le, List.take_length] at grown
    have bound := layout.consumed_le
    omega
  · intro all
    rw [layout.readVPtr_eq, layout.writeVPtr_eq, all, List.take_length]

end Layout

/-- The header and the payload of a record are in the buffer. -/
def Record.Stored (cfg : Config) (buf : Nat → UInt8) (record : Record) : Prop :=
  Memory.load buf record.slot.lengthPtr.toNat 4 = cfg.order.encode record.length ∧
    Memory.load buf record.slot.payloadPtr.toNat record.length.toNat = record.payload

/-- The bytes of every unread record are in the buffer. -/
def Content (cfg : Config) (buf : Nat → UInt8) (published : List Record) (consumed : Nat) :
    Prop :=
  ∀ index (inside : index < published.length), consumed ≤ index →
    published[index].Stored cfg buf

/-- A block of ring positions between the write position and one lap behind the read
position shares no offset with an unread record. -/
theorem Layout.unread_apart {cfg : Config} {readVPtr writeVPtr : UInt64}
    {published : List Record} {consumed : Nat} (bounds : WordBounds cfg.pipeSize)
    (layout : Layout cfg readVPtr writeVPtr published consumed) {index : Nat}
    (inside : index < published.length) (unread : consumed ≤ index) {place extent : Nat}
    (first : posOf cfg published ≤ place)
    (last : place + extent ≤ posOf cfg (published.take consumed) + (cfg.pipeSize.toNat + 1))
    (fits : place % (cfg.pipeSize.toNat + 1) + extent ≤ cfg.pipeSize.toNat) :
    (published[index].slot.lengthPtr.toNat + 4 ≤ place % (cfg.pipeSize.toNat + 1) ∨
      place % (cfg.pipeSize.toNat + 1) + extent ≤ published[index].slot.lengthPtr.toNat) ∧
    (published[index].slot.payloadPtr.toNat + published[index].length.toNat ≤
        place % (cfg.pipeSize.toNat + 1) ∨
      place % (cfg.pipeSize.toNat + 1) + extent ≤ published[index].slot.payloadPtr.toNat) := by
  have located := layout.located index inside
  have half := half_of_le_max bounds.ten_le located.short
  have placed := located.placed bounds
  have before := posOf_take_mono cfg published unread (Nat.le_of_lt inside)
  have after := posOf_take_mono cfg published inside (Nat.le_refl _)
  rw [List.take_length, posOf_take_succ cfg published index inside, nextPos, endAt] at after
  generalize posOf cfg (published.take index) = pos at located placed before after
  generalize published[index] = record at located half placed after ⊢
  have header : pos ≤ headerAt cfg.pipeSize.toNat 4 pos := le_headerAt pos
  have payload : headerAt cfg.pipeSize.toNat 4 pos + 4 ≤
      payloadAt cfg.pipeSize.toNat 4 pos record.length.toNat := headerAt_add_le_payloadAt pos _
  rw [placed.lengthPtr, placed.payloadPtr]
  constructor
  · exact blocks_apart _ _ _ _ (by omega) (by omega) (headerAt_offset pos (by omega)) fits
  · exact blocks_apart _ _ _ _ (by omega) (by omega) (payloadAt_offset pos _ (by omega)) fits

/-- Storing a block between the write position and one lap behind the read position keeps the bytes
of every unread record. -/
theorem Content.store {cfg : Config} {buf : Nat → UInt8} {readVPtr writeVPtr : UInt64}
    {published : List Record} {consumed : Nat} (bounds : WordBounds cfg.pipeSize)
    (layout : Layout cfg readVPtr writeVPtr published consumed)
    (content : Content cfg buf published consumed) {place : Nat} (values : List UInt8)
    (first : posOf cfg published ≤ place)
    (last : place + values.length ≤
      posOf cfg (published.take consumed) + (cfg.pipeSize.toNat + 1))
    (fits : place % (cfg.pipeSize.toNat + 1) + values.length ≤ cfg.pipeSize.toNat) :
    Content cfg (Memory.store buf (place % (cfg.pipeSize.toNat + 1)) values) published
      consumed := by
  intro index inside unread
  obtain ⟨header, payload⟩ := layout.unread_apart bounds inside unread first last fits
  obtain ⟨headerBytes, payloadBytes⟩ := content index inside unread
  constructor
  · rw [Memory.load_store_apart _ _ _ _ _ header]
    exact headerBytes
  · rw [Memory.load_store_apart _ _ _ _ _ payload]
    exact payloadBytes

/-- A call that passes the size check and copies what it announced. -/
structure WriteCall.Admissible (cfg : Config) (call : WriteCall) : Prop where
  short : call.length ≤ maxPipeElementSize cfg.pipeSize
  copies : call.Copies

/-- The record of a call ends less than one lap behind the read position. -/
def Room (cfg : Config) (head tail : Nat) (call : WriteCall) : Prop :=
  nextPos cfg.pipeSize tail call.length.toNat < head + (cfg.pipeSize.toNat + 1)

/-- A call past its reservation: it has room, and its slot is the one reserved at the
current `writeVPtr_`. -/
structure Granted (cfg : Config) (writeVPtr nextWriteVPtr : UInt64) (head tail : Nat)
    (call : WriteCall) (slot : Reservation) : Prop where
  admissible : call.Admissible cfg
  room : Room cfg head tail call
  slot_eq : slot = reserve cfg.pipeSize writeVPtr call.length
  next_eq : nextWriteVPtr = slot.nextWriteVPtr

/-- What each control point of the writer guarantees. A read pointer loaded earlier shows a
read position that was within one lap of the write position and has not moved back since. -/
def WriterFacts (cfg : Config) (pipe : LocklessPipe) (head tail : Nat) : Writer → Prop
  | .idle => True
  | .entered call => call.Copies
  | .loadRead call => call.Admissible cfg
  | .loadWrite call localReadPtr => call.Admissible cfg ∧ ∃ seen ≤ head,
      tail < seen + (cfg.pipeSize.toNat + 1) ∧
        localReadPtr = getPointer (vptrAt cfg.pipeSize seen)
  | .loopFlag call => call.Admissible cfg
  | .gate call full => call.Admissible cfg ∧ (full = false → Room cfg head tail call)
  | .reserving call full => call.Admissible cfg ∧ (full = false → Room cfg head tail call)
  | .header call slot => Granted cfg pipe.writeVPtr pipe.nextWriteVPtr head tail call slot
  | .copying call slot copied => Granted cfg pipe.writeVPtr pipe.nextWriteVPtr head tail call slot ∧
      copied ≤ call.bytes.length ∧
      Memory.load pipe.buf slot.lengthPtr.toNat 4 = cfg.order.encode call.length ∧
      Memory.load pipe.buf slot.payloadPtr.toNat copied = call.bytes.take copied
  | .counting call slot => Granted cfg pipe.writeVPtr pipe.nextWriteVPtr head tail call slot ∧
      Memory.load pipe.buf slot.lengthPtr.toNat 4 = cfg.order.encode call.length ∧
      Memory.load pipe.buf slot.payloadPtr.toNat call.length.toNat = call.bytes
  | .publishing call slot => Granted cfg pipe.writeVPtr pipe.nextWriteVPtr head tail call slot ∧
      Memory.load pipe.buf slot.lengthPtr.toNat 4 = cfg.order.encode call.length ∧
      Memory.load pipe.buf slot.payloadPtr.toNat call.length.toNat = call.bytes

/-- The invariant of the pipe. -/
structure Inv (cfg : Config) (s : State) : Prop where
  layout : Layout cfg s.pipe.readVPtr s.pipe.writeVPtr s.published s.consumed
  content : Content cfg s.pipe.buf s.published s.consumed
  writer : WriterFacts cfg s.pipe (posOf cfg (s.published.take s.consumed))
    (posOf cfg s.published) s.writer

/-- The steps of the runs for which the invariant is proved. -/
def Disciplined (s : State) (act : Act) : Prop := CallsCopy s act ∧ NoRestartInWindow s act

section Preservation

variable {cfg : Config} {s s' : State}

/-- Room only grows when the reader advances. -/
theorem Room.mono {head head' tail : Nat} {call : WriteCall} (advanced : head ≤ head')
    (room : Room cfg head tail call) : Room cfg head' tail call := by
  unfold Room at room ⊢
  omega

/-- A reservation survives a reader that advances. -/
theorem Granted.mono {writeVPtr nextWriteVPtr : UInt64} {head head' tail : Nat}
    {call : WriteCall} {slot : Reservation} (advanced : head ≤ head')
    (granted : Granted cfg writeVPtr nextWriteVPtr head tail call slot) :
    Granted cfg writeVPtr nextWriteVPtr head' tail call slot :=
  { granted with room := granted.room.mono advanced }

/-- The facts of the writer survive every step of another thread: such a step may advance
the read position and leaves the writer's fields alone. -/
theorem WriterFacts.frame {pipe pipe' : LocklessPipe} {head head' tail : Nat} {writer : Writer}
    (facts : WriterFacts cfg pipe head tail writer) (advanced : head ≤ head')
    (write : pipe'.writeVPtr = pipe.writeVPtr)
    (next : pipe'.nextWriteVPtr = pipe.nextWriteVPtr) (bytes : pipe'.buf = pipe.buf) :
    WriterFacts cfg pipe' head' tail writer := by
  cases writer with
  | idle => trivial
  | entered call => exact facts
  | loadRead call => exact facts
  | loadWrite call localReadPtr =>
    obtain ⟨admissible, seen, before, window, loaded⟩ := facts
    exact ⟨admissible, seen, Nat.le_trans before advanced, window, loaded⟩
  | loopFlag call => exact facts
  | gate call full =>
    obtain ⟨admissible, room⟩ := facts
    exact ⟨admissible, fun free => (room free).mono advanced⟩
  | reserving call full =>
    obtain ⟨admissible, room⟩ := facts
    exact ⟨admissible, fun free => (room free).mono advanced⟩
  | header call slot =>
    change Granted cfg pipe.writeVPtr pipe.nextWriteVPtr head tail call slot at facts
    rw [← write, ← next] at facts
    exact facts.mono advanced
  | copying call slot copied =>
    obtain ⟨granted, bound, header, payload⟩ := facts
    rw [← write, ← next] at granted
    rw [← bytes] at header payload
    exact ⟨granted.mono advanced, bound, header, payload⟩
  | counting call slot =>
    obtain ⟨granted, header, payload⟩ := facts
    rw [← write, ← next] at granted
    rw [← bytes] at header payload
    exact ⟨granted.mono advanced, header, payload⟩
  | publishing call slot =>
    obtain ⟨granted, header, payload⟩ := facts
    rw [← write, ← next] at granted
    rw [← bytes] at header payload
    exact ⟨granted.mono advanced, header, payload⟩

/-- The slot of a call past its reservation is where the ring places its record. -/
theorem Granted.placed {writeVPtr nextWriteVPtr : UInt64} {head tail : Nat} {call : WriteCall}
    {slot : Reservation} (bounds : WordBounds cfg.pipeSize)
    (write : writeVPtr = vptrAt cfg.pipeSize tail)
    (granted : Granted cfg writeVPtr nextWriteVPtr head tail call slot) :
    Placed cfg.pipeSize tail call.length slot := by
  rw [granted.slot_eq, write]
  exact reserve_placed bounds granted.admissible.short tail

/-- The header store of a granted call keeps the unread records. -/
theorem header_inv (bounds : WordBounds cfg.pipeSize) (inv : Inv cfg s) {call : WriteCall}
    {slot : Reservation} (control : s.writer = .header call slot) :
    Inv cfg { s with
      pipe := { s.pipe with
        buf := Memory.store s.pipe.buf slot.lengthPtr.toNat (cfg.order.encode call.length) },
      writer := .copying call slot 0 } := by
  obtain ⟨layout, content, facts⟩ := inv
  rw [control] at facts
  change Granted cfg s.pipe.writeVPtr s.pipe.nextWriteVPtr _ _ call slot at facts
  have placed := facts.placed bounds layout.writeVPtr_eq
  have half := half_of_le_max bounds.ten_le facts.admissible.short
  have room := facts.room
  have first : posOf cfg s.published ≤ headerAt cfg.pipeSize.toNat 4 (posOf cfg s.published) :=
    le_headerAt _
  have behind : headerAt cfg.pipeSize.toNat 4 (posOf cfg s.published) + 4 ≤
      payloadAt cfg.pipeSize.toNat 4 (posOf cfg s.published) call.length.toNat :=
    headerAt_add_le_payloadAt _ _
  unfold Room nextPos endAt at room
  have loaded : Memory.load (Memory.store s.pipe.buf slot.lengthPtr.toNat
      (cfg.order.encode call.length)) slot.lengthPtr.toNat 4 = cfg.order.encode call.length := by
    have same := Memory.load_store_same s.pipe.buf slot.lengthPtr.toNat
      (cfg.order.encode call.length)
    rwa [Words.ByteOrder.length_encode] at same
  refine ⟨layout, ?_, ⟨facts, Nat.zero_le _, loaded, ?_⟩⟩
  · rw [placed.lengthPtr]
    apply content.store bounds layout _ first
    · rw [Words.ByteOrder.length_encode]
      omega
    · rw [Words.ByteOrder.length_encode]
      exact headerAt_offset _ (by omega)
  · rw [List.take_zero, Memory.load_zero]

/-- The store of one payload byte of a granted call keeps the unread records and the bytes
written before it. -/
theorem copy_inv (bounds : WordBounds cfg.pipeSize) (inv : Inv cfg s) {call : WriteCall}
    {slot : Reservation} {copied : Nat} (control : s.writer = .copying call slot copied)
    (inside : copied < call.bytes.length) :
    Inv cfg { s with
      pipe := { s.pipe with
        buf := Memory.store s.pipe.buf (slot.payloadPtr.toNat + copied) [call.bytes[copied]] },
      writer := .copying call slot (copied + 1) } := by
  obtain ⟨layout, content, facts⟩ := inv
  rw [control] at facts
  obtain ⟨granted, -, header, payload⟩ := facts
  have placed := granted.placed bounds layout.writeVPtr_eq
  have half := half_of_le_max bounds.ten_le granted.admissible.short
  have room := granted.room
  have ordered := layout.ordered
  have length : call.bytes.length = call.length.toNat := granted.admissible.copies
  have behind : headerAt cfg.pipeSize.toNat 4 (posOf cfg s.published) + 4 ≤
      payloadAt cfg.pipeSize.toNat 4 (posOf cfg s.published) call.length.toNat :=
    headerAt_add_le_payloadAt _ _
  have first : posOf cfg s.published ≤ headerAt cfg.pipeSize.toNat 4 (posOf cfg s.published) :=
    le_headerAt _
  have fits : payloadAt cfg.pipeSize.toNat 4 (posOf cfg s.published) call.length.toNat %
      (cfg.pipeSize.toNat + 1) + call.length.toNat ≤ cfg.pipeSize.toNat :=
    payloadAt_offset _ _ (by omega)
  have target : slot.payloadPtr.toNat + copied =
      (payloadAt cfg.pipeSize.toNat 4 (posOf cfg s.published) call.length.toNat + copied) %
        (cfg.pipeSize.toNat + 1) := by
    rw [placed.payloadPtr, offset_add _ _ (by omega)]
  unfold Room nextPos endAt at room
  -- the header lies before the byte in the ring and within one lap of it
  have apart : slot.lengthPtr.toNat + 4 ≤ slot.payloadPtr.toNat + copied ∨
      slot.payloadPtr.toNat + copied + [call.bytes[copied]].length ≤ slot.lengthPtr.toNat := by
    rw [target, placed.lengthPtr, List.length_singleton]
    apply blocks_apart _ _ _ _ (by omega) (by omega) (headerAt_offset _ (by omega))
    rw [← target, placed.payloadPtr]
    omega
  refine ⟨layout, ?_, ⟨granted, inside, ?_, ?_⟩⟩
  · rw [target]
    apply content.store bounds layout _ (by omega)
    · rw [List.length_singleton]
      omega
    · rw [← target, placed.payloadPtr, List.length_singleton]
      omega
  · rw [Memory.load_store_apart _ _ _ _ _ apart]
    exact header
  · rw [Memory.load_store_next, payload, List.take_append_getElem inside]

/-- Publication makes the finished record the newest unread one. -/
theorem publish_inv (bounds : WordBounds cfg.pipeSize) (inv : Inv cfg s) {call : WriteCall}
    {slot : Reservation} (control : s.writer = .publishing call slot) :
    Inv cfg { s with
      pipe := { s.pipe with writeVPtr := s.pipe.nextWriteVPtr },
      writer := .idle,
      outcomes := s.outcomes ++ [.written],
      published := s.published ++ [⟨s.pipe.writeVPtr, call.length, slot, call.bytes⟩] } := by
  obtain ⟨layout, content, facts⟩ := inv
  rw [control] at facts
  obtain ⟨granted, header, payload⟩ := facts
  have located : Record.At cfg (posOf cfg s.published)
      ⟨s.pipe.writeVPtr, call.length, slot, call.bytes⟩ :=
    ⟨granted.admissible.short, layout.writeVPtr_eq, granted.slot_eq, granted.admissible.copies⟩
  refine ⟨?_, ?_, trivial⟩
  · have published := layout.publish bounds located granted.room
    rw [← granted.next_eq] at published
    exact published
  · intro index inside unread
    by_cases old : index < s.published.length
    · simp only [List.getElem_append_left old]
      exact content index old unread
    · have last : index = s.published.length := by
        simp only [List.length_append, List.length_singleton] at inside
        omega
      subst last
      simp only [List.getElem_append_right (Nat.le_refl _), Nat.sub_self, List.getElem_singleton]
      exact ⟨header, payload⟩

/-- Every micro-step of the writer keeps the invariant. -/
theorem writerStep_inv (bounds : WordBounds cfg.pipeSize) (flags : FlagFacts s)
    (inv : Inv cfg s) (taken : writerStep cfg s = some s') : Inv cfg s' := by
  have ⟨layout, content, facts⟩ := inv
  cases writerStep_move taken with
  | tooLarge _ _ | interrupt _ _ | refuse _ _ _ => exact ⟨layout, content, trivial⟩
  | enter control short =>
    rw [control] at facts
    exact ⟨layout, content, ⟨short, facts⟩⟩
  | loadRead control =>
    rw [control] at facts
    refine ⟨layout, content, ⟨facts, _, Nat.le_refl _, layout.window, ?_⟩⟩
    rw [layout.readVPtr_eq]
  | full control _ =>
    rw [control] at facts
    exact ⟨layout, content, facts.1⟩
  | free control tested =>
    rename_i call localReadPtr
    rw [control] at facts
    obtain ⟨admissible, seen, before, window, rfl⟩ := facts
    have compared := isFullAt_iff bounds admissible.short (Nat.le_trans before layout.ordered)
      window
    rw [← layout.writeVPtr_eq] at compared
    have room : Room cfg seen (posOf cfg s.published) call := compared.mp tested
    exact ⟨layout, content, ⟨admissible, fun _ => room.mono before⟩⟩
  | again control =>
    rw [control] at facts
    exact ⟨layout, content, facts⟩
  | leave control _ =>
    rw [control] at facts
    exact ⟨layout, content, ⟨facts, by simp⟩⟩
  | pass control _ _ =>
    rw [control] at facts
    exact ⟨layout, content, facts⟩
  | copied control done =>
    rw [control] at facts
    have ⟨granted, bound, header, payload⟩ := facts
    have all := Nat.le_antisymm bound done
    rw [all, List.take_length, granted.admissible.copies] at payload
    exact ⟨layout, content, ⟨granted, header, payload⟩⟩
  | store stored =>
    cases stored with
    | reserve control =>
      have free := flags.2 _ _ control
      rw [control] at facts
      have ⟨admissible, room⟩ := facts
      exact ⟨layout, content, ⟨admissible, room free, rfl, rfl⟩⟩
    | header control => exact header_inv bounds inv control
    | copy control inside => exact copy_inv bounds inv control inside
    | count control =>
      rw [control] at facts
      have ⟨granted, header, payload⟩ := facts
      exact ⟨layout, content, ⟨granted, header, payload⟩⟩
    | publish control => exact publish_inv bounds inv control

/-- Every micro-step of the reader keeps the invariant. -/
theorem readerStep_inv (bounds : WordBounds cfg.pipeSize) (inv : Inv cfg s) {act : ReaderAct}
    (taken : readerStep s act = some s') : Inv cfg s' := by
  obtain ⟨layout, content, facts⟩ := inv
  rcases readerStep_cases taken with ⟨-, -, -, rfl⟩ | ⟨-, -, -, rfl⟩ |
    ⟨-, counted, -, inside, rfl⟩ | ⟨-, stored, -, rfl⟩
  · exact ⟨layout, content, facts⟩
  · exact ⟨layout, content, facts⟩
  · refine ⟨layout.consume bounds inside, ?_, ?_⟩
    · intro index bound unread
      exact content index bound (Nat.le_of_succ_le unread)
    · exact facts.frame (posOf_take_mono cfg s.published (Nat.le_succ _) inside) rfl rfl rfl
  · exact ⟨layout, content, facts.frame (Nat.le_refl _) rfl rfl rfl⟩

/-- Every disciplined step keeps the invariant. -/
theorem step_inv (bounds : WordBounds cfg.pipeSize) (flags : FlagFacts s) (inv : Inv cfg s)
    {act : Act} (disciplined : Disciplined s act) (taken : step cfg s act = some s') :
    Inv cfg s' := by
  have ⟨layout, content, facts⟩ := inv
  cases act with
  | call call =>
    obtain ⟨_, rfl⟩ := step_call taken
    exact ⟨layout, content, disciplined.1⟩
  | writer => exact writerStep_inv bounds flags inv taken
  | reader act => exact readerStep_inv bounds inv taken
  | stopWriter =>
    cases taken
    exact ⟨layout, content, facts.frame (Nat.le_refl _) rfl rfl rfl⟩
  | startWriter =>
    cases taken
    exact ⟨layout, content, facts.frame (Nat.le_refl _) rfl rfl rfl⟩
  | validate =>
    obtain ⟨validator, rfl⟩ := step_validate taken
    exact ⟨layout, content, facts⟩

/-- A constructed pipe satisfies the invariant. -/
theorem start_inv (cfg : Config) (storage : LocklessPipe) : Inv cfg (.start storage) := by
  have origin : posOf cfg [] = 0 := rfl
  refine ⟨⟨Nat.le_refl _, ?_, ?_, ?_, ?_⟩, ?_, trivial⟩
  · change 0 = vptrAt cfg.pipeSize (posOf cfg [])
    rw [origin, vptrAt_zero]
  · change 0 = vptrAt cfg.pipeSize (posOf cfg [])
    rw [origin, vptrAt_zero]
  · change posOf cfg [] < posOf cfg [] + (cfg.pipeSize.toNat + 1)
    omega
  · intro index inside
    exact absurd inside (Nat.not_lt_zero index)
  · intro index inside
    exact absurd inside (Nat.not_lt_zero index)

/-- The invariant holds in every state of every disciplined run. -/
theorem reachable_inv (bounds : WordBounds cfg.pipeSize)
    (reached : (system cfg).Reachable Disciplined s) : Inv cfg s := by
  apply reached.invariant
  · rintro first ⟨storage, rfl⟩
    exact start_inv cfg storage
  · intro before act after prior inv disciplined taken
    have flags := reachable_flagFacts (prior.mono fun _ _ both => both.2)
    exact step_inv bounds flags inv disciplined taken

end Preservation

end PerfVerif.Pipe
