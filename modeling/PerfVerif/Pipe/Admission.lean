import PerfVerif.Pipe.Invariant
import Mathlib.Order.CompletePartialOrder
import Mathlib.Order.Interval.Set.Disjoint

/-!
# Where admitted writes go, and when the writer blocks

From the load of `readVPtr_` for which `isFull` is false until `finishWrite`, the bytes a
call writes lie inside the buffer and avoid every unread record, however far the reader
advances meanwhile. A blocked writer leaves the reader a record to consume, and consuming
one never takes room away. Both hold in the disciplined runs; a restart of the writer in
the window of a blocked push breaks both.
-/

namespace PerfVerif.Pipe

open RecordRing Transition

/-- The offsets of a block of the buffer. -/
def block (base : UInt32) (count : Nat) : Set Nat := Set.Ico base.toNat (base.toNat + count)

/-- The offsets of the header and of the payload of a record. -/
def Reservation.bytes (slot : Reservation) (length : UInt32) : Set Nat :=
  block slot.lengthPtr 4 ∪ block slot.payloadPtr length.toNat

/-- The call in progress for which `isFull` was false: from the load of a read pointer that
makes it false, through the reservation and the copies, to the publication. -/
def Accepted (cfg : Config) (s : State) (call : WriteCall) : Prop :=
  match s.writer with
  | .loadWrite current localReadPtr => current = call ∧
      isFullAt cfg.pipeSize call.length localReadPtr (getPointer s.pipe.writeVPtr) = false
  | .gate current full => current = call ∧ full = false
  | .reserving current full => current = call ∧ full = false
  | .header current _ => current = call
  | .copying current _ _ => current = call
  | .counting current _ => current = call
  | .publishing current _ => current = call
  | _ => False

/-- The bytes that a call writes from this state on: inside the buffer, header and payload
apart, no byte of an unread record among them, and the next micro-step of the writer stores
only there. -/
structure SafeWrite (cfg : Config) (s : State) (call : WriteCall) (slot : Reservation) :
    Prop where
  inside : slot.bytes call.length ⊆ Set.Iio cfg.pipeSize.toNat
  parts : Disjoint (block slot.lengthPtr 4) (block slot.payloadPtr call.length.toNat)
  unread : ∀ record ∈ s.unread,
    Disjoint (slot.bytes call.length) (record.slot.bytes record.length)
  stores : ∀ s' address, step cfg s .writer = some s' →
    s'.pipe.buf address ≠ s.pipe.buf address → address ∈ slot.bytes call.length

/-- Blocks that are apart are disjoint. -/
theorem block_disjoint {base target : UInt32} {count extent : Nat}
    (apart : base.toNat + count ≤ target.toNat ∨ target.toNat + extent ≤ base.toNat) :
    Disjoint (block base count) (block target extent) := by
  rw [Set.disjoint_left]
  intro address member other
  simp only [block, Set.mem_Ico] at member other
  omega

/-- An accepted call has passed the size check and has room, by the time it was accepted and
ever since. -/
theorem Accepted.room {cfg : Config} {s : State} {call : WriteCall}
    (bounds : WordBounds cfg.pipeSize) (inv : Inv cfg s) (accepted : Accepted cfg s call) :
    call.Admissible cfg ∧
      Room cfg (posOf cfg (s.published.take s.consumed)) (posOf cfg s.published) call := by
  obtain ⟨layout, content, facts⟩ := inv
  unfold Accepted at accepted
  cases control : s.writer with
  | loadWrite current localReadPtr =>
    rw [control] at facts accepted
    obtain ⟨rfl, free⟩ := accepted
    obtain ⟨admissible, seen, before, window, rfl⟩ := facts
    rw [layout.writeVPtr_eq, isFullAt_iff bounds admissible.short
      (Nat.le_trans before layout.ordered) window] at free
    exact ⟨admissible, Room.mono before free⟩
  | gate current full =>
    rw [control] at facts accepted
    obtain ⟨rfl, rfl⟩ := accepted
    exact ⟨facts.1, facts.2 rfl⟩
  | reserving current full =>
    rw [control] at facts accepted
    obtain ⟨rfl, rfl⟩ := accepted
    exact ⟨facts.1, facts.2 rfl⟩
  | header current slot =>
    rw [control] at facts accepted
    obtain rfl := accepted
    exact ⟨Granted.admissible facts, Granted.room facts⟩
  | copying current slot copied =>
    rw [control] at facts accepted
    obtain rfl := accepted
    exact ⟨facts.1.admissible, facts.1.room⟩
  | counting current slot =>
    rw [control] at facts accepted
    obtain rfl := accepted
    exact ⟨facts.1.admissible, facts.1.room⟩
  | publishing current slot =>
    rw [control] at facts accepted
    obtain rfl := accepted
    exact ⟨facts.1.admissible, facts.1.room⟩
  | _ =>
    rw [control] at accepted
    exact accepted.elim

/-- The micro-steps of the writer that store into the buffer store into the reserved bytes. -/
theorem writer_stores {cfg : Config} {s s' : State} {call : WriteCall} (inv : Inv cfg s)
    (accepted : Accepted cfg s call) (taken : step cfg s .writer = some s') (address : Nat)
    (changed : s'.pipe.buf address ≠ s.pipe.buf address) :
    address ∈ (reserve cfg.pipeSize s.pipe.writeVPtr call.length).bytes call.length := by
  have facts := inv.writer
  rcases writerStep_buf taken with same | ⟨current, slot, control, stored⟩ |
    ⟨current, slot, copied, byte, control, found, stored⟩
  · exact absurd (congrFun same address) changed
  · simp only [Accepted, control] at accepted
    subst accepted
    rw [control] at facts
    change Granted cfg s.pipe.writeVPtr s.pipe.nextWriteVPtr _ _ current slot at facts
    rw [stored] at changed
    have inside := Memory.store_changes _ _ _ _ changed
    rw [Words.ByteOrder.length_encode] at inside
    rw [← facts.slot_eq]
    exact Or.inl inside
  · simp only [Accepted, control] at accepted
    subst accepted
    rw [control] at facts
    have granted := facts.1
    have length : current.bytes.length = current.length.toNat := granted.admissible.copies
    have more : copied < current.bytes.length := (List.getElem?_eq_some_iff.mp found).1
    rw [stored] at changed
    have inside := Memory.store_changes _ _ _ _ changed
    rw [List.length_singleton] at inside
    rw [← granted.slot_eq]
    exact Or.inr ⟨by omega, by omega⟩

/-- In every disciplined run, from the moment `isFull` is false for a call until its record
is published, the header and payload bytes it writes lie inside the buffer, do not overlap
each other, and share no byte with a record that is unread at that moment. -/
theorem writes_avoid_unread {cfg : Config} {s : State} {call : WriteCall}
    (bounds : SizeBounds cfg.pipeSize) (reached : (system cfg).Reachable Disciplined s)
    (accepted : Accepted cfg s call) :
    SafeWrite cfg s call (reserve cfg.pipeSize s.pipe.writeVPtr call.length) := by
  have words := bounds.words
  have inv := reachable_inv words reached
  obtain ⟨admissible, room⟩ := accepted.room words inv
  have layout := inv.layout
  have half := half_of_le_max words.ten_le admissible.short
  have placed := reserve_placed words admissible.short (posOf cfg s.published)
  rw [← layout.writeVPtr_eq] at placed
  have ordered := layout.ordered
  have first : posOf cfg s.published ≤ headerAt cfg.pipeSize.toNat 4 (posOf cfg s.published) :=
    le_headerAt _
  have behind : headerAt cfg.pipeSize.toNat 4 (posOf cfg s.published) + 4 ≤
      payloadAt cfg.pipeSize.toNat 4 (posOf cfg s.published) call.length.toNat :=
    headerAt_add_le_payloadAt _ _
  have headerFits : headerAt cfg.pipeSize.toNat 4 (posOf cfg s.published) %
      (cfg.pipeSize.toNat + 1) + 4 ≤ cfg.pipeSize.toNat := headerAt_offset _ (by omega)
  have payloadFits : payloadAt cfg.pipeSize.toNat 4 (posOf cfg s.published) call.length.toNat %
      (cfg.pipeSize.toNat + 1) + call.length.toNat ≤ cfg.pipeSize.toNat :=
    payloadAt_offset _ _ (by omega)
  unfold Room nextPos endAt at room
  refine ⟨?_, ?_, ?_, fun s' address taken changed => writer_stores inv accepted taken address
    changed⟩
  · rintro address (member | member) <;>
      simp only [block, Set.mem_Ico, placed.lengthPtr, placed.payloadPtr] at member <;>
      simp only [Set.mem_Iio] <;> omega
  · apply block_disjoint
    rw [placed.lengthPtr, placed.payloadPtr]
    exact blocks_apart _ _ _ _ behind (by omega) headerFits payloadFits
  · intro record member
    obtain ⟨offset, inside, rfl⟩ := List.getElem_of_mem member
    simp only [State.unread, List.length_drop, List.getElem_drop] at inside ⊢
    have unread : s.consumed ≤ s.consumed + offset := Nat.le_add_right _ _
    have header := layout.unread_apart words (by omega) unread first (by omega) headerFits
    have payload := layout.unread_apart words (by omega) unread (by omega) (by omega) payloadFits
    rw [← placed.lengthPtr] at header
    rw [← placed.payloadPtr] at payload
    simp only [Reservation.bytes, Set.disjoint_union_left, Set.disjoint_union_right]
    exact ⟨⟨block_disjoint header.1.symm, block_disjoint payload.1.symm⟩,
      block_disjoint header.2.symm, block_disjoint payload.2.symm⟩

/-- After the restart run the third record is completed over the first one, and a fourth
push finds room. -/
def overrunRun : List Act :=
  restartRun ++ List.replicate 6 Act.writer ++ [Act.call (.push [7]), .writer, .writer, .writer]

/-- After a restart in the window, a push for which `isFull` is false writes over the second,
still unread record. -/
theorem restart_overwrites_unread :
    ¬ ∀ (cfg : Config) (s : State) (call : WriteCall), SizeBounds cfg.pipeSize →
      (system cfg).Reachable CallsCopy s → Accepted cfg s call →
      SafeWrite cfg s call (reserve cfg.pipeSize s.pipe.writeVPtr call.length) := by
  intro claimed
  let second : Record := ⟨5, 1, ⟨5, 9, 10⟩, [7]⟩
  have replay : ((system smallConfig).run (.start blankStorage) overrunRun).map
      (fun s => (s.writer, s.pipe.writeVPtr, decide (second ∈ s.unread))) =
      some (.gate (.push [7]) false, 4294967301, true) := by decide +kernel
  obtain ⟨s, replayed, shown⟩ := Option.map_eq_some_iff.mp replay
  obtain ⟨control, write, member⟩ : s.writer = .gate (.push [7]) false ∧
      s.pipe.writeVPtr = 4294967301 ∧ second ∈ s.unread := by simpa using shown
  have accepted : Accepted smallConfig s (.push [7]) := by
    rw [Accepted, control]
    exact ⟨rfl, rfl⟩
  have reached : (system smallConfig).Reachable CallsCopy s :=
    .of_run ⟨blankStorage, rfl⟩ overrunRun (callsCopy_of_all _ (by decide)) replayed
  have safe := claimed smallConfig s (.push [7]) ⟨by decide, by decide⟩ reached accepted
  rw [write] at safe
  have apart := safe.unread second member
  rw [Set.disjoint_left] at apart
  exact apart (Or.inl ⟨by decide, by decide⟩ : 5 ∈ _) (Or.inl ⟨by decide, by decide⟩)

/-- The first push into an empty pipe is accepted and safe. -/
theorem writes_avoid_unread_push :
    ∃ s, (system smallConfig).Reachable Disciplined s ∧ Accepted smallConfig s (.push [7]) ∧
      SafeWrite smallConfig s (.push [7]) (reserve 12 s.pipe.writeVPtr 1) := by
  let acts : List Act := [.call (.push [7]), .writer, .writer, .writer]
  have replay : ((system smallConfig).run (.start blankStorage) acts).map State.writer =
      some (.gate (.push [7]) false) := by decide +kernel
  obtain ⟨s, replayed, control⟩ := Option.map_eq_some_iff.mp replay
  have reached : (system smallConfig).Reachable Disciplined s :=
    .of_run ⟨blankStorage, rfl⟩ acts
      (by simp [acts, Disciplined, CallsCopy, NoRestartInWindow, WriteCall.Copies, WriteCall.push])
      replayed
  have accepted : Accepted smallConfig s (.push [7]) := by
    rw [Accepted, control]
    exact ⟨rfl, rfl⟩
  exact ⟨s, reached, accepted, writes_avoid_unread ⟨by decide, by decide⟩ reached accepted⟩

/-- What keeps an admissible element from blocking for ever: a full pipe has a record to
consume, consuming one takes no room away, and a drained pipe has room. -/
structure NoDeadlock (cfg : Config) (s : State) (length : UInt32) : Prop where
  consumable : s.pipe.isFull cfg.pipeSize length = true →
    s.pipe.isEmpty = false ∧ s.unread ≠ []
  frees : ∀ act s', step cfg s (.reader act) = some s' →
    s.pipe.isFull cfg.pipeSize length = false → s'.pipe.isFull cfg.pipeSize length = false
  drained : s.unread = [] → s.pipe.isFull cfg.pipeSize length = false

/-- On the layout of a run, `isFull` compares the end of the record with the read position. -/
theorem Inv.isFull_iff {cfg : Config} {s : State} {length : UInt32}
    (bounds : WordBounds cfg.pipeSize) (inv : Inv cfg s)
    (short : length ≤ maxPipeElementSize cfg.pipeSize) :
    s.pipe.isFull cfg.pipeSize length = false ↔
      nextPos cfg.pipeSize (posOf cfg s.published) length.toNat <
        posOf cfg (s.published.take s.consumed) + (cfg.pipeSize.toNat + 1) := by
  rw [LocklessPipe.isFull, inv.layout.readVPtr_eq, inv.layout.writeVPtr_eq]
  exact isFullAt_iff bounds short inv.layout.ordered inv.layout.window

/-- In every disciplined run and for every admissible length the writer cannot be blocked
for ever by a reader that keeps consuming. -/
theorem blocked_writer_can_be_freed {cfg : Config} {s : State} {length : UInt32}
    (bounds : SizeBounds cfg.pipeSize) (reached : (system cfg).Reachable Disciplined s)
    (short : length ≤ maxPipeElementSize cfg.pipeSize) : NoDeadlock cfg s length := by
  have words := bounds.words
  have inv := reachable_inv words reached
  have drained : s.unread = [] → s.pipe.isFull cfg.pipeSize length = false := by
    intro empty
    rw [inv.isFull_iff words short, List.take_of_length_le (List.drop_eq_nil_iff.mp empty)]
    exact endAt_lt_lap _ _ (half_of_le_max words.ten_le short)
  refine ⟨?_, ?_, drained⟩
  · intro full
    have unread : s.unread ≠ [] := fun empty => by simp [drained empty] at full
    refine ⟨?_, unread⟩
    rw [LocklessPipe.isEmpty, beq_eq_false_iff_ne, Ne, inv.layout.pointers_eq_iff]
    intro all
    exact unread (List.drop_eq_nil_iff.mpr (Nat.le_of_eq all.symm))
  · intro act s' taken free
    have inv' := readerStep_inv words inv taken
    rw [inv.isFull_iff words short] at free
    rw [inv'.isFull_iff words short]
    rcases readerStep_cases taken with ⟨-, -, -, rfl⟩ | ⟨-, -, -, rfl⟩ |
      ⟨-, counted, -, inside, rfl⟩ | ⟨-, stored, -, rfl⟩
    · exact free
    · exact free
    · have grown : posOf cfg (s.published.take s.consumed) ≤
          posOf cfg (s.published.take (s.consumed + 1)) :=
        posOf_take_mono cfg s.published (Nat.le_succ _) inside
      exact Nat.lt_of_lt_of_le free (Nat.add_le_add_right grown _)
    · exact free

/-- After a restart in the window, the reader is about to consume the second record. -/
def drainRun : List Act :=
  restartRun ++ List.replicate 6 Act.writer ++
    [Act.reader .begin, .reader .store, .reader .count, .reader .begin]

/-- After a restart in the window, consuming a record makes `isFull` true where it was
false. -/
theorem restart_makes_consuming_block :
    ¬ ∀ (cfg : Config) (s : State) (length : UInt32), SizeBounds cfg.pipeSize →
      (system cfg).Reachable CallsCopy s → length ≤ maxPipeElementSize cfg.pipeSize →
      NoDeadlock cfg s length := by
  intro claimed
  have replay : ((system smallConfig).run (.start blankStorage) drainRun).bind (fun s =>
      (step smallConfig s (.reader .store)).map fun s' =>
        (s.pipe.isFull 12 1, s'.pipe.isFull 12 1)) = some (false, true) := by decide +kernel
  obtain ⟨s, replayed, rest⟩ := Option.bind_eq_some_iff.mp replay
  obtain ⟨s', taken, shown⟩ := Option.map_eq_some_iff.mp rest
  obtain ⟨free, full⟩ := Prod.mk.inj shown
  have reached : (system smallConfig).Reachable CallsCopy s :=
    .of_run ⟨blankStorage, rfl⟩ drainRun (callsCopy_of_all _ (by decide)) replayed
  have progress := claimed smallConfig s 1 ⟨by decide, by decide⟩ reached (by decide)
  have kept := progress.frees .store s' taken free
  exact absurd (full.symm.trans kept) (by decide)

/-- The first push can only be blocked by a pipe with a record to consume. -/
theorem blocked_writer_can_be_freed_start :
    (1 : UInt32) ≤ maxPipeElementSize smallConfig.pipeSize ∧
      NoDeadlock smallConfig (.start blankStorage) 1 :=
  ⟨by decide, blocked_writer_can_be_freed ⟨by decide, by decide⟩ (.start ⟨blankStorage, rfl⟩)
    (by decide)⟩

end PerfVerif.Pipe
