import PerfVerif.Pipe.Invariant
import PerfVerif.Pipe.Accounting

/-!
# The representation invariant and the counters

`numRead_` counts the consumed records; it may be incremented before or after the read
pointer moves. With the two pointers less than a lap apart, the versions, the counters and
`validate` follow for every pipe at rest.
-/

namespace PerfVerif.Pipe

open RecordRing Transition

/-- Records of the current read already counted in `numRead_`. -/
def Reader.counted : Reader → Nat
  | .busy _ true => 1
  | _ => 0

/-- Records of the current read already passed by `readVPtr_`. -/
def Reader.stored : Reader → Nat
  | .busy true _ => 1
  | _ => 0

/-- The read counter and the constant words of the pipe. -/
structure CountFacts (s : State) : Prop where
  numRead_eq : ∃ done, s.pipe.numRead = UInt64.ofNat (done + s.reader.counted) ∧
    s.consumed = done + s.reader.stored ∧ (s.reader ≠ .idle → done < s.published.length)
  stomps : s.pipe.stomp1 = stomp ∧ s.pipe.stomp2 = stomp ∧ s.pipe.stomp3 = stomp ∧
    s.pipe.stomp4 = stomp

section Preservation

variable {cfg : Config} {s s' : State}

/-- Every step of another thread keeps the read counter in step with the records. -/
theorem CountFacts.beside {s s' : State} (facts : CountFacts s) (same : BesideReader s s') :
    CountFacts s' := by
  have ⟨⟨done, read, consumed, pending⟩, stomps⟩ := facts
  rw [← same.stomps.1, ← same.stomps.2.1, ← same.stomps.2.2.1, ← same.stomps.2.2.2] at stomps
  rw [← same.numRead, ← same.reader] at read
  rw [← same.consumed, ← same.reader] at consumed
  refine ⟨⟨done, read, consumed, ?_⟩, stomps⟩
  intro busy
  rw [same.reader] at busy
  exact Nat.lt_of_lt_of_le (pending busy) same.published.length_le

/-- A micro-step of the reader keeps the counters in step with the records. A read starts
only when a record is unread, since equal counts would make the pointers equal. -/
theorem readerStep_countFacts (inv : Inv cfg s) (facts : CountFacts s) {act : ReaderAct}
    (taken : readerStep s act = some s') : CountFacts s' := by
  obtain ⟨⟨done, read, consumed, pending⟩, stomps⟩ := facts
  rcases readerStep_cases taken with ⟨-, -, -, rfl⟩ | ⟨-, control, filled, rfl⟩ |
    ⟨-, counted, control, inside, rfl⟩ | ⟨-, stored, control, rfl⟩
  · exact ⟨⟨done, read, consumed, pending⟩, stomps⟩
  · rw [control] at read consumed
    refine ⟨⟨done, read, consumed, fun _ => ?_⟩, stomps⟩
    have different : s.pipe.readVPtr ≠ s.pipe.writeVPtr := by
      simpa [LocklessPipe.isEmpty] using filled
    rw [Ne, inv.layout.pointers_eq_iff] at different
    have bound := inv.layout.consumed_le
    change s.consumed = done at consumed
    change done < s.published.length
    omega
  · rw [control] at read consumed pending
    change s.consumed = done at consumed
    cases counted with
    | false => exact ⟨⟨done, read, by simp [Reader.settle, Reader.stored, consumed],
        fun _ => pending (by simp)⟩, stomps⟩
    | true => exact ⟨⟨done + 1, read, by simp [Reader.settle, Reader.stored, consumed],
        fun busy => absurd rfl busy⟩, stomps⟩
  · rw [control] at read consumed pending
    have counted : s.pipe.numRead + 1 = UInt64.ofNat (done + 1) := by
      rw [read]
      exact (UInt64.ofNat_add _ 1).symm
    cases stored with
    | false => exact ⟨⟨done, counted, consumed, fun _ => pending (by simp)⟩, stomps⟩
    | true => exact ⟨⟨done + 1, counted, consumed, fun busy => absurd rfl busy⟩, stomps⟩

/-- The counters are in step with the records in every state of a disciplined run. -/
theorem reachable_countFacts (bounds : WordBounds cfg.pipeSize)
    (reached : (system cfg).Reachable Disciplined s) : CountFacts s := by
  apply reached.invariant
  · rintro first ⟨storage, rfl⟩
    exact ⟨⟨0, rfl, rfl, fun busy => absurd rfl busy⟩, rfl, rfl, rfl, rfl⟩
  · intro before act after prior facts disciplined taken
    change step cfg before act = some after at taken
    cases act with
    | reader act => exact readerStep_countFacts (reachable_inv bounds prior) facts taken
    | _ => exact facts.beside (step_beside_reader (by simp) taken)

end Preservation

/-- A pointer into the ring stays inside the buffer. -/
theorem getPointer_vptrAt_le (pipeSize : UInt32) (pos : Nat) :
    getPointer (vptrAt pipeSize pos) ≤ pipeSize := by
  rw [UInt32.le_iff_toNat_le, getPointer_vptrAt_toNat]
  exact Nat.lt_succ_iff.mp (Nat.mod_lt _ (Nat.succ_pos _))

/-- The write pointer shows a position exactly one lap ahead of the one that the read pointer shows,
or in the second lap behind that one or a later one. Pointers tell `2 ^ 32` laps apart. -/
def Overtaken (pipeSize : UInt32) (readVPtr writeVPtr : UInt64) : Prop :=
  ∃ head tail, vptrAt pipeSize head = readVPtr ∧ vptrAt pipeSize tail = writeVPtr ∧
    tail / (pipeSize.toNat + 1) < head / (pipeSize.toNat + 1) + 2 ^ 32 ∧
    (tail = head + (pipeSize.toNat + 1) ∨
      head / (pipeSize.toNat + 1) + 1 < tail / (pipeSize.toNat + 1))

section Overtaking

variable {pipeSize : UInt32} {readVPtr writeVPtr : UInt64}

/-- Every pointer into the buffer shows a position. -/
theorem vptrAt_of_le {vptr : UInt64} {lap : Nat} (inside : getPointer vptr ≤ pipeSize)
    (version : UInt32.ofNat lap = getVersion vptr) :
    vptrAt pipeSize (lap * (pipeSize.toNat + 1) + (getPointer vptr).toNat) = vptr := by
  rw [vptrAt_split lap _ (UInt32.le_iff_toNat_le.mp inside)]
  apply versionedPointer_ext
  · rw [getVersion_getVersionedPointer, version]
  · rw [getPointer_getVersionedPointer, UInt32.ofNat_toNat]

/-- Of two positions at most `2 ^ 32` laps apart the versions show how many. -/
theorem getVersion_sub {head tail : Nat}
    (ordered : head / (pipeSize.toNat + 1) ≤ tail / (pipeSize.toNat + 1))
    (near : tail / (pipeSize.toNat + 1) < head / (pipeSize.toNat + 1) + 2 ^ 32) :
    (getVersion (vptrAt pipeSize tail) - getVersion (vptrAt pipeSize head)).toNat =
      tail / (pipeSize.toNat + 1) - head / (pipeSize.toNat + 1) := by
  rw [getVersion_vptrAt, getVersion_vptrAt, UInt32.toNat_sub, UInt32.toNat_ofNat',
    UInt32.toNat_ofNat']
  omega

/-- The two comparisons that `validate` makes of the pointers find an overtaken reader and nothing
else. -/
theorem overtaken_iff : Overtaken pipeSize readVPtr writeVPtr ↔
    getPointer readVPtr ≤ pipeSize ∧ getPointer writeVPtr ≤ pipeSize ∧
      (getVersion writeVPtr - getVersion readVPtr > 1 ∨
        (getPointer writeVPtr = getPointer readVPtr ∧
          getVersion writeVPtr ≠ getVersion readVPtr)) := by
  constructor
  · rintro ⟨head, tail, rfl, rfl, near, apart⟩
    refine ⟨getPointer_vptrAt_le _ _, getPointer_vptrAt_le _ _, ?_⟩
    rcases apart with rfl | laps
    · right
      have next : (head + (pipeSize.toNat + 1)) / (pipeSize.toNat + 1) =
          head / (pipeSize.toNat + 1) + 1 := Nat.add_div_right _ (Nat.succ_pos _)
      have one := getVersion_sub (by omega) near
      constructor
      · apply UInt32.toNat.inj
        rw [getPointer_vptrAt_toNat, getPointer_vptrAt_toNat, Nat.add_mod_right]
      · intro same
        rw [same, UInt32.sub_self, next, Nat.add_sub_cancel_left] at one
        contradiction
    · left
      have several := getVersion_sub (by omega) near
      rw [gt_iff_lt, UInt32.lt_iff_toNat_lt, several]
      change 1 < _
      omega
  · rintro ⟨readInside, writeInside, tests⟩
    let laps := (getVersion writeVPtr - getVersion readVPtr).toNat
    have version : UInt32.ofNat ((getVersion readVPtr).toNat + laps) = getVersion writeVPtr := by
      rw [UInt32.ofNat_add, UInt32.ofNat_toNat, UInt32.ofNat_toNat, UInt32.add_comm,
        UInt32.sub_add_cancel]
    have few : laps < 2 ^ 32 := UInt32.toNat_lt _
    have readBound := UInt32.le_iff_toNat_le.mp readInside
    have writeBound := UInt32.le_iff_toNat_le.mp writeInside
    refine ⟨_, _, vptrAt_of_le readInside (UInt32.ofNat_toNat), vptrAt_of_le writeInside version,
      ?_, ?_⟩
    · rw [lap_of_split _ _ readBound, lap_of_split _ _ writeBound]
      omega
    · rw [lap_of_split _ _ readBound, lap_of_split _ _ writeBound]
      by_cases several : 1 < laps
      · exact Or.inr (by omega)
      · rcases tests with more | ⟨pointers, versions⟩
        · exact absurd (UInt32.lt_iff_toNat_lt.mp more) several
        · have some : laps ≠ 0 := by
            intro none
            rw [none, Nat.add_zero, UInt32.ofNat_toNat] at version
            exact versions version.symm
          have one : laps = 1 := by omega
          left
          rw [one, pointers, Nat.succ_mul]
          omega

instance : Decidable (Overtaken pipeSize readVPtr writeVPtr) :=
  decidable_of_iff _ overtaken_iff.symm

end Overtaking

/-- With ordered counts, intact constant words and two pointers into the ring, `validate`
rejects an overtaken read pointer only. -/
theorem validateWith_iff {pipeSize : UInt32} {pipe : LocklessPipe}
    {numRead numWritten : UInt64} {head tail : Nat} (counts : numRead ≤ numWritten)
    (stomps : pipe.stomp1 = stomp ∧ pipe.stomp2 = stomp ∧ pipe.stomp3 = stomp ∧
      pipe.stomp4 = stomp) :
    pipe.validateWith pipeSize numRead numWritten (vptrAt pipeSize head)
      (vptrAt pipeSize tail) = true ↔
      ¬ Overtaken pipeSize (vptrAt pipeSize head) (vptrAt pipeSize tail) := by
  obtain ⟨stomp1, stomp2, stomp3, stomp4⟩ := stomps
  have inside : ∀ pos, getPointer (vptrAt pipeSize pos) ≤ pipeSize := getPointer_vptrAt_le pipeSize
  have inBounds : ∀ pos, ¬ getPointer (vptrAt pipeSize pos) > pipeSize := fun pos =>
    UInt32.not_lt.mpr (inside pos)
  rw [overtaken_iff, and_iff_right (inside head), and_iff_right (inside tail)]
  simp only [LocklessPipe.validateWith, LocklessPipe.validateErrors,
    if_neg (UInt64.not_lt.mpr counts), if_neg (inBounds _), stomp1, stomp2, stomp3, stomp4,
    ne_eq, not_true_eq_false, or_self, ↓reduceIte, List.nil_append, List.append_nil]
  by_cases versions : getVersion (vptrAt pipeSize tail) - getVersion (vptrAt pipeSize head) > 1
  · rw [if_pos versions]
    exact iff_of_false (by simp) (not_not_intro (Or.inl versions))
  · rw [if_neg versions]
    by_cases same : getPointer (vptrAt pipeSize tail) = getPointer (vptrAt pipeSize head) ∧
        getVersion (vptrAt pipeSize tail) ≠ getVersion (vptrAt pipeSize head)
    · rw [if_pos same]
      exact iff_of_false (by simp) (not_not_intro (Or.inr same))
    · rw [if_neg same]
      exact iff_of_true rfl (not_or_intro versions same)

/-- A write position less than a lap ahead of the read position has not overtaken it. -/
theorem not_overtaken_of_window {pipeSize : UInt32} {head tail : Nat} (ordered : head ≤ tail)
    (window : tail < head + (pipeSize.toNat + 1)) :
    ¬ Overtaken pipeSize (vptrAt pipeSize head) (vptrAt pipeSize tail) := by
  rw [overtaken_iff]
  rintro ⟨-, -, ahead | ⟨pointers, versions⟩⟩
  · rcases vptrAt_window ordered window with ⟨version, -⟩ | ⟨version, -⟩
    · rw [version, UInt32.sub_self] at ahead
      exact absurd ahead (by decide)
    · rw [version, UInt32.add_comm, UInt32.add_sub_cancel] at ahead
      exact absurd ahead (by decide)
  · rcases vptrAt_window ordered window with ⟨version, -⟩ | ⟨-, pointer⟩
    · exact versions version
    · simp [pointers] at pointer

/-- The steps of the runs in which the writer, never stopped, makes pushes of values no
longer than the element limit. -/
def RunningPushes (cfg : Config) (_ : State) : Act → Prop
  | .call call => ∃ value : List UInt8, call = .push value ∧
      value.length ≤ (maxPipeElementSize cfg.pipeSize).toNat
  | .stopWriter => False
  | .startWriter => False
  | _ => True

/-- A value that fits 32 bits is copied with the length it announces. -/
theorem push_copies {value : List UInt8} (short : value.length < 2 ^ 32) :
    (WriteCall.push value).Copies := by
  rw [WriteCall.Copies, WriteCall.push, UInt32.toNat_ofNat']
  exact (Nat.mod_eq_of_lt short).symm

/-- A push of a writer never stopped, and a read, are disciplined. -/
theorem runningPushes_disciplined (cfg : Config) (s : State) (act : Act)
    (running : RunningPushes cfg s act) : Disciplined s act := by
  cases act with
  | call call =>
    obtain ⟨value, rfl, short⟩ := running
    have bound := (maxPipeElementSize cfg.pipeSize).toNat_lt
    exact ⟨push_copies (by omega), trivial⟩
  | stopWriter => exact running.elim
  | startWriter => exact running.elim
  | _ => exact ⟨trivial, trivial⟩

/-- The representation invariant: pointers inside the buffer, versions equal with ordered
pointers or one apart with the writer behind the reader, each record bumping the version at
most once, and, with both threads at rest, `isEmpty`, `count`, the counters and `validate`
agreeing with the unread records. The counts are compared as long as fewer than `2 ^ 64`
records were written. -/
structure Represents (cfg : Config) (s : State) : Prop where
  readPtr_le : getPointer s.pipe.readVPtr ≤ cfg.pipeSize
  writePtr_le : getPointer s.pipe.writeVPtr ≤ cfg.pipeSize
  versions : (getVersion s.pipe.writeVPtr = getVersion s.pipe.readVPtr ∧
      getPointer s.pipe.readVPtr ≤ getPointer s.pipe.writeVPtr) ∨
    (getVersion s.pipe.writeVPtr = getVersion s.pipe.readVPtr + 1 ∧
      getPointer s.pipe.writeVPtr < getPointer s.pipe.readVPtr)
  bumps : ∀ record ∈ s.published,
    getVersion record.slot.nextWriteVPtr = getVersion record.start ∨
      getVersion record.slot.nextWriteVPtr = getVersion record.start + 1
  isEmpty_iff : s.pipe.isEmpty = true ↔ s.unread.length = 0
  count_eq : s.writer = .idle → s.reader = .idle → s.pipe.count.toNat = s.unread.length
  counts : s.writer = .idle → s.reader = .idle → s.published.length < 2 ^ 64 →
    s.pipe.numRead ≤ s.pipe.numWritten ∧ s.pipe.validate cfg.pipeSize = true

/-- A record bumps the version at most once. -/
theorem Record.At.version_cases {cfg : Config} {pos : Nat} {record : Record}
    (bounds : WordBounds cfg.pipeSize) (located : record.At cfg pos) :
    getVersion record.slot.nextWriteVPtr = getVersion record.start ∨
      getVersion record.slot.nextWriteVPtr = getVersion record.start + 1 := by
  rw [(located.placed bounds).nextWriteVPtr, located.start_eq]
  have half := half_of_le_max bounds.ten_le located.short
  have later : pos + 4 + record.length.toNat ≤
      nextPos cfg.pipeSize pos record.length.toNat := add_le_endAt _ _
  have ordered : pos ≤ nextPos cfg.pipeSize pos record.length.toNat := by omega
  rcases vptrAt_window ordered (endAt_lt_lap _ _ half) with ⟨version, -⟩ | ⟨version, -⟩
  · exact Or.inl version
  · exact Or.inr version

/-- Every unread record takes at least its header, so the pipe holds a quarter of its size in
records at most. -/
theorem Layout.few_unread {cfg : Config} {readVPtr writeVPtr : UInt64}
    {published : List Record} {consumed : Nat}
    (layout : Layout cfg readVPtr writeVPtr published consumed) :
    4 * (published.length - consumed) < cfg.pipeSize.toNat + 1 := by
  have consumedLe := layout.consumed_le
  have grown := posOf_take_add_le cfg published consumed (published.length - consumed) (by omega)
  rw [Nat.add_sub_cancel' consumedLe, List.take_length] at grown
  have window := layout.window
  omega

/-- With both threads at rest the counters are the numbers of records written and read. -/
theorem counters_at_rest {s : State} (writes : WriteCounts s) (counts : CountFacts s)
    (writing : s.writer = .idle) (reading : s.reader = .idle) :
    s.pipe.numWritten = UInt64.ofNat s.published.length ∧
      s.pipe.numRead = UInt64.ofNat s.consumed := by
  have written := writes.numWritten_eq
  have ⟨done, read, consumed, _⟩ := counts.numRead_eq
  rw [writing] at written
  rw [reading] at read consumed
  change s.consumed = done at consumed
  exact ⟨written, by rw [consumed]; exact read⟩

/-- The representation invariant holds in every run of completed pushes and record reads,
also between the micro-steps of either. -/
theorem pushes_and_reads_represent {cfg : Config} {s : State} (bounds : SizeBounds cfg.pipeSize)
    (reached : (system cfg).Reachable (RunningPushes cfg) s) : Represents cfg s := by
  have disciplined := reached.mono (runningPushes_disciplined cfg)
  have layout := (reachable_inv bounds.words disciplined).layout
  have counts := reachable_countFacts bounds.words disciplined
  have atRest := counters_at_rest (reachable_writeCounts reached) counts
  have unread : s.unread.length = s.published.length - s.consumed := List.length_drop
  have consumedLe := layout.consumed_le
  have few := layout.few_unread
  have most := bounds.le_half
  refine ⟨?_, ?_, ?_, ?_, ?_, ?_, ?_⟩
  · rw [layout.readVPtr_eq]
    exact getPointer_vptrAt_le _ _
  · rw [layout.writeVPtr_eq]
    exact getPointer_vptrAt_le _ _
  · rw [layout.readVPtr_eq, layout.writeVPtr_eq]
    exact vptrAt_window layout.ordered layout.window
  · intro record member
    obtain ⟨index, inside, rfl⟩ := List.getElem_of_mem member
    exact (layout.located index inside).version_cases bounds.words
  · rw [LocklessPipe.isEmpty, beq_iff_eq, layout.pointers_eq_iff, unread]
    omega
  · intro writing reading
    have ⟨numWritten, numRead⟩ := atRest writing reading
    rw [LocklessPipe.count, numWritten, numRead, ← UInt64.ofNat_sub consumedLe,
      UInt64.toNat_toUInt32, UInt64.toNat_ofNat', unread]
    omega
  · intro writing reading bound
    have ⟨numWritten, numRead⟩ := atRest writing reading
    have ordered : s.pipe.numRead ≤ s.pipe.numWritten := by
      rw [numWritten, numRead, UInt64.le_iff_toNat_le, UInt64.toNat_ofNat', UInt64.toNat_ofNat']
      omega
    refine ⟨ordered, ?_⟩
    rw [LocklessPipe.validate, layout.readVPtr_eq, layout.writeVPtr_eq,
      validateWith_iff ordered counts.stomps]
    exact not_overtaken_of_window layout.ordered layout.window

/-- After one push a small pipe represents one unread record. -/
theorem pushes_and_reads_represent_push :
    ∃ s, (system smallConfig).Reachable (RunningPushes smallConfig) s ∧ s.writer = .idle ∧
      s.reader = .idle ∧ s.published.length = 1 ∧ s.pipe.validate 12 = true ∧
      Represents smallConfig s := by
  have replay : ((system smallConfig).run (.start blankStorage) pushByte).map
      (fun s => (s.writer, s.reader, s.published.length)) = some (.idle, .idle, 1) := by
    decide +kernel
  obtain ⟨s, replayed, shown⟩ := Option.map_eq_some_iff.mp replay
  obtain ⟨writing, reading, one⟩ : s.writer = .idle ∧ s.reader = .idle ∧
      s.published.length = 1 := by simpa using shown
  have admitted : ∀ state, ∀ act ∈ pushByte, RunningPushes smallConfig state act := by
    intro state act member
    have kinds : ∀ act ∈ pushByte, act = .call (.push [7]) ∨ act = .writer := by decide
    rcases kinds act member with rfl | rfl
    · exact ⟨[7], rfl, by decide⟩
    · trivial
  have reached : (system smallConfig).Reachable (RunningPushes smallConfig) s :=
    .of_run ⟨blankStorage, rfl⟩ pushByte admitted replayed
  have represents := pushes_and_reads_represent ⟨by decide, by decide⟩ reached
  exact ⟨s, reached, writing, reading, one, (represents.counts writing reading (by omega)).2,
    represents⟩

end PerfVerif.Pipe
