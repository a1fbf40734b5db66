import PerfVerif.Pipe.Gate
import PerfVerif.Pipe.Pointers
import PerfVerif.Pipe.Schedules

/-!
# What `isFull` says

The comment in `isFull` names a simpler test: increment the write pointer and compare
versions. On two pointers that satisfy the representation invariant and for admissible
lengths, the nested tests of the source are that comparison.

`isFull` is public and takes every 32-bit length, while the element limit is checked in
`startWrite` only. For a longer element it tells the truth exactly when the record does not
fit the free part of the buffer and no sum wraps.
-/

namespace PerfVerif.Pipe

open RecordRing Transition

/-- The representation invariant of the two pointers: inside the buffer, in the same lap with
the reader not ahead, or the writer in the next lap and behind the reader. -/
structure Coherent (pipeSize : UInt32) (readVPtr writeVPtr : UInt64) : Prop where
  readPtr_le : getPointer readVPtr ≤ pipeSize
  writePtr_le : getPointer writeVPtr ≤ pipeSize
  versions : (getVersion writeVPtr = getVersion readVPtr ∧
      getPointer readVPtr ≤ getPointer writeVPtr) ∨
    (getVersion writeVPtr = getVersion readVPtr + 1 ∧
      getPointer writeVPtr < getPointer readVPtr)

/-- A versioned pointer inside the buffer shows the position of any lap with its version. -/
theorem eq_vptrAt {pipeSize : UInt32} {vptr : UInt64} (lap : Nat)
    (version : UInt32.ofNat lap = getVersion vptr) (inside : getPointer vptr ≤ pipeSize) :
    vptr = vptrAt pipeSize (lap * (pipeSize.toNat + 1) + (getPointer vptr).toNat) := by
  rw [vptrAt_split lap _ (UInt32.le_iff_toNat_le.mp inside), version, UInt32.ofNat_toNat]
  exact versionedPointer_ext (by simp) (by simp)

/-- Coherent pointers show two positions less than a lap apart. -/
theorem Coherent.positions {pipeSize : UInt32} {readVPtr writeVPtr : UInt64}
    (coherent : Coherent pipeSize readVPtr writeVPtr) :
    ∃ head tail, readVPtr = vptrAt pipeSize head ∧ writeVPtr = vptrAt pipeSize tail ∧
      head ≤ tail ∧ tail < head + (pipeSize.toNat + 1) := by
  have ⟨readLe, writeLe, versions⟩ := coherent
  have readFits := UInt32.le_iff_toNat_le.mp readLe
  have writeFits := UInt32.le_iff_toNat_le.mp writeLe
  have lapWord : UInt32.ofNat (getVersion readVPtr).toNat = getVersion readVPtr :=
    UInt32.ofNat_toNat
  have read := eq_vptrAt _ lapWord readLe
  rcases versions with ⟨same, ordered⟩ | ⟨next, behind⟩
  · rw [UInt32.le_iff_toNat_le] at ordered
    have write := eq_vptrAt _ (lapWord.trans same.symm) writeLe
    exact ⟨_, _, read, write, by omega, by omega⟩
  · rw [UInt32.lt_iff_toNat_lt] at behind
    have write := eq_vptrAt ((getVersion readVPtr).toNat + 1)
      (by rw [UInt32.ofNat_add, lapWord, next]; rfl) writeLe
    have lap := next_lap pipeSize.toNat (getVersion readVPtr).toNat
    exact ⟨_, _, read, write, by omega, by omega⟩

/-- The next version differs from a version, and so does the one behind it. -/
theorem version_succ_ne (version : UInt32) : version + 1 ≠ version ∧ version + 1 + 1 ≠ version := by
  have bound := version.toNat_lt
  have one : (1 : UInt32).toNat = 1 := rfl
  constructor <;> intro same <;> have sums := congrArg UInt32.toNat same <;>
    simp only [UInt32.toNat_add, one] at sums <;> omega

/-- A position less than two laps ahead is less than one lap ahead exactly when its version
is the same, or the next one with a smaller pointer. -/
theorem within_lap_iff {pipeSize : UInt32} {head tail : Nat} (ordered : head ≤ tail)
    (near : tail < head + (pipeSize.toNat + 1) + (pipeSize.toNat + 1)) :
    tail < head + (pipeSize.toNat + 1) ↔
      getVersion (vptrAt pipeSize tail) = getVersion (vptrAt pipeSize head) ∨
        (getVersion (vptrAt pipeSize tail) = getVersion (vptrAt pipeSize head) + 1 ∧
          getPointer (vptrAt pipeSize tail) < getPointer (vptrAt pipeSize head)) := by
  constructor
  · intro window
    rcases vptrAt_window ordered window with ⟨version, -⟩ | behind
    · exact Or.inl version
    · exact Or.inr behind
  · intro compared
    by_contra beyond
    -- one lap on, the head shows the next version and the same pointer
    have lapped : getVersion (vptrAt pipeSize (head + (pipeSize.toNat + 1))) =
        getVersion (vptrAt pipeSize head) + 1 := by
      rw [getVersion_vptrAt, getVersion_vptrAt, Nat.add_div_right _ (Nat.succ_pos _),
        UInt32.ofNat_add]
      rfl
    have pointer : getPointer (vptrAt pipeSize (head + (pipeSize.toNat + 1))) =
        getPointer (vptrAt pipeSize head) := by
      apply UInt32.toNat.inj
      rw [getPointer_vptrAt_toNat, getPointer_vptrAt_toNat, Nat.add_mod_right]
    have ⟨nextNe, secondNe⟩ := version_succ_ne (getVersion (vptrAt pipeSize head))
    have later := vptrAt_window (Nat.not_lt.mp beyond) near
    rw [lapped, pointer] at later
    rcases later with ⟨version, ahead⟩ | ⟨version, -⟩ <;> rw [version] at compared
    · rcases compared with same | ⟨-, smaller⟩
      · exact nextNe same
      · exact UInt32.not_lt.mpr ahead smaller
    · rcases compared with same | ⟨same, -⟩
      · exact secondNe same
      · exact (version_succ_ne _).1 same

/-- `isFull` is the comparison its comment describes: for pointers that satisfy the
representation invariant and an admissible length it is false exactly when the pointer that
`startWrite` would store in `nextWriteVPtr_` has the version of the read pointer, or the next
version and a smaller pointer. -/
theorem isFull_compares_incremented {pipeSize length : UInt32} {pipe : LocklessPipe}
    (bounds : SizeBounds pipeSize) (coherent : Coherent pipeSize pipe.readVPtr pipe.writeVPtr)
    (short : length ≤ maxPipeElementSize pipeSize) :
    pipe.isFull pipeSize length = false ↔
      getVersion (reserve pipeSize pipe.writeVPtr length).nextWriteVPtr =
          getVersion pipe.readVPtr ∨
        (getVersion (reserve pipeSize pipe.writeVPtr length).nextWriteVPtr =
            getVersion pipe.readVPtr + 1 ∧
          getPointer (reserve pipeSize pipe.writeVPtr length).nextWriteVPtr <
            getPointer pipe.readVPtr) := by
  have ⟨head, tail, read, write, ordered, window⟩ := coherent.positions
  have half := half_of_le_max bounds.ten_le short
  have placed := reserve_placed bounds.words short tail
  have later : tail + 4 + length.toNat ≤ nextPos pipeSize tail length.toNat := add_le_endAt _ _
  have near : nextPos pipeSize tail length.toNat < tail + (pipeSize.toNat + 1) :=
    endAt_lt_lap _ _ half
  rw [LocklessPipe.isFull, read, write, isFullAt_iff bounds.words short ordered window,
    placed.nextWriteVPtr]
  exact within_lap_iff (by omega) (by omega)

/-- Across a wrap of the version: the reader in the last version at offset eleven, the writer
in version zero at offset five, and a record of one byte that ends at offset ten. -/
theorem isFull_compares_incremented_lapped :
    let pipe := { blankStorage with readVPtr := 0xFFFFFFFF0000000B, writeVPtr := 5 }
    Coherent 12 pipe.readVPtr pipe.writeVPtr ∧ pipe.isFull 12 1 = false := by
  intro pipe
  have coherent : Coherent 12 pipe.readVPtr pipe.writeVPtr :=
    ⟨by decide, by decide, Or.inr (by decide)⟩
  have compared := isFull_compares_incremented ⟨by decide, by decide⟩ coherent
    (by decide : (1 : UInt32) ≤ maxPipeElementSize 12)
  exact ⟨coherent, compared.mpr (Or.inr (by decide))⟩

/-- `startWrite(length, false)`, run on the fields of a state while no other thread moves,
returns a pointer: the call comes to the copy of its bytes. -/
def ReturnsPointer (cfg : Config) (s : State) (length : UInt32) (bytes : List UInt8) : Prop :=
  ∃ steps s' slot, (system cfg).run { s with writer := .idle }
    (.call (.tryWrite length bytes) :: List.replicate steps .writer) = some s' ∧
      s'.writer = .copying (.tryWrite length bytes) slot 0

/-- A call on its way to a NULL pointer, with the fields as they were: before the size check or
behind the call, or past the size check and short of the copy, with `full` true from `isFull` on. -/
def Refused (cfg : Config) (pipe : LocklessPipe) (call : WriteCall) (s : State) : Prop :=
  s.pipe = pipe ∧ (s.writer = .idle ∨ s.writer = .entered call ∨
    call.length ≤ maxPipeElementSize cfg.pipeSize ∧
      (s.writer = .loadRead call ∨ s.writer = .loadWrite call (getPointer pipe.readVPtr) ∨
        s.writer = .loopFlag call ∨ s.writer = .gate call true))

/-- A call that does not block and does not pass the size check or finds the pipe full stays on
its way to NULL. -/
theorem writerStep_refused {cfg : Config} {pipe : LocklessPipe} {call : WriteCall} {s s' : State}
    (running : pipe.isWriterRunning = true) (trying : call.block = false)
    (full : call.length ≤ maxPipeElementSize cfg.pipeSize →
      pipe.isFull cfg.pipeSize call.length = true)
    (refused : Refused cfg pipe call s) (taken : writerStep cfg s = some s') :
    Refused cfg pipe call s' := by
  obtain ⟨rfl, idle | entered | ⟨short, point⟩⟩ := refused
  · simp [writerStep, idle] at taken
  · simp only [writerStep, entered] at taken
    split at taken
    · cases taken
      exact ⟨rfl, Or.inl rfl⟩
    · rename_i short
      cases taken
      exact ⟨rfl, Or.inr (Or.inr ⟨UInt32.not_lt.mp short, Or.inl rfl⟩)⟩
  · have isFull := full short
    rw [LocklessPipe.isFull] at isFull
    rcases point with control | control | control | control
    · simp only [writerStep, control, Option.some.injEq] at taken
      subst taken
      exact ⟨rfl, Or.inr (Or.inr ⟨short, Or.inr (Or.inl rfl)⟩)⟩
    · simp only [writerStep, control, isFull, ↓reduceIte, Option.some.injEq] at taken
      subst taken
      exact ⟨rfl, Or.inr (Or.inr ⟨short, Or.inr (Or.inr (Or.inl rfl))⟩)⟩
    · simp only [writerStep, control, trying, Bool.and_false, Bool.false_eq_true, ↓reduceIte,
        Option.some.injEq] at taken
      subst taken
      exact ⟨rfl, Or.inr (Or.inr ⟨short, Or.inr (Or.inr (Or.inr rfl))⟩)⟩
    · simp only [writerStep, control, running, trying, Bool.not_true, Bool.not_false,
        Bool.and_self, Bool.false_eq_true, ↓reduceIte, Option.some.injEq] at taken
      subst taken
      exact ⟨rfl, Or.inl rfl⟩

/-- With the writer running, `startWrite` returns a pointer exactly when the length passes the
size check and `isFull` is false. -/
theorem returnsPointer_iff {cfg : Config} {s : State} {length : UInt32} {bytes : List UInt8}
    (running : s.pipe.isWriterRunning = true) :
    ReturnsPointer cfg s length bytes ↔
      length ≤ maxPipeElementSize cfg.pipeSize ∧ s.pipe.isFull cfg.pipeSize length = false := by
  constructor
  · intro ⟨steps, s', slot, replayed, control⟩
    by_contra unfit
    have full : length ≤ maxPipeElementSize cfg.pipeSize →
        s.pipe.isFull cfg.pipeSize length = true :=
      fun short => Bool.of_not_eq_false (fun free => unfit ⟨short, free⟩)
    -- every micro-step of the call keeps it on its way to NULL
    have path : (system cfg).Leads (fun _ act => act = .writer)
        { s with
          writer := .entered (.tryWrite length bytes),
          calls := s.calls ++ [.tryWrite length bytes] } s' :=
      System.leads_of_run (List.replicate steps .writer)
        (fun _ _ member => List.eq_of_mem_replicate member) replayed
    have refused : Refused cfg s.pipe (.tryWrite length bytes) s' := by
      apply System.leads_invariant _ _ path
      · exact ⟨rfl, Or.inr (Or.inl rfl)⟩
      · rintro before act after kept rfl taken
        exact writerStep_refused running rfl full kept taken
    simp [Refused, control] at refused
  · intro ⟨short, free⟩
    have returned := @run_startWrite cfg { s with writer := .idle } (.tryWrite length bytes) rfl
      running short free
    exact ⟨6, _, _, returned, rfl⟩

/-- A record fits the free part of the buffer, header included: in front of a reader that is
ahead, at the front when the header passes the end, and else before the end or, the payload
alone, at the front. -/
def FitsFree (size read write length : Nat) : Prop :=
  if write < read then write + (length + 4) < read
  else if size < write + 4 then length + 4 < read
  else write + 4 + length ≤ size ∨ length < read

/-- The sum that `isFull` forms for a record passes `2 ^ 32` and comes out small enough. -/
def WrapsShort (size read write length : Nat) : Prop :=
  if write < read then 2 ^ 32 ≤ write + (length + 4) ∧ write + (length + 4) < 2 ^ 32 + read
  else if size < write + 4 then 2 ^ 32 ≤ length + 4 ∧ length + 4 < 2 ^ 32 + read
  else 2 ^ 32 ≤ write + 4 + length

/-- `isFull` is false for the lengths that fit and for those whose sums wrap. -/
theorem isFullAt_iff_fits {pipeSize length localReadPtr localWritePtr : UInt32}
    (bounds : SizeBounds pipeSize) (inside : localWritePtr ≤ pipeSize) :
    isFullAt pipeSize length localReadPtr localWritePtr = false ↔
      FitsFree pipeSize.toNat localReadPtr.toNat localWritePtr.toNat length.toNat ∨
        WrapsShort pipeSize.toNat localReadPtr.toNat localWritePtr.toNat length.toNat := by
  have most := bounds.le_half
  have fits := UInt32.le_iff_toNat_le.mp inside
  have lengthBound := length.toNat_lt
  have fourWord : lengthBytes.toNat = 4 := rfl
  have behind : (localWritePtr + lengthBytes).toNat = localWritePtr.toNat + 4 :=
    ptr_add_toNat _ _ (by omega)
  have headerWraps := isWrap_iff pipeSize lengthBytes localWritePtr (by omega)
  rw [fourWord] at headerWraps
  have lapped : (localWritePtr + (length + lengthBytes)).toNat =
      (localWritePtr.toNat + (length.toNat + 4)) % 2 ^ 32 := by
    rw [UInt32.toNat_add, UInt32.toNat_add, fourWord, Nat.add_mod_mod]
  have front : (length + lengthBytes).toNat = (length.toNat + 4) % 2 ^ 32 := by
    rw [UInt32.toNat_add, fourWord]
  have payloadWraps : isWrap pipeSize length (localWritePtr + lengthBytes) = true ↔
      pipeSize.toNat < (localWritePtr.toNat + 4 + length.toNat) % 2 ^ 32 := by
    simp only [isWrap, decide_eq_true_eq, gt_iff_lt, UInt32.lt_iff_toNat_lt, UInt32.toNat_add,
      behind]
  simp only [isFullAt, FitsFree, WrapsShort, gt_iff_lt, UInt32.lt_iff_toNat_lt, lapped, front,
    headerWraps, payloadWraps]
  split
  · split <;> simp only [true_iff, Bool.true_eq_false, false_iff] <;> omega
  · split
    · split <;> simp only [true_iff, Bool.true_eq_false, false_iff] <;> omega
    · split
      · split <;> simp only [true_iff, Bool.true_eq_false, false_iff] <;> omega
      · simp only [true_iff]
        omega

/-- In every reachable state with the writer running, `isFull` and `startWrite` agree about a
length exactly when the length is within the element limit, or it neither fits the free part
of the buffer nor makes the sums of `isFull` wrap. -/
theorem isFull_agrees_iff {cfg : Config} {s : State} {length : UInt32} {bytes : List UInt8}
    (bounds : SizeBounds cfg.pipeSize) (reached : (system cfg).Reachable System.always s)
    (running : s.pipe.isWriterRunning = true) :
    (s.pipe.isFull cfg.pipeSize length = false ↔ ReturnsPointer cfg s length bytes) ↔
      length ≤ maxPipeElementSize cfg.pipeSize ∨
        ¬ FitsFree cfg.pipeSize.toNat (getPointer s.pipe.readVPtr).toNat
            (getPointer s.pipe.writeVPtr).toNat length.toNat ∧
          ¬ WrapsShort cfg.pipeSize.toNat (getPointer s.pipe.readVPtr).toNat
            (getPointer s.pipe.writeVPtr).toNat length.toNat := by
  have facts := reachable_pointerFacts bounds.ten_le reached
  have tested := @isFullAt_iff_fits cfg.pipeSize length (getPointer s.pipe.readVPtr)
    (getPointer s.pipe.writeVPtr) bounds facts.writePtr_le
  rw [returnsPointer_iff running, ← not_or, ← tested, LocklessPipe.isFull]
  by_cases short : length ≤ maxPipeElementSize cfg.pipeSize
  · simp [short]
  · simp [short]

/-- An empty pipe of twelve bytes reports room for five bytes, which `startWrite` refuses. -/
theorem isFull_admits_refused_length :
    ¬ ∀ (cfg : Config) (s : State) (length : UInt32) (bytes : List UInt8),
      SizeBounds cfg.pipeSize → (system cfg).Reachable System.always s →
      s.pipe.isWriterRunning = true →
      (s.pipe.isFull cfg.pipeSize length = false ↔ ReturnsPointer cfg s length bytes) := by
  intro claimed
  have agrees := claimed smallConfig (.start blankStorage) 5 [] ⟨by decide, by decide⟩
    (.start ⟨blankStorage, rfl⟩) rfl
  have returns := agrees.mp (by decide +kernel)
  rw [returnsPointer_iff rfl] at returns
  exact absurd returns.1 (by decide)

/-- In an empty pipe `isFull` and `startWrite` agree about one byte. -/
theorem isFull_agrees_iff_start :
    (LocklessPipe.isFull 12 (State.start blankStorage).pipe 1 = false ↔
      ReturnsPointer smallConfig (.start blankStorage) 1 [7]) := by
  have agrees := @isFull_agrees_iff smallConfig (.start blankStorage) 1 [7]
    ⟨by decide, by decide⟩ (.start ⟨blankStorage, rfl⟩) rfl
  exact agrees.mpr (Or.inl (by decide))

end PerfVerif.Pipe
