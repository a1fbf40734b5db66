import PerfVerif.Lib.StoreBuffer
import PerfVerif.Pipe.Admission
import PerfVerif.Pipe.Fifo

/-!
# The pipe on hardware that reorders stores

The pipe system takes a store of the writer for visible at once. Here it waits in a store buffer,
and what another processor finds in memory may be older than what the writer itself sees. The
writer runs `startWrite`, the copy and `finishWrite` as before, with `MF_write_sync` where the
source has it; the reader runs `read` on the memory. The flag of the writer and the stores of the
reader are taken as visible at once: a store that is late is a step that is taken later.

`membar.h` says what `MEMBAR_release` is on each platform. Where it is nothing but a compiler
fence, the hardware keeps the order of all stores.
-/

namespace PerfVerif.Pipe

open StoreBuffer Transition

/-- The fields that the writer stores into, a byte of the buffer each on its own. -/
inductive Cell where
  | byte (address : Nat)
  | numWritten
  | nextWriteVPtr
  | writeVPtr
  deriving DecidableEq, Repr

/-- A store of the writer. -/
inductive Write where
  | byte (address : Nat) (value : UInt8)
  | numWritten (value : UInt64)
  | nextWriteVPtr (value : UInt64)
  | writeVPtr (value : UInt64)
  deriving DecidableEq, Repr

/-- Where a store goes. -/
def Write.cell : Write → Cell
  | .byte address _ => .byte address
  | .numWritten _ => .numWritten
  | .nextWriteVPtr _ => .nextWriteVPtr
  | .writeVPtr _ => .writeVPtr

/-- A store, and how many records were published before it in program order. -/
structure Issue where
  write : Write
  record : Nat
  deriving DecidableEq, Repr

/-- The contents of the fields that the writer stores into. -/
structure Written where
  buf : Nat → UInt8
  numWritten : UInt64
  nextWriteVPtr : UInt64
  writeVPtr : UInt64

/-- The fields of a pipe that the writer stores into. -/
def Written.of (pipe : LocklessPipe) : Written :=
  ⟨pipe.buf, pipe.numWritten, pipe.nextWriteVPtr, pipe.writeVPtr⟩

/-- A pipe with the written fields in place of its own. -/
def Written.shown (written : Written) (pipe : LocklessPipe) : LocklessPipe :=
  { pipe with
    buf := written.buf, numWritten := written.numWritten,
    nextWriteVPtr := written.nextWriteVPtr, writeVPtr := written.writeVPtr }

/-- The effect of a store. -/
def Write.apply (written : Written) : Write → Written
  | .byte address value => { written with buf := Memory.store written.buf address [value] }
  | .numWritten value => { written with numWritten := value }
  | .nextWriteVPtr value => { written with nextWriteVPtr := value }
  | .writeVPtr value => { written with writeVPtr := value }

/-- Stores of different fields or bytes commute. -/
theorem Write.apply_comm (first second : Write) (written : Written)
    (apart : first.cell ≠ second.cell) :
    first.apply (second.apply written) = second.apply (first.apply written) := by
  cases first with
  | byte address value =>
    cases second with
    | byte target other =>
      have different : address ≠ target := fun same => apart (congrArg Cell.byte same)
      exact congrArg (fun buf => { written with buf := buf })
        (Memory.store_comm written.buf different value other)
    | _ => rfl
  | numWritten value =>
    cases second with
    | numWritten other => exact absurd rfl apart
    | _ => rfl
  | nextWriteVPtr value =>
    cases second with
    | nextWriteVPtr other => exact absurd rfl apart
    | _ => rfl
  | writeVPtr value =>
    cases second with
    | writeVPtr other => exact absurd rfl apart
    | _ => rfl

/-- The stores of the writer. -/
def pipeStores : Stores Written Issue Cell where
  apply issue written := issue.write.apply written
  cell issue := issue.write.cell
  commute first second written apart := Write.apply_comm first.write second.write written apart

/-- The copy of a block, a byte at a time. -/
def blockWrites : Nat → List UInt8 → List Write
  | _, [] => []
  | base, byte :: rest => .byte base byte :: blockWrites (base + 1) rest

/-- The stores of the next micro-step of the writer, in program order. -/
def Writer.writes (cfg : Config) (pipe : LocklessPipe) : Writer → List Write
  | .reserving call _ =>
    [.nextWriteVPtr (reserve cfg.pipeSize pipe.writeVPtr call.length).nextWriteVPtr]
  | .header call slot => blockWrites slot.lengthPtr.toNat (cfg.order.encode call.length)
  | .copying call slot copied =>
    (call.bytes[copied]?.map (Write.byte (slot.payloadPtr.toNat + copied))).toList
  | .counting _ _ => [.numWritten (pipe.numWritten + 1)]
  | .publishing _ _ => [.writeVPtr pipe.nextWriteVPtr]
  | _ => []

/-- How often the writer calls `MF_write_sync` right before its next stores: once before the header,
and once before the publication. -/
def Writer.syncs : Writer → Nat
  | .header _ _ | .publishing _ _ => 1
  | _ => 0

/-- The pipe with its reader in program order, the memory, and the stores under way. -/
structure OrderState where
  fifo : FifoState
  memory : Written
  buffer : List (Entry Issue)
  /-- Calls of `MF_write_sync` so far. -/
  fences : Nat
  /-- How many records have their publication in memory. -/
  visible : Nat

/-- An action of a thread, or a store that reaches memory. -/
inductive OrderAct where
  | fifo (act : FifoAct)
  | drain (index : Nat)
  deriving DecidableEq, Repr

/-- What a thread that shares memory with the writer finds. -/
def OrderState.seen (s : OrderState) : FifoState :=
  { s.fifo with base := { s.fifo.base with pipe := s.memory.shown s.fifo.base.pipe } }

/-- The reader has taken a step on what it finds; the writer's own view stays. -/
def OrderState.readerMoved (s : OrderState) (after : FifoState) : OrderState :=
  { s with
    fifo := { after with
      base := { after.base with
        pipe := (Written.of s.fifo.base.pipe).shown after.base.pipe } } }

/-- The writer has taken a micro-step: its stores join the buffer. -/
def OrderState.issue (cfg : Config) (s : OrderState) (after : State) : OrderState :=
  let writer := s.fifo.base.writer
  let fences := s.fences + writer.syncs
  { s with
    fifo := { s.fifo with base := after }
    fences := fences
    buffer := s.buffer ++ (writer.writes cfg s.fifo.base.pipe).map fun write =>
      ⟨⟨write, s.fifo.base.published.length⟩, fences⟩ }

/-- The publication that a store is, if it is one. -/
def Write.publication? : Write → Option UInt64
  | .writeVPtr value => some value
  | _ => none

/-- The publication that a waiting store is. -/
def publicationOf (entry : Entry Issue) : Option UInt64 := entry.store.write.publication?

/-- One action. `validate` stays out. -/
def orderStep (cfg : Config) (rule : ReadRule) (ordering : StoreBuffer.Ordering) (s : OrderState) :
    OrderAct → Option OrderState
  | .fifo (.pipe .writer) => (writerStep cfg s.fifo.base).map (s.issue cfg)
  | .fifo (.pipe .validate) => none
  | .fifo (.pipe act) =>
    (fifoStep cfg rule s.fifo (.pipe act)).map fun after => { s with fifo := after }
  | .fifo act => (fifoStep cfg rule s.seen act).map s.readerMoved
  | .drain index =>
    (drain pipeStores ordering s.memory s.buffer index).map fun (entry, memory, buffer) =>
      { s with
        memory := memory
        buffer := buffer
        visible := s.visible + (publicationOf entry).toList.length }

/-- The pipe on hardware with a given store order, started over any storage. -/
def orderSystem (cfg : Config) (rule : ReadRule) (ordering : StoreBuffer.Ordering) :
    System OrderState OrderAct where
  init s := ∃ storage,
    s = ⟨⟨.start storage, .idle, []⟩, .of (.construct storage), [], 0, 0⟩
  step := orderStep cfg rule ordering

/-- The steps of the runs in which the writer, never stopped, pushes admissible values. -/
def OrderPushes (cfg : Config) (s : OrderState) : OrderAct → Prop
  | .fifo act => FifoPushes cfg s.fifo act
  | .drain _ => True

/-- The platforms that `membar.h` knows. -/
inductive Platform where
  | sparc
  | power
  | x86
  /-- Any other one with the builtins of GNU C. -/
  | gnu
  deriving DecidableEq, Repr

/-- What a platform keeps in order, with the `MEMBAR_release` that `membar.h` has for it. From the
store order of x86 `membar.h` excepts fast string operations and temporal moves. A copy by a string
operation may reorder its own bytes, but not the plain store of `writeVPtr_` behind it, so the
publication stays the last store of its record. A copy by temporal moves is taken to end with a
fence of its own, since the compiler fence in `MEMBAR_release` would not order it. -/
def Platform.ordering : Platform → StoreBuffer.Ordering
  -- total store order; the macro is a compiler fence
  | .sparc => ⟨true, false⟩
  -- `lwsync`
  | .power => ⟨false, true⟩
  -- plain stores are not reordered; the macro is a compiler fence
  | .x86 => ⟨true, false⟩
  -- `__sync_synchronize()`
  | .gnu => ⟨false, true⟩

end PerfVerif.Pipe
