import Mathlib.Data.List.Basic

/-!
# Store buffers

A processor issues its stores in program order; each waits in a buffer until it reaches memory.
Two stores to one cell never pass each other. Beyond that the hardware keeps the order of all
stores, or of those with a fence between them, or neither. What the processor itself sees is the
memory with the whole buffer applied; it does not depend on what has reached memory so far.
-/

namespace StoreBuffer

/-- Stores that change a memory, each in one cell; stores to different cells commute. -/
structure Stores (σ ι κ : Type) where
  /-- The memory with one more store. -/
  apply : ι → σ → σ
  /-- The cell of a store. -/
  cell : ι → κ
  commute : ∀ first second memory, cell first ≠ cell second →
    apply first (apply second memory) = apply second (apply first memory)

/-- A store that waits, and how many fences its processor had executed before it. -/
structure Entry (ι : Type) where
  store : ι
  fences : Nat
  deriving DecidableEq, Repr

/-- What the hardware keeps in order. -/
structure Ordering where
  /-- The stores of a processor reach memory in program order. -/
  inOrder : Bool
  /-- No store passes a fence. -/
  fences : Bool
  deriving DecidableEq, Repr

variable {σ ι κ : Type}

/-- A store may reach memory before the stores that were issued earlier and still wait. -/
def MayPass (stores : Stores σ ι κ) (ordering : Ordering) (earlier : List (Entry ι))
    (entry : Entry ι) : Prop :=
  ∀ other ∈ earlier, stores.cell other.store ≠ stores.cell entry.store ∧
    ordering.inOrder = false ∧ (ordering.fences = true → entry.fences ≤ other.fences)

instance [DecidableEq κ] (stores : Stores σ ι κ) (ordering : Ordering)
    (earlier : List (Entry ι)) (entry : Entry ι) :
    Decidable (MayPass stores ordering earlier entry) :=
  inferInstanceAs (Decidable (∀ other ∈ earlier, _))

/-- The memory that the processor itself sees: every waiting store is applied. -/
def view (stores : Stores σ ι κ) (memory : σ) (buffer : List (Entry ι)) : σ :=
  buffer.foldl (fun seen entry => stores.apply entry.store seen) memory

/-- The waiting store at an index reaches memory: the entry, the memory and the buffer behind. -/
def drain [DecidableEq κ] (stores : Stores σ ι κ) (ordering : Ordering) (memory : σ)
    (buffer : List (Entry ι)) (index : Nat) : Option (Entry ι × σ × List (Entry ι)) :=
  match buffer[index]? with
  | some entry =>
    if MayPass stores ordering (buffer.take index) entry then
      some (entry, stores.apply entry.store memory, buffer.eraseIdx index)
    else none
  | none => none

section Views

variable {stores : Stores σ ι κ}

/-- Stores issued later come on top. -/
theorem view_append (memory : σ) (buffer more : List (Entry ι)) :
    view stores memory (buffer ++ more) = view stores (view stores memory buffer) more :=
  List.foldl_append

/-- A store that passes a buffer of other cells makes no difference to the view. -/
theorem view_apply {buffer : List (Entry ι)} {store : ι}
    (apart : ∀ other ∈ buffer, stores.cell other.store ≠ stores.cell store) (memory : σ) :
    view stores (stores.apply store memory) buffer =
      stores.apply store (view stores memory buffer) := by
  induction buffer generalizing memory with
  | nil => rfl
  | cons first rest ih =>
    have ⟨passes, later⟩ := List.forall_mem_cons.mp apart
    change view stores (stores.apply first.store (stores.apply store memory)) rest = _
    rw [stores.commute _ _ _ passes, ih later]
    rfl

/-- What no waiting store changes is seen in memory as the processor sees it. -/
theorem observe_view {ρ : Type} (observe : σ → ρ) {buffer : List (Entry ι)}
    (untouched : ∀ entry ∈ buffer, ∀ memory,
      observe (stores.apply entry.store memory) = observe memory) (memory : σ) :
    observe (view stores memory buffer) = observe memory := by
  induction buffer generalizing memory with
  | nil => rfl
  | cons first rest ih =>
    have ⟨here, later⟩ := List.forall_mem_cons.mp untouched
    change observe (view stores (stores.apply first.store memory) rest) = _
    rw [ih later, here]

/-- Where the hardware keeps some order, no store passes another with a fence between them. -/
theorem MayPass.unfenced {ordering : Ordering} {entry other : Entry ι} {before : List (Entry ι)}
    (kept : ordering.inOrder = true ∨ ordering.fences = true)
    (passes : MayPass stores ordering before entry) (member : other ∈ before) :
    entry.fences ≤ other.fences := by
  have ⟨_, unordered, unfenced⟩ := passes other member
  rcases kept with inOrder | fences
  · rw [unordered] at inOrder
    contradiction
  · exact unfenced fences

/-- There a store with a fence behind every earlier one reaches memory only as the first of the
buffer. -/
theorem MayPass.first {ordering : Ordering} {entry : Entry ι} {before : List (Entry ι)}
    (kept : ordering.inOrder = true ∨ ordering.fences = true)
    (fenced : ∀ other ∈ before, other.fences < entry.fences)
    (passes : MayPass stores ordering before entry) : before = [] := by
  apply List.eq_nil_iff_forall_not_mem.mpr
  intro other member
  have behind := fenced other member
  have ahead := passes.unfenced kept member
  omega

variable [DecidableEq κ] {ordering : Ordering} {memory memory' : σ}
  {buffer buffer' : List (Entry ι)} {entry : Entry ι} {index : Nat}

/-- A store reaches memory from between the stores before and behind it. -/
theorem drain_split
    (drained : drain stores ordering memory buffer index = some (entry, memory', buffer')) :
    ∃ before after, buffer = before ++ entry :: after ∧ buffer' = before ++ after ∧
      memory' = stores.apply entry.store memory ∧ MayPass stores ordering before entry := by
  unfold drain at drained
  split at drained
  · rename_i found present
    split at drained
    · rename_i passes
      have ⟨inside, same⟩ := List.getElem?_eq_some_iff.mp present
      simp only [Option.some.injEq, Prod.mk.injEq] at drained
      obtain ⟨rfl, rfl, rfl⟩ := drained
      refine ⟨buffer.take index, buffer.drop (index + 1), ?_, List.eraseIdx_eq_take_drop_succ _ _,
        rfl, passes⟩
      rw [← same, ← List.drop_eq_getElem_cons inside, List.take_append_drop]
    · contradiction
  · contradiction

/-- Reaching memory is invisible to the processor that issued the store. -/
theorem view_drain
    (drained : drain stores ordering memory buffer index = some (entry, memory', buffer')) :
    view stores memory' buffer' = view stores memory buffer := by
  obtain ⟨before, after, rfl, rfl, rfl, passes⟩ := drain_split drained
  rw [view_append, view_append, view_apply fun other member => (passes other member).1]
  rfl

end Views

end StoreBuffer
