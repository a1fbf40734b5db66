import Mathlib.Data.List.Basic

/-!
# Block loads and stores of an addressed memory

A memory is a total function from addresses. A block is loaded and stored as a list; the
lemmas say what a load returns after a store of the same block, of the next cell, and of
a block that shares no address with it.
-/

namespace Memory

variable {β : Type}

/-- The cells of a block, in address order. -/
def load (memory : Nat → β) (base count : Nat) : List β :=
  (List.range' base count).map memory

/-- Put a list of values at consecutive addresses. -/
def store (memory : Nat → β) (base : Nat) (values : List β) : Nat → β := fun address =>
  if base ≤ address then values[address - base]?.getD (memory address) else memory address

/-- A load has the requested length. -/
@[simp] theorem length_load (memory : Nat → β) (base count : Nat) :
    (load memory base count).length = count := by
  simp [load]

/-- An empty block holds nothing. -/
@[simp] theorem load_zero (memory : Nat → β) (base : Nat) : load memory base 0 = [] := rfl

/-- An address outside the stored block keeps its cell. -/
theorem store_outside (memory : Nat → β) (base address : Nat) (values : List β)
    (outside : address < base ∨ base + values.length ≤ address) :
    store memory base values address = memory address := by
  unfold store
  split
  · rw [List.getElem?_eq_none (by omega), Option.getD_none]
  · rfl

/-- A cell that a store changes lies inside the stored block. -/
theorem store_changes (memory : Nat → β) (base address : Nat) (values : List β)
    (changed : store memory base values address ≠ memory address) :
    base ≤ address ∧ address < base + values.length := by
  by_contra outside
  exact changed (store_outside memory base address values (by omega))

/-- Loading a block just stored returns its values. -/
theorem load_store_same (memory : Nat → β) (base : Nat) (values : List β) :
    load (store memory base values) base values.length = values := by
  apply List.ext_getElem
  · simp
  · intro index bound inside
    simp [load, store, inside]

/-- A store that shares no address with a block leaves its load unchanged. -/
theorem load_store_apart (memory : Nat → β) (base count target : Nat) (values : List β)
    (apart : base + count ≤ target ∨ target + values.length ≤ base) :
    load (store memory target values) base count = load memory base count := by
  apply List.map_congr_left
  intro address inside
  rw [List.mem_range'_1] at inside
  exact store_outside memory target address values (by omega)

/-- Storing the next cell extends a loaded block by its value. -/
theorem load_store_next (memory : Nat → β) (base count : Nat) (value : β) :
    load (store memory (base + count) [value]) base (count + 1) =
      load memory base count ++ [value] := by
  have kept := load_store_apart memory base count (base + count) [value] (Or.inl (by omega))
  simp only [load] at kept ⊢
  rw [List.range'_1_concat, List.map_append, kept]
  simp [store]

/-- Memories that agree on a block are loaded alike. -/
theorem load_congr {memory other : Nat → β} {base count : Nat}
    (agree : ∀ address, base ≤ address → address < base + count → memory address = other address) :
    load memory base count = load other base count := by
  apply List.map_congr_left
  intro address inside
  rw [List.mem_range'_1] at inside
  exact agree address inside.1 inside.2

/-- The first cells of a block are the load of a shorter block. -/
theorem take_load (memory : Nat → β) (base count limit : Nat) (short : limit ≤ count) :
    (load memory base count).take limit = load memory base limit := by
  apply List.ext_getElem
  · simp [short]
  · intro index bound inside
    simp [load]

/-- Loading one more cell appends it. -/
theorem load_succ (memory : Nat → β) (base count : Nat) :
    load memory base (count + 1) = load memory base count ++ [memory (base + count)] := by
  simp [load, List.range'_1_concat]

/-- A block is stored as its first cell and then the others. -/
theorem store_cons (memory : Nat → β) (base : Nat) (value : β) (rest : List β) :
    store memory base (value :: rest) = store (store memory base [value]) (base + 1) rest := by
  funext address
  rcases Nat.lt_trichotomy address base with before | rfl | behind
  · simp [store, show ¬ base ≤ address by omega, show ¬ base + 1 ≤ address by omega]
  · simp [store, show ¬ address + 1 ≤ address by omega]
  · have later : address - base = address - (base + 1) + 1 := by omega
    simp [store, show base ≤ address by omega, show base + 1 ≤ address by omega, later]

/-- Stores of two cells commute. -/
theorem store_comm (memory : Nat → β) {first second : Nat} (apart : first ≠ second)
    (value other : β) :
    store (store memory second [other]) first [value] =
      store (store memory first [value]) second [other] := by
  funext address
  by_cases here : address = first
  · subst here
    rw [store_outside (store memory address [value]) second address [other]
      (by rw [List.length_singleton]; omega)]
    simp [store]
  · by_cases there : address = second
    · subst there
      rw [store_outside (store memory address [other]) first address [value]
        (by rw [List.length_singleton]; omega)]
      simp [store]
    · rw [store_outside _ _ _ _ (by rw [List.length_singleton]; omega),
        store_outside _ _ _ _ (by rw [List.length_singleton]; omega),
        store_outside _ _ _ _ (by rw [List.length_singleton]; omega),
        store_outside _ _ _ _ (by rw [List.length_singleton]; omega)]

end Memory
