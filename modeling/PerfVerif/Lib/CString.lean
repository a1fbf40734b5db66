import PerfVerif.Lib.Memory

/-!
# Strings in memory

A string is the bytes from an address up to the first null byte. `strlen` is bounded here by the
object that the string is in: to read on behind it has no defined result. `strncpy` writes as many
bytes as it is told, with null bytes behind a short text.
-/

namespace CString

open Memory (load store)

/-- Bytes that can be the content of a string. -/
structure Text where
  bytes : List UInt8
  nonNull : ∀ byte ∈ bytes, byte ≠ 0

/-- `strlen`, for a string that ends in the given room. -/
def strlen (memory : Nat → UInt8) : Nat → Nat → Option Nat
  | _, 0 => none
  | base, room + 1 =>
    if memory base = 0 then some 0 else (strlen memory (base + 1) room).map Nat.succ

/-- The bytes of the string at an address. -/
def read (memory : Nat → UInt8) (base room : Nat) : Option (List UInt8) :=
  (strlen memory base room).map (load memory base)

/-- `strncpy`. -/
def strncpy (memory : Nat → UInt8) (target : Nat) (text : Text) (count : Nat) : Nat → UInt8 :=
  store memory target
    (text.bytes.take count ++ List.replicate (count - text.bytes.length) 0)

/-- `strcat`, for a target that is a string in the given room and a source that is one in its own;
`none` where it would write behind the room. -/
def strcat (memory : Nat → UInt8) (target room source sourceRoom : Nat) :
    Option (Nat → UInt8) :=
  (strlen memory target room).bind fun length =>
    (read memory source sourceRoom).bind fun text =>
      if length + text.length < room then some (store memory (target + length) (text ++ [0]))
      else none

/-- The string with these bytes is at the address and ends in the given room. -/
structure Holds (memory : Nat → UInt8) (base room : Nat) (bytes : List UInt8) : Prop where
  fits : bytes.length < room
  nonNull : ∀ byte ∈ bytes, byte ≠ 0
  content : ∀ index ≤ bytes.length, memory (base + index) = bytes[index]?.getD 0

section Strings

variable {memory : Nat → UInt8} {base room : Nat} {bytes : List UInt8}

/-- The string behind the first byte. -/
theorem Holds.tail {byte : UInt8} (holds : Holds memory base (room + 1) (byte :: bytes)) :
    Holds memory (base + 1) room bytes where
  fits := Nat.lt_of_succ_lt_succ holds.fits
  nonNull := (List.forall_mem_cons.mp holds.nonNull).2
  content index inside := by
    have later := holds.content (index + 1) (Nat.succ_le_succ inside)
    rw [Nat.add_comm index 1, ← Nat.add_assoc] at later
    rw [later, Nat.add_comm 1 index, List.getElem?_cons_succ]

/-- `strlen` counts the bytes of a string. -/
theorem Holds.strlen (holds : Holds memory base room bytes) :
    strlen memory base room = some bytes.length := by
  induction bytes generalizing base room with
  | nil =>
    have first := holds.content 0 (Nat.le_refl _)
    cases room with
    | zero => exact absurd holds.fits (Nat.not_lt_zero _)
    | succ room => simpa [CString.strlen] using first
  | cons byte rest ih =>
    have first := holds.content 0 (Nat.zero_le _)
    have nonzero := holds.nonNull byte List.mem_cons_self
    cases room with
    | zero => exact absurd holds.fits (Nat.not_lt_zero _)
    | succ room =>
      rw [Nat.add_zero, List.getElem?_cons_zero, Option.getD_some] at first
      rw [CString.strlen, first, if_neg nonzero, ih holds.tail]
      rfl

/-- A string is read as its bytes. -/
theorem Holds.read (holds : Holds memory base room bytes) :
    read memory base room = some bytes := by
  rw [CString.read, holds.strlen, Option.map_some, Option.some.injEq]
  apply List.ext_getElem
  · exact Memory.length_load memory base bytes.length
  · intro index _ inside
    have content := holds.content index (Nat.le_of_lt inside)
    rw [List.getElem?_eq_getElem inside, Option.getD_some] at content
    simpa [load] using content

/-- Where `strlen` finds an end, there is a string. -/
theorem holds_of_strlen {length : Nat} (measured : strlen memory base room = some length) :
    Holds memory base room (load memory base length) := by
  induction room generalizing base length with
  | zero => simp [CString.strlen] at measured
  | succ room ih =>
    unfold CString.strlen at measured
    by_cases ended : memory base = 0
    · rw [if_pos ended] at measured
      obtain rfl := Option.some.inj measured
      refine ⟨Nat.succ_pos _, by simp, ?_⟩
      intro index least
      rw [Nat.le_zero.mp least]
      exact ended
    · rw [if_neg ended] at measured
      obtain ⟨rest, later, rfl⟩ := Option.map_eq_some_iff.mp measured
      have ⟨fits, nonNull, content⟩ := ih later
      rw [Memory.length_load] at fits content
      have cells : load memory base rest.succ = memory base :: load memory (base + 1) rest := by
        simp [load, List.range'_succ]
      rw [cells]
      refine ⟨?_, List.forall_mem_cons.mpr ⟨ended, nonNull⟩, ?_⟩
      · rw [List.length_cons, Memory.length_load]
        exact Nat.succ_lt_succ fits
      · intro index inside
        rw [List.length_cons, Memory.length_load] at inside
        cases index with
        | zero => rfl
        | succ index =>
          rw [List.getElem?_cons_succ, ← content index (Nat.le_of_succ_le_succ inside),
            Nat.add_right_comm]
          rfl

/-- What is read is a string. -/
theorem read_eq_some_iff : read memory base room = some bytes ↔ Holds memory base room bytes := by
  constructor
  · intro reads
    obtain ⟨length, measured, rfl⟩ := Option.map_eq_some_iff.mp reads
    exact holds_of_strlen measured
  · exact Holds.read

/-- `strcat` is defined on two strings that fit into the room together. -/
theorem strcat_eq_some_iff {target source sourceRoom : Nat} {after : Nat → UInt8} :
    strcat memory target room source sourceRoom = some after ↔
      ∃ front back, Holds memory target room front ∧ Holds memory source sourceRoom back ∧
        front.length + back.length < room ∧
        after = store memory (target + front.length) (back ++ [0]) := by
  constructor
  · intro appended
    obtain ⟨length, measured, rest⟩ := Option.bind_eq_some_iff.mp appended
    obtain ⟨back, reads, stored⟩ := Option.bind_eq_some_iff.mp rest
    have ⟨fits, same⟩ := Option.ite_none_right_eq_some.mp stored
    have length_eq := Memory.length_load memory target length
    refine ⟨load memory target length, back, holds_of_strlen measured, read_eq_some_iff.mp reads,
      ?_, ?_⟩
    · rw [length_eq]
      exact fits
    · rw [length_eq]
      exact (Option.some.inj same).symm
  · rintro ⟨front, back, target, source, fits, rfl⟩
    rw [strcat, target.strlen, Option.bind_some, source.read, Option.bind_some, if_pos fits]

/-- `strcat` leaves the two strings one behind the other. -/
theorem Holds.strcat {target : Nat} {front back : List UInt8}
    (front_holds : Holds memory target room front) (nonNull : ∀ byte ∈ back, byte ≠ 0)
    (fits : front.length + back.length < room) :
    Holds (store memory (target + front.length) (back ++ [0])) target room (front ++ back) where
  fits := by
    rw [List.length_append]
    exact fits
  nonNull byte member := by
    rcases List.mem_append.mp member with before | behind
    · exact front_holds.nonNull byte before
    · exact nonNull byte behind
  content index inside := by
    rw [List.length_append] at inside
    by_cases before : index < front.length
    · rw [Memory.store_outside _ _ _ _ (Or.inl (by omega)), List.getElem?_append_left before]
      exact front_holds.content index (Nat.le_of_lt before)
    · obtain ⟨place, rfl⟩ := Nat.exists_eq_add_of_le (Nat.not_lt.mp before)
      rw [List.getElem?_append_right (Nat.le_add_right _ _), Nat.add_sub_cancel_left, store,
        if_pos (by omega), show target + (front.length + place) - (target + front.length) = place by
          omega]
      by_cases last : place < back.length
      · rw [List.getElem?_append_left last, List.getElem?_eq_getElem last]
        rfl
      · obtain rfl : place = back.length := by omega
        rw [List.getElem?_append_right (Nat.le_refl _), Nat.sub_self,
          List.getElem?_eq_none (Nat.le_refl _)]
        rfl

/-- A string is kept by a store of bytes outside of its room. -/
theorem Holds.store_apart (holds : Holds memory base room bytes) {target : Nat}
    {values : List UInt8} (apart : base + room ≤ target ∨ target + values.length ≤ base) :
    Holds (store memory target values) base room bytes where
  fits := holds.fits
  nonNull := holds.nonNull
  content index inside := by
    have fits := holds.fits
    rw [Memory.store_outside _ _ _ _ (by omega)]
    exact holds.content index inside

/-- There is one string at an address. -/
theorem Holds.unique {other : List UInt8} (holds : Holds memory base room bytes)
    (others : Holds memory base room other) : bytes = other :=
  Option.some.inj (holds.read.symm.trans others.read)

/-- What `strncpy` writes has the length it is told. -/
theorem length_padded (text : Text) (count : Nat) :
    (text.bytes.take count ++ List.replicate (count - text.bytes.length) (0 : UInt8)).length =
      count := by
  rw [List.length_append, List.length_take, List.length_replicate]
  omega

/-- `strncpy` writes no byte outside of its room. -/
theorem strncpy_outside (text : Text) {target count address : Nat}
    (outside : address < target ∨ target + count ≤ address) :
    strncpy memory target text count address = memory address :=
  Memory.store_outside memory target address _ ((length_padded text count).symm ▸ outside)

/-- In its room `strncpy` writes the text and then null bytes. -/
theorem strncpy_inside (text : Text) (target : Nat) {count index : Nat} (inside : index < count) :
    strncpy memory target text count (target + index) = text.bytes[index]?.getD 0 := by
  rw [strncpy, store, if_pos (Nat.le_add_right _ _), Nat.add_sub_cancel_left]
  by_cases written : index < text.bytes.length
  · rw [List.getElem?_append_left (by rw [List.length_take]; omega),
      List.getElem?_take_of_lt inside, List.getElem?_eq_getElem written]
    rfl
  · have short : (text.bytes.take count).length = text.bytes.length := by
      rw [List.length_take]
      omega
    rw [List.getElem?_append_right (by omega), short, List.getElem?_replicate,
      if_pos (by omega), List.getElem?_eq_none (by omega)]
    rfl

/-- Cutting twice is cutting once. -/
theorem take_append_take (left right : List UInt8) (count : Nat) :
    (left.take count ++ right).take count = (left ++ right).take count := by
  rw [List.take_append, List.take_append, List.take_take, Nat.min_self, List.length_take]
  congr 2
  omega

end Strings

end CString
