import Mathlib.Data.List.Basic

/-!
# Files

A file is the list of its bytes. A write at an offset replaces the bytes there and fills the gap
behind the end, if there is one; a write of nothing changes nothing. At the end of the file it adds
its bytes.
-/

namespace File

variable {β : Type}

/-- Write at an offset. -/
def writeAt (gap : β) (file : List β) (offset : Nat) : List β → List β
  | [] => file
  | first :: rest =>
    file.take offset ++ List.replicate (offset - file.length) gap ++ first :: rest ++
      file.drop (offset + (rest.length + 1))

/-- A write at the end adds its bytes. -/
theorem writeAt_end (gap : β) (file data : List β) :
    writeAt gap file file.length data = file ++ data := by
  cases data with
  | nil => exact (List.append_nil file).symm
  | cons first rest =>
    rw [writeAt, List.take_length, Nat.sub_self, List.drop_eq_nil_of_le (Nat.le_add_right _ _)]
    simp

/-- After a write the file reaches at least as far as the bytes written. -/
theorem length_writeAt (gap : β) (file : List β) (offset : Nat) {data : List β}
    (nonempty : data ≠ []) :
    (writeAt gap file offset data).length = max file.length (offset + data.length) := by
  cases data with
  | nil => exact absurd rfl nonempty
  | cons first rest =>
    simp only [writeAt, List.length_append, List.length_take, List.length_replicate,
      List.length_cons, List.length_drop]
    omega

end File
