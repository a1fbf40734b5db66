import PerfVerif.Lib.CString

/-!
# The renamed path

`main` puts the name that the file gets at the end together in a block from `malloc`, with two calls
of `strcat`. The first one looks for the end of the string that is in the block already, and nothing
has put one there. `PATH_MAX` is a parameter.
-/

namespace PerfVerif.Renamed

open CString (Holds strcat strcat_eq_some_iff)
open Memory (store)

/-- `filepath_suffix`. -/
def suffixBytes : List UInt8 := [46, 100, 111, 110, 101]

/-- `sizeof(filepath_suffix)`. -/
def suffixSize : Nat := suffixBytes.length + 1

/-- What `main` asks `malloc` for. -/
def renamedSize (pathMax : Nat) : Nat := pathMax + suffixSize

/-- The addresses of `filepath`, `filepath_suffix` and the block that `filepath_renamed` points to.
-/
structure Objects (pathMax : Nat) (memory : Nat → UInt8) where
  filepath : Nat
  suffix : Nat
  renamed : Nat
  suffix_holds : Holds memory suffix suffixSize suffixBytes
  filepath_apart : filepath + pathMax ≤ renamed ∨ renamed + renamedSize pathMax ≤ filepath
  suffix_apart : suffix + suffixSize ≤ renamed ∨ renamed + renamedSize pathMax ≤ suffix

/-- The memory behind the two calls of `strcat`; `none` where they read or write behind an object.
-/
def renamedPath {pathMax : Nat} (memory : Nat → UInt8) (objects : Objects pathMax memory) :
    Option (Nat → UInt8) :=
  (strcat memory objects.renamed (renamedSize pathMax) objects.filepath pathMax).bind fun middle =>
    strcat middle objects.renamed (renamedSize pathMax) objects.suffix suffixSize

section Names

variable {pathMax : Nat} {memory after : Nat → UInt8} {objects : Objects pathMax memory}
  {path : List UInt8}

/-- The first call keeps the suffix, which is outside of the block. -/
theorem suffix_kept {rest : List UInt8} (fits : rest.length + path.length < renamedSize pathMax) :
    Holds (store memory (objects.renamed + rest.length) (path ++ [0])) objects.suffix suffixSize
      suffixBytes := by
  apply objects.suffix_holds.store_apart
  have apart := objects.suffix_apart
  rw [List.length_append, List.length_singleton]
  omega

/-- The two calls append the path and then the suffix to the string in the block. -/
theorem renamedPath_eq_some_iff (holds : Holds memory objects.filepath pathMax path) :
    renamedPath memory objects = some after ↔
      ∃ rest, Holds memory objects.renamed (renamedSize pathMax) rest ∧
        rest.length + path.length + suffixBytes.length < renamedSize pathMax ∧
        after = store (store memory (objects.renamed + rest.length) (path ++ [0]))
          (objects.renamed + (rest ++ path).length) (suffixBytes ++ [0]) := by
  constructor
  · intro built
    obtain ⟨middle, first, second⟩ := Option.bind_eq_some_iff.mp built
    obtain ⟨rest, path', block, source, fits, rfl⟩ := strcat_eq_some_iff.mp first
    obtain rfl := source.unique holds
    have joined := block.strcat holds.nonNull fits
    obtain ⟨front, back, block', source', fits', rfl⟩ := strcat_eq_some_iff.mp second
    obtain rfl := block'.unique joined
    obtain rfl := source'.unique (suffix_kept fits)
    rw [List.length_append] at fits'
    exact ⟨rest, block, fits', rfl⟩
  · rintro ⟨rest, block, fits, rfl⟩
    have first : rest.length + path.length < renamedSize pathMax := by omega
    have joined := block.strcat holds.nonNull first
    have appended := strcat_eq_some_iff.mpr ⟨rest, path, block, holds, first, rfl⟩
    rw [renamedPath, appended, Option.bind_some]
    apply strcat_eq_some_iff.mpr
    refine ⟨rest ++ path, suffixBytes, joined, suffix_kept first, ?_, rfl⟩
    rw [List.length_append]
    exact fits

/-- The calls leave the string of the block, the path and the suffix in the block. -/
theorem holds_renamed {rest : List UInt8} (holds : Holds memory objects.filepath pathMax path)
    (block : Holds memory objects.renamed (renamedSize pathMax) rest)
    (fits : rest.length + path.length + suffixBytes.length < renamedSize pathMax) :
    Holds (store (store memory (objects.renamed + rest.length) (path ++ [0]))
      (objects.renamed + (rest ++ path).length) (suffixBytes ++ [0])) objects.renamed
      (renamedSize pathMax) (rest ++ path ++ suffixBytes) := by
  have first : rest.length + path.length < renamedSize pathMax := by omega
  have joined := block.strcat holds.nonNull first
  apply joined.strcat objects.suffix_holds.nonNull
  rw [List.length_append]
  exact fits

/-- A name is the string of the block, the path and the suffix. -/
theorem name_iff {name : List UInt8} (holds : Holds memory objects.filepath pathMax path) :
    (∃ after, renamedPath memory objects = some after ∧
        Holds after objects.renamed (renamedSize pathMax) name) ↔
      ∃ rest, Holds memory objects.renamed (renamedSize pathMax) rest ∧
        rest.length + path.length + suffixBytes.length < renamedSize pathMax ∧
        name = rest ++ path ++ suffixBytes := by
  constructor
  · rintro ⟨after, built, named⟩
    obtain ⟨rest, block, fits, rfl⟩ := (renamedPath_eq_some_iff holds).mp built
    exact ⟨rest, block, fits, named.unique (holds_renamed holds block fits)⟩
  · rintro ⟨rest, block, fits, rfl⟩
    exact ⟨_, (renamedPath_eq_some_iff holds).mpr ⟨rest, block, fits, rfl⟩,
      holds_renamed holds block fits⟩

/-- The name is the path and the suffix alone exactly where the string of the block is empty. -/
theorem path_name_iff (holds : Holds memory objects.filepath pathMax path) :
    (∃ rest, Holds memory objects.renamed (renamedSize pathMax) rest ∧
        rest.length + path.length + suffixBytes.length < renamedSize pathMax ∧
        path ++ suffixBytes = rest ++ path ++ suffixBytes) ↔ memory objects.renamed = 0 := by
  constructor
  · rintro ⟨rest, block, _, same⟩
    have lengths := congrArg List.length same
    simp only [List.length_append] at lengths
    obtain rfl : rest = [] := List.length_eq_zero_iff.mp (by omega)
    exact block.content 0 (Nat.le_refl _)
  · intro empty
    refine ⟨[], ⟨Nat.lt_add_left _ (Nat.succ_pos _), by simp, ?_⟩, ?_, rfl⟩
    · intro index least
      rw [Nat.le_zero.mp least]
      exact empty
    · have short := holds.fits
      have size : renamedSize pathMax = pathMax + (suffixBytes.length + 1) := rfl
      rw [List.length_nil, Nat.zero_add]
      omega

/-- The calls write no byte outside of the block. -/
theorem renamedPath_outside (holds : Holds memory objects.filepath pathMax path)
    (built : renamedPath memory objects = some after) {address : Nat}
    (outside : address < objects.renamed ∨ objects.renamed + renamedSize pathMax ≤ address) :
    after address = memory address := by
  obtain ⟨rest, _, fits, rfl⟩ := (renamedPath_eq_some_iff holds).mp built
  rw [Memory.store_outside, Memory.store_outside]
  · rw [List.length_append, List.length_singleton]
    omega
  · rw [List.length_append, List.length_append, List.length_singleton]
    omega

end Names

/-- A path of one letter, the suffix, and a block that comes with another letter in it. -/
def usedMemory (address : Nat) : UInt8 :=
  if address = 0 then 102
  else if 5000 ≤ address then
    if address = 6000 then 120 else suffixBytes[address - 5000]?.getD 0
  else 0

/-- The two objects in that memory, for a `PATH_MAX` of 4096. -/
def usedObjects : Objects 4096 usedMemory where
  filepath := 0
  suffix := 5000
  renamed := 6000
  suffix_holds := ⟨by decide, by simp [suffixBytes], by decide⟩
  filepath_apart := Or.inl (by decide)
  suffix_apart := Or.inl (by decide)

end PerfVerif.Renamed
