import Mathlib.Data.Nat.Basic
import Mathlib.Tactic.Ring

/-!
# Rings of contiguous records

A buffer of `size` cells holds records of varying length, each a header and a payload.
Neither part crosses the end of the buffer: a part that does not fit behind the previous
one starts again at offset zero, and the cells it skipped stay unused until the next lap.

Positions count through all laps. Offsets run from `0` to `size` inclusive, since a record
may end exactly at the end of the buffer, so one lap is `size + 1` positions; the offset
of a position is its remainder and its lap number is its quotient. Every ordering question
about the two ends of the ring becomes an inequality between positions: a window narrower
than one lap never shows the same offset twice.
-/

namespace RecordRing

/-- The first position at or after `pos` where `len` cells fit before the end. -/
def fit (size pos len : Nat) : Nat :=
  if size < pos % (size + 1) + len then (pos / (size + 1) + 1) * (size + 1) else pos

/-- Where the header of a record appended at `pos` starts. -/
def headerAt (size header pos : Nat) : Nat := fit size pos header

/-- Where the payload of a record appended at `pos` starts. -/
def payloadAt (size header pos len : Nat) : Nat :=
  fit size (headerAt size header pos + header) len

/-- The position behind a record appended at `pos`. -/
def endAt (size header pos len : Nat) : Nat := payloadAt size header pos len + len

/-- The position behind a list of records, given by their lengths. -/
def position (size header : Nat) (lengths : List Nat) : Nat :=
  lengths.foldl (endAt size header) 0

variable {size header : Nat}

/-- A position is its lap number and its offset, which is at most `size`. -/
theorem split_position (size pos : Nat) :
    ∃ lap offset, pos = lap * (size + 1) + offset ∧ offset ≤ size ∧
      pos / (size + 1) = lap ∧ pos % (size + 1) = offset :=
  ⟨pos / (size + 1), pos % (size + 1), (Nat.div_add_mod' pos (size + 1)).symm,
    Nat.lt_succ_iff.mp (Nat.mod_lt _ (Nat.succ_pos _)), rfl, rfl⟩

/-- A position written with its lap number has the offset written. -/
theorem offset_of_split (lap offset : Nat) (bound : offset ≤ size) :
    (lap * (size + 1) + offset) % (size + 1) = offset :=
  Nat.mul_add_mod_of_lt (Nat.lt_succ_iff.mpr bound)

/-- A position written with its offset has the lap number written. -/
theorem lap_of_split (lap offset : Nat) (bound : offset ≤ size) :
    (lap * (size + 1) + offset) / (size + 1) = lap := by
  rw [Nat.mul_comm, Nat.mul_add_div (Nat.succ_pos size),
    Nat.div_eq_of_lt (Nat.lt_succ_iff.mpr bound), Nat.add_zero]

/-- At an explicit lap and offset a block fits there or goes to the next lap. -/
theorem fit_split (lap offset len : Nat) (bound : offset ≤ size) :
    fit size (lap * (size + 1) + offset) len =
      if size < offset + len then (lap + 1) * (size + 1) else lap * (size + 1) + offset := by
  simp only [fit, offset_of_split lap offset bound, lap_of_split lap offset bound]

/-- The next lap starts one lap further. -/
theorem next_lap (size lap : Nat) : (lap + 1) * (size + 1) = lap * (size + 1) + (size + 1) := by
  ring

/-- Fitting never moves backwards. -/
theorem le_fit (pos len : Nat) : pos ≤ fit size pos len := by
  obtain ⟨lap, offset, rfl, bound, -, -⟩ := split_position size pos
  rw [fit_split lap offset len bound, next_lap]
  split <;> omega

/-- A block that fits the buffer fits before the end where it is placed. -/
theorem fit_offset (pos len : Nat) (short : len ≤ size) :
    fit size pos len % (size + 1) + len ≤ size := by
  obtain ⟨lap, offset, rfl, bound, -, -⟩ := split_position size pos
  rw [fit_split lap offset len bound]
  split
  · rw [Nat.mul_mod_left]
    omega
  · rw [offset_of_split lap offset bound]
    omega

/-- Advancing inside a block that does not cross the end advances the offset. -/
theorem offset_add (pos count : Nat) (inside : pos % (size + 1) + count ≤ size) :
    (pos + count) % (size + 1) = pos % (size + 1) + count := by
  obtain ⟨lap, offset, rfl, bound, -, same⟩ := split_position size pos
  rw [same] at inside ⊢
  rw [Nat.add_assoc, offset_of_split lap _ inside]

/-- The header stays inside the buffer. -/
theorem headerAt_offset (pos : Nat) (short : header ≤ size) :
    headerAt size header pos % (size + 1) + header ≤ size :=
  fit_offset pos header short

/-- The payload stays inside the buffer. -/
theorem payloadAt_offset (pos len : Nat) (short : len ≤ size) :
    payloadAt size header pos len % (size + 1) + len ≤ size :=
  fit_offset _ len short

/-- The header starts at or behind the end of the previous record. -/
theorem le_headerAt (pos : Nat) : pos ≤ headerAt size header pos := le_fit pos header

/-- The payload starts behind the header. -/
theorem headerAt_add_le_payloadAt (pos len : Nat) :
    headerAt size header pos + header ≤ payloadAt size header pos len := le_fit _ len

/-- A record takes at least its header and its payload. -/
theorem add_le_endAt (pos len : Nat) : pos + header + len ≤ endAt size header pos len := by
  have first : pos ≤ headerAt size header pos := le_headerAt pos
  have second : headerAt size header pos + header ≤ payloadAt size header pos len :=
    headerAt_add_le_payloadAt pos len
  unfold endAt
  omega

/-- A record appended at an explicit lap and offset, in each of its three layouts. -/
theorem endAt_split (lap offset len : Nat) (bound : offset ≤ size)
    (short : header + len ≤ size) :
    endAt size header (lap * (size + 1) + offset) len =
      if size < offset + header then (lap + 1) * (size + 1) + header + len
      else if size < offset + header + len then (lap + 1) * (size + 1) + len
      else lap * (size + 1) + offset + header + len := by
  unfold endAt payloadAt headerAt
  rw [fit_split lap offset header bound]
  split
  · rw [fit_split (lap + 1) header len (by omega), if_neg (by omega)]
  · rename_i kept
    rw [Nat.add_assoc, fit_split lap (offset + header) len (by omega)]
    split
    · rfl
    · omega

/-- A record takes its header and its payload and stays in the lap, or goes to the next lap and
skips what is left of this one: less than its header or less than its payload, and the position
behind the last offset. -/
theorem endAt_gap (pos len : Nat) (short : header + len ≤ size) :
    (endAt size header pos len / (size + 1) = pos / (size + 1) ∧
        endAt size header pos len = pos + header + len) ∨
      (endAt size header pos len / (size + 1) = pos / (size + 1) + 1 ∧
        pos + header + len < endAt size header pos len ∧
        endAt size header pos len ≤ pos + header + len + max header len) := by
  obtain ⟨lap, offset, rfl, bound, quotient, -⟩ := split_position size pos
  have advanced := endAt_split lap offset len bound short
  rw [quotient, advanced]
  by_cases headerWraps : size < offset + header
  · right
    rw [if_pos headerWraps, Nat.add_assoc ((lap + 1) * (size + 1)), lap_of_split _ _ (by omega),
      next_lap]
    omega
  · rw [if_neg headerWraps]
    by_cases payloadWraps : size < offset + header + len
    · right
      rw [if_pos payloadWraps, lap_of_split _ _ (by omega), next_lap]
      omega
    · left
      have sum : lap * (size + 1) + offset + header + len =
          lap * (size + 1) + (offset + header + len) := by omega
      rw [if_neg payloadWraps, sum, lap_of_split _ _ (by omega)]
      exact ⟨rfl, rfl⟩

/-- Several records that cross the end once at most take their headers and payloads, and at the
crossing they skip something, at most a header or the longest payload. -/
theorem foldl_endAt_gap (lengths : List Nat) (pos most : Nat)
    (short : ∀ len ∈ lengths, header + len ≤ size ∧ len ≤ most) :
    let last := lengths.foldl (endAt size header) pos
    let used := (lengths.map (header + ·)).sum
    pos / (size + 1) ≤ last / (size + 1) ∧
      (last / (size + 1) = pos / (size + 1) → last = pos + used) ∧
      (last / (size + 1) = pos / (size + 1) + 1 →
        pos + used < last ∧ last ≤ pos + used + max header most) := by
  induction lengths generalizing pos with
  | nil => simp
  | cons len rest ih =>
    have ⟨fits, bounded⟩ := short len List.mem_cons_self
    have ⟨later, same, next⟩ := ih (endAt size header pos len)
      fun other member => short other (List.mem_cons_of_mem _ member)
    simp only [List.foldl_cons, List.map_cons, List.sum_cons]
    rcases endAt_gap pos len fits with ⟨lap, ends⟩ | ⟨lap, skipped, few⟩
    · rw [lap] at later same next
      refine ⟨later, ?_, ?_⟩
      · intro stays
        have all := same stays
        omega
      · intro crosses
        have ⟨least, gap⟩ := next crosses
        omega
    · rw [lap] at later same
      refine ⟨by omega, ?_, ?_⟩
      · intro stays
        omega
      · intro crosses
        have all := same crosses
        omega

/-- A record at most half a buffer long, header included, ends within one lap of the place
it is appended at, whatever that place is. -/
theorem endAt_lt_lap (pos len : Nat) (half : 2 * (header + len + 1) ≤ size) :
    endAt size header pos len < pos + (size + 1) := by
  obtain ⟨lap, offset, rfl, bound, -, -⟩ := split_position size pos
  rw [endAt_split lap offset len bound (by omega), next_lap]
  split
  · omega
  · split <;> omega

/-- Inside a window of at most one lap the tail is in the lap of the head, not before it, or
in the next lap at a smaller offset. -/
theorem window_laps {head tail : Nat} (ordered : head ≤ tail) (window : tail < head + (size + 1)) :
    (tail / (size + 1) = head / (size + 1) ∧ head % (size + 1) ≤ tail % (size + 1)) ∨
      (tail / (size + 1) = head / (size + 1) + 1 ∧ tail % (size + 1) < head % (size + 1)) := by
  obtain ⟨lap, offset, rfl, bound, quotient, remainder⟩ := split_position size tail
  obtain ⟨first, start, rfl, startBound, quotient', remainder'⟩ := split_position size head
  rw [quotient, quotient', remainder, remainder']
  rcases Nat.lt_trichotomy lap first with before | rfl | after
  · have gap : (lap + 1) * (size + 1) ≤ first * (size + 1) := Nat.mul_le_mul_right _ before
    rw [next_lap] at gap
    omega
  · left
    omega
  · right
    have gap : (first + 1) * (size + 1) ≤ lap * (size + 1) := Nat.mul_le_mul_right _ after
    rw [next_lap] at gap
    have exact : lap = first + 1 := by
      by_contra other
      have wide : (first + 2) * (size + 1) ≤ lap * (size + 1) :=
        Nat.mul_le_mul_right _ (by omega)
      rw [next_lap, next_lap] at wide
      omega
    omega

/-- Two positions are at most a lap apart when they are in one lap, or in adjacent laps with the
later one at no larger offset. -/
theorem le_lap_iff {head tail : Nat} (ordered : head ≤ tail) :
    tail ≤ head + (size + 1) ↔ tail / (size + 1) = head / (size + 1) ∨
      (tail / (size + 1) = head / (size + 1) + 1 ∧ tail % (size + 1) ≤ head % (size + 1)) := by
  constructor
  · intro within
    rcases Nat.lt_or_eq_of_le within with window | same
    · rcases window_laps ordered window with ⟨lap, -⟩ | ⟨lap, offset⟩
      · exact Or.inl lap
      · exact Or.inr ⟨lap, Nat.le_of_lt offset⟩
    · right
      rw [same, Nat.add_div_right _ (Nat.succ_pos size), Nat.add_mod_right]
      exact ⟨rfl, Nat.le_refl _⟩
  · intro laps
    obtain ⟨last, stop, rfl, stopBound, quotient, remainder⟩ := split_position size tail
    obtain ⟨lap, offset, rfl, bound, quotient', remainder'⟩ := split_position size head
    rw [quotient, quotient', remainder, remainder'] at laps
    rcases laps with rfl | ⟨rfl, least⟩
    · omega
    · rw [next_lap]
      omega

/-- Inside a window of at most one lap, the room test on offsets decides whether a record
appended at `tail` ends within one lap of `head`. -/
theorem room_iff (head tail len : Nat) (ordered : head ≤ tail)
    (window : tail < head + (size + 1)) (short : header + len ≤ size) :
    endAt size header tail len < head + (size + 1) ↔
      if tail % (size + 1) < head % (size + 1) then
        tail % (size + 1) + (len + header) < head % (size + 1)
      else if size < tail % (size + 1) + header then len + header < head % (size + 1)
      else if size < tail % (size + 1) + header + len then len < head % (size + 1)
      else True := by
  have laps := window_laps ordered window
  obtain ⟨lap, offset, rfl, bound, quotient, remainder⟩ := split_position size tail
  obtain ⟨first, start, rfl, startBound, quotient', remainder'⟩ := split_position size head
  rw [quotient, quotient', remainder, remainder'] at laps
  rw [remainder, remainder', endAt_split lap offset len bound short, next_lap]
  rcases laps with ⟨rfl, -⟩ | ⟨rfl, -⟩
  · rw [if_neg (by omega : ¬ offset < start)]
    split
    · constructor <;> intro <;> omega
    · split
      · constructor <;> intro <;> omega
      · constructor
        · intro; trivial
        · intro; omega
  · rw [next_lap] at window ⊢
    rw [if_pos (by omega : offset < start)]
    split
    · constructor <;> intro <;> omega
    · split <;> constructor <;> intro <;> omega

/-- Two blocks of one window of at most one lap, neither of which crosses the end, share
no offset. -/
theorem blocks_apart (early late count extent : Nat) (ordered : early + count ≤ late)
    (window : late + extent ≤ early + (size + 1))
    (inside : early % (size + 1) + count ≤ size) (inside' : late % (size + 1) + extent ≤ size) :
    early % (size + 1) + count ≤ late % (size + 1) ∨
      late % (size + 1) + extent ≤ early % (size + 1) := by
  obtain ⟨lap, offset, rfl, bound, -, same⟩ := split_position size early
  obtain ⟨last, stop, rfl, stopBound, -, same'⟩ := split_position size late
  rw [same] at inside ⊢
  rw [same'] at inside' ⊢
  rcases Nat.lt_trichotomy last lap with before | rfl | after
  · have gap : (last + 1) * (size + 1) ≤ lap * (size + 1) := Nat.mul_le_mul_right _ before
    rw [next_lap] at gap
    omega
  · left; omega
  · have gap : (lap + 1) * (size + 1) ≤ last * (size + 1) := Nat.mul_le_mul_right _ after
    rw [next_lap] at gap
    right; omega

/-- Appending one record to a list extends the position by that record. -/
theorem position_concat (lengths : List Nat) (len : Nat) :
    position size header (lengths ++ [len]) =
      endAt size header (position size header lengths) len := by
  simp [position, List.foldl_append]

/-- The position behind one more record of a list is the end of that record. -/
theorem position_take_succ (lengths : List Nat) (index : Nat) (inside : index < lengths.length) :
    position size header (lengths.take (index + 1)) =
      endAt size header (position size header (lengths.take index)) lengths[index] := by
  rw [← position_concat, List.take_append_getElem inside]

/-- Every record of a list advances the position by at least its header. -/
theorem position_take_add_le (lengths : List Nat) (index count : Nat)
    (inside : index + count ≤ lengths.length) :
    position size header (lengths.take index) + count * header ≤
      position size header (lengths.take (index + count)) := by
  induction count with
  | zero => simp
  | succ count ih =>
    have last : position size header (lengths.take (index + count)) + header +
        lengths[index + count] ≤ position size header (lengths.take (index + count + 1)) := by
      rw [position_take_succ lengths (index + count) (by omega)]
      exact add_le_endAt _ _
    have prior := ih (by omega)
    rw [Nat.add_mul, ← Nat.add_assoc index]
    omega

/-- Positions grow along a list of records. -/
theorem position_take_mono (lengths : List Nat) {first last : Nat} (ordered : first ≤ last)
    (inside : last ≤ lengths.length) :
    position size header (lengths.take first) ≤ position size header (lengths.take last) := by
  obtain ⟨count, rfl⟩ := Nat.exists_eq_add_of_le ordered
  have grown : position size header (lengths.take first) + count * header ≤ _ :=
    position_take_add_le lengths first count inside
  omega

end RecordRing
