import PerfVerif.Exceptions.StreamingException

/-!
# The messages of exceptions

Every append leaves the string in `message_` as the beginning of what has been appended so far,
and nothing but `message_` changes. The message is cut at each append; cutting the pieces is the
same as cutting their concatenation, so the law for a sequence follows from the law for one step.
-/

namespace PerfVerif.Exceptions

open CString (Text strlen strncpy Holds)

/-- The beginning of a text that `message_` has room for. -/
def cut (bytes : List UInt8) : List UInt8 := bytes.take (messageSize - 1)

/-- The stream output of some values. -/
def output (values : List Value) : List UInt8 := values.flatMap fun value => value.text.bytes

/-- What the message of an `Errno` says, before it is cut. -/
def errnoMessage (text : Text) (values : List Value) : List UInt8 :=
  match values with
  | [] => text.bytes
  | _ :: _ => text.bytes ++ whenText.bytes ++ output values

/-- The memory outside of `message_` is as it was. -/
def Untouched (before after : Nat → UInt8) (base : Nat) : Prop :=
  ∀ address, (address < base ∨ base + messageSize ≤ address) → after address = before address

/-- The message is the beginning of a text, and no other memory has changed. -/
structure Shows (before after : Nat → UInt8) (base : Nat) (bytes : List UInt8) : Prop where
  holds : Holds after base messageSize (cut bytes)
  untouched : Untouched before after base

section Appends

variable {before memory : Nat → UInt8} {base : Nat} {bytes : List UInt8}

/-- A cut text leaves room for the null byte. -/
theorem length_cut (bytes : List UInt8) : (cut bytes).length ≤ 255 := by
  rw [cut, List.length_take]
  exact Nat.min_le_left _ _

/-- What is appended to a cut text could as well be appended before the cut. -/
theorem cut_append_cut (left right : List UInt8) : cut (cut left ++ right) = cut (left ++ right) :=
  CString.take_append_take left right _

/-- A blank message shows nothing. -/
theorem blank_shows (memory : Nat → UInt8) (base : Nat) :
    Shows memory (blank memory base) base [] where
  holds :=
    { fits := by decide
      nonNull := by simp [cut]
      content := by simp [cut, blank, Memory.store] }
  untouched address outside := by
    apply Memory.store_outside
    rw [messageSize] at outside
    rw [List.length_singleton]
    omega

/-- After an append the buffer holds the cut concatenation and null bytes behind it. -/
theorem append_bytes (text : Text) (start : List UInt8) (room : start.length ≤ 255)
    (content : ∀ index ≤ start.length, memory (base + index) = start[index]?.getD 0)
    {index : Nat} (inside : index < messageSize) :
    Memory.store (strncpy memory (base + start.length) text (messageSize - start.length))
        (base + (messageSize - 1)) [0] (base + index) =
      (cut (start ++ text.bytes))[index]?.getD 0 := by
  rcases Nat.lt_or_ge index 255 with early | last
  · have kept : (cut (start ++ text.bytes))[index]? = (start ++ text.bytes)[index]? :=
      List.getElem?_take_of_lt early
    rw [Memory.store_outside _ _ _ _ (Or.inl (by rw [messageSize]; omega)), kept]
    rcases Nat.lt_or_ge index start.length with old | new
    · rw [CString.strncpy_outside text (Or.inl (by omega)), content index (Nat.le_of_lt old),
        List.getElem?_append_left old]
    · have position : base + index = base + start.length + (index - start.length) := by omega
      rw [position, CString.strncpy_inside text _ (by rw [messageSize]; omega),
        List.getElem?_append_right new]
  · obtain rfl : index = 255 := by
      rw [messageSize] at inside
      omega
    have short := length_cut (start ++ text.bytes)
    rw [List.getElem?_eq_none (by omega)]
    simp [Memory.store, messageSize]

/-- An append stays inside the buffer and leaves the cut concatenation in it. -/
theorem append_shows (shows : Shows before memory base bytes) (value : Value) :
    ∃ after, append memory base value = some after ∧
      Shows before after base (bytes ++ value.text.bytes) := by
  have ⟨⟨fits, nonNull, content⟩, untouched⟩ := shows
  have room := length_cut bytes
  refine ⟨_, by rw [append, Holds.strlen ⟨fits, nonNull, content⟩, Option.map_some], ?_⟩
  refine ⟨⟨?_, ?_, ?_⟩, ?_⟩
  · exact Nat.lt_of_le_of_lt (length_cut _) (by decide)
  · rw [← cut_append_cut]
    intro byte member
    rcases List.mem_append.mp (List.mem_of_mem_take member) with old | new
    · exact nonNull byte old
    · exact value.text.nonNull byte new
  · intro index inside
    have longest := length_cut (bytes ++ value.text.bytes)
    rw [append_bytes value.text (cut bytes) room content (by rw [messageSize]; omega),
      cut_append_cut]
  · intro address outside
    rw [← untouched address outside]
    rw [messageSize] at outside
    rw [Memory.store_outside, CString.strncpy_outside]
    · rw [messageSize]
      omega
    · rw [messageSize, List.length_singleton]
      omega

/-- Any number of appends stay inside the buffer and leave the cut concatenation in it. -/
theorem appendAll_shows (values : List Value) (shows : Shows before memory base bytes) :
    ∃ after, appendAll base memory values = some after ∧
      Shows before after base (bytes ++ output values) := by
  induction values generalizing memory bytes with
  | nil => exact ⟨memory, rfl, by simpa [output] using shows⟩
  | cons value rest ih =>
    have ⟨middle, appended, first⟩ := append_shows shows value
    have ⟨after, rest, all⟩ := ih first
    refine ⟨after, by rw [appendAll, appended, Option.bind_some, rest], ?_⟩
    rwa [List.append_assoc] at all

/-- `what()` returns the text of the message, cut. -/
theorem Shows.what (shows : Shows before memory base bytes) :
    what memory base = some (cut bytes) :=
  shows.holds.read

/-- An `Errno` whose message is the beginning of a text. -/
structure Reports (before : Nat → UInt8) (e : Errno) (base : Nat) (errno : Int) (extra : Bool)
    (bytes : List UInt8) : Prop where
  shows : Shows before e.memory base bytes
  number : e.errno = errno
  hasExtra : e.hasExtra = extra

variable {e : Errno} {errno : Int} {extra : Bool}

/-- The part of an append that `Errno` inherits. -/
theorem stream_reports (reports : Reports before e base errno extra bytes) (value : Value) :
    ∃ after, e.stream base value = some after ∧
      Reports before after base errno extra (bytes ++ value.text.bytes) := by
  have ⟨memory, appended, shows⟩ := append_shows reports.shows value
  refine ⟨{ e with memory := memory }, ?_, shows, reports.number, reports.hasExtra⟩
  rw [Errno.stream, appended, Option.map_some]

/-- Behind the first value, an `Errno` appends the value alone. -/
theorem insert_reports (reports : Reports before e base errno true bytes) (value : Value) :
    ∃ after, e.insert base value = some after ∧
      Reports before after base errno true (bytes ++ value.text.bytes) := by
  rw [Errno.insert, if_pos reports.hasExtra]
  exact stream_reports reports value

/-- In front of the first value, an `Errno` appends the separator. -/
theorem insert_first_reports (reports : Reports before e base errno false bytes) (value : Value) :
    ∃ after, e.insert base value = some after ∧
      Reports before after base errno true (bytes ++ whenText.bytes ++ value.text.bytes) := by
  have marked : Reports before { e with hasExtra := true } base errno true bytes :=
    ⟨reports.shows, reports.number, rfl⟩
  have ⟨separated, first, separator⟩ := stream_reports marked (.prints whenText)
  have ⟨after, second, said⟩ := stream_reports separator value
  refine ⟨after, ?_, said⟩
  rw [Errno.insert, if_neg (by simp [reports.hasExtra]), first, Option.bind_some, second]

/-- Behind the first value, any number of values are appended as they are. -/
theorem insertAll_reports (values : List Value) (reports : Reports before e base errno true bytes) :
    ∃ after, Errno.insertAll base e values = some after ∧
      Reports before after base errno true (bytes ++ output values) := by
  induction values generalizing e bytes with
  | nil => exact ⟨e, rfl, by simpa [output] using reports⟩
  | cons value rest ih =>
    have ⟨middle, inserted, first⟩ := insert_reports reports value
    have ⟨after, rest, all⟩ := ih first
    refine ⟨after, by rw [Errno.insertAll, inserted, Option.bind_some, rest], ?_⟩
    rwa [List.append_assoc] at all

/-- The separator comes once, in front of the first value, if there is one. -/
theorem insertAll_message (values : List Value) {text : Text}
    (reports : Reports before e base errno false text.bytes) :
    ∃ after, Errno.insertAll base e values = some after ∧
      Shows before after.memory base (errnoMessage text values) ∧ after.errno = errno := by
  cases values with
  | nil => exact ⟨e, rfl, reports.shows, reports.number⟩
  | cons value rest =>
    have ⟨middle, inserted, first⟩ := insert_first_reports reports value
    have ⟨after, rest, all⟩ := insertAll_reports rest first
    refine ⟨after, by rw [Errno.insertAll, inserted, Option.bind_some, rest], ?_, all.number⟩
    have shows := all.shows
    rwa [List.append_assoc] at shows

/-- The constructors differ in the error number and in a value that is inserted first. -/
theorem build_eq (strerror : Int → Text) (memory : Nat → UInt8) (base : Nat) (errno : Int)
    (ctor : ErrnoCtor) (values : List Value) :
    Errno.build strerror memory base errno ctor values =
      (Errno.start strerror memory base (ctor.number errno)).bind fun e =>
        Errno.insertAll base e (ctor.values ++ values) := by
  cases ctor with
  | default => rfl
  | value => rfl
  | error => rfl

/-- Whatever the constructor and the values are, the message of an `Errno` is the text of its
error number and the values. -/
theorem build_message (strerror : Int → Text) (memory : Nat → UInt8) (base : Nat) (errno : Int)
    (ctor : ErrnoCtor) (values : List Value) :
    ∃ e, Errno.build strerror memory base errno ctor values = some e ∧
      Shows memory e.memory base
        (errnoMessage (strerror (ctor.number errno)) (ctor.values ++ values)) ∧
      e.errno = ctor.number errno := by
  have fresh : Reports memory ⟨blank memory base, ctor.number errno, false⟩ base
      (ctor.number errno) false [] := ⟨blank_shows memory base, rfl, rfl⟩
  have ⟨start, started, reports⟩ := stream_reports fresh (.prints (strerror (ctor.number errno)))
  have ⟨after, inserted, message⟩ := insertAll_message (ctor.values ++ values) reports
  refine ⟨after, ?_, message⟩
  rw [build_eq, Errno.start, started, Option.bind_some, inserted]

/-- The message of a `StreamingException` is its values. -/
theorem streaming_message (memory : Nat → UInt8) (base : Nat) (ctor : StreamingCtor)
    (values : List Value) :
    ∃ after, streaming memory base ctor values = some after ∧
      Shows memory after base (output (ctor.values ++ values)) := by
  have same : streaming memory base ctor values =
      appendAll base (blank memory base) (ctor.values ++ values) := by
    cases ctor with
    | blank => rfl
    | message => rfl
  rw [same]
  exact appendAll_shows _ (blank_shows memory base)

end Appends

/-- However an exception is built and whatever is appended to it, `what()` is a string in the
buffer, the first 255 bytes of the concatenation, and no byte outside of the buffer changes. -/
theorem messages_truncated (memory : Nat → UInt8) (base : Nat) :
    (∀ strerror errno ctor values,
      ∃ e, Errno.build strerror memory base errno ctor values = some e ∧
        what e.memory base =
          some ((errnoMessage (strerror (ctor.number errno)) (ctor.values ++ values)).take 255) ∧
        Untouched memory e.memory base) ∧
    (∀ ctor values, ∃ after, streaming memory base ctor values = some after ∧
      what after base = some ((output (ctor.values ++ values)).take 255) ∧
      Untouched memory after base) := by
  constructor
  · intro strerror errno ctor values
    have ⟨e, built, shows, _⟩ := build_message strerror memory base errno ctor values
    exact ⟨e, built, shows.what, shows.untouched⟩
  · intro ctor values
    have ⟨after, built, shows⟩ := streaming_message memory base ctor values
    exact ⟨after, built, shows.what, shows.untouched⟩

end PerfVerif.Exceptions
