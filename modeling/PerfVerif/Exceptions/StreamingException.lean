import PerfVerif.Lib.CString

/-!
# `StreamingException` and `Errno`

An exception collects its message in `message_`, an array of 256 bytes, by appending the stream
output of values. `Errno` puts `" when "` between the text of the error number and the values.
A value is what its output is, or that its output throws. The memory is the whole memory of the
program, and `base` is the address of `message_`; `strerror` is a parameter.
-/

namespace PerfVerif.Exceptions

open CString (Text strlen strncpy Holds)

/-- `sizeof(message_)`. -/
def messageSize : Nat := 256

/-- The characters of a literal. -/
def literal (text : String) : List UInt8 := text.toList.map fun c => c.toNat.toUInt8

/-- The message of the `catch` branch. -/
def unexpected : Text :=
  ⟨literal "unexpected exception in StreamingException::operator<<", by decide +kernel⟩

/-- The separator that `Errno` inserts. -/
def whenText : Text := ⟨literal " when ", by decide +kernel⟩

/-- A value that is appended. -/
inductive Value where
  | prints (text : Text)
  | throws

/-- What is appended for a value. -/
def Value.text : Value → Text
  | .prints text => text
  | .throws => unexpected

/-- `message_[0] = 0`. -/
def blank (memory : Nat → UInt8) (base : Nat) : Nat → UInt8 := Memory.store memory base [0]

/-- `StreamingException::operator<<`; `none` when `strlen` leaves the buffer. -/
def append (memory : Nat → UInt8) (base : Nat) (value : Value) : Option (Nat → UInt8) :=
  (strlen memory base messageSize).map fun currMessageSize =>
    Memory.store
      (strncpy memory (base + currMessageSize) value.text (messageSize - currMessageSize))
      (base + (messageSize - 1)) [0]

/-- `what()`, with the bytes of the string that it points to. -/
def what (memory : Nat → UInt8) (base : Nat) : Option (List UInt8) :=
  CString.read memory base messageSize

/-- `operator<<` for each of the values. -/
def appendAll (base : Nat) : (Nat → UInt8) → List Value → Option (Nat → UInt8)
  | memory, [] => some memory
  | memory, value :: rest => (append memory base value).bind fun after => appendAll base after rest

/-- The constructors of `StreamingException`. -/
inductive StreamingCtor where
  | blank
  | message (value : Value)

/-- A `StreamingException` to which values are appended. -/
def streaming (memory : Nat → UInt8) (base : Nat) (ctor : StreamingCtor) (values : List Value) :
    Option (Nat → UInt8) :=
  match ctor with
  | .blank => appendAll base (blank memory base) values
  | .message value =>
    (append (blank memory base) base value).bind fun after => appendAll base after values

/-- The values that go into a `StreamingException`. -/
def StreamingCtor.values : StreamingCtor → List Value
  | .blank => []
  | .message value => [value]

/-- An `Errno` and the memory that its message is in. -/
structure Errno where
  memory : Nat → UInt8
  errno : Int
  hasExtra : Bool

/-- `StreamingException::operator<<` of an `Errno`. -/
def Errno.stream (e : Errno) (base : Nat) (value : Value) : Option Errno :=
  (append e.memory base value).map fun memory => { e with memory := memory }

/-- `Errno::operator<<`. The call for the separator finds `has_extra_` set. -/
def Errno.insert (e : Errno) (base : Nat) (value : Value) : Option Errno :=
  if e.hasExtra then e.stream base value
  else
    (Errno.stream { e with hasExtra := true } base (.prints whenText)).bind fun separated =>
      separated.stream base value

/-- `Errno::operator<<` for each of the values. -/
def Errno.insertAll (base : Nat) : Errno → List Value → Option Errno
  | e, [] => some e
  | e, value :: rest => (e.insert base value).bind fun after => Errno.insertAll base after rest

/-- The constructors of `Errno`. -/
inductive ErrnoCtor where
  | default
  | value (v : Value)
  | error (err : Int) (v : Value)

/-- The part that the constructors share: the text of the error number. -/
def Errno.start (strerror : Int → Text) (memory : Nat → UInt8) (base : Nat) (errno : Int) :
    Option Errno :=
  Errno.stream ⟨blank memory base, errno, false⟩ base (.prints (strerror errno))

/-- An `Errno` to which values are appended, when `errno` is the error number of the thread. -/
def Errno.build (strerror : Int → Text) (memory : Nat → UInt8) (base : Nat) (errno : Int)
    (ctor : ErrnoCtor) (values : List Value) : Option Errno :=
  match ctor with
  | .default =>
    (Errno.start strerror memory base errno).bind fun e => Errno.insertAll base e values
  | .value v =>
    (Errno.start strerror memory base errno).bind fun e =>
      (e.insert base v).bind fun e => Errno.insertAll base e values
  | .error err v =>
    (Errno.start strerror memory base err).bind fun e =>
      (e.insert base v).bind fun e => Errno.insertAll base e values

/-- The values that go into an `Errno`. -/
def ErrnoCtor.values : ErrnoCtor → List Value
  | .default => []
  | .value v => [v]
  | .error _ v => [v]

/-- The error number that an `Errno` is about. -/
def ErrnoCtor.number (errno : Int) : ErrnoCtor → Int
  | .default => errno
  | .value _ => errno
  | .error err _ => err

end PerfVerif.Exceptions
