import ByteTape.Bytes

/-!
# Input and output

A program reads from an `Input`, which holds the bytes that are still unread, and writes to
an `Output`, which holds all that was written.

The end of the input is *sticky*: a read that finds no byte marks the input as ended, and
from then on every read fails, even when bytes have been appended since, until the mark is
cleared.  Taking the last byte does not set the mark.

The output is buffered: a *flush* hands over to the outside whatever was written before it.
-/

namespace ByteTape

/-! ### Input -/

/-- An input from which bytes are read one by one. -/
structure Input where
  /-- The bytes that have not been read. -/
  unread : List UInt8
  /-- Whether a read has met the end and no one has cleared that since. -/
  ended : Bool
  deriving DecidableEq

namespace Input

/-- An input that holds some bytes and has not been read. -/
def ofList (bytes : List UInt8) : Input :=
  ⟨bytes, false⟩

/-- Read a byte.  A read at the end gives nothing and marks the input as ended. -/
def read : Input → Option UInt8 × Input
  | ⟨byte :: rest, false⟩ => (some byte, ⟨rest, false⟩)
  | ⟨unread, _⟩ => (none, ⟨unread, true⟩)

/-- Forget that a read has met the end. -/
def clear (input : Input) : Input :=
  { input with ended := false }

/-- Append bytes behind those that are still unread. -/
def append (input : Input) (bytes : List UInt8) : Input :=
  { input with unread := input.unread ++ bytes }

@[simp]
theorem read_cons (byte : UInt8) (rest : List UInt8) :
  read ⟨byte :: rest, false⟩ = (some byte, ⟨rest, false⟩)
  := rfl

@[simp]
theorem read_nil (ended : Bool) :
  read ⟨[], ended⟩ = (none, ⟨[], true⟩)
  := by
  cases ended <;> rfl

@[simp]
theorem read_ended (unread : List UInt8) :
  read ⟨unread, true⟩ = (none, ⟨unread, true⟩)
  := by
  cases unread <;> rfl

/-- A read takes the byte it gives from the front of the unread bytes and nothing else. -/
theorem read_lossless (input : Input) :
  input.read.1.toList ++ input.read.2.unread = input.unread
  := by
  rcases input with ⟨_ | ⟨byte, rest⟩, _ | _⟩ <;> rfl

/-- A read gives nothing exactly when it leaves the input marked as ended. -/
theorem read_eq_none_iff (input : Input) :
  input.read.1 = none ↔ input.read.2.ended = true
  := by
  rcases input with ⟨_ | ⟨byte, rest⟩, _ | _⟩ <;> simp

end Input

/-! ### Output -/

/-- An output to which bytes are written, with an account of its flushes. -/
structure Output where
  /-- All bytes that were written. -/
  bytes : Bytes
  /-- How many of them were written before the last flush. -/
  delivered : Nat
  /-- How often the output was flushed. -/
  flushes : Nat
  deriving DecidableEq

namespace Output

/-- An output to which nothing has been written. -/
def empty : Output :=
  ⟨#[], 0, 0⟩

/-- An output to which some bytes have been written, which has never been flushed. -/
def ofBytes (bytes : Bytes) : Output :=
  ⟨bytes, 0, 0⟩

/-- Write a byte. -/
def write (output : Output) (byte : UInt8) : Output :=
  match output with
  | ⟨bytes, delivered, flushes⟩ => ⟨bytes.push byte, delivered, flushes⟩

/-- Hand over all that was written. -/
def flush (output : Output) : Output :=
  { output with delivered := output.bytes.size, flushes := output.flushes + 1 }

/-- The output without the bytes written so far, for those who have seen to them. -/
def forget (output : Output) : Output :=
  { output with bytes := #[], delivered := 0 }

/-- The bytes written after the first `count` bytes. -/
def since (output : Output) (count : Nat) : Bytes :=
  output.bytes.extract count

@[simp]
theorem bytes_flush (output : Output) :
  output.flush.bytes = output.bytes
  := rfl

@[simp]
theorem flushes_write (output : Output) (byte : UInt8) :
  (output.write byte).flushes = output.flushes
  := rfl

end Output

end ByteTape
