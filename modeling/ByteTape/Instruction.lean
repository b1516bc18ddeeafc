/-!
# Instructions

There are six *actions*, which move the head, change the current cell or exchange a byte
with the outside, and two brackets, which delimit loops.  `Instruction` joins the two kinds.
The written form of an instruction is one byte: `Instruction.toByte` gives it and
`Instruction.ofByte?` reads it back.  All other bytes are comments.
-/

namespace ByteTape

/-- An instruction that works on the tape, the input or the output and always continues with
the next instruction. -/
inductive Action where
  /-- Move the head one cell to the right. -/
  | right
  /-- Move the head one cell to the left. -/
  | left
  /-- Add one to the current cell. -/
  | increment
  /-- Subtract one from the current cell. -/
  | decrement
  /-- Write the current cell to the output. -/
  | write
  /-- Read a byte of the input into the current cell. -/
  | read
  deriving DecidableEq, Repr

/-- An instruction is an action or one of the two brackets of a loop. -/
inductive Instruction where
  | act (action : Action)
  | loopStart
  | loopEnd
  deriving DecidableEq, Repr

/-- The character that stands for an action. -/
def Action.symbol : Action → Char
  | right => '>'
  | left => '<'
  | increment => '+'
  | decrement => '-'
  | write => '.'
  | read => ','

namespace Instruction

/-- The character that stands for an instruction. -/
def symbol : Instruction → Char
  | act action => action.symbol
  | loopStart => '['
  | loopEnd => ']'

/-- The written form of an instruction. -/
def toByte (instruction : Instruction) : UInt8 :=
  instruction.symbol.toUInt8

/-- The instruction that a byte stands for, if it is no comment. -/
def ofByte? (byte : UInt8) : Option Instruction :=
  match Char.ofUInt8 byte with
  | '>' => some (act .right)
  | '<' => some (act .left)
  | '+' => some (act .increment)
  | '-' => some (act .decrement)
  | '.' => some (act .write)
  | ',' => some (act .read)
  | '[' => some loopStart
  | ']' => some loopEnd
  | _ => none

/-- Whether a byte stands for an instruction. -/
def isWritten (byte : UInt8) : Bool :=
  (ofByte? byte).isSome

@[simp]
theorem ofByte?_toByte (instruction : Instruction) :
  ofByte? instruction.toByte = some instruction
  := by
  rcases instruction with a | _ | _
  · cases a <;> rfl
  · rfl
  · rfl

theorem toUInt8_ofUInt8 (byte : UInt8) :
  (Char.ofUInt8 byte).toUInt8 = byte
  := UInt8.toUInt8_toUInt32 byte

/-- Only the written form of an instruction is read as that instruction. -/
theorem toByte_of_ofByte? {byte : UInt8} {instruction : Instruction}
    (h : ofByte? byte = some instruction) :
  instruction.toByte = byte
  := by
  have back := toUInt8_ofUInt8 byte
  unfold ofByte? at h
  split at h <;> simp_all only [Option.some.injEq, reduceCtorEq]
  all_goals
    subst h
    exact back

/-- Reading and writing a single instruction are inverse to each other. -/
theorem ofByte?_eq_some_iff {byte : UInt8} {instruction : Instruction} :
  ofByte? byte = some instruction ↔ byte = instruction.toByte
  := by
  constructor
  · intro h
    exact (toByte_of_ofByte? h).symm
  · rintro rfl
    exact ofByte?_toByte instruction

end Instruction

end ByteTape
