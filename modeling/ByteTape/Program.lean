import ByteTape.Bytes
import ByteTape.Instruction

/-!
# Programs

A program is a string of instructions.  `Program.parse` decodes a source, in which every byte
that stands for no instruction is a comment, and `Program.format` writes a program without
comments.  `Program.readAll` decodes a source that arrives byte by byte.  Brackets need not
match: whether they do shows only when the program runs.
-/

namespace ByteTape

/-- A program is a string of instructions. -/
abbrev Program : Type := Array Instruction

namespace Program

/-- The program that a source spells. -/
def parse (source : Bytes) : Program :=
  source.filterMap Instruction.ofByte?

/-- The program followed by the instruction that a byte stands for, if any. -/
def absorb (program : Program) (byte : UInt8) : Program :=
  match Instruction.ofByte? byte with
  | some instruction => program.push instruction
  | none => program

/-- The program spelled by bytes that are taken one after the other until they end. -/
def readAll (source : List UInt8) : Program :=
  source.foldl absorb #[]

/-- The source of a program that has no comments. -/
def format (program : Program) : Bytes :=
  program.map Instruction.toByte

/-! ### Laws of decoding -/

@[simp]
theorem parse_append (s t : Bytes) :
  parse (s ++ t) = parse s ++ parse t
  := by
  simp [parse]

@[simp]
theorem size_format (program : Program) :
  program.format.size = program.size
  := Array.size_map

@[simp]
theorem format_append (p q : Program) :
  format (p ++ q) = p.format ++ q.format
  := Array.map_append

/-- Decoding undoes formatting. -/
@[simp]
theorem parse_format (program : Program) :
  parse program.format = program
  := by
  rw [parse, format, Array.filterMap_map]
  simp [Function.comp_def]

/-- Formatting a decoded source drops the comments and keeps the rest. -/
theorem format_parse (source : Bytes) :
  (parse source).format = source.filter Instruction.isWritten
  := by
  apply Array.ext'
  rw [format, parse, Array.toList_map, Array.toList_filterMap, Array.toList_filter]
  induction source.toList with
  | nil => rfl
  | cons b rest ih =>
    cases h : Instruction.ofByte? b with
    | none => simp [h, ih, Instruction.isWritten]
    | some i => simp [h, ih, Instruction.isWritten, Instruction.toByte_of_ofByte? h]

end Program

end ByteTape
