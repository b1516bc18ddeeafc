import ByteTape.Program

/-!
# What a source spells

A source spells a program by those of its bytes that are no comments.  Formatting what a source
spells gives back these bytes (`format_parse_eq`), so two sources spell the same program exactly if
they differ in comments only (`parse_eq_parse_iff`).  It does not matter whether the source is there
as a whole or arrives byte by byte (`readAll_toList`).
-/

namespace ByteTape

namespace Instruction

/-- The bytes that stand for instructions. -/
def alphabet : List UInt8 :=
  ['>', '<', '+', '-', '.', ',', '[', ']'].map Char.toUInt8

theorem toByte_mem_alphabet (instruction : Instruction) :
  instruction.toByte ∈ alphabet
  := by
  rcases instruction with action | _ | _
  · cases action <;> decide
  · decide
  · decide

/-- A byte that stands for an instruction is one of these eight, and each of them does. -/
theorem isWritten_iff {byte : UInt8} :
  isWritten byte ↔ byte ∈ alphabet
  := by
  constructor
  · intro written
    obtain ⟨instruction, read⟩ := Option.isSome_iff_exists.mp written
    rw [← toByte_of_ofByte? read]
    apply toByte_mem_alphabet
  · intro among
    have each : alphabet.all isWritten := by decide
    apply List.all_eq_true.mp each byte among

end Instruction

namespace Program

/-- A source without its comments. -/
def withoutComments (source : Bytes) : Bytes :=
  source.filter (· ∈ Instruction.alphabet)

/-- Formatting what a source spells gives the source without its comments. -/
theorem format_parse_eq (source : Bytes) :
  (parse source).format = withoutComments source
  := by
  have same : Instruction.isWritten = fun byte => decide (byte ∈ Instruction.alphabet) := by
    funext byte
    apply Bool.eq_iff_iff.mpr
    simp [Instruction.isWritten_iff]
  rw [format_parse, withoutComments, same]

-- Zero bytes and bytes above 127 are comments like any other.
example : withoutComments #[0, 43, 200, 93, 43] = #[43, 93, 43] := by decide

/-- Comments do not matter. -/
theorem parse_withoutComments (source : Bytes) :
  parse (withoutComments source) = parse source
  := by
  rw [← format_parse_eq, parse_format]

/-- Two sources spell the same program if they differ in comments only. -/
theorem parse_eq_parse_iff {s t : Bytes} :
  parse s = parse t ↔ withoutComments s = withoutComments t
  := by
  constructor
  · intro same
    rw [← format_parse_eq, same, format_parse_eq]
  · intro same
    rw [← parse_withoutComments s, same, parse_withoutComments]

/-- A program has as many instructions as its source has bytes that are no comments. -/
theorem size_parse (source : Bytes) :
  (parse source).size = source.countP (· ∈ Instruction.alphabet)
  := by
  rw [← size_format, format_parse_eq, withoutComments, Array.countP_eq_size_filter]

/-- What is taken byte by byte is added to what has been taken before. -/
theorem foldl_absorb (program : Program) (bytes : List UInt8) :
  bytes.foldl absorb program = program ++ parse bytes.toArray
  := by
  induction bytes generalizing program with
  | nil => simp [parse]
  | cons byte rest ih =>
    rw [List.foldl_cons, ih]
    cases read : Instruction.ofByte? byte with
    | none => simp [absorb, parse, read]
    | some instruction => simp [absorb, parse, read]

/-- A source that arrives byte by byte spells the same program. -/
theorem readAll_toList (source : Bytes) :
  readAll source.toList = parse source
  := by
  rw [readAll, foldl_absorb, Array.toArray_toList]
  apply Array.empty_append

/-- Decoding and formatting are inverse to each other, up to comments.

* Formatting what a source spells leaves out every byte that is not one of the eight characters that
  stand for instructions, and keeps these in order and as often as they are there.
* A program is spelled by its formatted text.
* One source followed by another one spells the one program followed by the other one.
* A source may arrive byte by byte.
* So two sources spell the same program exactly if they are the same without comments, and a program
  has as many instructions as there are characters for them. -/
theorem parse_up_to_comments (s t : Bytes) (program : Program) :
  (parse s).format = s.filter (· ∈ ['>', '<', '+', '-', '.', ',', '[', ']'].map Char.toUInt8) ∧
  parse program.format = program ∧
  parse (s ++ t) = parse s ++ parse t ∧
  readAll s.toList = parse s ∧
  (parse s = parse t ↔ withoutComments s = withoutComments t) ∧
  (parse s).size = s.countP (· ∈ Instruction.alphabet)
  := by
  and_intros
  · apply format_parse_eq
  · apply parse_format
  · apply parse_append
  · apply readAll_toList
  · apply parse_eq_parse_iff
  · apply size_parse

end Program

end ByteTape
