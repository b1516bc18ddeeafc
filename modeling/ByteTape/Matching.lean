import ByteTape.Program

/-!
# The end of a loop

`Program.closing? start` is the position of the first loop end from `start` on that closes no
loop begun from `start` on.  When `start` follows the beginning of a loop, that is where the
loop ends.
-/

namespace ByteTape

namespace Program

/-- Search `left` instructions from `position` on for a loop end that closes none of the
`depth` loops entered so far. -/
def scan (program : Program) : (left depth position : Nat) → Option Nat
  | 0, _, _ => none
  | left + 1, depth, position =>
    match program[position]? with
    | some .loopEnd =>
      match depth with
      | 0 => some position
      | depth + 1 => program.scan left depth (position + 1)
    | some .loopStart => program.scan left (depth + 1) (position + 1)
    | _ => program.scan left depth (position + 1)

/-- The end of the loop whose body begins at `start`. -/
def closing? (program : Program) (start : Nat) : Option Nat :=
  program.scan (program.size - start) 0 start

/-- Nothing is found from the end of the program on. -/
theorem closing?_of_size_le {program : Program} {start : Nat} (h : program.size ≤ start) :
  program.closing? start = none
  := by
  rw [closing?, Nat.sub_eq_zero_of_le h]
  rfl

end Program

end ByteTape
