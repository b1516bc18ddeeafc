import ByteTape.Machine

/-!
# Structured programs

A program whose brackets match is a sequence of actions and loops, and the body of a loop is
again such a sequence.  `Code` is the type of these sequences and `Code.program` flattens one
into a program.

`Code.Ends` says what becomes of a sequence in terms of loops alone: a loop tests the current
cell before each round, and its body is run while the cell is not zero.  It speaks of no
jumps and no stack.  A sequence that runs for ever has no end in this sense.
-/

namespace ByteTape

/-- A sequence of actions and loops. -/
inductive Code where
  | done
  | act (action : Action) (rest : Code)
  | loop (body rest : Code)
  deriving DecidableEq

namespace Code

/-- The instructions of a sequence. -/
def instructions : Code → List Instruction
  | done => []
  | act action rest => .act action :: rest.instructions
  | loop body rest => .loopStart :: (body.instructions ++ .loopEnd :: rest.instructions)

/-- The number of instructions of a sequence. -/
def size : Code → Nat
  | done => 0
  | act _ rest => rest.size + 1
  | loop body rest => body.size + rest.size + 2

/-- The program that a sequence flattens to. -/
def program (code : Code) : Program :=
  code.instructions.toArray

@[simp]
theorem length_instructions (code : Code) :
  code.instructions.length = code.size
  := by
  induction code with
  | done => rfl
  | act action rest ih => simp [instructions, size, ih]
  | loop body rest ihb ihr =>
    simp only [instructions, size, List.length_cons, List.length_append, ihb, ihr]
    omega

@[simp]
theorem size_program (code : Code) :
  code.program.size = code.size
  := by
  simp [program]

/-- `Ends eof code start s n t fault` says that a sequence which stands at position `start` of
a program turns the store `s` into `t` in `n` steps, and then ends, or stops with a fault.

Each action, each test of a cell before a round of a loop, and each end of a round is a step,
except that a loop which has run is left at the end of its last round. -/
inductive Ends (eof : EofPolicy) :
    Code → (start : Nat) → Store → (steps : Nat) → Store → Option Fault → Prop where
  | done {start : Nat} {s : Store} :
    Ends eof done start s 0 s none
  | act {action : Action} {rest : Code} {start n : Nat} {s s' t : Store} {fault : Option Fault}
      (performed : s.perform eof action = (s', none))
      (following : Ends eof rest (start + 1) s' n t fault) :
    Ends eof (act action rest) start s (n + 1) t fault
  | actFails {action : Action} {rest : Code} {start : Nat} {s t : Store} {kind : FaultKind}
      (failed : s.perform eof action = (t, some kind)) :
    Ends eof (act action rest) start s 1 t (some ⟨kind, start⟩)
  | loopSkipped {body rest : Code} {start n : Nat} {s t : Store} {fault : Option Fault}
      (zero : s.tape.current = 0)
      (following : Ends eof rest (start + body.size + 2) s n t fault) :
    Ends eof (loop body rest) start s (n + 1) t fault
  | loopFails {body rest : Code} {start n : Nat} {s t : Store} {fault : Fault}
      (nonzero : s.tape.current ≠ 0)
      (round : Ends eof body (start + 1) s n t (some fault)) :
    Ends eof (loop body rest) start s (n + 1) t (some fault)
  | loopLast {body rest : Code} {start n m : Nat} {s s' t : Store} {fault : Option Fault}
      (nonzero : s.tape.current ≠ 0)
      (round : Ends eof body (start + 1) s n s' none)
      (zero : s'.tape.current = 0)
      (following : Ends eof rest (start + body.size + 2) s' m t fault) :
    Ends eof (loop body rest) start s (n + 2 + m) t fault
  | loopAgain {body rest : Code} {start n m : Nat} {s s' t : Store} {fault : Option Fault}
      (nonzero : s.tape.current ≠ 0)
      (round : Ends eof body (start + 1) s n s' none)
      (again : s'.tape.current ≠ 0)
      (following : Ends eof (loop body rest) start s' m t fault) :
    Ends eof (loop body rest) start s (n + 2 + m) t fault

end Code

end ByteTape
