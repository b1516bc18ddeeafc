import ByteTape.Matching
import ByteTape.Store

/-!
# The machine

A `Machine` is a store together with a position in a program, the loops that are being run
and the number of steps made so far.  `Machine.step` makes one step, and `Machine.run` makes
steps until the program ends or a fault stops it, or until the steps granted to it are used
up, in which case it gives nothing.

A loop is entered at its beginning when the current cell is not zero, and passed over when
it is.  At the end of a loop the machine either leaves it or goes back to its beginning,
which tests the cell again; a loop that is already being run is not entered a second time.
-/

namespace ByteTape

/-- The state of a running program. -/
structure Machine where
  store : Store
  /-- The instruction that comes next. -/
  position : Nat
  /-- The beginnings of the loops that are being run, innermost first. -/
  loops : List Nat
  /-- The number of steps made so far. -/
  steps : UInt64
  deriving DecidableEq

/-- What came of a step. -/
inductive Outcome where
  /-- An instruction was executed. -/
  | running
  /-- There was no instruction left. -/
  | halted
  /-- A fault happened. -/
  | failed (fault : Fault)
  deriving DecidableEq

/-- The outcome of executing the instruction at a position. -/
def Outcome.ofKind? (position : Nat) : Option FaultKind → Outcome
  | none => running
  | some kind => failed ⟨kind, position⟩

namespace Machine

/-- The machine at the beginning of a program. -/
def initial (input : List UInt8) : Machine :=
  ⟨.initial input, 0, [], 0⟩

/-- Whether the machine is past the last instruction of a program. -/
def finished (program : Program) (m : Machine) : Bool :=
  program.size ≤ m.position

/-- Whether the next step needs a byte of input when there is none left, though the end of the
input has not been met either. -/
def awaitsInput (program : Program) (options : Options) (m : Machine) : Bool :=
  program[m.position]? == some (.act .read) && !options.exhausted m.steps
    && m.store.input.unread.isEmpty && !m.store.input.ended

/-- The machine after it is forgotten that its input has ended. -/
def clearInput (m : Machine) : Machine :=
  { m with store := { m.store with input := m.store.input.clear } }

/-- The machine with more bytes behind its input. -/
def feed (bytes : List UInt8) (m : Machine) : Machine :=
  { m with store := { m.store with input := m.store.input.append bytes } }

/-- The machine without the bytes it has written so far. -/
def forgetOutput (m : Machine) : Machine :=
  { m with store := { m.store with output := m.store.output.forget } }

/-- Hand over all output. -/
def flush (m : Machine) : Machine :=
  { m with store := m.store.flush }

/-- The loops that are being run once the loop at a position is. -/
def enter (position : Nat) (loops : List Nat) : List Nat :=
  if loops.head? = some position then loops else position :: loops

/-- Execute an instruction. -/
def execute (program : Program) (eof : EofPolicy) :
    Instruction → Machine → Machine × Outcome
  | .act action, ⟨store, position, loops, steps⟩ =>
    match store.perform eof action with
    | (store, kind) => (⟨store, position + 1, loops, steps + 1⟩, .ofKind? position kind)
  | .loopStart, ⟨store, position, loops, steps⟩ =>
    if store.tape.current = 0 then
      match program.closing? (position + 1) with
      | some closing => (⟨store, closing + 1, loops, steps + 1⟩, .running)
      | none => (⟨store, position + 1, loops, steps + 1⟩, .failed ⟨.unclosedLoop, position⟩)
    else
      (⟨store, position + 1, enter position loops, steps + 1⟩, .running)
  | .loopEnd, ⟨store, position, loops, steps⟩ =>
    match loops with
    | [] => (⟨store, position + 1, [], steps + 1⟩, .failed ⟨.unopenedLoop, position⟩)
    | innermost :: outer =>
      if store.tape.current = 0 then
        (⟨store, position + 1, outer, steps + 1⟩, .running)
      else
        (⟨store, innermost, innermost :: outer, steps + 1⟩, .running)

/-- Make a step.  At the end of the program it is a fault if a loop is still being run; before
that, it is a fault if the steps are used up; otherwise the next instruction is executed. -/
def step (program : Program) (options : Options) (m : Machine) : Machine × Outcome :=
  match program[m.position]? with
  | none =>
    match m.loops with
    | [] => (m, .halted)
    | innermost :: _ => (m, .failed ⟨.unclosedLoop, innermost⟩)
  | some instruction =>
    if options.exhausted m.steps then (m, .failed ⟨.stepLimit, m.position⟩)
    else m.execute program options.eof instruction

/-- Make steps until the program ends, and then hand over all output, or until a fault stops
it.  Nothing is given if it does not end within `fuel` steps. -/
def run (program : Program) (options : Options) :
    (fuel : Nat) → Machine → Option (Machine × Option Fault)
  | 0, _ => none
  | fuel + 1, m =>
    match m.step program options with
    | (m, .running) => run program options fuel m
    | (m, .halted) => some (m.flush, none)
    | (m, .failed fault) => some (m, some fault)

/-! ### Laws of steps and runs -/

@[simp]
theorem enter_same (position : Nat) (outer : List Nat) :
  enter position (position :: outer) = position :: outer
  := by
  simp [enter]

/-- A machine that is past the program, with no loop being run, stays as it is. -/
theorem step_of_halted {program : Program} {m : Machine} (options : Options)
    (past : program.size ≤ m.position) (closed : m.loops = []) :
  m.step program options = (m, .halted)
  := by
  rw [step, Array.getElem?_eq_none past, closed]

/-- A refused step leaves the machine as it is. -/
theorem step_of_exhausted {program : Program} {options : Options} {m : Machine}
    (inside : m.position < program.size) (refused : options.exhausted m.steps = true) :
  m.step program options = (m, .failed ⟨.stepLimit, m.position⟩)
  := by
  simp [step, Array.getElem?_eq_getElem inside, refused]

/-- More fuel does not change how a run ends. -/
theorem run_mono {program : Program} {options : Options} {fuel fuel' : Nat}
    (more : fuel ≤ fuel') {m : Machine} {ending : Machine × Option Fault}
    (ended : run program options fuel m = some ending) :
  run program options fuel' m = some ending
  := by
  induction fuel generalizing fuel' m with
  | zero => simp [run] at ended
  | succ fuel ih =>
    obtain ⟨fuel', rfl⟩ := Nat.exists_eq_add_of_le' (Nat.lt_of_lt_of_le fuel.succ_pos more)
    rw [run] at ended ⊢
    split at ended
    · apply ih (Nat.le_of_succ_le_succ more) ended
    · apply ended
    · apply ended

/-- All runs that end from one state end alike. -/
theorem run_unique {program : Program} {options : Options} {fuel fuel' : Nat} {m : Machine}
    {ending ending' : Machine × Option Fault}
    (ended : run program options fuel m = some ending)
    (ended' : run program options fuel' m = some ending') :
  ending = ending'
  := by
  apply Option.some.inj
  obtain more | more := Nat.le_total fuel fuel'
  · rw [← run_mono more ended, ended']
  · rw [← run_mono more ended', ended]

end Machine

end ByteTape
