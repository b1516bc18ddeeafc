import ByteTape.Machine

/-!
# Running a program by a table of its jumps

The brackets of a program can be paired once, before it runs.  `JumpTable.ofProgram` does this
in one pass over the program, and `TableMachine` runs a program with nothing but a store, a
position and a count of steps: where a jump leads is read off the table, so neither the
loops that are being run nor a search for the end of a loop are needed.
-/

namespace ByteTape

/-- The partners of the brackets of a program, or of a first part of it. -/
structure JumpTable where
  /-- For each position the partner of the bracket there, if there is a bracket that has
  one. -/
  partners : Array (Option Nat)
  /-- The loop beginnings without a partner, the last one first. -/
  unclosed : List Nat
  deriving DecidableEq

namespace JumpTable

/-- The table for a program that goes on with one more instruction. -/
def record (table : JumpTable) (instruction : Instruction) : JumpTable :=
  let ⟨partners, unclosed⟩ := table
  match instruction, unclosed with
  | .act _, unclosed => ⟨partners.push none, unclosed⟩
  | .loopStart, unclosed => ⟨partners.push none, partners.size :: unclosed⟩
  | .loopEnd, [] => ⟨partners.push none, []⟩
  | .loopEnd, start :: outer =>
    ⟨(partners.setIfInBounds start (some partners.size)).push (some start), outer⟩

/-- The table for a program. -/
def ofProgram (program : Program) : JumpTable :=
  program.foldl record ⟨#[], []⟩

/-- The partner of the bracket at a position. -/
def partner? (table : JumpTable) (position : Nat) : Option Nat :=
  table.partners[position]?.join

/-- The last loop beginning without a partner. -/
def lastUnclosed? (table : JumpTable) : Option Nat :=
  table.unclosed.head?

end JumpTable

/-- The state of a program that runs by a table. -/
structure TableMachine where
  store : Store
  /-- The instruction that comes next. -/
  position : Nat
  /-- The number of steps made so far. -/
  steps : UInt64
  deriving DecidableEq

namespace TableMachine

/-- The beginning of a program. -/
def initial (input : List UInt8) : TableMachine :=
  ⟨.initial input, 0, 0⟩

/-- Hand over all output. -/
def flush (m : TableMachine) : TableMachine :=
  { m with store := m.store.flush }

/-- Count a step that leads to a position. -/
def goTo (m : TableMachine) (position : Nat) : TableMachine :=
  { m with position, steps := m.steps + 1 }

/-- Execute an instruction.  A loop beginning at a zero leads behind the end of the loop, and a
loop end at anything else leads back to the beginning; all else leads to what follows. -/
def execute (table : JumpTable) (eof : EofPolicy) (m : TableMachine) :
    Instruction → TableMachine × Outcome
  | .act action =>
    match m.store.perform eof action with
    | (store, kind) => ({ m with store }.goTo (m.position + 1), .ofKind? m.position kind)
  | .loopStart =>
    if m.store.tape.current = 0 then
      match table.partner? m.position with
      | some closing => (m.goTo (closing + 1), .running)
      | none => (m.goTo (m.position + 1), .failed ⟨.unclosedLoop, m.position⟩)
    else (m.goTo (m.position + 1), .running)
  | .loopEnd =>
    match table.partner? m.position with
    | none => (m.goTo (m.position + 1), .failed ⟨.unopenedLoop, m.position⟩)
    | some start =>
      if m.store.tape.current = 0 then (m.goTo (m.position + 1), .running)
      else (m.goTo start, .running)

/-- Make a step.  At the end of the program it is a fault if some loop has no end. -/
def step (program : Program) (table : JumpTable) (options : Options) (m : TableMachine) :
    TableMachine × Outcome :=
  match program[m.position]? with
  | none =>
    match table.lastUnclosed? with
    | some start => (m, .failed ⟨.unclosedLoop, start⟩)
    | none => (m, .halted)
  | some instruction =>
    if options.exhausted m.steps then (m, .failed ⟨.stepLimit, m.position⟩)
    else m.execute table options.eof instruction

/-- Make steps until the program ends or a fault stops it, within `fuel` steps. -/
def run (program : Program) (table : JumpTable) (options : Options) :
    (fuel : Nat) → TableMachine → Option (TableMachine × Option Fault)
  | 0, _ => none
  | fuel + 1, m =>
    match m.step program table options with
    | (m, .running) => run program table options fuel m
    | (m, .halted) => some (m.flush, none)
    | (m, .failed fault) => some (m, some fault)

end TableMachine

end ByteTape
