import ByteTape.Machine

/-!
# Sessions

A `Session` keeps a machine between the commands of a user who may step it, run it, change
its options, give it more input, or replace parts of its state.  A fault does not end a
session: the next command goes on from the state in which the fault left the machine.
-/

namespace ByteTape

/-- Parts of the state of a machine that a user replaces. -/
structure Patch where
  head : Option (Fin Tape.size)
  /-- The cell under the head, after that has been moved. -/
  cell : Option UInt8
  position : Option Nat
  steps : Option UInt64
  /-- The beginnings of the loops that are being run, innermost first. -/
  loops : Option (List Nat)

/-- The tape with the head and the cell under it replaced. -/
def Patch.tape (patch : Patch) (t : Tape) : Tape :=
  let t := patch.head.elim t t.seek
  patch.cell.elim t t.put

/-- The machine with parts of its state replaced. -/
def Patch.machine (patch : Patch) (m : Machine) : Machine where
  store := { m.store with tape := patch.tape m.store.tape }
  position := patch.position.getD m.position
  loops := patch.loops.getD m.loops
  steps := patch.steps.getD m.steps

/-- What a user can ask for in a session. -/
inductive Command where
  /-- Make one step. -/
  | step
  /-- Make steps until the program ends or a fault stops it. -/
  | run
  /-- Change some of the options. -/
  | configure (eof : Option EofPolicy) (maxSteps : Option UInt64)
  /-- Forget, if asked to, that the input has ended, and append bytes to it. -/
  | feed (clear : Bool) (bytes : List UInt8)
  /-- Replace parts of the state. -/
  | patch (patch : Patch)

/-- What a command has to say. -/
inductive Reply where
  /-- A step was tried, with this outcome. -/
  | stepped (outcome : Outcome)
  /-- A run ended, with a fault or without. -/
  | ended (fault : Option Fault)
  /-- The command has been carried out. -/
  | done

/-- A program with its options and the machine that runs it. -/
structure Session where
  program : Program
  options : Options
  machine : Machine

namespace Session

/-- The session in which nothing has been done. -/
def start (program : Program) (options : Options) (input : List UInt8) : Session :=
  ⟨program, options, .initial input⟩

/-- Carry out a command.  Nothing is given if it asks for a run that does not end within
`fuel` steps. -/
def perform (fuel : Nat) : Command → Session → Option (Session × Reply)
  | .step, ⟨program, options, m⟩ =>
    match m.step program options with
    | (m, outcome) => some (⟨program, options, m⟩, .stepped outcome)
  | .run, ⟨program, options, m⟩ =>
    match Machine.run program options fuel m with
    | some (m, fault) => some (⟨program, options, m⟩, .ended fault)
    | none => none
  | .configure eof maxSteps, ⟨program, options, m⟩ =>
    some (⟨program, ⟨eof.getD options.eof, maxSteps.getD options.maxSteps⟩, m⟩, .done)
  | .feed clear bytes, ⟨program, options, m⟩ =>
    some (⟨program, options, (if clear then m.clearInput else m).feed bytes⟩, .done)
  | .patch patch, ⟨program, options, m⟩ =>
    some (⟨program, options, patch.machine m⟩, .done)

/-- Carry out commands one after the other and collect the replies. -/
def performAll (fuel : Nat) : List Command → Session → Option (Session × List Reply)
  | [], session => some (session, [])
  | command :: rest, session =>
    match perform fuel command session with
    | some (session, reply) =>
      (performAll fuel rest session).map fun (session, replies) => (session, reply :: replies)
    | none => none

end Session

end ByteTape
