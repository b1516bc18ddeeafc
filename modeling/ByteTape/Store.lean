import ByteTape.Channel
import ByteTape.Fault
import ByteTape.Instruction
import ByteTape.Options
import ByteTape.Tape

/-!
# The store and the actions on it

A `Store` is all that an action can change: the tape, the input and the output.
`Store.perform` is the meaning of the six actions.  It knows nothing of programs and
positions, so the same meaning serves every account of how a program is run.

Some of what an action does can be seen from outside: bytes are written, output is handed over,
and bytes of the input are asked for.  Each of these operations is a function on a `Watched`
store, which puts itself on record, and an action is made of them.  So `Store.perform` and
`Store.events`, which is what is seen of an action, come from the same definition.
-/

namespace ByteTape

/-- What actions work on. -/
structure Store where
  tape : Tape
  input : Input
  output : Output
  deriving DecidableEq

/-- What a program does that the outside can see. -/
inductive Event where
  /-- A byte was written. -/
  | written (byte : UInt8)
  /-- All that was written was handed over. -/
  | flushed
  /-- A byte of the input was asked for, and there was one or none. -/
  | asked (found : Option UInt8)
  deriving DecidableEq

namespace Store

/-- A blank tape, an input that holds some bytes, and an empty output. -/
def initial (input : List UInt8) : Store :=
  ⟨.blank, .ofList input, .empty⟩

/-- Hand over all output. -/
def flush (store : Store) : Store :=
  { store with output := store.output.flush }

/-- Put the head where a move takes it, or leave it where it is if the move fails. -/
def move (f : Tape → Option Tape) : Store → Store × Option FaultKind
  | ⟨tape, input, output⟩ =>
    match f tape with
    | some moved => (⟨moved, input, output⟩, none)
    | none => (⟨tape, input, output⟩, some .offTape)

/-- Change the current cell by a function. -/
def update (f : UInt8 → UInt8) : Store → Store
  | ⟨tape, input, output⟩ => ⟨tape.update f, input, output⟩

/-- Put a byte into the current cell. -/
def put (byte : UInt8) : Store → Store
  | ⟨tape, input, output⟩ => ⟨tape.put byte, input, output⟩

/-- Write the current cell to the output. -/
def write : Store → Store
  | ⟨tape, input, output⟩ =>
    let byte := tape.current
    ⟨tape, input, output.write byte⟩

end Store

/-! ### Watching a store -/

/-- A store, and what has been seen of it from outside since it is watched. -/
structure Watched where
  store : Store
  events : List Event

namespace Watched

/-- Do something to a store that cannot be seen. -/
def unseen (f : Store → Store × Option FaultKind) : Watched → Watched × Option FaultKind
  | ⟨store, events⟩ =>
    match f store with
    | (store, kind) => (⟨store, events⟩, kind)

/-- Hand over all output. -/
def flush : Watched → Watched
  | ⟨store, events⟩ => ⟨store.flush, events ++ [.flushed]⟩

/-- Write the current cell to the output. -/
def write : Watched → Watched
  | ⟨store, events⟩ =>
    let byte := store.tape.current
    ⟨store.write, events ++ [.written byte]⟩

/-- Ask for a byte of the input. -/
def ask : Watched → Option UInt8 × Watched
  | ⟨⟨tape, input, output⟩, events⟩ =>
    match input.read with
    | (found, input) => (found, ⟨⟨tape, input, output⟩, events ++ [.asked found]⟩)

/-- Read a byte into the current cell, after handing over all output: whoever gives the byte
may want to see the output first.  The policy decides what happens at the end of the input. -/
def read (eof : EofPolicy) (watched : Watched) : Watched × Option FaultKind :=
  match watched.flush.ask with
  | (some byte, watched) => watched.unseen fun store => (store.put byte, none)
  | (none, watched) =>
    match eof with
    | .fail => (watched, some .endOfInput)
    | .zero => watched.unseen fun store => (store.put 0, none)
    | .keep => (watched, none)

/-- Perform an action: what becomes of the store, and the fault if there is one. -/
def perform (eof : EofPolicy) (action : Action) (watched : Watched) :
    Watched × Option FaultKind :=
  match action with
  | .right => watched.unseen (Store.move Tape.moveRight?)
  | .left => watched.unseen (Store.move Tape.moveLeft?)
  | .increment => watched.unseen fun store => (store.update (· + 1), none)
  | .decrement => watched.unseen fun store => (store.update (· - 1), none)
  | .write => (watched.write, none)
  | .read => watched.read eof

end Watched

namespace Store

/-- Perform an action without being watched. -/
def perform (eof : EofPolicy) (action : Action) (store : Store) : Store × Option FaultKind :=
  match Watched.perform eof action ⟨store, []⟩ with
  | (watched, kind) => (watched.store, kind)

/-- What is seen of an action. -/
def events (eof : EofPolicy) (action : Action) (store : Store) : List Event :=
  (Watched.perform eof action ⟨store, []⟩).1.events

/-- Read a byte into the current cell. -/
def read (eof : EofPolicy) (store : Store) : Store × Option FaultKind :=
  store.perform eof .read

/-! ### What each action does -/

variable {eof : EofPolicy} {store : Store}

theorem perform_right :
  store.perform eof .right = store.move Tape.moveRight?
  := rfl

theorem perform_left :
  store.perform eof .left = store.move Tape.moveLeft?
  := rfl

theorem perform_increment :
  store.perform eof .increment = (store.update (· + 1), none)
  := rfl

theorem perform_decrement :
  store.perform eof .decrement = (store.update (· - 1), none)
  := rfl

theorem perform_write :
  store.perform eof .write = (store.write, none)
  := rfl

theorem perform_read :
  store.perform eof .read = store.read eof
  := rfl

/-- A byte that is found is put into the current cell.  If there is none, then the policy decides.
Either way all output has been handed over. -/
theorem read_eq :
  store.read eof =
    match store.input.read with
    | (some byte, input) => (⟨store.tape.put byte, input, store.output.flush⟩, none)
    | (none, input) =>
      match eof with
      | .fail => (⟨store.tape, input, store.output.flush⟩, some .endOfInput)
      | .zero => (⟨store.tape.put 0, input, store.output.flush⟩, none)
      | .keep => (⟨store.tape, input, store.output.flush⟩, none)
  := by
  have asks : Watched.ask (Watched.flush ⟨store, []⟩) =
      (store.input.read.1,
        ⟨⟨store.tape, store.input.read.2, store.output.flush⟩,
          [.flushed, .asked store.input.read.1]⟩) := rfl
  rw [read, perform, Watched.perform, Watched.read, asks]
  obtain ⟨found, input⟩ := store.input.read
  cases found with
  | some byte => rfl
  | none =>
    cases eof with
    | fail => rfl
    | zero => rfl
    | keep => rfl

/-- An action fails only because the input has ended or the head is at an end of the tape. -/
theorem kind_of_perform {action : Action} {store' : Store} {kind : FaultKind}
    (failed : store.perform eof action = (store', some kind)) :
  action = .read ∧ kind = .endOfInput ∨ (action = .right ∨ action = .left) ∧ kind = .offTape
  := by
  cases action with
  | right =>
    rw [perform_right, move] at failed
    split at failed <;> cases failed
    exact .inr ⟨.inl rfl, rfl⟩
  | left =>
    rw [perform_left, move] at failed
    split at failed <;> cases failed
    exact .inr ⟨.inr rfl, rfl⟩
  | increment => cases failed
  | decrement => cases failed
  | write => cases failed
  | read =>
    rw [perform_read, read_eq] at failed
    split at failed
    · cases failed
    · cases eof <;> cases failed
      exact .inl ⟨rfl, rfl⟩

end Store

end ByteTape
