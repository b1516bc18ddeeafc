import ByteTape.Machine

/-!
# The machine in words

A `WordMachine` keeps the place of its head, its position and the loops that are being run in
words of 64 bits, and nothing in it says that these point anywhere.  So it checks each use of them:
a cell must be on the tape, an instruction must be in the program, and a number that is counted up
or down must again be a word.  What does not pass such a check is a `Violation`.  This is not a
fault of the program, which the machine would report; there is no telling what comes of it.

Likewise a `Search` for the end of a loop keeps where it is and how many loops it has entered in
words.
-/

namespace ByteTape

/-- What must not be done with a word. -/
inductive Violation where
  /-- To look for a cell that is not on the tape. -/
  | offTape
  /-- To look for an instruction that is not in the program. -/
  | offProgram
  /-- To count beyond the last number or below the first one. -/
  | wrapped
  deriving DecidableEq

/-- What is done after something else passes all checks if both do. -/
theorem Violation.bind_eq_ok {α β : Type} {x : Except Violation α} {f : α → Except Violation β}
    {b : β} :
  (x >>= f) = .ok b ↔ ∃ a, x = .ok a ∧ f a = .ok b
  := by
  cases x with
  | error violation => simp [bind, Except.bind]
  | ok a => simp [bind, Except.bind]

namespace Word

/-- The number after that of a word. -/
def next (word : UInt64) : Except Violation UInt64 :=
  if word.toNat + 1 < UInt64.size then .ok (word + 1) else .error .wrapped

/-- The number before that of a word. -/
def previous (word : UInt64) : Except Violation UInt64 :=
  if 0 < word.toNat then .ok (word - 1) else .error .wrapped

/-- The sum of words with a sign. -/
def add (a b : Int64) : Except Violation Int64 :=
  if Int64.minValue.toInt ≤ a.toInt + b.toInt ∧ a.toInt + b.toInt ≤ Int64.maxValue.toInt then
    .ok (a + b)
  else .error .wrapped

theorem toNat_of_next {word word' : UInt64} (counted : next word = .ok word') :
  word'.toNat = word.toNat + 1
  := by
  rw [next] at counted
  split at counted
  · rename_i below
    cases counted
    rw [UInt64.toNat_add]
    apply Nat.mod_eq_of_lt below
  · cases counted

end Word

/-! ### Programs -/

namespace Program

/-- The length of a program as a word. -/
def length (program : Program) : UInt64 :=
  .ofNat program.size

/-- The instruction at a position. -/
def fetch (program : Program) (position : UInt64) : Except Violation Instruction :=
  match program[position.toNat]? with
  | some instruction => .ok instruction
  | none => .error .offProgram

theorem getElem?_of_fetch {program : Program} {position : UInt64} {instruction : Instruction}
    (fetched : program.fetch position = .ok instruction) :
  program[position.toNat]? = some instruction
  := by
  rw [fetch] at fetched
  split at fetched
  · rename_i here
    cases fetched
    apply here
  · cases fetched

end Program

/-- How far the search for the end of a loop has come. -/
structure Search where
  /-- How many loops have begun, and not ended, since the search began. -/
  depth : UInt64
  /-- The instruction that is looked at next. -/
  position : UInt64
  deriving DecidableEq

/-- What an instruction means for a search. -/
inductive Sight where
  /-- The search goes on. -/
  | onward (search : Search)
  /-- The end of the loop is found. -/
  | found (closing : UInt64)
  /-- There is no instruction left to look at. -/
  | nothing
  deriving DecidableEq

namespace Search

/-- How many loops have begun, and not ended, behind an instruction. -/
def pass : Instruction → (depth : UInt64) → Except Violation UInt64
  | .loopStart, depth => Word.next depth
  | .loopEnd, depth => Word.previous depth
  | .act _, depth => .ok depth

/-- Look at an instruction. -/
def look (program : Program) (search : Search) : Except Violation Sight :=
  if program.length ≤ search.position then .ok .nothing
  else do
    let instruction ← program.fetch search.position
    if instruction = .loopEnd ∧ search.depth = 0 then return .found search.position
    else return .onward ⟨← pass instruction search.depth, ← Word.next search.position⟩

/-- A search goes on from an instruction of the program to the one behind it. -/
theorem look_onward {program : Program} {search search' : Search}
    (seen : search.look program = .ok (.onward search')) :
  search.position.toNat < program.size ∧ search'.position.toNat = search.position.toNat + 1
  := by
  rw [look] at seen
  split at seen
  · cases seen
  · obtain ⟨instruction, fetched, seen⟩ := Violation.bind_eq_ok.mp seen
    split at seen
    · cases seen
    · obtain ⟨depth, -, seen⟩ := Violation.bind_eq_ok.mp seen
      obtain ⟨position, counted, seen⟩ := Violation.bind_eq_ok.mp seen
      cases seen
      obtain ⟨inside, -⟩ := Array.getElem?_eq_some_iff.mp (Program.getElem?_of_fetch fetched)
      exact ⟨inside, Word.toNat_of_next counted⟩

/-- Go on until the end of the loop is found or nothing is left. -/
def run (program : Program) (search : Search) : Except Violation (Option UInt64) :=
  match _seen : search.look program with
  | .error violation => .error violation
  | .ok .nothing => .ok none
  | .ok (.found closing) => .ok (some closing)
  | .ok (.onward next) => next.run program
termination_by program.size - search.position.toNat
decreasing_by
  have := look_onward _seen
  omega

end Search

/-! ### Stores -/

/-- What actions work on, with the place of the head in a word. -/
structure WordStore where
  cells : Vector UInt8 Tape.size
  head : UInt64
  input : Input
  output : Output
  deriving DecidableEq

namespace WordStore

/-- The cell under the head. -/
def current (s : WordStore) : Except Violation UInt8 :=
  if inside : s.head.toNat < Tape.size then .ok s.cells[s.head.toNat] else .error .offTape

/-- The store with another byte under the head. -/
def put (s : WordStore) (byte : UInt8) : Except Violation WordStore :=
  if inside : s.head.toNat < Tape.size then .ok { s with cells := s.cells.set s.head.toNat byte }
  else .error .offTape

/-- Change the current cell by a function. -/
def update (f : UInt8 → UInt8) (s : WordStore) : Except Violation WordStore := do
  s.put (f (← s.current))

/-- Move the head by a distance, or leave it where it is if that leads off the tape. -/
def move (distance : Int64) (s : WordStore) : Except Violation (WordStore × Option FaultKind) := do
  let head ← Word.add s.head.toInt64 distance
  if head < 0 ∨ Int64.ofNat Tape.size ≤ head then return (s, some .offTape)
  else return ({ s with head := head.toUInt64 }, none)

/-- Write the current cell to the output. -/
def write (s : WordStore) : Except Violation WordStore := do
  let byte ← s.current
  return { s with output := s.output.write byte }

/-- Read a byte into the current cell, after handing over all output. -/
def read (eof : EofPolicy) (s : WordStore) : Except Violation (WordStore × Option FaultKind) :=
  let (byte, input) := s.input.read
  let s := { s with input, output := s.output.flush }
  match byte, eof with
  | some byte, _ => return (← s.put byte, none)
  | none, .fail => return (s, some .endOfInput)
  | none, .zero => return (← s.put 0, none)
  | none, .keep => return (s, none)

/-- Perform an action. -/
def perform (eof : EofPolicy) (action : Action) (s : WordStore) :
    Except Violation (WordStore × Option FaultKind) :=
  match action with
  | .right => s.move 1
  | .left => s.move (-1)
  | .increment => return (← s.update (· + 1), none)
  | .decrement => return (← s.update (· - 1), none)
  | .write => return (← s.write, none)
  | .read => s.read eof

/-- The store whose head is where a word says. -/
def toStore (s : WordStore) (inside : s.head.toNat < Tape.size) : Store :=
  ⟨⟨s.cells, ⟨s.head.toNat, inside⟩⟩, s.input, s.output⟩

end WordStore

/-! ### Machines -/

/-- The state of a running program in words. -/
structure WordMachine where
  store : WordStore
  /-- The instruction that comes next. -/
  position : UInt64
  /-- The beginnings of the loops that are being run, innermost first. -/
  loops : List UInt64
  /-- The number of steps made so far. -/
  steps : UInt64
  deriving DecidableEq

namespace WordMachine

/-- The machine at the beginning of a program. -/
def initial (input : List UInt8) : WordMachine :=
  ⟨⟨Tape.blank.cells, 0, .ofList input, .empty⟩, 0, [], 0⟩

/-- The loops that are being run once the loop at a position is. -/
def enter (position : UInt64) (loops : List UInt64) : List UInt64 :=
  if loops.head? = some position then loops else position :: loops

/-- Execute an instruction that was taken from a position, which has been left already. -/
def execute (program : Program) (eof : EofPolicy) (here : UInt64) :
    Instruction → WordMachine → Except Violation (WordMachine × Outcome)
  | .act action, m => do
    let (store, kind) ← m.store.perform eof action
    return ({ m with store }, .ofKind? here.toNat kind)
  | .loopStart, m => do
    if (← m.store.current) = 0 then
      match ← Search.run program ⟨0, m.position⟩ with
      | some closing => return ({ m with position := ← Word.next closing }, .running)
      | none => return (m, .failed ⟨.unclosedLoop, here.toNat⟩)
    else return ({ m with loops := enter here m.loops }, .running)
  | .loopEnd, m =>
    match m.loops with
    | [] => return (m, .failed ⟨.unopenedLoop, here.toNat⟩)
    | innermost :: outer => do
      if (← m.store.current) = 0 then return ({ m with loops := outer }, .running)
      else return ({ m with position := innermost }, .running)

/-- Make a step. -/
def step (program : Program) (options : Options) (m : WordMachine) :
    Except Violation (WordMachine × Outcome) :=
  if program.length ≤ m.position then
    match m.loops with
    | [] => return (m, .halted)
    | innermost :: _ => return (m, .failed ⟨.unclosedLoop, innermost.toNat⟩)
  else if options.exhausted m.steps then return (m, .failed ⟨.stepLimit, m.position.toNat⟩)
  else do
    let instruction ← program.fetch m.position
    let position ← Word.next m.position
    execute program options.eof m.position instruction { m with position, steps := m.steps + 1 }

/-- The machine that the words stand for, if the head is on the tape. -/
def toMachine (m : WordMachine) (inside : m.store.head.toNat < Tape.size) : Machine :=
  ⟨m.store.toStore inside, m.position.toNat, m.loops.map UInt64.toNat, m.steps⟩

end WordMachine

end ByteTape
