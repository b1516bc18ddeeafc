import ByteTape.Proofs.Matching
import ByteTape.Proofs.Transition
import ByteTape.WordMachine
import Mathlib.Tactic.Use

/-!
# No word leaves its bounds

If the length of a program is a word, and the head is on the tape, then no check of the machine in
words ever fails, though the position and the stack may be arbitrary
(`WordMachine.inBounds_of_led`).  So the checks could as well be left out.

A search for the end of a loop has never entered more loops than it has passed instructions, so its
depth is a word because the length of the program is one (`Search.Visits.shallow`).  It finds what
is found without words (`Search.exists_run`), and likewise actions and steps do in words what they
do without (`WordStore.exists_perform`, `WordMachine.exists_step`).  Where the machine may come to
is therefore a matter of transitions (`Machine.Transition.position_le_or`, `Machine.Within.next`).
-/

namespace ByteTape

/-! ### Words in their bounds -/

namespace Word

variable {word : UInt64} {distance : Int64}

theorem exists_next (word : UInt64) (below : word.toNat + 1 < UInt64.size) :
  ∃ word', next word = .ok word' ∧ word'.toNat = word.toNat + 1
  := by
  have counted : next word = .ok (word + 1) := if_pos below
  use word + 1, counted, toNat_of_next counted

theorem exists_previous (positive : 0 < word.toNat) :
  ∃ word', previous word = .ok word' ∧ word'.toNat + 1 = word.toNat
  := by
  use word - 1, if_pos positive
  rw [UInt64.toNat_sub_of_le]
  · apply Nat.sub_add_cancel positive
  · rw [UInt64.le_iff_toNat_le]
    apply positive

/-- The place of a cell is the same number with a sign. -/
theorem toInt_toInt64 (inside : word.toNat < Tape.size) :
  word.toInt64.toInt = word.toNat
  := by
  apply BitVec.toInt_eq_toNat_of_lt
  rw [UInt64.toBitVec_toInt64, UInt64.toNat_toBitVec]
  rw [Tape.size] at inside
  omega

/-- The places next to a cell can be counted with a sign. -/
theorem exists_add (inside : word.toNat < Tape.size)
    (near : -1 ≤ distance.toInt ∧ distance.toInt ≤ 1) :
  ∃ sum, add word.toInt64 distance = .ok sum ∧ sum.toInt = word.toNat + distance.toInt
  := by
  have exact := toInt_toInt64 inside
  rw [Tape.size] at inside
  have least : Int64.minValue.toInt = -2 ^ 63 := rfl
  have greatest : Int64.maxValue.toInt = 2 ^ 63 - 1 := rfl
  have counted : add word.toInt64 distance = .ok (word.toInt64 + distance) := by
    apply if_pos
    omega
  use word.toInt64 + distance, counted
  rw [Int64.toInt_add, exact]
  apply Int.bmod_eq_of_le
  · omega
  · omega

/-- A number with a sign that is not below zero is the same number without one. -/
theorem toNat_toUInt64 {number : Int64} (positive : 0 ≤ number.toInt) :
  (number.toUInt64.toNat : Int) = number.toInt
  := by
  rw [Int64.toNat_toUInt64_of_le (Int64.le_iff_toInt_le.mpr positive)]
  apply Int.toNat_of_nonneg positive

end Word

/-! ### Searches -/

namespace Program

variable {program : Program}

theorem toNat_length (short : program.size < UInt64.size) :
  program.length.toNat = program.size
  := UInt64.toNat_ofNat_of_lt short

theorem length_le_iff (short : program.size < UInt64.size) {position : UInt64} :
  program.length ≤ position ↔ program.size ≤ position.toNat
  := by
  rw [UInt64.le_iff_toNat_le, toNat_length short]

theorem fetch_eq {position : UInt64} {instruction : Instruction}
    (here : program[position.toNat]? = some instruction) :
  program.fetch position = .ok instruction
  := by
  rw [fetch, here]

end Program

namespace Search

variable {program : Program} {start : UInt64} {search search' : Search} {instruction : Instruction}

theorem look_of_size_le (short : program.size < UInt64.size)
    (past : program.size ≤ search.position.toNat) :
  search.look program = .ok .nothing
  := if_pos ((Program.length_le_iff short).mpr past)

/-- A loop end at which all loops have ended is found. -/
theorem look_of_loopEnd (short : program.size < UInt64.size)
    (here : program[search.position.toNat]? = some .loopEnd) (outermost : search.depth = 0) :
  search.look program = .ok (.found search.position)
  := by
  obtain ⟨inside, -⟩ := Array.getElem?_eq_some_iff.mp here
  rw [look, if_neg (mt (Program.length_le_iff short).mp (Nat.not_le.mpr inside)),
    Program.fetch_eq here]
  apply if_pos ⟨rfl, outermost⟩

/-- Any other instruction is passed, and changes the depth as it does when it is counted in
numbers that are not words. -/
theorem exists_pass (program : Program) (below : search.depth.toNat + 1 < UInt64.size)
    (other : ¬ (instruction = .loopEnd ∧ search.depth = 0)) :
  ∃ depth, pass instruction search.depth = .ok depth ∧ depth.toNat ≤ search.depth.toNat + 1 ∧
    (program[search.position.toNat]? = some instruction → ∀ left,
      program.scan (left + 1) search.depth.toNat search.position.toNat =
        program.scan left depth.toNat (search.position.toNat + 1))
  := by
  cases instruction with
  | act action =>
    refine ⟨search.depth, rfl, by omega, ?_⟩
    intro here left
    rw [Program.scan.eq_def]
    simp only [here]
  | loopStart =>
    obtain ⟨depth, counted, exact⟩ := Word.exists_next _ below
    refine ⟨depth, counted, by omega, ?_⟩
    intro here left
    rw [Program.scan.eq_def]
    simp only [here, exact]
  | loopEnd =>
    have positive : 0 < search.depth.toNat := by
      apply Nat.pos_of_ne_zero
      intro zero
      apply other ⟨rfl, UInt64.toNat_inj.mp zero⟩
    obtain ⟨depth, counted, exact⟩ := Word.exists_previous positive
    refine ⟨depth, counted, by omega, ?_⟩
    intro here left
    rw [Program.scan.eq_def, ← exact]
    simp only [here]

/-- What is seen in the program is the end of the loop or something to pass. -/
theorem look_cases (short : program.size < UInt64.size)
    (inside : search.position.toNat < program.size)
    (shallow : search.depth.toNat ≤ search.position.toNat) :
  (search.look program = .ok (.found search.position) ∧
    ∀ left, program.scan (left + 1) search.depth.toNat search.position.toNat =
      some search.position.toNat) ∨
  ∃ search', search.look program = .ok (.onward search') ∧
    search'.position.toNat = search.position.toNat + 1 ∧
    search'.depth.toNat ≤ search.depth.toNat + 1 ∧
    ∀ left, program.scan (left + 1) search.depth.toNat search.position.toNat =
      program.scan left search'.depth.toNat search'.position.toNat
  := by
  obtain ⟨instruction, here⟩ : ∃ instruction, program[search.position.toNat]? = some instruction :=
    ⟨_, Array.getElem?_eq_getElem inside⟩
  by_cases ends : instruction = .loopEnd ∧ search.depth = 0
  · left
    obtain ⟨rfl, outermost⟩ := ends
    use look_of_loopEnd short here outermost
    intro left
    rw [Program.scan.eq_def, outermost]
    simp only [here, UInt64.toNat_zero]
  · right
    obtain ⟨depth, passed, near, scanned⟩ := exists_pass program (by omega) ends
    obtain ⟨position, counted, exact⟩ := Word.exists_next search.position (by omega)
    use ⟨depth, position⟩
    refine ⟨?_, exact, near, ?_⟩
    · rw [look, if_neg (mt (Program.length_le_iff short).mp (Nat.not_le.mpr inside)),
        Program.fetch_eq here]
      change (if _ then _ else _) = _
      rw [if_neg ends, passed, counted]
      rfl
    · rw [exact]
      apply scanned here

/-- A search that has not entered more loops than it has passed instructions finds the loop end that
is found without words. -/
theorem exists_run (short : program.size < UInt64.size) {left : Nat}
    (within : left = program.size - search.position.toNat)
    (shallow : search.depth.toNat ≤ search.position.toNat) :
  ∃ found, search.run program = .ok found ∧
    program.scan left search.depth.toNat search.position.toNat = found.map UInt64.toNat
  := by
  induction left generalizing search with
  | zero =>
    have seen : search.look program = .ok .nothing := look_of_size_le short (by omega)
    use none
    rw [run.eq_def, seen]
    exact ⟨rfl, rfl⟩
  | succ left ih =>
    obtain ⟨seen, scanned⟩ | ⟨search', seen, next, near, scanned⟩ :=
      look_cases short (by omega) shallow
    · use some search.position
      rw [run.eq_def, seen, scanned]
      exact ⟨rfl, rfl⟩
    · -- The depth grows by one at most, and the position by one, so it stays the greater one.
      obtain ⟨found, ended, same⟩ := @ih search' (by omega) (by omega)
      use found
      rw [run.eq_def, seen, scanned]
      exact ⟨ended, same⟩

theorem exists_closing (short : program.size < UInt64.size) (start : UInt64) :
  ∃ found, run program ⟨0, start⟩ = .ok found ∧
    program.closing? start.toNat = found.map UInt64.toNat
  := exists_run short rfl (Nat.zero_le _)

/-- `Visits program start search`: the search that begins at a position comes by `search`. -/
inductive Visits (program : Program) (start : UInt64) : Search → Prop where
  | begin :
    Visits program start ⟨0, start⟩
  | onward {search search' : Search} (before : Visits program start search)
      (seen : search.look program = .ok (.onward search')) :
    Visits program start search'

/-- A search has not entered more loops than it has passed instructions. -/
theorem Visits.shallow (short : program.size < UInt64.size)
    (visits : Visits program start search) :
  search.depth.toNat + start.toNat ≤ search.position.toNat ∧
    (search = ⟨0, start⟩ ∨ search.position.toNat ≤ program.size)
  := by
  induction visits with
  | begin => simp
  | @onward search search' before seen ih =>
    obtain ⟨inside, next⟩ := look_onward seen
    obtain ⟨found, -⟩ | ⟨search'', seen', -, near, -⟩ := look_cases short inside (by omega)
    · cases seen.symm.trans found
    · cases seen.symm.trans seen'
      omega

/-- Wherever a search comes by, all checks are passed, and not more loops have been entered than
there are instructions in the program. -/
theorem Visits.exists_look (short : program.size < UInt64.size)
    (visits : Visits program start search) :
  (∃ sight, search.look program = .ok sight) ∧ search.depth.toNat ≤ program.size
  := by
  obtain ⟨shallow, within⟩ := visits.shallow short
  constructor
  · obtain inside | past := Nat.lt_or_ge search.position.toNat program.size
    · obtain ⟨seen, -⟩ | ⟨search', seen, -⟩ := look_cases short inside (by omega)
      · use .found search.position
      · use .onward search'
    · use .nothing, look_of_size_le short past
  · obtain rfl | within := within
    · apply Nat.zero_le
    · omega

end Search

namespace WordStore

variable {s : WordStore} {distance : Int64}

/-! ### Actions -/

theorem current_eq (inside : s.head.toNat < Tape.size) :
  s.current = .ok (s.toStore inside).tape.current
  := dif_pos inside

theorem exists_put (inside : s.head.toNat < Tape.size) (byte : UInt8) :
  ∃ s' inside', s.put byte = .ok s' ∧
    s'.toStore inside' = ⟨(s.toStore inside).tape.put byte, s.input, s.output⟩
  := by
  use { s with cells := s.cells.set s.head.toNat byte }, inside
  constructor
  · apply dif_pos inside
  · rfl

theorem exists_update (inside : s.head.toNat < Tape.size) (f : UInt8 → UInt8) :
  ∃ s' inside', s.update f = .ok s' ∧ s'.toStore inside' = (s.toStore inside).update f
  := by
  obtain ⟨s', inside', written, same⟩ := exists_put inside (f (s.toStore inside).tape.current)
  use s', inside'
  constructor
  · apply Violation.bind_eq_ok.mpr ⟨_, current_eq inside, written⟩
  · apply same

/-- A move by one cell, counted with a sign, leads where a move leads. -/
theorem exists_move {f : Tape → Option Tape} (inside : s.head.toNat < Tape.size)
    (near : -1 ≤ distance.toInt ∧ distance.toInt ≤ 1)
    (off : s.head.toNat + distance.toInt < 0 ∨ Tape.size ≤ s.head.toNat + distance.toInt →
      f (s.toStore inside).tape = none)
    (on : ∀ place : Fin Tape.size, (place.val : Int) = s.head.toNat + distance.toInt →
      f (s.toStore inside).tape = some ((s.toStore inside).tape.seek place)) :
  ∃ s' kind inside', s.move distance = .ok (s', kind) ∧
    (s.toStore inside).move f = (s'.toStore inside', kind)
  := by
  obtain ⟨sum, added, exact⟩ := Word.exists_add inside near
  have size : (Int64.ofNat Tape.size).toInt = Tape.size := by decide
  have leaves : sum < 0 ∨ Int64.ofNat Tape.size ≤ sum ↔
      s.head.toNat + distance.toInt < 0 ∨ Tape.size ≤ s.head.toNat + distance.toInt := by
    rw [Int64.lt_iff_toInt_lt, Int64.le_iff_toInt_le, size, exact]
    rfl
  rw [move, added, Store.move]
  by_cases left : sum < 0 ∨ Int64.ofNat Tape.size ≤ sum
  · rw [off (leaves.mp left)]
    use s, some .offTape, inside
    exact ⟨if_pos left, rfl⟩
  · have stays := mt leaves.mpr left
    have place : (sum.toUInt64.toNat : Int) = sum.toInt := by
      apply Word.toNat_toUInt64
      omega
    have inside' : sum.toUInt64.toNat < Tape.size := by omega
    rw [on ⟨sum.toUInt64.toNat, inside'⟩ (place.trans exact)]
    use { s with head := sum.toUInt64 }, none, inside'
    exact ⟨if_neg left, rfl⟩

theorem exists_moveRight (inside : s.head.toNat < Tape.size) :
  ∃ s' kind inside', s.move 1 = .ok (s', kind) ∧
    (s.toStore inside).move Tape.moveRight? = (s'.toStore inside', kind)
  := by
  have one : (1 : Int64).toInt = 1 := rfl
  apply exists_move inside (by decide)
  · intro off
    apply Tape.moveRight?_eq_none_iff.mpr
    change s.head.toNat + 1 = Tape.size
    omega
  · intro place near
    have inside' : s.head.toNat + 1 < Tape.size := by omega
    have same : place.val = s.head.toNat + 1 := by omega
    rw [show place = ⟨s.head.toNat + 1, inside'⟩ from Fin.ext same]
    apply dif_pos inside'

theorem exists_moveLeft (inside : s.head.toNat < Tape.size) :
  ∃ s' kind inside', s.move (-1) = .ok (s', kind) ∧
    (s.toStore inside).move Tape.moveLeft? = (s'.toStore inside', kind)
  := by
  have one : (-1 : Int64).toInt = -1 := rfl
  apply exists_move inside (by decide)
  · intro off
    apply Tape.moveLeft?_eq_none_iff.mpr
    change s.head.toNat = 0
    omega
  · intro place near
    have positive : 0 < s.head.toNat := by omega
    have same : place.val = s.head.toNat - 1 := by omega
    rw [show place = ⟨s.head.toNat - 1, by omega⟩ from Fin.ext same]
    apply if_pos positive

theorem exists_read (inside : s.head.toNat < Tape.size) (eof : EofPolicy) :
  ∃ s' kind inside', s.read eof = .ok (s', kind) ∧
    (s.toStore inside).read eof = (s'.toStore inside', kind)
  := by
  rw [toStore, Store.read_eq, read]
  cases received : s.input.read with
  | mk byte? input =>
    -- A byte is put into the store that has been flushed and has lost what was read.
    have put (byte : UInt8) :=
      exists_put (s := { s with input, output := s.output.flush }) inside byte
    cases byte? with
    | some byte =>
      obtain ⟨s', inside', written, same⟩ := put byte
      use s', none, inside'
      simp only [written, same]
      exact ⟨rfl, rfl⟩
    | none =>
      cases eof with
      | fail =>
        use { s with input, output := s.output.flush }, some .endOfInput, inside
        exact ⟨rfl, rfl⟩
      | zero =>
        obtain ⟨s', inside', written, same⟩ := put 0
        use s', none, inside'
        simp only [written, same]
        exact ⟨rfl, rfl⟩
      | keep =>
        use { s with input, output := s.output.flush }, none, inside
        exact ⟨rfl, rfl⟩

/-- Words in their bounds pass all checks of an action, and what becomes of them stands for what
the action does. -/
theorem exists_perform (inside : s.head.toNat < Tape.size) (eof : EofPolicy) (action : Action) :
  ∃ s' kind inside', s.perform eof action = .ok (s', kind) ∧
    (s.toStore inside).perform eof action = (s'.toStore inside', kind)
  := by
  cases action with
  | right => apply exists_moveRight inside
  | left => apply exists_moveLeft inside
  | increment =>
    obtain ⟨s', inside', updated, same⟩ := exists_update inside (· + 1)
    use s', none, inside'
    rw [perform, updated, Store.perform_increment, same]
    exact ⟨rfl, rfl⟩
  | decrement =>
    obtain ⟨s', inside', updated, same⟩ := exists_update inside (· - 1)
    use s', none, inside'
    rw [perform, updated, Store.perform_decrement, same]
    exact ⟨rfl, rfl⟩
  | write =>
    use { s with output := s.output.write (s.toStore inside).tape.current }, none, inside
    rw [perform, write, current_eq inside]
    exact ⟨rfl, rfl⟩
  | read => apply exists_read inside

end WordStore

namespace Machine

variable {program : Program} {options : Options} {m m' : Machine} {outcome : Outcome}

/-! ### Where a machine is -/

/-- A step leads to a position that is not beyond the end of the program, or to one that is on the
stack, or it keeps the position. -/
theorem Transition.position_le_or (step : m.Transition program options m' outcome) :
  m'.position ≤ program.size ∨ m'.position ∈ m'.loops ∨ m'.position = m.position
  := by
  have after {instruction : Instruction} (here : program[m.position]? = some instruction) :
      m.position + 1 ≤ program.size := (Array.getElem?_eq_some_iff.mp here).1
  cases step with
  | halted => exact .inr (.inr rfl)
  | leftOpen => exact .inr (.inr rfl)
  | refused => exact .inr (.inr rfl)
  | performed here => exact .inl (after here)
  | stopped here => exact .inl (after here)
  | skipped here granted zero found =>
    exact .inl (Program.closing?_eq_some_iff_closes.mp found).finish_lt
  | unended here => exact .inl (after here)
  | entered here => exact .inl (after here)
  | unbegun here => exact .inl (after here)
  | left here => exact .inl (after here)
  | repeated here => exact .inr (.inl List.mem_cons_self)

/-- A machine is in a program, or at its end, and the loops that are being run begin in it. -/
structure Within (program : Program) (m : Machine) : Prop where
  position_le : m.position ≤ program.size
  loops_lt : ∀ start ∈ m.loops, start < program.size

theorem within_initial (program : Program) (input : List UInt8) :
  (initial input).Within program
  where
  position_le := Nat.zero_le _
  loops_lt := by simp [initial]

/-- No step leads out of the program. -/
theorem Within.next (within : m.Within program)
    (step : m.Transition program options m' outcome) :
  m'.Within program
  := by
  obtain ⟨position_le, loops_lt⟩ := within
  have after {instruction : Instruction} (here : program[m.position]? = some instruction) :
      m.position < program.size := (Array.getElem?_eq_some_iff.mp here).1
  cases step with
  | halted => exact ⟨position_le, loops_lt⟩
  | leftOpen => exact ⟨position_le, loops_lt⟩
  | refused => exact ⟨position_le, loops_lt⟩
  | performed here => exact ⟨after here, loops_lt⟩
  | stopped here => exact ⟨after here, loops_lt⟩
  | skipped here granted zero found =>
    exact ⟨(Program.closing?_eq_some_iff_closes.mp found).finish_lt, loops_lt⟩
  | unended here => exact ⟨after here, loops_lt⟩
  | entered here =>
    use after here
    intro start among
    rw [enter] at among
    split at among
    · apply loops_lt start among
    · obtain rfl | among := List.mem_cons.mp among
      · apply after here
      · apply loops_lt start among
  | unbegun here => exact ⟨after here, by simp⟩
  | left here granted still =>
    use after here
    intro start among
    apply loops_lt start
    rw [still]
    apply List.mem_cons_of_mem _ among
  | repeated here granted still =>
    rw [still] at loops_lt
    exact ⟨Nat.le_of_lt (loops_lt _ List.mem_cons_self), loops_lt⟩

end Machine

namespace WordMachine

variable {program : Program} {options : Options} {m m' : WordMachine} {position : UInt64}

/-! ### Steps -/

theorem inside_initial (input : List UInt8) :
  (initial input).store.head.toNat < Tape.size
  := Nat.zero_lt_succ _

theorem toMachine_initial (input : List UInt8) :
  (initial input).toMachine (inside_initial input) = .initial input
  := rfl

theorem map_enter (here : UInt64) (loops : List UInt64) :
  (enter here loops).map UInt64.toNat = Machine.enter here.toNat (loops.map UInt64.toNat)
  := by
  have top : (loops.map UInt64.toNat).head? = some here.toNat ↔ loops.head? = some here := by
    rw [List.head?_map, ← Option.map_some]
    apply Option.map_inj_right
    intro a b
    apply UInt64.toNat_inj.mp
  simp only [enter, Machine.enter, top, apply_ite (List.map UInt64.toNat), List.map_cons]

section

variable (inside : m.store.head.toNat < Tape.size) (granted : options.exhausted m.steps = false)
  (next : position.toNat = m.position.toNat + 1)

include granted next

theorem exists_execute_act {action : Action}
    (found : program[m.position.toNat]? = some (.act action)) :
  ∃ m' outcome inside',
    execute program options.eof m.position (.act action)
        { m with position, steps := m.steps + 1 } = .ok (m', outcome) ∧
      (m.toMachine inside).Transition program options (m'.toMachine inside') outcome
  := by
  obtain ⟨store, kind, inside', performed, same⟩ :=
    WordStore.exists_perform inside options.eof action
  use ⟨store, position, m.loops, m.steps + 1⟩, .ofKind? m.position.toNat kind, inside'
  constructor
  · rw [execute, performed]
    rfl
  · simp only [toMachine, next]
    cases kind with
    | none => apply Machine.Transition.performed found granted same
    | some kind => apply Machine.Transition.stopped found granted same

theorem exists_execute_loopStart (short : program.size < UInt64.size)
    (found : program[m.position.toNat]? = some .loopStart) :
  ∃ m' outcome inside',
    execute program options.eof m.position .loopStart
        { m with position, steps := m.steps + 1 } = .ok (m', outcome) ∧
      (m.toMachine inside).Transition program options (m'.toMachine inside') outcome
  := by
  rw [execute, WordStore.current_eq inside]
  by_cases zero : (m.store.toStore inside).tape.current = 0
  · obtain ⟨closing?, ended, same⟩ := Search.exists_closing short position
    rw [ended]
    rw [next] at same
    cases closing? with
    | none =>
      use ⟨m.store, position, m.loops, m.steps + 1⟩, .failed ⟨.unclosedLoop, m.position.toNat⟩,
        inside, if_pos zero
      simp only [toMachine, next]
      apply Machine.Transition.unended found granted zero same
    | some closing =>
      have inside' := (Program.closing?_eq_some_iff_closes.mp same).finish_lt
      obtain ⟨behind, counted, exact⟩ := Word.exists_next closing (by omega)
      use ⟨m.store, behind, m.loops, m.steps + 1⟩, .running, inside
      constructor
      · apply (if_pos zero).trans
        apply Violation.bind_eq_ok.mpr
        use some closing, rfl
        exact Violation.bind_eq_ok.mpr ⟨behind, counted, rfl⟩
      · simp only [toMachine, exact]
        apply Machine.Transition.skipped found granted zero same
  · use ⟨m.store, position, enter m.position m.loops, m.steps + 1⟩, .running, inside
    use if_neg zero
    simp only [toMachine, next, map_enter]
    apply Machine.Transition.entered found granted zero

theorem exists_execute_loopEnd (found : program[m.position.toNat]? = some .loopEnd) :
  ∃ m' outcome inside',
    execute program options.eof m.position .loopEnd
        { m with position, steps := m.steps + 1 } = .ok (m', outcome) ∧
      (m.toMachine inside).Transition program options (m'.toMachine inside') outcome
  := by
  obtain ⟨store, here, loops, steps⟩ := m
  cases loops with
  | nil =>
    use ⟨store, position, [], steps + 1⟩, .failed ⟨.unopenedLoop, here.toNat⟩, inside, rfl
    simp only [toMachine, next]
    apply Machine.Transition.unbegun found granted rfl
  | cons innermost outer =>
    rw [execute, WordStore.current_eq inside]
    by_cases zero : (store.toStore inside).tape.current = 0
    · use ⟨store, position, outer, steps + 1⟩, .running, inside, if_pos zero
      simp only [toMachine, next]
      apply Machine.Transition.left found granted rfl zero
    · use ⟨store, innermost, innermost :: outer, steps + 1⟩, .running, inside, if_neg zero
      apply Machine.Transition.repeated found granted rfl zero

/-- An instruction of the program passes all checks, and does what it does without words. -/
theorem exists_execute (short : program.size < UInt64.size) {instruction : Instruction}
    (found : program[m.position.toNat]? = some instruction) :
  ∃ m' outcome inside',
    execute program options.eof m.position instruction
        { m with position, steps := m.steps + 1 } = .ok (m', outcome) ∧
      (m.toMachine inside).Transition program options (m'.toMachine inside') outcome
  := by
  cases instruction with
  | act action => apply exists_execute_act inside granted next found
  | loopStart => apply exists_execute_loopStart inside granted next short found
  | loopEnd => apply exists_execute_loopEnd inside granted next found

end

/-- If the head is on the tape then a step passes all checks, whatever else holds, and does what it
does without words.  So it leaves the head on the tape. -/
theorem exists_step (short : program.size < UInt64.size)
    (inside : m.store.head.toNat < Tape.size) (options : Options) :
  ∃ m' outcome inside', m.step program options = .ok (m', outcome) ∧
    (m.toMachine inside).Transition program options (m'.toMachine inside') outcome
  := by
  by_cases past : program.length ≤ m.position
  · have past' := (Program.length_le_iff short).mp past
    cases loops : m.loops with
    | nil =>
      use m, .halted, inside
      rw [step, if_pos past, loops]
      use rfl
      apply Machine.Transition.halted past'
      simp [toMachine, loops]
    | cons innermost outer =>
      use m, .failed ⟨.unclosedLoop, innermost.toNat⟩, inside
      rw [step, if_pos past, loops]
      use rfl
      apply Machine.Transition.leftOpen past'
      rw [toMachine, loops, List.map_cons]
  · have within : m.position.toNat < program.size := by
      rw [Program.length_le_iff short] at past
      omega
    cases granted : options.exhausted m.steps with
    | true =>
      use m, .failed ⟨.stepLimit, m.position.toNat⟩, inside
      constructor
      · rw [step, if_neg past]
        apply if_pos granted
      · apply Machine.Transition.refused within granted
    | false =>
      have found : program[m.position.toNat]? = some program[m.position.toNat] :=
        Array.getElem?_eq_getElem within
      obtain ⟨position, counted, next⟩ := Word.exists_next m.position (by omega)
      obtain ⟨m', outcome, inside', executed, same⟩ :=
        exists_execute inside granted next short found
      use m', outcome, inside'
      constructor
      · rw [step, if_neg past, granted, Program.fetch_eq found, counted]
        apply executed
      · apply same

/-! ### Any number of steps -/

/-- `Led program m m'`: steps under any options lead from `m` to `m'`, beyond faults too, with other
input and output in between. -/
inductive Led (program : Program) (m : WordMachine) : WordMachine → Prop where
  | here :
    Led program m m
  | step {m' m'' : WordMachine} {outcome : Outcome} (before : Led program m m')
      (options : Options) (stepped : m'.step program options = .ok (m'', outcome)) :
    Led program m m''
  | exchange {m' : WordMachine} (before : Led program m m') (input : Input) (output : Output) :
    Led program m { m' with store := { m'.store with input, output } }

/-- The head stays on the tape. -/
theorem Led.inside (short : program.size < UInt64.size)
    (inside : m.store.head.toNat < Tape.size) (led : Led program m m') :
  m'.store.head.toNat < Tape.size
  := by
  induction led with
  | here => apply inside
  | step before options stepped ih =>
    obtain ⟨m'', outcome, inside', stepped', -⟩ := exists_step short ih options
    cases stepped.symm.trans stepped'
    apply inside'
  | exchange before input output ih => apply ih

/-- From the beginning of a program nothing leads out of it. -/
theorem Led.within (short : program.size < UInt64.size) {input : List UInt8}
    (led : Led program (initial input) m) (inside : m.store.head.toNat < Tape.size) :
  (m.toMachine inside).Within program
  := by
  induction led with
  | here =>
    rw [toMachine_initial]
    apply Machine.within_initial
  | step before options stepped ih =>
    have inside' := before.inside short (inside_initial input)
    obtain ⟨m'', outcome, inside'', stepped', next⟩ := exists_step short inside' options
    cases stepped.symm.trans stepped'
    apply (ih inside').next next
  | exchange before input output ih =>
    obtain ⟨position_le, loops_lt⟩ := ih inside
    exact ⟨position_le, loops_lt⟩

/-- If the length of a program is a word, and the head is on the tape, then the machine in words
passes all checks, in whatever state it is, after any number of steps, failed ones included, and
under any options.  The head stays on the tape, and each step is the one of the machine that the
words stand for.  It leads to a position that is not beyond the end of the program, unless that is
on the stack or has been kept.  A search for the end of a loop passes all checks too, wherever it
begins, and never enters more loops than there are instructions.  From the beginning of the program
no position beyond its end is ever reached. -/
theorem inBounds_of_led (short : program.size < UInt64.size) :
  (∀ m : WordMachine, m.store.head.toNat < Tape.size → ∀ m', Led program m m' →
    ∃ inside : m'.store.head.toNat < Tape.size, ∀ options, ∃ m'' outcome inside'',
      m'.step program options = .ok (m'', outcome) ∧
      (m'.toMachine inside).step program options = (m''.toMachine inside'', outcome) ∧
      (m''.position.toNat ≤ program.size ∨ m''.position ∈ m''.loops ∨
        m''.position = m'.position)) ∧
  (∀ start search, Search.Visits program start search →
    (∃ sight, search.look program = .ok sight) ∧ search.depth.toNat ≤ program.size) ∧
  ∀ input m, Led program (initial input) m → m.position.toNat ≤ program.size
  := by
  and_intros
  · intro m inside m' led
    have inside' := led.inside short inside
    use inside'
    intro options
    obtain ⟨m'', outcome, inside'', stepped, next⟩ := exists_step short inside' options
    use m'', outcome, inside'', stepped, next.step_eq
    obtain within | again | still := next.position_le_or
    · left
      apply within
    · right; left
      obtain ⟨start, among, same⟩ := List.mem_map.mp again
      rwa [← UInt64.toNat_inj.mp same]
    · right; right
      apply UInt64.toNat_inj.mp still
  · intro start search visits
    apply visits.exists_look short
  · intro input m led
    apply (led.within short (led.inside short (inside_initial input))).position_le

/-- A state with a stack that leads out of the program `]`. -/
def astray : WordMachine :=
  ⟨⟨(Tape.blank.put 1).cells, 0, .ofList [], .empty⟩, 0, [0xFFFFFFFFFFFFFFFF], 0⟩

/-- The step that goes where the stack says passes all checks, and so does the one after it. -/
theorem inBounds_of_led_astray :
  ∃ m, Led #[.loopEnd] astray m ∧ m.position.toNat = 0xFFFFFFFFFFFFFFFF ∧ m.position ∈ m.loops ∧
    ∃ m' outcome, m.step #[.loopEnd] {} = .ok (m', outcome)
  := by
  have inside : astray.store.head.toNat < Tape.size := by decide
  have nonzero : (astray.toMachine inside).store.tape.current ≠ 0 := by
    change (Tape.blank.put 1).current ≠ 0
    simp
  have back : (astray.toMachine inside).Transition #[.loopEnd] {} _ .running :=
    .repeated rfl rfl rfl nonzero
  have short : Array.size #[Instruction.loopEnd] < UInt64.size := by decide
  obtain ⟨bounds, -⟩ := inBounds_of_led short
  obtain ⟨_, steps⟩ := bounds astray inside astray .here
  obtain ⟨m, outcome, inside', stepped, same, place⟩ := steps {}
  rw [back.step_eq] at same
  have position : 0xFFFFFFFFFFFFFFFF = m.position.toNat := congrArg (·.1.position) same
  have led : Led #[.loopEnd] astray m := .step .here {} stepped
  obtain ⟨_, steps'⟩ := bounds astray inside m led
  obtain ⟨m', outcome', -, stepped', -⟩ := steps' {}
  use m, led, position.symm
  constructor
  · obtain within | again | still := place
    · simp at within; omega
    · apply again
    · rw [still] at position
      cases position
  · use m', outcome'

end WordMachine

end ByteTape
