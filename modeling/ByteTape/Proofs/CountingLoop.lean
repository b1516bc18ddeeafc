import ByteTape.Proofs.Progress
import Mathlib.Data.List.Infix

/-!
# Loops that count

The body of a counting loop only moves the head and counts cells up and down, and at its end the
head is where it was at the beginning.  Such a body always does the same: it adds a certain amount
to each cell (`change`), which depends on where the cell lies from the head.  So after `n` rounds
`n` times that amount has been added to each cell, modulo 256 (`Store.Rounds.next`).

The loop is left after the first round that makes the cell under the head zero.  If no number of
rounds does that then it goes on for ever, and never gets out of its instructions
(`advance?_of_countingLoop`).
-/

namespace ByteTape

/-! ### What actions do to the tape -/

namespace Action

/-- How far to the right an action moves the head. -/
def shift : Action → Int
  | right => 1
  | left => -1
  | _ => 0

/-- What an action adds to the current cell. -/
def change : Action → Int
  | increment => 1
  | decrement => -1
  | _ => 0

/-- Neither the input nor the output has a part in an action. -/
def Silent (action : Action) : Prop :=
  action ≠ read ∧ action ≠ write

end Action

/-- How far to the right actions move the head. -/
def shift : (body : List Action) → Int
  | [] => 0
  | action :: rest => action.shift + shift rest

/-- What actions add to the cell at an offset from the head. -/
def change : (body : List Action) → (offset : Int) → Int
  | [], _ => 0
  | action :: rest, offset =>
    (if offset = 0 then action.change else 0) + change rest (offset - action.shift)

/-- Actions that begin with the head in a certain place never move it off the tape. -/
def StaysOnTape (body : List Action) (head : Int) : Prop :=
  ∀ front, front <+: body → 0 ≤ head + shift front ∧ head + shift front < Tape.size

/-- What a cell holds after some rounds of a body that brings the head back to where it was. -/
def Tape.counted (t : Tape) (body : List Action) (rounds : Nat) (i : Fin Tape.size) : UInt8 :=
  t.cells.get i + UInt8.ofInt (rounds * change body (i.val - t.head.val))

/-- From one tape to another each cell has grown by an amount that depends on its offset from the
head, modulo 256. -/
def Tape.Grows (t : Tape) (amount : Int → Int) (t' : Tape) : Prop :=
  ∀ i : Fin Tape.size, t'.cells.get i = t.cells.get i + UInt8.ofInt (amount (i.val - t.head.val))

section

variable {action : Action} {body : List Action} {head offset distance distance' : Int}
  {amount amount' : Int → Int} {s s' s'' : Store}

/-- A cell that the head never comes to keeps its value. -/
theorem change_eq_zero (apart : ∀ front, front <+: body → offset ≠ shift front) :
  change body offset = 0
  := by
  induction body generalizing offset with
  | nil => rfl
  | cons action rest ih =>
    have first : offset ≠ 0 := by simpa [shift] using apart [] (by simp)
    rw [change, if_neg first, ih, Int.zero_add]
    intro front before same
    apply apart (action :: front) (by simpa using before)
    rw [shift]
    omega

instance : Decidable (StaysOnTape body head) :=
  decidable_of_iff (∀ front ∈ body.inits, 0 ≤ head + shift front ∧ head + shift front < Tape.size)
    (by simp only [List.mem_inits, StaysOnTape])

theorem StaysOnTape.tail (stays : StaysOnTape (action :: body) head) :
  StaysOnTape body (head + action.shift)
  := by
  intro front before
  have := stays (action :: front) (by simpa using before)
  rw [shift] at this
  omega

theorem StaysOnTape.front {front : List Action} (stays : StaysOnTape body head)
    (before : front <+: body) :
  StaysOnTape front head
  := by
  intro front' before'
  apply stays front' (before'.trans before)

/-- Counting the current cell adds to that cell only. -/
theorem Tape.grows_update {f : UInt8 → UInt8} {added : Int}
    (adds : ∀ byte, f byte = byte + UInt8.ofInt added) (t : Tape) :
  t.Grows (fun offset => if offset = 0 then added else 0) (t.update f)
  := by
  intro i
  by_cases here : i = t.head
  · subst here
    simp only [Int.sub_self, if_true, ← adds]
    apply Tape.current_put t
  · have apart : (i.val - t.head.val : Int) ≠ 0 := by
      intro same
      apply here
      omega
    simp only [apart, if_false, show UInt8.ofInt 0 = 0 from rfl, UInt8.add_zero]
    apply Tape.cells_put_of_ne t _ here

/-- Moving the head changes no cell. -/
theorem Tape.grows_seek (t : Tape) (place : Fin Tape.size) :
  t.Grows (fun _ => 0) (t.seek place)
  := by
  intro i
  apply (UInt8.add_zero _).symm

/-- A store has become another one, whose head is further right by some number of cells and whose
cells have grown.  Nothing was read and nothing was written. -/
structure Store.Shifts (s : Store) (distance : Int) (amount : Int → Int) (s' : Store) : Prop where
  input_eq : s'.input = s.input
  output_eq : s'.output = s.output
  head_eq : (s'.tape.head.val : Int) = s.tape.head.val + distance
  cells : s.tape.Grows amount s'.tape

theorem Store.shifts_refl (s : Store) :
  s.Shifts 0 (fun _ => 0) s
  where
  input_eq := rfl
  output_eq := rfl
  head_eq := (Int.add_zero _).symm
  cells := s.tape.grows_seek s.tape.head

/-- What is done in turn adds up, once it is seen from the first place of the head. -/
theorem Store.Shifts.trans (first : s.Shifts distance amount s')
    (second : s'.Shifts distance' amount' s'') :
  s.Shifts (distance + distance') (fun offset => amount offset + amount' (offset - distance)) s''
  where
  input_eq := second.input_eq.trans first.input_eq
  output_eq := second.output_eq.trans first.output_eq
  head_eq := by rw [second.head_eq, first.head_eq, Int.add_assoc]
  cells i := by
    have apart : (i.val - s'.tape.head.val : Int) = i.val - s.tape.head.val - distance := by
      rw [first.head_eq]
      omega
    rw [second.cells i, first.cells i, UInt8.ofInt_add, UInt8.add_assoc, apart]

/-- A store has become another one by some rounds of a body. -/
def Store.Rounds (s : Store) (body : List Action) (n : Nat) (s' : Store) : Prop :=
  s.Shifts 0 (fun offset => n * change body offset) s'

theorem Store.rounds_zero (s : Store) (body : List Action) :
  s.Rounds body 0 s
  := by
  simpa [Rounds] using s.shifts_refl

/-- One more round adds to each cell what any round adds to it. -/
theorem Store.Rounds.next {n : Nat} (rounds : s.Rounds body n s')
    (round : s'.Shifts 0 (change body) s'') :
  s.Rounds body (n + 1) s''
  := by
  have all := Store.Shifts.trans rounds round
  simpa [Store.Rounds, Int.add_mul] using all

theorem Store.Rounds.head_eq {n : Nat} (rounds : s.Rounds body n s') :
  s'.tape.head = s.tape.head
  := by
  have := Shifts.head_eq rounds
  omega

theorem Store.Rounds.cells_eq {n : Nat} (rounds : s.Rounds body n s') (i : Fin Tape.size) :
  s'.tape.cells.get i = s.tape.counted body n i
  := Shifts.cells rounds i

theorem Store.Rounds.current_eq {n : Nat} (rounds : s.Rounds body n s') :
  s'.tape.current = s.tape.counted body n s.tape.head
  := by
  simp only [Tape.current, rounds.head_eq]
  apply rounds.cells_eq

/-- Rounds change no cell that the head never comes to. -/
theorem Store.Rounds.cells_eq_of_apart {n : Nat} (rounds : s.Rounds body n s')
    {i : Fin Tape.size}
    (apart : ∀ front, front <+: body → (i.val : Int) ≠ s.tape.head.val + shift front) :
  s'.tape.cells.get i = s.tape.cells.get i
  := by
  have untouched : change body (i.val - s.tape.head.val) = 0 := by
    apply change_eq_zero
    intro front before same
    apply apart front before
    omega
  rw [rounds.cells_eq, Tape.counted, untouched, Int.mul_zero]
  apply UInt8.add_zero

/-- An action moves the head or counts the current cell, unless it reads or writes. -/
theorem Store.perform_of_silent (silent : action.Silent) (eof : EofPolicy) (s : Store)
    (left : 0 ≤ s.tape.head.val + action.shift)
    (right : s.tape.head.val + action.shift < Tape.size) :
  ∃ s', s.perform eof action = (s', none) ∧
    s.Shifts action.shift (fun offset => if offset = 0 then action.change else 0) s'
  := by
  obtain ⟨t, input, output⟩ := s
  cases action with
  | right =>
    have inside : t.head.val + 1 < Tape.size := by
      simp only [Action.shift] at right
      omega
    refine ⟨⟨t.seek ⟨t.head.val + 1, inside⟩, input, output⟩, ?_, rfl, rfl, rfl, ?_⟩
    · rw [perform_right, move, Tape.moveRight?, dif_pos inside]
    · simpa [Action.change] using t.grows_seek _
  | left =>
    have inside : 0 < t.head.val := by
      simp only [Action.shift] at left
      omega
    refine ⟨⟨t.seek ⟨t.head.val - 1, by omega⟩, input, output⟩, ?_, rfl, rfl, ?_, ?_⟩
    · rw [perform_left, move, Tape.moveLeft?, if_pos inside]
    · simp only [Tape.head_seek, Action.shift]
      omega
    · simpa [Action.change] using t.grows_seek _
  | increment =>
    refine ⟨⟨t.update (· + 1), input, output⟩, rfl, rfl, rfl, (Int.add_zero _).symm, ?_⟩
    apply Tape.grows_update
    simp [Action.change]
  | decrement =>
    refine ⟨⟨t.update (· - 1), input, output⟩, rfl, rfl, rfl, (Int.add_zero _).symm, ?_⟩
    apply Tape.grows_update
    simp [Action.change, UInt8.sub_eq_add_neg]
  | write => apply absurd rfl silent.2
  | read => apply absurd rfl silent.1

end

namespace Machine

variable {program : Program} {body : List Action} {start : Nat} {s s' : Store}
  {loops loops' : List Nat} {n : Nat}

/-! ### One round -/

/-- Actions stand in a program from a position on. -/
def ActionsAt (program : Program) (start : Nat) (body : List Action) : Prop :=
  ∀ k action, body[k]? = some action → program[start + k]? = some (.act action)

theorem actionsAt_nil (program : Program) (start : Nat) :
  ActionsAt program start []
  := by
  simp [ActionsAt]

theorem actionsAt_cons {action : Action} :
  ActionsAt program start (action :: body) ↔
    program[start]? = some (.act action) ∧ ActionsAt program (start + 1) body
  := by
  constructor
  · intro stands
    use stands 0 action rfl
    intro k action' here
    rw [Nat.add_assoc, Nat.add_comm 1]
    apply stands (k + 1) action' here
  · rintro ⟨first, rest⟩ k action' here
    cases k with
    | zero =>
      cases here
      apply first
    | succ k =>
      rw [Nat.add_comm k, ← Nat.add_assoc]
      apply rest k action' here

theorem ActionsAt.front {front : List Action} (stands : ActionsAt program start body)
    (before : front <+: body) :
  ActionsAt program start front
  := by
  obtain ⟨rest, rfl⟩ := before
  intro k action here
  apply stands k action
  obtain ⟨inside, -⟩ := List.getElem?_eq_some_iff.mp here
  rw [List.getElem?_append_left inside, here]

/-- Actions that stand in a program are performed one after the other. -/
theorem advance?_of_actionsAt (stands : ActionsAt program start body)
    (silent : ∀ action ∈ body, action.Silent) (stays : StaysOnTape body s.tape.head.val)
    (eof : EofPolicy) (loops : List Nat) (steps : UInt64) :
  ∃ s' steps', advance? program ⟨eof, 0⟩ body.length ⟨s, start, loops, steps⟩ =
      some ⟨s', start + body.length, loops, steps'⟩ ∧ s.Shifts (shift body) (change body) s'
  := by
  induction body generalizing start s steps with
  | nil => exact ⟨s, steps, rfl, s.shifts_refl⟩
  | cons action rest ih =>
    obtain ⟨left, right⟩ := stays [action] (by simp)
    rw [shift, show shift [] = 0 from rfl, Int.add_zero] at left right
    obtain ⟨next, effect, moved⟩ :=
      Store.perform_of_silent (silent action List.mem_cons_self) eof s left right
    obtain ⟨here, stands'⟩ := actionsAt_cons.mp stands
    have first : Transition program ⟨eof, 0⟩ ⟨s, start, loops, steps⟩
        ⟨next, start + 1, loops, steps + 1⟩ .running :=
      .performed here (Options.exhausted_unlimited eof steps) effect
    have stays' : StaysOnTape rest next.tape.head.val := moved.head_eq ▸ stays.tail
    obtain ⟨s', steps', advanced, moved'⟩ := ih stands'
      (fun action later => silent action (List.mem_cons_of_mem _ later)) stays' (steps + 1)
    use s', steps'
    constructor
    · rw [List.length_cons, first.advance?_succ, advanced, Nat.add_assoc, Nat.add_comm 1]
    · rw [shift]
      apply moved.trans moved'

/-- A loop stands in a program whose body neither reads nor writes and brings the head back to where
it was. -/
structure CountingLoop (program : Program) (start : Nat) (body : List Action) : Prop where
  loopStart : program[start]? = some .loopStart
  actions : ActionsAt program (start + 1) body
  loopEnd : program[start + 1 + body.length]? = some .loopEnd
  silent : ∀ action ∈ body, action.Silent
  returns : shift body = 0

/-- A round begins with a test of the cell and goes on with the first actions of the body. -/
theorem CountingLoop.advance?_front (loop : CountingLoop program start body)
    (stays : StaysOnTape body s.tape.head.val) (nonzero : s.tape.current ≠ 0)
    (enters : enter start loops' = start :: loops) (eof : EofPolicy) (steps : UInt64)
    {front : List Action} (before : front <+: body) :
  ∃ s' steps', advance? program ⟨eof, 0⟩ (front.length + 1) ⟨s, start, loops', steps⟩ =
      some ⟨s', start + 1 + front.length, start :: loops, steps'⟩ ∧
    s.Shifts (shift front) (change front) s'
  := by
  have entered : Transition program ⟨eof, 0⟩ ⟨s, start, loops', steps⟩
      ⟨s, start + 1, enter start loops', steps + 1⟩ .running :=
    .entered loop.loopStart (Options.exhausted_unlimited eof steps) nonzero
  rw [entered.advance?_succ, enters]
  apply advance?_of_actionsAt (loop.actions.front before)
  · intro action among
    apply loop.silent action (before.subset among)
  · apply stays.front before

/-- Where the body ends, some rounds of a loop have been run through. -/
theorem CountingLoop.advance?_body (loop : CountingLoop program start body)
    (stays : StaysOnTape body s.tape.head.val) (nonzero : s.tape.current ≠ 0)
    (enters : enter start loops' = start :: loops) (eof : EofPolicy) (steps : UInt64) :
  ∃ s' steps', advance? program ⟨eof, 0⟩ (body.length + 1) ⟨s, start, loops', steps⟩ =
      some ⟨s', start + 1 + body.length, start :: loops, steps'⟩ ∧
    s.Shifts 0 (change body) s'
  := by
  obtain ⟨s', steps', advanced, moved⟩ :=
    loop.advance?_front stays nonzero enters eof steps (List.prefix_refl body)
  rw [loop.returns] at moved
  use s', steps'

/-! ### Many rounds -/

/-- As long as the cell is not zero after a round, the next one begins. -/
theorem CountingLoop.advance?_round (loop : CountingLoop program start body)
    (stays : StaysOnTape body s.tape.head.val) (rounds : s.Rounds body n s')
    (nonzero : s.tape.counted body n s.tape.head ≠ 0)
    (nonzero' : s.tape.counted body (n + 1) s.tape.head ≠ 0)
    (enters : enter start loops' = start :: loops) (eof : EofPolicy) (steps : UInt64) :
  ∃ s'' steps', advance? program ⟨eof, 0⟩ (body.length + 2) ⟨s', start, loops', steps⟩ =
      some ⟨s'', start, start :: loops, steps'⟩ ∧ s.Rounds body (n + 1) s''
  := by
  rw [← rounds.head_eq] at stays
  rw [← rounds.current_eq] at nonzero
  obtain ⟨s'', steps', advanced, round⟩ := loop.advance?_body stays nonzero enters eof steps
  have rounds' := rounds.next round
  rw [← rounds'.current_eq] at nonzero'
  have repeated : Transition program ⟨eof, 0⟩ ⟨s'', start + 1 + body.length, start :: loops, steps'⟩
      ⟨s'', start, start :: loops, steps' + 1⟩ .running :=
    .repeated loop.loopEnd (Options.exhausted_unlimited eof steps') rfl nonzero'
  use s'', steps' + 1
  rw [advance?_add advanced 1, repeated.advance?_succ]
  use rfl

/-- When the cell is zero after a round, the loop is left. -/
theorem CountingLoop.advance?_lastRound (loop : CountingLoop program start body)
    (stays : StaysOnTape body s.tape.head.val) (rounds : s.Rounds body n s')
    (nonzero : s.tape.counted body n s.tape.head ≠ 0)
    (zero : s.tape.counted body (n + 1) s.tape.head = 0)
    (enters : enter start loops' = start :: loops) (eof : EofPolicy) (steps : UInt64) :
  ∃ s'' steps', advance? program ⟨eof, 0⟩ (body.length + 2) ⟨s', start, loops', steps⟩ =
      some ⟨s'', start + body.length + 2, loops, steps'⟩ ∧ s.Rounds body (n + 1) s''
  := by
  rw [← rounds.head_eq] at stays
  rw [← rounds.current_eq] at nonzero
  obtain ⟨s'', steps', advanced, round⟩ := loop.advance?_body stays nonzero enters eof steps
  have rounds' := rounds.next round
  rw [← rounds'.current_eq] at zero
  have left : Transition program ⟨eof, 0⟩ ⟨s'', start + 1 + body.length, start :: loops, steps'⟩
      ⟨s'', start + 1 + body.length + 1, loops, steps' + 1⟩ .running :=
    .left loop.loopEnd (Options.exhausted_unlimited eof steps') rfl zero
  use s'', steps' + 1
  rw [advance?_add advanced 1, left.advance?_succ, Nat.add_right_comm start]
  use rfl

/-- A loop that has not been left begins another round, in each of which it is on the stack once. -/
theorem CountingLoop.advance?_rounds (loop : CountingLoop program start body)
    (stays : StaysOnTape body s.tape.head.val) (fresh : loops.head? ≠ some start)
    (nonzero : ∀ k ≤ n, s.tape.counted body k s.tape.head ≠ 0) (eof : EofPolicy)
    (steps : UInt64) :
  ∃ s' loops' steps',
    advance? program ⟨eof, 0⟩ (n * (body.length + 2)) ⟨s, start, loops, steps⟩ =
      some ⟨s', start, loops', steps'⟩ ∧
    enter start loops' = start :: loops ∧ s.Rounds body n s'
  := by
  induction n with
  | zero =>
    use s, loops, steps
    rw [Nat.zero_mul]
    exact ⟨rfl, if_neg fresh, s.rounds_zero body⟩
  | succ n ih =>
    obtain ⟨s', loops', steps', advanced, enters, rounds⟩ :=
      ih fun k before => nonzero k (Nat.le_succ_of_le before)
    obtain ⟨s'', steps'', following, rounds'⟩ :=
      loop.advance?_round stays rounds (nonzero n (Nat.le_succ n)) (nonzero (n + 1) (Nat.le_refl _))
        enters eof steps'
    use s'', start :: loops, steps''
    rw [Nat.succ_mul, advance?_add advanced]
    exact ⟨following, enter_same start loops, rounds'⟩

/-- When the first number of rounds that makes the cell zero is over, the loop has been left. -/
theorem CountingLoop.advance?_leaves (loop : CountingLoop program start body)
    (stays : StaysOnTape body s.tape.head.val) (nonzero : s.tape.current ≠ 0)
    (fresh : loops.head? ≠ some start) (positive : 0 < n)
    (zero : s.tape.counted body n s.tape.head = 0)
    (before : ∀ k, 0 < k → k < n → s.tape.counted body k s.tape.head ≠ 0) (eof : EofPolicy)
    (steps : UInt64) :
  ∃ s', advance? program ⟨eof, 0⟩ (n * (body.length + 2)) ⟨s, start, loops, steps⟩ =
      some ⟨s', start + body.length + 2, loops, steps + UInt64.ofNat (n * (body.length + 2))⟩ ∧
    s.Rounds body n s'
  := by
  obtain ⟨n, rfl⟩ := Nat.exists_eq_add_of_le' positive
  have nonzero' : ∀ k ≤ n, s.tape.counted body k s.tape.head ≠ 0 := by
    intro k within
    obtain rfl | any := k.eq_zero_or_pos
    · rw [← (s.rounds_zero body).current_eq]
      apply nonzero
    · apply before k any (Nat.lt_succ_of_le within)
  obtain ⟨s₁, loops', steps₁, advanced, enters, rounds⟩ :=
    loop.advance?_rounds stays fresh nonzero' eof steps
  obtain ⟨s', steps', following, rounds'⟩ :=
    loop.advance?_lastRound stays rounds (nonzero' n (Nat.le_refl n)) zero enters eof steps₁
  rw [← advance?_add advanced, ← Nat.succ_mul] at following
  have counted := steps_of_advance? following
  obtain rfl : steps' = _ := counted
  use s', following

/-- If no number of rounds makes the cell zero then the loop is never left. -/
theorem CountingLoop.advance?_endless (loop : CountingLoop program start body)
    (stays : StaysOnTape body s.tape.head.val) (fresh : loops.head? ≠ some start)
    (nonzero : ∀ n, s.tape.counted body n s.tape.head ≠ 0) (eof : EofPolicy) (steps : UInt64)
    (k : Nat) :
  ∃ m, advance? program ⟨eof, 0⟩ k ⟨s, start, loops, steps⟩ = some m ∧
    start ≤ m.position ∧ m.position ≤ start + body.length + 1
  := by
  -- What recurs is the beginning of a round, whatever the rounds before have counted.
  apply exists_advance?_of_recurs (P := fun m => ∃ n s' loops' steps',
    m = ⟨s', start, loops', steps'⟩ ∧ enter start loops' = start :: loops ∧ s.Rounds body n s')
  · rintro _ ⟨n, s', loops', steps', rfl, enters, rounds⟩
    obtain ⟨s'', steps'', following, rounds'⟩ :=
      loop.advance?_round stays rounds (nonzero n) (nonzero (n + 1)) enters eof steps'
    refine ⟨_, _, by omega, following, ⟨_, _, _, _, rfl, enter_same start loops, rounds'⟩, ?_⟩
    intro k before m reached
    cases k with
    | zero =>
      cases reached
      simp only
      omega
    | succ k =>
      have stays' := stays
      have nonzero' := nonzero n
      rw [← rounds.head_eq] at stays'
      rw [← rounds.current_eq] at nonzero'
      obtain ⟨s₁, steps₁, advanced, -⟩ :=
        loop.advance?_front stays' nonzero' enters eof steps' (body.take_prefix k)
      rw [List.length_take_of_le (by omega), reached] at advanced
      cases advanced
      simp only
      omega
  · exact ⟨0, s, loops, steps, rfl, if_neg fresh, s.rounds_zero body⟩

variable {m : Machine}

/-- A counting loop that is entered when it is not on top of the stack is left after the first
number of rounds that makes the cell under the head zero.  By then the machine has made
`body.length + 2` steps for each round, and it is behind the loop, with the head and the stack as
they were and nothing read or written.  Each cell has been counted up by the rounds times what the
body adds to it, so the cells that the head never came to are unchanged.  If no number of rounds
makes the cell zero then the machine goes on for ever, inside of the loop. -/
theorem advance?_of_countingLoop (loop : CountingLoop program m.position body)
    (stays : StaysOnTape body m.store.tape.head.val) (nonzero : m.store.tape.current ≠ 0)
    (fresh : m.loops.head? ≠ some m.position) (eof : EofPolicy) :
  (∀ n, 0 < n → m.store.tape.counted body n m.store.tape.head = 0 →
    (∀ k, 0 < k → k < n → m.store.tape.counted body k m.store.tape.head ≠ 0) →
    ∃ t, advance? program ⟨eof, 0⟩ (n * (body.length + 2)) m =
        some ⟨⟨t, m.store.input, m.store.output⟩, m.position + body.length + 2, m.loops,
          m.steps + UInt64.ofNat (n * (body.length + 2))⟩ ∧
      t.head = m.store.tape.head ∧ t.current = 0 ∧
      (∀ i, t.cells.get i = m.store.tape.counted body n i) ∧
      ∀ i : Fin Tape.size,
        (∀ front, front <+: body → (i.val : Int) ≠ m.store.tape.head.val + shift front) →
        t.cells.get i = m.store.tape.cells.get i) ∧
  ((∀ n, 0 < n → m.store.tape.counted body n m.store.tape.head ≠ 0) →
    ∀ k, ∃ m', advance? program ⟨eof, 0⟩ k m = some m' ∧
      m.position ≤ m'.position ∧ m'.position ≤ m.position + body.length + 1)
  := by
  constructor
  · intro n positive zero before
    obtain ⟨⟨t, input, output⟩, advanced, rounds⟩ :=
      loop.advance?_leaves stays nonzero fresh positive zero before eof m.steps
    obtain rfl : input = _ := rounds.input_eq
    obtain rfl : output = _ := rounds.output_eq
    refine ⟨t, advanced, rounds.head_eq, rounds.current_eq.trans zero, rounds.cells_eq, ?_⟩
    intro i apart
    apply rounds.cells_eq_of_apart apart
  · intro nonzero'
    apply loop.advance?_endless stays fresh
    intro n
    obtain rfl | any := n.eq_zero_or_pos
    · rw [← (m.store.rounds_zero body).current_eq]
      apply nonzero
    · apply nonzero' n any

/-- The actions `-->+<`. -/
def halve : List Action :=
  [.decrement, .decrement, .right, .increment, .left]

/-- The program `[-->+<]`. -/
def halving : Program :=
  #[.loopStart, .act .decrement, .act .decrement, .act .right, .act .increment, .act .left,
    .loopEnd]

/-- The beginning of a program, but with a byte in the first cell. -/
def loaded (byte : UInt8) : Machine :=
  ⟨⟨Tape.blank.put byte, .ofList [], .empty⟩, 0, [], 0⟩

theorem countingLoop_halving :
  CountingLoop halving 0 halve
  where
  loopStart := rfl
  actions := by
    simp only [halve, actionsAt_cons, actionsAt_nil, and_true]
    and_intros <;> rfl
  loopEnd := rfl
  silent := by simp [halve, Action.Silent]
  returns := rfl

theorem counted_loaded (byte : UInt8) (n : Nat) :
  (loaded byte).store.tape.counted halve n (loaded byte).store.tape.head =
    byte + UInt8.ofInt (n * -2)
  := by
  rw [Tape.counted, Int.sub_self]
  apply congrArg (· + UInt8.ofInt (n * -2)) (Tape.current_put _ byte)

/-- Two rounds halve a four into the next cell.  A one is counted down for ever. -/
theorem advance?_of_countingLoop_halving :
  (∃ t, advance? halving ⟨.fail, 0⟩ 14 (loaded 4) =
      some ⟨⟨t, .ofList [], .empty⟩, 7, [], 14⟩ ∧ t.current = 0 ∧
    t.cells.get ⟨1, by decide⟩ = 2) ∧
  ∀ k, ∃ m, advance? halving ⟨.fail, 0⟩ k (loaded 1) = some m ∧ m.position ≤ 6
  := by
  have law (byte : UInt8) (nonzero : byte ≠ 0) :=
    advance?_of_countingLoop (m := loaded byte) countingLoop_halving
      (show StaysOnTape halve 0 by decide) (by simpa [loaded] using nonzero) (by simp [loaded])
      .fail
  simp only [counted_loaded] at law
  constructor
  · obtain ⟨leaves, -⟩ := law 4 (by decide)
    have first (k : Nat) (any : 0 < k) (before : k < 2) : 4 + UInt8.ofInt (k * -2) ≠ 0 := by
      obtain rfl : k = 1 := by omega
      decide
    obtain ⟨t, advanced, -, zero, cells, -⟩ := leaves 2 (by decide) rfl first
    use t, advanced, zero
    rw [cells]
    decide +kernel
  · obtain ⟨-, endless⟩ := law 1 (by decide)
    have odd (n : Nat) (any : 0 < n) : 1 + UInt8.ofInt (n * -2) ≠ 0 := by
      intro even
      have parity := congrArg UInt8.toNat even
      rw [UInt8.toNat_add, UInt8.ofInt, UInt8.toNat_ofNat'] at parity
      simp only [UInt8.reduceToNat] at parity
      omega
    intro k
    obtain ⟨m, advanced, -, inside⟩ := endless odd k
    use m, advanced, inside

end Machine

end ByteTape
