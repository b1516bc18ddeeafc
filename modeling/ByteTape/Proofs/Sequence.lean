import ByteTape.Proofs.Progress
import ByteTape.Proofs.Verdict

/-!
# Running one program behind another

What follows a program does not change what happens before: as long as a run of `p` neither
halts nor finds a loop without an end, it is a run of `p ++ q` (`Transition.append`).  The search
for the end of a loop sees what follows, but stops before it.

A run of `q` is a run of `p ++ q` whose positions are shifted by the size of `p`, whose output
stands behind an earlier output, and whose steps are counted on (`Transition.behind`).  It does
not matter here whether the brackets of `q` match.

Hence a run of `p ++ q` is a run of `p` followed by a run of `q` if the first one halts, and it
is the run of `p` if that fails, unless a loop of `p` has no end in `p` (`run_append`).
-/

namespace ByteTape

/-! ### Output behind an earlier output -/

/-- An earlier output together with what was written, and how often it was flushed, later. -/
def Output.append (earlier later : Output) : Output where
  bytes := earlier.bytes ++ later.bytes
  delivered :=
    if later.flushes = 0 then earlier.delivered else earlier.bytes.size + later.delivered
  flushes := earlier.flushes + later.flushes

@[simp]
theorem Output.append_empty (earlier : Output) :
  earlier.append .empty = earlier
  := by
  simp [append, empty]

theorem Output.append_write (earlier later : Output) (byte : UInt8) :
  earlier.append (later.write byte) = (earlier.append later).write byte
  := by
  simp only [append, write, Array.append_push]
  rfl

theorem Output.append_flush (earlier later : Output) :
  earlier.append later.flush = (earlier.append later).flush
  := by
  simp [append, flush, Nat.add_assoc]

/-- A store whose output stands behind an earlier one. -/
def Store.behind (earlier : Output) (store : Store) : Store :=
  { store with output := earlier.append store.output }

/-- An action does not depend on what was written before. -/
theorem Store.perform_behind {eof : EofPolicy} {action : Action} {store store' : Store}
    {kind : Option FaultKind} (effect : store.perform eof action = (store', kind))
    (earlier : Output) :
  (store.behind earlier).perform eof action = (store'.behind earlier, kind)
  := by
  obtain ⟨tape, input, output⟩ := store
  cases action with
  | right =>
    simp only [perform_right, move, behind] at effect ⊢
    split at effect <;> cases effect <;> rfl
  | left =>
    simp only [perform_left, move, behind] at effect ⊢
    split at effect <;> cases effect <;> rfl
  | increment => cases effect; rfl
  | decrement => cases effect; rfl
  | write =>
    rw [perform_write] at effect
    cases effect
    simp only [perform_write, write, behind, Output.append_write]
  | read =>
    simp only [perform_read, read_eq, behind, ← Output.append_flush] at effect ⊢
    split at effect
    · cases effect; rfl
    · cases eof <;> cases effect <;> rfl

/-! ### The end of a loop in a longer program -/

namespace Program

variable {p : Program} {k : Nat} {instruction : Instruction}

theorem getElem?_append_of_some (here : p[k]? = some instruction) (q : Program) :
  (p ++ q)[k]? = some instruction
  := by
  obtain ⟨inside, -⟩ := Array.getElem?_eq_some_iff.mp here
  rw [Array.getElem?_append_left inside, here]

theorem getElem?_append_size_add (p q : Program) (k : Nat) :
  (p ++ q)[p.size + k]? = q[k]?
  := by
  rw [Array.getElem?_append_right (Nat.le_add_right _ _), Nat.add_sub_cancel_left]

/-- A search that finds something inside the first part finds it in the whole. -/
theorem scan_append {left depth position closing : Nat} (within : position + left = p.size)
    (found : p.scan left depth position = some closing) (q : Program) (more : Nat) :
  (p ++ q).scan (left + more) depth position = some closing
  := by
  induction left generalizing depth position with
  | zero => cases found
  | succ left ih =>
    have here : p[position]? = some p[position] := Array.getElem?_eq_getElem (by omega)
    have within : position + 1 + left = p.size := by omega
    rw [scan.eq_def] at found
    rw [Nat.add_right_comm, scan.eq_def]
    simp only [here, getElem?_append_of_some here] at found ⊢
    cases instruction : p[position] with
    | act action =>
      simp only [instruction] at found ⊢
      apply ih within found
    | loopStart =>
      simp only [instruction] at found ⊢
      apply ih within found
    | loopEnd =>
      simp only [instruction] at found ⊢
      cases depth with
      | zero => apply found
      | succ depth => apply ih within found

/-- The end of a loop of the first part is its end in the whole. -/
theorem closing?_append {start closing : Nat} (found : p.closing? start = some closing)
    (q : Program) :
  (p ++ q).closing? start = some closing
  := by
  obtain inside | past := Nat.lt_or_ge start p.size
  · have size : (p ++ q).size - start = p.size - start + q.size := by
      rw [Array.size_append]
      omega
    rw [closing?, size]
    apply scan_append (by omega) found
  · rw [closing?_of_size_le past] at found
    cases found

theorem scan_append_size_add (p q : Program) (left depth position : Nat) :
  (p ++ q).scan left depth (p.size + position)
    = (q.scan left depth position).map (p.size + ·)
  := by
  induction left generalizing depth position with
  | zero => rfl
  | succ left ih =>
    rw [scan.eq_def, scan.eq_def q]
    simp only [getElem?_append_size_add]
    cases q[position]? with
    | none => apply ih depth (position + 1)
    | some instruction =>
      cases instruction with
      | act action => apply ih depth (position + 1)
      | loopStart => apply ih (depth + 1) (position + 1)
      | loopEnd =>
        cases depth with
        | zero => rfl
        | succ depth => apply ih depth (position + 1)

/-- The end of a loop of the second part, in the whole. -/
theorem closing?_append_size_add (p q : Program) (start : Nat) :
  (p ++ q).closing? (p.size + start) = (q.closing? start).map (p.size + ·)
  := by
  have size : (p ++ q).size - (p.size + start) = q.size - start := by
    rw [Array.size_append]
    omega
  rw [closing?, closing?, size, scan_append_size_add]

end Program

/-! ### Machines in a longer run -/

/-- A fault behind `size` further instructions. -/
def Fault.behind (size : Nat) (fault : Fault) : Fault :=
  { fault with position := size + fault.position }

/-- An outcome behind `size` further instructions. -/
def Outcome.behind (size : Nat) : Outcome → Outcome
  | running => running
  | halted => halted
  | failed fault => failed (fault.behind size)

namespace Machine

/-- A machine that runs the second part of a program, after `earlier` has run the first part,
which has `size` instructions. -/
def behind (m : Machine) (size : Nat) (earlier : Machine) : Machine where
  store := m.store.behind earlier.store.output
  position := size + m.position
  loops := m.loops.map (size + ·)
  steps := earlier.steps + m.steps

/-- How a run of the second part ends, after `earlier` has run the first part. -/
def endBehind (size : Nat) (earlier : Machine) (ending : Machine × Option Fault) :
    Machine × Option Fault :=
  (ending.1.behind size earlier, ending.2.map (Fault.behind size))

/-- A machine at the beginning of a program that takes over the tape and the input. -/
def takeOver (m : Machine) : Machine :=
  ⟨⟨m.store.tape, m.store.input, .empty⟩, 0, [], 0⟩

variable {p q : Program} {options : Options} {eof : EofPolicy} {input : List UInt8}
  {m m' earlier : Machine} {outcome : Outcome} {fault : Option Fault} {n fuel : Nat}

theorem behind_takeOver (m : Machine) {size : Nat} (position : m.position = size)
    (closed : m.loops = []) :
  m.takeOver.behind size m = m
  := by
  obtain ⟨⟨tape, input, output⟩, _, _, steps⟩ := m
  obtain rfl : _ = size := position
  obtain rfl : _ = [] := closed
  simp [takeOver, behind, Store.behind]

theorem behind_flush (size : Nat) (earlier m : Machine) :
  m.flush.behind size earlier = (m.behind size earlier).flush
  := by
  simp [behind, flush, Store.behind, Store.flush, Output.append_flush]

theorem map_enter (size position : Nat) (loops : List Nat) :
  (enter position loops).map (size + ·) = enter (size + position) (loops.map (size + ·))
  := by
  cases loops with
  | nil => rfl
  | cons innermost outer =>
    simp only [enter, List.head?_cons, List.map_cons, Option.some.injEq, Nat.add_left_cancel_iff]
    split
    · rfl
    · rfl

/-! ### Steps of the two parts -/

/-- A step of the first part that neither halts nor finds a loop without an end is a step of the
whole. -/
theorem Transition.append (step : m.Transition p options m' outcome)
    (going : outcome ≠ .halted)
    (closed : ∀ position, outcome ≠ .failed ⟨.unclosedLoop, position⟩) (q : Program) :
  m.Transition (p ++ q) options m' outcome
  := by
  have extend {instruction : Instruction} (here : p[m.position]? = some instruction) :=
    Program.getElem?_append_of_some here q
  cases step with
  | halted => apply absurd rfl going
  | leftOpen => apply absurd rfl (closed _)
  | refused inside exhausted =>
    apply Transition.refused _ exhausted
    rw [Array.size_append]
    apply Nat.lt_add_right _ inside
  | performed here granted effect => apply Transition.performed (extend here) granted effect
  | stopped here granted effect => apply Transition.stopped (extend here) granted effect
  | skipped here granted zero found =>
    apply Transition.skipped (extend here) granted zero (Program.closing?_append found q)
  | unended => apply absurd rfl (closed _)
  | entered here granted nonzero => apply Transition.entered (extend here) granted nonzero
  | unbegun here granted none => apply Transition.unbegun (extend here) granted none
  | left here granted still zero => apply Transition.left (extend here) granted still zero
  | repeated here granted still nonzero =>
    apply Transition.repeated (extend here) granted still nonzero

/-- A step of the second part is a step of the whole. -/
theorem Transition.behind (step : m.Transition q ⟨eof, 0⟩ m' outcome) (p : Program)
    (earlier : Machine) :
  (m.behind p.size earlier).Transition (p ++ q) ⟨eof, 0⟩ (m'.behind p.size earlier)
    (outcome.behind p.size)
  := by
  have whole {instruction : Instruction} (here : q[m.position]? = some instruction) :
      (p ++ q)[p.size + m.position]? = some instruction := by
    rw [Program.getElem?_append_size_add, here]
  have granted : Options.exhausted ⟨eof, 0⟩ (earlier.steps + m.steps) = false :=
    Options.exhausted_unlimited eof _
  have counted : earlier.steps + (m.steps + 1) = earlier.steps + m.steps + 1 :=
    (UInt64.add_assoc _ _ _).symm
  have searched := Program.closing?_append_size_add p q (m.position + 1)
  cases step with
  | halted past closed =>
    apply Transition.halted
    · simpa [Machine.behind] using past
    · simp [Machine.behind, closed]
  | leftOpen past still =>
    apply Transition.leftOpen
    · simpa [Machine.behind] using past
    · rw [Machine.behind, still]
      rfl
  | refused inside exhausted => simp at exhausted
  | performed here _ effect =>
    simp only [Machine.behind, counted]
    apply Transition.performed (whole here) granted (Store.perform_behind effect _)
  | stopped here _ effect =>
    simp only [Machine.behind, counted]
    apply Transition.stopped (whole here) granted (Store.perform_behind effect _)
  | skipped here _ zero found =>
    simp only [Machine.behind, counted]
    rw [found] at searched
    apply Transition.skipped (whole here) granted _ searched
    apply zero
  | unended here _ zero missing =>
    simp only [Machine.behind, counted]
    rw [missing] at searched
    apply Transition.unended (whole here) granted _ searched
    apply zero
  | entered here _ nonzero =>
    simp only [Machine.behind, counted, map_enter]
    apply Transition.entered (whole here) granted
    apply nonzero
  | unbegun here _ closed =>
    simp only [Machine.behind, counted, closed]
    apply Transition.unbegun (whole here) granted rfl
  | left here _ still zero =>
    simp only [Machine.behind, counted, still]
    apply Transition.left (whole here) granted rfl
    apply zero
  | repeated here _ still nonzero =>
    simp only [Machine.behind, counted, still]
    apply Transition.repeated (whole here) granted rfl
    apply nonzero

/-! ### Runs of the two parts -/

/-- Running steps of the first part are made by the whole. -/
theorem advance?_append (advanced : advance? p options n m = some m') (q : Program) :
  advance? (p ++ q) options n m = some m'
  := by
  induction n generalizing m with
  | zero => apply advanced
  | succ n ih =>
    obtain ⟨next, step, advanced⟩ := exists_of_advance?_succ advanced
    have whole : m.Transition (p ++ q) options next .running := by
      apply step.append
      · intro ended
        cases ended
      · intro position failed
        cases failed
    rw [whole.advance?_succ, ih advanced]

/-- Running steps of the second part are those that the whole makes there. -/
theorem advance?_behind (p q : Program) (eof : EofPolicy) (earlier m : Machine) (n : Nat) :
  advance? (p ++ q) ⟨eof, 0⟩ n (m.behind p.size earlier)
    = (advance? q ⟨eof, 0⟩ n m).map (·.behind p.size earlier)
  := by
  induction n generalizing m with
  | zero => rfl
  | succ n ih =>
    cases stepped : m.step q ⟨eof, 0⟩ with
    | mk m' outcome =>
      have step := transition_of_step stepped
      rw [advance?, advance?, stepped, (step.behind p earlier).step_eq]
      cases outcome with
      | running => apply ih
      | halted => rfl
      | failed fault => rfl

/-- A run of the second part is a run of the whole from there. -/
theorem run_behind (p q : Program) (eof : EofPolicy) (earlier m : Machine) (fuel : Nat) :
  run (p ++ q) ⟨eof, 0⟩ fuel (m.behind p.size earlier)
    = (run q ⟨eof, 0⟩ fuel m).map (endBehind p.size earlier)
  := by
  induction fuel generalizing m with
  | zero => rfl
  | succ fuel ih =>
    cases stepped : m.step q ⟨eof, 0⟩ with
    | mk m' outcome =>
      have step := transition_of_step stepped
      rw [run, run, stepped, (step.behind p earlier).step_eq]
      cases outcome with
      | running => apply ih
      | halted =>
        simp only [Outcome.behind, Option.map_some, endBehind, behind_flush]
        rfl
      | failed fault => rfl

/-- If a run of the first part fails, and not for a loop without an end, then the run of the
whole fails alike. -/
theorem run_append_of_failed {fault : Fault} (ended : run p options fuel m = some (m', some fault))
    (closed : fault.kind ≠ .unclosedLoop) (q : Program) :
  run (p ++ q) options fuel m = some (m', some fault)
  := by
  obtain ⟨n, before, m₁, advanced, stops⟩ := run_eq_some_iff.mp ended
  apply run_eq_some_iff.mpr
  use n, before, m₁, advance?_append advanced q
  cases stops with
  | failed step =>
    apply Stops.failed
    apply step.append
    · intro halted
      cases halted
    · rintro position ⟨⟩
      apply closed rfl

/-- A run of two programs, one behind the other.  If a run of the first one halts, having
executed `n` instructions, then the run of both does the same and goes on as a run of the second
one that takes over the tape and the input.  Its steps and its end are the same but for this: all
positions are shifted by the size of the first program, the output stands behind that of the
first run, which is not handed over in between, and the steps are counted on.  If a run of the
first program fails, and not for a loop without an end, then the run of both fails in the same
state with the same fault. -/
theorem run_append (p q : Program) (eof : EofPolicy) (input : List UInt8) :
  (∀ fuel m, run p ⟨eof, 0⟩ fuel (.initial input) = some (m, none) →
    ∃ n earlier, m = earlier.flush ∧ tally p ⟨eof, 0⟩ fuel (.initial input) = some n ∧
      (∀ k, advance? (p ++ q) ⟨eof, 0⟩ (n + k) (.initial input)
        = (advance? q ⟨eof, 0⟩ k m.takeOver).map (·.behind p.size earlier)) ∧
      ∀ fuel', run (p ++ q) ⟨eof, 0⟩ (n + fuel') (.initial input)
        = (run q ⟨eof, 0⟩ fuel' m.takeOver).map (endBehind p.size earlier)) ∧
  ∀ fuel m fault, run p ⟨eof, 0⟩ fuel (.initial input) = some (m, some fault) →
    fault.kind ≠ .unclosedLoop →
    run (p ++ q) ⟨eof, 0⟩ fuel (.initial input) = some (m, some fault)
  := by
  constructor
  · intro fuel m ended
    obtain ⟨-, closed, position⟩ := verdict_of_run ended
    obtain ⟨n, before, earlier, advanced, stops⟩ := run_eq_some_iff.mp ended
    have counted := tally_of_stops advanced stops before
    have whole := advance?_append advanced q
    cases stops with
    | halted step =>
      have position : earlier.position = p.size := position
      have resumed : earlier.takeOver.behind p.size earlier = earlier :=
        behind_takeOver earlier position closed
      rw [executed_of_size_le (Nat.le_of_eq position.symm)] at counted
      use n, earlier, rfl, counted
      constructor
      · intro k
        have steps := advance?_behind p q eof earlier earlier.takeOver k
        rw [resumed] at steps
        rw [advance?_add whole, steps]
        rfl
      · intro fuel'
        have ending := run_behind p q eof earlier earlier.takeOver fuel'
        rw [resumed] at ending
        rw [run_add whole, ending]
        rfl
  · intro fuel m fault ended closed
    apply run_append_of_failed ended closed

/-- The program `+[-]`, which runs its loop for one round. -/
def oneRound : Program :=
  #[.act .increment, .loopStart, .act .decrement, .loopEnd]

/-- A single loop end. -/
def loneEnd : Program :=
  #[.loopEnd]

/-- A loop end behind four instructions that halt fails as the fifth; with those instructions
behind it, it fails as the first. -/
theorem run_append_loneEnd :
  (∃ m, run (oneRound ++ loneEnd) ⟨.fail, 0⟩ 5 (.initial []) =
    some (m, some ⟨.unopenedLoop, 4⟩)) ∧
  ∃ m, run (loneEnd ++ oneRound) ⟨.fail, 0⟩ 1 (.initial []) =
    some (m, some ⟨.unopenedLoop, 0⟩)
  := by
  constructor
  · have ended : run oneRound ⟨.fail, 0⟩ 5 (.initial []) = some (⟨_, 4, [], 4⟩, none) := rfl
    obtain ⟨n, earlier, -, counted, -, resumed⟩ :=
      (run_append oneRound loneEnd .fail []).1 5 _ ended
    have four : tally oneRound ⟨.fail, 0⟩ 5 (.initial []) = some 4 := rfl
    rw [four] at counted
    cases counted
    exact ⟨_, resumed 1⟩
  · have ended : run loneEnd ⟨.fail, 0⟩ 1 (.initial []) =
        some (⟨_, 1, [], 1⟩, some ⟨.unopenedLoop, 0⟩) := rfl
    exact ⟨_, (run_append loneEnd oneRound .fail []).2 1 _ _ ended (by decide)⟩

end Machine

end ByteTape
