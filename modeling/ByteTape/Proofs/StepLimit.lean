import ByteTape.Proofs.Progress

/-!
# A step limit only cuts a run off

A step that is granted does not depend on how many steps are (`Transition.of_granted`), so as
long as all steps are granted a run makes the same ones under any limit
(`advance?_of_granted`).  Under a limit of `N` the first `N` steps are granted, and the next one
is refused if it would execute an instruction.

Hence a run whose unlimited counterpart executes `N` instructions or fewer is that counterpart,
and any other run stops where that counterpart is after `N` instructions (`run_of_limit`).
-/

namespace ByteTape

namespace Machine

variable {program : Program} {options options' : Options} {m m' : Machine} {outcome : Outcome}
  {fault : Option Fault} {eof : EofPolicy} {limit : UInt64} {input : List UInt8} {n k fuel : Nat}

/-! ### Steps that are granted -/

/-- A step that is granted is made under any other options that grant it too. -/
theorem Transition.of_granted (step : m.Transition program options m' outcome)
    (same : options'.eof = options.eof) (granted : options.exhausted m.steps = false)
    (granted' : m.Executes program options → options'.exhausted m.steps = false) :
  m.Transition program options' m' outcome
  := by
  have allowed {instruction : Instruction} (here : program[m.position]? = some instruction) :
      options'.exhausted m.steps = false :=
    granted' (executes_of_getElem? here granted)
  cases step with
  | halted past closed => apply Transition.halted past closed
  | leftOpen past still => apply Transition.leftOpen past still
  | refused inside exhausted => simp [granted] at exhausted
  | performed here _ effect => apply Transition.performed here (allowed here) (same ▸ effect)
  | stopped here _ effect => apply Transition.stopped here (allowed here) (same ▸ effect)
  | skipped here _ zero found => apply Transition.skipped here (allowed here) zero found
  | unended here _ zero missing => apply Transition.unended here (allowed here) zero missing
  | entered here _ nonzero => apply Transition.entered here (allowed here) nonzero
  | unbegun here _ closed => apply Transition.unbegun here (allowed here) closed
  | left here _ still zero => apply Transition.left here (allowed here) still zero
  | repeated here _ still nonzero => apply Transition.repeated here (allowed here) still nonzero

theorem Stops.of_granted (stops : Stops program options m m' fault)
    (same : options'.eof = options.eof) (granted : options.exhausted m.steps = false)
    (granted' : m.Executes program options → options'.exhausted m.steps = false) :
  Stops program options' m m' fault
  := by
  cases stops with
  | halted step => exact .halted (step.of_granted same granted granted')
  | failed step => exact .failed (step.of_granted same granted granted')

/-- Running steps that are all granted by other options are made under these too. -/
theorem advance?_of_granted (advanced : advance? program options n m = some m')
    (same : options'.eof = options.eof)
    (granted : ∀ k < n, ∀ m₁, advance? program options k m = some m₁ →
      m₁.Executes program options → options'.exhausted m₁.steps = false) :
  advance? program options' n m = some m'
  := by
  induction n generalizing m with
  | zero => apply advanced
  | succ n ih =>
    obtain ⟨next, step, advanced⟩ := exists_of_advance?_succ advanced
    have first := step.of_granted same step.executes.2 (granted 0 n.succ_pos m rfl)
    rw [first.advance?_succ]
    apply ih advanced
    intro k before m₁ reached
    apply granted (k + 1) (Nat.succ_lt_succ before) m₁
    rw [step.advance?_succ, reached]

/-! ### The steps that a limit grants -/

theorem exhausted_of_lt (below : k < limit.toNat) :
  Options.exhausted ⟨eof, limit⟩ (UInt64.ofNat k) = false
  := by
  have count : (UInt64.ofNat k).toNat = k :=
    UInt64.toNat_ofNat_of_lt' (Nat.lt_trans below limit.toNat_lt)
  simp [Options.exhausted, UInt64.le_iff_toNat_le, count, below]

theorem exhausted_self (limited : limit ≠ 0) :
  Options.exhausted ⟨eof, limit⟩ limit = true
  := by
  simp [Options.exhausted, limited]

/-- A limit that is no lower grants what a limit grants. -/
theorem exhausted_of_le {limit' steps : UInt64} (limited : limit ≠ 0)
    (higher : limit' = 0 ∨ limit ≤ limit')
    (granted : Options.exhausted ⟨eof, limit⟩ steps = false) :
  Options.exhausted ⟨eof, limit'⟩ steps = false
  := by
  obtain rfl | higher := higher
  · apply Options.exhausted_unlimited
  · have below : steps < limit := by simpa [Options.exhausted, limited] using granted
    simp [Options.exhausted, UInt64.lt_of_lt_of_le below higher]

/-- From the beginning of a program the count of steps is the number of running steps. -/
theorem steps_of_advance?_initial
    (advanced : advance? program options n (.initial input) = some m) :
  m.steps = UInt64.ofNat n
  := by
  rw [steps_of_advance? advanced]
  apply UInt64.zero_add

/-- As many steps as the limit says are granted. -/
theorem advance?_of_limit (advanced : advance? program ⟨eof, 0⟩ n (.initial input) = some m)
    (within : n ≤ limit.toNat) :
  advance? program ⟨eof, limit⟩ n (.initial input) = some m
  := by
  apply advance?_of_granted advanced
  · rfl
  · intro k before m₁ reached _
    rw [steps_of_advance?_initial reached]
    apply exhausted_of_lt (Nat.lt_of_lt_of_le before within)

/-! ### Runs under a limit -/

/-- A run that executes no more instructions than the limit says ends as it would without. -/
theorem run_of_tally_le (counted : tally program ⟨eof, 0⟩ fuel (.initial input) = some k)
    (within : k ≤ limit.toNat) :
  ∃ ending, run program ⟨eof, 0⟩ fuel (.initial input) = some ending ∧
    run program ⟨eof, limit⟩ fuel (.initial input) = some ending
  := by
  obtain ⟨n, before, m₁, m', fault, advanced, stops, rfl⟩ := tally_eq_some_iff.mp counted
  use (m', fault)
  constructor
  · apply run_eq_some_iff.mpr
    use n, before, m₁, advanced
  · apply run_eq_some_iff.mpr
    use n, before, m₁, advance?_of_limit advanced (Nat.le_of_add_right_le within)
    apply stops.of_granted _ (Options.exhausted_unlimited eof m₁.steps)
    · intro executes
      -- The last step executes an instruction, so one more than the running steps is granted.
      rw [executed, if_pos executes] at within
      rw [steps_of_advance?_initial advanced]
      apply exhausted_of_lt within
    · rfl

/-- A run that would execute more instructions than the limit says makes as many steps and is
then at a further instruction. -/
theorem advance?_of_lt_tally
    (more : ∀ fuel k, tally program ⟨eof, 0⟩ fuel (.initial input) = some k →
      limit.toNat < k) :
  ∃ m, advance? program ⟨eof, 0⟩ limit.toNat (.initial input) = some m ∧
    m.position < program.size
  := by
  obtain ⟨m, advanced⟩ | ⟨k, before, m₁, m', fault, advanced, stops⟩ :=
    advance?_or_stops program ⟨eof, 0⟩ (.initial input) limit.toNat
  · use m, advanced
    obtain inside | past := Nat.lt_or_ge m.position program.size
    · apply inside
    · obtain ⟨m', step⟩ | ⟨m', fault, stops⟩ := running_or_stops program ⟨eof, 0⟩ m
      · apply step.executes.1
      · have counted := tally_of_stops advanced stops (Nat.lt_succ_self _)
        rw [executed_of_size_le past] at counted
        apply absurd (more _ _ counted) (Nat.lt_irrefl _)
  · have counted := tally_of_stops advanced stops (Nat.lt_succ_self k)
    have few := executed_le_one program ⟨eof, 0⟩ m₁
    have := more _ _ counted
    omega

/-- A step limit only cuts a run off.  Let the run without a limit execute `k` instructions in
all, one that fails included, or run for ever.  If `k` is at most the limit then the run under
the limit ends in the same way and leaves the same state.  Otherwise it makes as many steps as
the limit says, which lead where the first steps of the run without a limit lead, and stops
there at the next instruction. -/
theorem run_of_limit (program : Program) (eof : EofPolicy) (input : List UInt8)
    {limit : UInt64} (limited : limit ≠ 0) :
  (∀ fuel k, tally program ⟨eof, 0⟩ fuel (.initial input) = some k → k ≤ limit.toNat →
    ∃ ending, run program ⟨eof, 0⟩ fuel (.initial input) = some ending ∧
      run program ⟨eof, limit⟩ fuel (.initial input) = some ending) ∧
  ((∀ fuel k, tally program ⟨eof, 0⟩ fuel (.initial input) = some k → limit.toNat < k) →
    ∃ m, advance? program ⟨eof, 0⟩ limit.toNat (.initial input) = some m ∧
      m.steps = limit ∧
      run program ⟨eof, limit⟩ (limit.toNat + 1) (.initial input)
        = some (m, some ⟨.stepLimit, m.position⟩))
  := by
  constructor
  · intro fuel k counted within
    apply run_of_tally_le counted within
  · intro more
    obtain ⟨m, advanced, inside⟩ := advance?_of_lt_tally more
    have steps : m.steps = limit := by
      rw [steps_of_advance?_initial advanced, UInt64.ofNat_toNat]
    have refused : m.Transition program ⟨eof, limit⟩ m (.failed ⟨.stepLimit, m.position⟩) := by
      apply Transition.refused inside
      rw [steps]
      apply exhausted_self limited
    use m, advanced, steps
    rw [run_add (advance?_of_limit advanced (Nat.le_refl _)), (Stops.failed refused).run_succ]

/-- The program `+[`, which comes to its end in a loop. -/
def unfinished : Program :=
  #[.act .increment, .loopStart]

/-- The run executes two instructions.  A limit of two lets it come to its end and fail there,
a limit of one stops it at the second instruction. -/
theorem run_of_limit_unfinished :
  tally unfinished ⟨.fail, 0⟩ 3 (.initial []) = some 2 ∧
  (∃ m, run unfinished ⟨.fail, 2⟩ 3 (.initial []) = some (m, some ⟨.unclosedLoop, 1⟩)) ∧
  ∃ m, run unfinished ⟨.fail, 1⟩ 2 (.initial []) = some (m, some ⟨.stepLimit, 1⟩) ∧
    m.steps = 1
  := by
  have counted : tally unfinished ⟨.fail, 0⟩ 3 (.initial []) = some 2 := rfl
  have ended : run unfinished ⟨.fail, 0⟩ 3 (.initial []) =
      some (⟨_, 2, [1], 2⟩, some ⟨.unclosedLoop, 1⟩) := rfl
  use counted
  constructor
  · have two : (2 : UInt64) ≠ 0 := by decide
    obtain ⟨ending, free, cut⟩ :=
      (run_of_limit unfinished .fail [] two).1 3 2 counted (Nat.le_refl 2)
    rw [ended] at free
    cases free
    exact ⟨_, cut⟩
  · have one : (1 : UInt64) ≠ 0 := by decide
    have more : ∀ fuel k, tally unfinished ⟨.fail, 0⟩ fuel (.initial []) = some k → 1 < k := by
      intro fuel k counted'
      rw [tally_unique counted' counted]
      decide
    obtain ⟨m, advanced, steps, cut⟩ := (run_of_limit unfinished .fail [] one).2 more
    have reached : advance? unfinished ⟨.fail, 0⟩ 1 (.initial []) = some ⟨_, 1, [], 1⟩ := rfl
    rw [show (1 : UInt64).toNat = 1 from rfl, reached] at advanced
    cases advanced
    exact ⟨_, cut, steps⟩

end Machine

end ByteTape
