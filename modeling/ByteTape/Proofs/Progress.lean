import ByteTape.Proofs.Transition
import Mathlib.Tactic.Use

/-!
# How far a run gets

A run makes some running steps, one after the other, and then a step that ends it.
`Machine.advance?` makes a given number of running steps, `Machine.Stops` says how a run ends
with the next step, and a run that ends is the one followed by the other
(`run_eq_some_iff`).  Whatever does not end goes on for any number of steps
(`advance?_or_stops`).

`Machine.tally` counts the instructions that a run executes.  Steps which end a run execute an
instruction or none, since the instruction may fail and there may be none to execute.  The
tally is exact, while the count that the machine itself keeps starts again from zero behind the
last 64-bit number (`steps_of_advance?`).
-/

namespace ByteTape

namespace Machine

/-- The machine after `n` steps, each of which executes an instruction that does not fail. -/
def advance? (program : Program) (options : Options) : (n : Nat) → Machine → Option Machine
  | 0, m => some m
  | n + 1, m =>
    match m.step program options with
    | (m, .running) => advance? program options n m
    | _ => none

/-- How many instructions a step executes, one or none. -/
def executed (program : Program) (options : Options) (m : Machine) : Nat :=
  if m.Executes program options then 1 else 0

/-- How many instructions a run executes that ends within `fuel` steps, counting the one that
fails if it ends so. -/
def tally (program : Program) (options : Options) : (fuel : Nat) → Machine → Option Nat
  | 0, _ => none
  | fuel + 1, m =>
    match m.step program options with
    | (m', .running) => (tally program options fuel m').map (m.executed program options + ·)
    | _ => some (m.executed program options)

/-- `Stops program options m m' fault`: the next step from `m` ends a run, which leaves `m'`. -/
inductive Stops (program : Program) (options : Options) (m : Machine) :
    Machine → Option Fault → Prop where
  | halted (step : m.Transition program options m .halted) :
    Stops program options m m.flush none
  | failed {m' : Machine} {fault : Fault}
      (step : m.Transition program options m' (.failed fault)) :
    Stops program options m m' (some fault)

variable {program : Program} {options : Options} {m m₁ m' : Machine} {fault : Option Fault}
  {n k fuel : Nat}

/-! ### Running steps -/

theorem Transition.executes (step : m.Transition program options m' .running) :
  m.Executes program options
  := by
  cases step with
  | performed here granted effect => apply executes_of_getElem? here granted
  | skipped here granted zero found => apply executes_of_getElem? here granted
  | entered here granted nonzero => apply executes_of_getElem? here granted
  | left here granted still zero => apply executes_of_getElem? here granted
  | repeated here granted still nonzero => apply executes_of_getElem? here granted

theorem Transition.executed_eq_one (step : m.Transition program options m' .running) :
  m.executed program options = 1
  := if_pos step.executes

/-- A running step is counted. -/
theorem Transition.steps_eq (step : m.Transition program options m' .running) :
  m'.steps = m.steps + 1
  := by
  cases step with
  | performed => rfl
  | skipped => rfl
  | entered => rfl
  | left => rfl
  | repeated => rfl

theorem executed_le_one (program : Program) (options : Options) (m : Machine) :
  m.executed program options ≤ 1
  := by
  rw [executed]
  split
  · apply Nat.le_refl
  · apply Nat.zero_le

/-- At the end of the program no instruction is executed. -/
theorem executed_of_size_le (past : program.size ≤ m.position) :
  m.executed program options = 0
  := if_neg fun e => Nat.not_lt.mpr past e.1

theorem executed_of_exhausted (exhausted : options.exhausted m.steps = true) :
  m.executed program options = 0
  := if_neg (by simp [Executes, exhausted])

/-- A running step is the first of the steps that are made. -/
theorem Transition.advance?_succ (step : m.Transition program options m₁ .running) (n : Nat) :
  advance? program options (n + 1) m = advance? program options n m₁
  := by
  rw [advance?, step.step_eq]

theorem exists_of_advance?_succ (advanced : advance? program options (n + 1) m = some m') :
  ∃ m₁, m.Transition program options m₁ .running ∧ advance? program options n m₁ = some m'
  := by
  rw [advance?] at advanced
  split at advanced
  · rename_i next stepped
    use next, transition_of_step stepped
  · cases advanced

theorem advance?_add (advanced : advance? program options n m = some m₁) (k : Nat) :
  advance? program options (n + k) m = advance? program options k m₁
  := by
  induction n generalizing m with
  | zero =>
    cases advanced
    rw [Nat.zero_add]
  | succ n ih =>
    obtain ⟨next, step, advanced⟩ := exists_of_advance?_succ advanced
    rw [Nat.add_right_comm, step.advance?_succ, ih advanced]

/-- What every running step keeps holds after any number of them. -/
theorem of_advance? {P : Machine → Prop}
    (running : ∀ {m m'}, P m → m.Transition program options m' .running → P m')
    (start : P m) (advanced : advance? program options n m = some m') :
  P m'
  := by
  induction n generalizing m with
  | zero =>
    cases advanced
    apply start
  | succ n ih =>
    obtain ⟨next, step, advanced⟩ := exists_of_advance?_succ advanced
    apply ih (running start step) advanced

/-- The count of steps grows by the number of running steps, modulo the 64-bit numbers. -/
theorem steps_of_advance? (advanced : advance? program options n m = some m') :
  m'.steps = m.steps + UInt64.ofNat n
  := by
  induction n generalizing m with
  | zero =>
    cases advanced
    apply (UInt64.add_zero _).symm
  | succ n ih =>
    obtain ⟨next, step, advanced⟩ := exists_of_advance?_succ advanced
    rw [ih advanced, step.steps_eq, UInt64.add_assoc, Nat.add_comm, UInt64.ofNat_add]
    rfl

/-! ### The end of a run -/

theorem Stops.run_succ (stops : Stops program options m m' fault) (fuel : Nat) :
  run program options (fuel + 1) m = some (m', fault)
  := by
  cases stops with
  | halted step => rw [run, step.step_eq]
  | failed step => rw [run, step.step_eq]

theorem Stops.tally_succ (stops : Stops program options m m' fault) (fuel : Nat) :
  tally program options (fuel + 1) m = some (m.executed program options)
  := by
  cases stops with
  | halted step => rw [tally, step.step_eq]
  | failed step => rw [tally, step.step_eq]

/-- A step either is running or ends a run. -/
theorem running_or_stops (program : Program) (options : Options) (m : Machine) :
  (∃ m', m.Transition program options m' .running) ∨ ∃ m' fault, Stops program options m m' fault
  := by
  cases stepped : m.step program options with
  | mk m' outcome =>
    have step := transition_of_step stepped
    cases outcome with
    | running =>
      left
      use m'
    | halted =>
      right
      cases step with
      | halted past closed => exact ⟨_, _, .halted (.halted past closed)⟩
    | failed fault =>
      right
      exact ⟨_, _, .failed step⟩

/-- A run goes on for a number of running steps unless it stops before. -/
theorem advance?_or_stops (program : Program) (options : Options) (m : Machine) (n : Nat) :
  (∃ m', advance? program options n m = some m') ∨
    ∃ k < n, ∃ m₁ m' fault,
      advance? program options k m = some m₁ ∧ Stops program options m₁ m' fault
  := by
  induction n with
  | zero =>
    left
    use m
    rfl
  | succ n ih =>
    obtain ⟨m₁, advanced⟩ | ⟨k, before, stopped⟩ := ih
    · obtain ⟨m', step⟩ | ⟨m', fault, stops⟩ := running_or_stops program options m₁
      · left
        use m'
        rw [advance?_add advanced, step.advance?_succ]
        rfl
      · right
        exact ⟨n, Nat.lt_succ_self n, m₁, m', fault, advanced, stops⟩
    · right
      exact ⟨k, Nat.lt_succ_of_lt before, stopped⟩

/-- A run that has made some running steps goes on from where they led. -/
theorem run_add (advanced : advance? program options n m = some m₁) (fuel : Nat) :
  run program options (n + fuel) m = run program options fuel m₁
  := by
  induction n generalizing m with
  | zero =>
    cases advanced
    rw [Nat.zero_add]
  | succ n ih =>
    obtain ⟨next, step, advanced⟩ := exists_of_advance?_succ advanced
    rw [Nat.add_right_comm, run, step.step_eq]
    apply ih advanced

/-- Running steps execute one instruction each. -/
theorem tally_add (advanced : advance? program options n m = some m₁) (fuel : Nat) :
  tally program options (n + fuel) m = (tally program options fuel m₁).map (n + ·)
  := by
  induction n generalizing m with
  | zero =>
    cases advanced
    simp
  | succ n ih =>
    obtain ⟨next, step, advanced⟩ := exists_of_advance?_succ advanced
    rw [Nat.add_right_comm, tally, step.step_eq]
    simp only [ih advanced, step.executed_eq_one, Option.map_map, Function.comp_def]
    congr 1
    funext k
    omega

/-- A run that ends makes some running steps and then stops. -/
theorem run_eq_some_iff :
  run program options fuel m = some (m', fault) ↔
    ∃ n < fuel, ∃ m₁, advance? program options n m = some m₁ ∧
      Stops program options m₁ m' fault
  := by
  constructor
  · intro ended
    obtain ⟨m₁, advanced⟩ | ⟨n, before, m₁, m₂, fault₂, advanced, stops⟩ :=
      advance?_or_stops program options m fuel
    · have spent := run_add advanced 0
      rw [Nat.add_zero, ended] at spent
      cases spent
    · obtain ⟨left, rfl⟩ := Nat.exists_eq_add_of_lt before
      rw [Nat.add_assoc, run_add advanced, stops.run_succ] at ended
      cases ended
      exact ⟨n, before, m₁, advanced, stops⟩
  · rintro ⟨n, before, m₁, advanced, stops⟩
    obtain ⟨left, rfl⟩ := Nat.exists_eq_add_of_lt before
    rw [Nat.add_assoc, run_add advanced, stops.run_succ]

/-- The tally of a run counts its running steps and the instruction that failed, if any. -/
theorem tally_of_stops (advanced : advance? program options n m = some m₁)
    (stops : Stops program options m₁ m' fault) (before : n < fuel) :
  tally program options fuel m = some (n + m₁.executed program options)
  := by
  obtain ⟨left, rfl⟩ := Nat.exists_eq_add_of_lt before
  rw [Nat.add_assoc, tally_add advanced, stops.tally_succ]
  rfl

/-- There is a tally exactly if the run ends. -/
theorem tally_eq_some_iff :
  tally program options fuel m = some k ↔
    ∃ n < fuel, ∃ m₁ m' fault, advance? program options n m = some m₁ ∧
      Stops program options m₁ m' fault ∧ k = n + m₁.executed program options
  := by
  constructor
  · intro counted
    obtain ⟨m₁, advanced⟩ | ⟨n, before, m₁, m', fault, advanced, stops⟩ :=
      advance?_or_stops program options m fuel
    · have spent := tally_add advanced 0
      rw [Nat.add_zero, counted] at spent
      cases spent
    · rw [tally_of_stops advanced stops before] at counted
      cases counted
      exact ⟨n, before, m₁, m', fault, advanced, stops, rfl⟩
  · rintro ⟨n, before, m₁, m', fault, advanced, stops, rfl⟩
    apply tally_of_stops advanced stops before

/-- More fuel does not change the tally. -/
theorem tally_mono {fuel' : Nat} (more : fuel ≤ fuel')
    (counted : tally program options fuel m = some k) :
  tally program options fuel' m = some k
  := by
  obtain ⟨n, before, ending⟩ := tally_eq_some_iff.mp counted
  apply tally_eq_some_iff.mpr
  use n, Nat.lt_of_lt_of_le before more

/-- A run has one tally at most. -/
theorem tally_unique {fuel' k' : Nat} (counted : tally program options fuel m = some k)
    (counted' : tally program options fuel' m = some k') :
  k = k'
  := by
  apply Option.some.inj
  obtain more | more := Nat.le_total fuel fuel'
  · rw [← tally_mono more counted, counted']
  · rw [← tally_mono more counted', counted]

/-! ### Runs that never end -/

/-- A run that makes some running steps makes any smaller number of them first. -/
theorem exists_advance?_of_le (advanced : advance? program options n m = some m')
    (before : k ≤ n) :
  ∃ m₁, advance? program options k m = some m₁
  := by
  induction k generalizing n m with
  | zero =>
    use m
    rfl
  | succ k ih =>
    obtain ⟨n, rfl⟩ := Nat.exists_eq_add_of_le' (Nat.lt_of_lt_of_le k.succ_pos before)
    obtain ⟨next, step, advanced⟩ := exists_of_advance?_succ advanced
    rw [step.advance?_succ]
    apply ih advanced (Nat.le_of_succ_le_succ before)

/-- A run that makes a number of running steps has not ended by then. -/
theorem run_eq_none_of_advance? (advanced : advance? program options fuel m = some m') :
  run program options fuel m = none
  := by
  have := run_add advanced 0
  apply this

/-- If from each state with some property a run comes to such a state again, by one running step or
more, and all states that it passes on the way have another property, then from such a state it
goes on for ever, and all states that it passes have that other property. -/
theorem exists_advance?_of_recurs {P Q : Machine → Prop}
    (recurs : ∀ {m}, P m → ∃ n m', 0 < n ∧ advance? program options n m = some m' ∧ P m' ∧
      ∀ k < n, ∀ m₁, advance? program options k m = some m₁ → Q m₁)
    (start : P m) (k : Nat) :
  ∃ m₁, advance? program options k m = some m₁ ∧ Q m₁
  := by
  induction k using Nat.strongRecOn generalizing m with
  | ind k ih =>
    obtain ⟨n, m', positive, advanced, again, passed⟩ := recurs start
    obtain before | after := Nat.lt_or_ge k n
    · obtain ⟨m₁, reached⟩ := exists_advance?_of_le advanced (Nat.le_of_lt before)
      use m₁, reached
      apply passed k before m₁ reached
    · obtain ⟨later, rfl⟩ := Nat.exists_eq_add_of_le after
      rw [advance?_add advanced]
      apply ih later (by omega) again

end Machine

end ByteTape
