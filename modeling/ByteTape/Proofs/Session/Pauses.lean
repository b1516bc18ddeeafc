import ByteTape.Proofs.Session.Commands
import ByteTape.Proofs.StepLimit
import Mathlib.Logic.Function.Iterate

/-!
# Sessions that only pause

The user of a session may let a program run for a while, stop it by a step limit, step it by
hand, change the limit and let it run on.  As long as only step limits have stopped it, this
makes no difference: the machine is where a run without a limit would be after as many
instructions (`Follows.performAll`).  A step that is refused has no effect that could show later.

Each run that comes to the end of the program hands over the output, while the run without a limit
does so only once.  Nothing else happens once the program has halted (`performAll_of_halted`), so
that is the only difference there can be.
-/

namespace ByteTape

/-- A command that makes steps or sets how many may be made. -/
inductive Command.Paces : Command → Prop where
  | step : Paces .step
  | run : Paces .run
  | limit (maxSteps : Option UInt64) : Paces (.configure none maxSteps)

/-- How many instructions a command executes. -/
def Command.executed (fuel : Nat) (session : Session) : Command → Nat
  | step => session.machine.executed session.program session.options
  | run => (Machine.tally session.program session.options fuel session.machine).getD 0
  | _ => 0

/-- How many instructions commands execute that are carried out one after the other. -/
def Session.executed (fuel : Nat) : List Command → Session → Nat
  | [], _ => 0
  | command :: rest, session =>
    command.executed fuel session +
      match perform fuel command session with
      | some (next, _) => executed fuel rest next
      | none => 0

namespace Machine

variable {program : Program} {options : Options} {m m' : Machine} {fault : Fault} {n : Nat}

/-! ### Programs that have halted -/

/-- The machine is past the program and no loop is being run. -/
structure Halted (program : Program) (m : Machine) : Prop where
  past : program.size ≤ m.position
  closed : m.loops = []

instance (program : Program) (m : Machine) : Decidable (Halted program m) :=
  decidable_of_iff (program.size ≤ m.position ∧ m.loops = [])
    ⟨fun ⟨past, closed⟩ => ⟨past, closed⟩, fun halted => ⟨halted.past, halted.closed⟩⟩

theorem Halted.stops (halted : Halted program m) (options : Options) :
  Stops program options m m.flush none
  := .halted (.halted halted.past halted.closed)

theorem halted_of_transition (step : m.Transition program options m' .halted) :
  Halted program m
  := by
  cases step with
  | halted past closed => exact ⟨past, closed⟩

theorem Halted.flush_iterate (halted : Halted program m) (n : Nat) :
  Halted program (flush^[n] m)
  := by
  induction n with
  | zero => apply halted
  | succ n ih =>
    rw [Function.iterate_succ_apply']
    exact ⟨ih.past, ih.closed⟩

/-! ### Steps that a limit refuses -/

/-- A step that fails for the step limit leaves the machine as it is. -/
theorem Transition.refused_of_stepLimit (step : m.Transition program options m' (.failed fault))
    (limited : fault.kind = .stepLimit) :
  m' = m ∧ options.exhausted m.steps = true
  := by
  cases step with
  | leftOpen past still => cases limited
  | refused inside exhausted => use rfl, exhausted
  | stopped here granted effect =>
    obtain ⟨-, rfl⟩ | ⟨-, rfl⟩ := Store.kind_of_perform effect
    · cases limited
    · cases limited
  | unended here granted zero missing => cases limited
  | unbegun here granted closed => cases limited

/-- Running steps are made without a limit too. -/
theorem advance?_unlimited (advanced : advance? program options n m = some m') :
  advance? program ⟨options.eof, 0⟩ n m = some m'
  := by
  apply advance?_of_granted advanced
  · rfl
  · intro k before m₁ reached executes
    apply Options.exhausted_unlimited

end Machine

namespace Session

open Machine (advance? flush Halted)

variable {program : Program} {eof : EofPolicy} {m : Machine} {n fuel : Nat} {command : Command}
  {commands : List Command} {session session' : Session} {reply : Reply} {replies : List Reply}

/-! ### Programs that have halted -/

/-- Once the program has halted no command executes an instruction. -/
theorem executed_of_halted (halted : Halted session.program session.machine) (fuel : Nat)
    (command : Command) :
  command.executed fuel session = 0
  := by
  have idle : session.machine.executed session.program session.options = 0 :=
    Machine.executed_of_size_le halted.past
  cases command with
  | step => apply idle
  | run =>
    cases fuel with
    | zero => rfl
    | succ fuel =>
      rw [Command.executed, (halted.stops session.options).tally_succ, idle]
      rfl
  | configure eof maxSteps => rfl
  | feed clear bytes => rfl
  | patch patch => rfl

/-- Once the program has halted a command that paces the machine does nothing but, if it is to
run, hand over the output. -/
theorem perform_of_halted (halted : Halted program m) (paces : command.Paces) (options : Options)
    (fuel : Nat) :
  ∃ options' reply, options'.eof = options.eof ∧ reply.fault? = none ∧
    perform (fuel + 1) command ⟨program, options, m⟩
      = some (⟨program, options', flush^[if reply.completes then 1 else 0] m⟩, reply)
  := by
  cases paces with
  | step =>
    use options, .stepped .halted, rfl, rfl
    rw [perform, Machine.step_of_halted options halted.past halted.closed]
    rfl
  | run =>
    use options, .ended none, rfl, rfl
    rw [perform, (halted.stops options).run_succ]
    rfl
  | limit maxSteps => exact ⟨⟨options.eof, maxSteps.getD options.maxSteps⟩, .done, rfl, rfl, rfl⟩

/-- Once the program has halted, commands that only pace the machine are carried out without a
fault and do nothing but hand over the output, once for each run. -/
theorem performAll_of_halted (halted : Halted program m)
    (paces : ∀ command ∈ commands, command.Paces) (options : Options) (fuel : Nat) :
  ∃ options' replies, (∀ reply ∈ replies, reply.fault? = none) ∧
    Session.performAll (fuel + 1) commands ⟨program, options, m⟩
      = some (⟨program, options', flush^[replies.countP Reply.completes] m⟩, replies)
  := by
  induction commands generalizing m options with
  | nil =>
    use options, []
    simp [Session.performAll]
  | cons command commands ih =>
    obtain ⟨between, reply, -, silent, performed⟩ :=
      perform_of_halted halted (paces command List.mem_cons_self) options fuel
    obtain ⟨options', replies, silent', following⟩ := ih (halted.flush_iterate _)
      (fun command later => paces command (List.mem_cons_of_mem _ later)) between
    use options', reply :: replies
    constructor
    · simpa [silent] using silent'
    · apply performAll_cons_iff.mpr
      rw [List.countP_cons, Function.iterate_add_apply]
      exact ⟨_, reply, replies, performed, following, rfl⟩

/-! ### Following a run without a limit -/

/-- The machine of a session is `m`, except that the output was handed over `n` more times, for
which the program must have halted. -/
structure Follows (program : Program) (eof : EofPolicy) (m : Machine) (n : Nat)
    (session : Session) : Prop where
  program_eq : session.program = program
  eof_eq : session.options.eof = eof
  machine_eq : session.machine = flush^[n] m
  halted : n ≠ 0 → Halted program m

/-- Every session follows its own machine. -/
theorem follows_self (session : Session) (none : n = 0) :
  Follows session.program session.options.eof session.machine n session
  := by
  subst none
  exact ⟨rfl, rfl, rfl, fun flushed => absurd rfl flushed⟩

/-- A command in a session whose program has halted. -/
theorem Follows.perform_of_halted (follows : Follows program eof m n session)
    (halted : Halted program m) (paces : command.Paces)
    (performed : perform fuel command session = some (session', reply)) :
  Follows program eof m (n + if reply.completes then 1 else 0) session'
  := by
  obtain ⟨program, options, machine⟩ := session
  obtain ⟨rfl, rfl, rfl, -⟩ := follows
  obtain ⟨options', reply', same, -, performed'⟩ :=
    Session.perform_of_halted (halted.flush_iterate n) paces options fuel
  have performed := perform_mono (Nat.le_succ fuel) performed
  rw [performed'] at performed
  cases performed
  refine ⟨rfl, same, ?_, fun _ => halted⟩
  rw [Nat.add_comm, Function.iterate_add_apply]

/-- A command in a session whose program has not halted does what the run without a limit would
do next. -/
theorem Follows.perform_of_not_halted (follows : Follows program eof m n session)
    (going : ¬ Halted program m) (paces : command.Paces)
    (performed : perform fuel command session = some (session', reply))
    (pausing : ∀ fault, reply.fault? = some fault → fault.kind = .stepLimit) :
  ∃ m', advance? program ⟨eof, 0⟩ (command.executed fuel session) m = some m' ∧
    Follows program eof m' (n + if reply.completes then 1 else 0) session'
  := by
  obtain ⟨rfl, rfl, same, halted⟩ := follows
  obtain rfl : n = 0 := by
    apply Decidable.byContradiction
    intro flushed
    apply going (halted flushed)
  obtain rfl : session.machine = m := same
  cases paces with
  | step =>
    obtain ⟨m', outcome, step, rfl, rfl⟩ := perform_step_iff.mp performed
    cases outcome with
    | running =>
      use m'
      constructor
      · rw [Command.executed, step.executed_eq_one]
        apply Machine.advance?_unlimited (step.advance?_succ 0)
      · apply follows_self { session with machine := m' } rfl
    | halted => apply absurd (Machine.halted_of_transition step) going
    | failed fault =>
      obtain ⟨rfl, exhausted⟩ := step.refused_of_stepLimit (pausing fault rfl)
      use session.machine
      constructor
      · rw [Command.executed, Machine.executed_of_exhausted exhausted]
        rfl
      · apply follows_self session rfl
  | run =>
    obtain ⟨m', fault, ended, rfl, rfl⟩ := perform_run_iff.mp performed
    obtain ⟨k, before, m₁, advanced, stops⟩ := Machine.run_eq_some_iff.mp ended
    have counted := Machine.tally_of_stops advanced stops before
    use m₁
    cases stops with
    | halted step =>
      have halted := Machine.halted_of_transition step
      rw [Machine.executed_of_size_le halted.past] at counted
      constructor
      · rw [Command.executed, counted]
        apply Machine.advance?_unlimited advanced
      · exact ⟨rfl, rfl, rfl, fun _ => halted⟩
    | failed step =>
      obtain ⟨rfl, exhausted⟩ := step.refused_of_stepLimit (pausing _ rfl)
      rw [Machine.executed_of_exhausted exhausted] at counted
      constructor
      · rw [Command.executed, counted]
        apply Machine.advance?_unlimited advanced
      · apply follows_self { session with machine := m' } rfl
  | limit maxSteps =>
    cases performed
    use session.machine, rfl
    apply follows_self
      { session with options := ⟨session.options.eof, maxSteps.getD session.options.maxSteps⟩ } rfl

/-- A command that only paces the machine, and is stopped by nothing but the step limit, does
what the run without a limit would do next. -/
theorem Follows.perform (follows : Follows program eof m n session) (paces : command.Paces)
    (performed : perform fuel command session = some (session', reply))
    (pausing : ∀ fault, reply.fault? = some fault → fault.kind = .stepLimit) :
  ∃ m', advance? program ⟨eof, 0⟩ (command.executed fuel session) m = some m' ∧
    Follows program eof m' (n + if reply.completes then 1 else 0) session'
  := by
  by_cases halted : Halted program m
  · have still : Halted session.program session.machine := by
      rw [follows.program_eq, follows.machine_eq]
      apply halted.flush_iterate
    use m
    rw [executed_of_halted still]
    exact ⟨rfl, follows.perform_of_halted halted paces performed⟩
  · apply follows.perform_of_not_halted halted paces performed pausing

/-- Commands that only pace the machine, and are stopped by nothing but the step limit, do what
the run without a limit would do next. -/
theorem Follows.performAll (follows : Follows program eof m n session)
    (paces : ∀ command ∈ commands, command.Paces)
    (carriedOut : performAll fuel commands session = some (session', replies))
    (pausing : ∀ reply ∈ replies, ∀ fault, reply.fault? = some fault → fault.kind = .stepLimit) :
  ∃ m', advance? program ⟨eof, 0⟩ (executed fuel commands session) m = some m' ∧
    Follows program eof m' (n + replies.countP Reply.completes) session'
  := by
  induction commands generalizing session m n replies with
  | nil =>
    cases carriedOut
    use m, rfl
    apply follows
  | cons command commands ih =>
    obtain ⟨next, reply, rest, performed, following, rfl⟩ := performAll_cons_iff.mp carriedOut
    obtain ⟨m₁, advanced, first⟩ := follows.perform (paces command List.mem_cons_self) performed
      (pausing reply List.mem_cons_self)
    obtain ⟨m₂, advanced', others⟩ := ih first
      (fun command later => paces command (List.mem_cons_of_mem _ later)) following
      (fun reply later => pausing reply (List.mem_cons_of_mem _ later))
    use m₂
    constructor
    · simp only [executed, performed, Machine.advance?_add advanced, advanced']
    · rw [List.countP_cons, Nat.add_comm (rest.countP _), ← Nat.add_assoc]
      apply others

/-! ### Going on after a pause -/

/-- A run that was stopped by a step limit goes on, without a limit or with one that is no lower,
as it would have gone on under that limit from the beginning. -/
theorem exists_run_iff_of_stepLimit {limit limit' : UInt64} {input : List UInt8}
    {position : Nat} (stopped : Machine.run program ⟨eof, limit⟩ fuel (.initial input)
      = some (m, some ⟨.stepLimit, position⟩))
    (higher : limit' = 0 ∨ limit ≤ limit') (ending : Machine × Option Fault) :
  (∃ fuel, Machine.run program ⟨eof, limit'⟩ fuel m = some ending) ↔
    ∃ fuel, Machine.run program ⟨eof, limit'⟩ fuel (.initial input) = some ending
  := by
  obtain ⟨n, -, m₁, advanced, stops⟩ := Machine.run_eq_some_iff.mp stopped
  cases stops with
  | failed step =>
    obtain ⟨rfl, exhausted⟩ := step.refused_of_stepLimit rfl
    have limited : limit ≠ 0 := by
      rintro rfl
      simp at exhausted
    have again : advance? program ⟨eof, limit'⟩ n (.initial input) = some m := by
      apply Machine.advance?_of_granted advanced
      · rfl
      · intro k before m₁ reached executes
        apply Machine.exhausted_of_le limited higher executes.2
    constructor
    · rintro ⟨fuel, ended⟩
      use n + fuel
      rw [Machine.run_add again, ended]
    · rintro ⟨fuel, ended⟩
      use fuel
      rw [← Machine.run_add again]
      apply Machine.run_mono (Nat.le_add_left fuel n) ended

/-- Setting the step limit and running is running under that limit. -/
theorem performAll_configure_run_iff {limit : UInt64} {fault : Option Fault} :
  performAll fuel [.configure none (some limit), .run] session
      = some (session', [.done, .ended fault]) ↔
    perform fuel .run { session with options := ⟨session.options.eof, limit⟩ }
      = some (session', .ended fault)
  := by
  constructor
  · intro carriedOut
    obtain ⟨next, reply, rest, configured, following, same⟩ := performAll_cons_iff.mp carriedOut
    cases configured
    obtain ⟨next, reply, rest, ran, nothing, same'⟩ := performAll_cons_iff.mp following
    cases same
    cases nothing
    cases same'
    apply ran
  · intro ran
    apply performAll_cons_iff.mpr
    use { session with options := ⟨session.options.eof, limit⟩ }, .done, [.ended fault], rfl
    use performAll_cons_iff.mpr ⟨_, _, [], ran, rfl, rfl⟩

/-- Pauses go unnoticed.  Let a session consist of steps, runs and changes of the step limit, and
let nothing but step limits have stopped it so far.  Then its machine is the one that a run
without a limit leads to after as many instructions, except that its output has been handed over
once for each run that came to the end of the program.

So if a step limit stops a run, and the user takes the limit away or sets one that is no lower and
runs the program again, then this second run ends exactly if a run under the new limit from the
beginning does, and leaves the same session.  And once the program has halted, with no loop being
run, such commands are all carried out without a fault, and only hand over the output. -/
theorem machine_of_pauses (program : Program) (eof : EofPolicy) (input : List UInt8) :
  (∀ limit fuel commands session replies, (∀ command ∈ commands, command.Paces) →
    performAll fuel commands (.start program ⟨eof, limit⟩ input) = some (session, replies) →
    (∀ reply ∈ replies, ∀ fault, reply.fault? = some fault → fault.kind = .stepLimit) →
    ∃ m, advance? program ⟨eof, 0⟩ (executed fuel commands (.start program ⟨eof, limit⟩ input))
        (.initial input) = some m ∧
      session.machine = flush^[replies.countP Reply.completes] m) ∧
  (∀ limit limit' fuel paused position, limit' = 0 ∨ limit ≤ limit' →
    perform fuel .run (.start program ⟨eof, limit⟩ input)
      = some (paused, .ended (some ⟨.stepLimit, position⟩)) →
    ∀ session fault,
      (∃ fuel, performAll fuel [.configure none (some limit'), .run] paused
        = some (session, [.done, .ended fault])) ↔
      ∃ fuel, perform fuel .run (.start program ⟨eof, limit'⟩ input)
        = some (session, .ended fault)) ∧
  ∀ (options : Options) m commands fuel, Halted program m →
    (∀ command ∈ commands, command.Paces) →
    ∃ options' replies, (∀ reply ∈ replies, reply.fault? = none) ∧
      performAll (fuel + 1) commands ⟨program, options, m⟩
        = some (⟨program, options', flush^[replies.countP Reply.completes] m⟩, replies)
  := by
  and_intros
  · intro limit fuel commands session replies paces carriedOut pausing
    have beginning : Follows program eof (.initial input) 0 (.start program ⟨eof, limit⟩ input) :=
      follows_self (.start program ⟨eof, limit⟩ input) rfl
    obtain ⟨m, advanced, follows⟩ := beginning.performAll paces carriedOut pausing
    use m, advanced
    rw [follows.machine_eq, Nat.zero_add]
  · intro limit limit' fuel paused position higher stopped session fault
    obtain ⟨m, fault', stopped, rfl, same⟩ := perform_run_iff.mp stopped
    cases same
    have resumed ending := exists_run_iff_of_stepLimit stopped higher ending
    simp only [performAll_configure_run_iff, perform_run_iff]
    constructor
    · rintro ⟨fuel, m', fault, ended, rest⟩
      obtain ⟨fuel, ended⟩ := (resumed (m', fault)).mp ⟨fuel, ended⟩
      exact ⟨fuel, m', fault, ended, rest⟩
    · rintro ⟨fuel, m', fault, ended, rest⟩
      obtain ⟨fuel, ended⟩ := (resumed (m', fault)).mpr ⟨fuel, ended⟩
      exact ⟨fuel, m', fault, ended, rest⟩
  · intro options m commands fuel halted paces
    apply performAll_of_halted halted paces

/-- The program `++[-]`, which runs its loop for two rounds. -/
def twoRounds : Program :=
  #[.act .increment, .act .increment, .loopStart, .act .decrement, .loopEnd]

/-- The user who lets five steps be made stops the program between the end of the first round and
the test of the cell.  Without the limit the program goes on to its end in three more steps, where
a run from the beginning ends too, and nothing but the account of flushes changes when it is run
once more. -/
theorem machine_of_pauses_twoRounds :
  ∃ m, advance? twoRounds ⟨.fail, 0⟩ 8 (.initial []) = some m ∧
    performAll 9 [.run, .configure none (some 0), .run] (.start twoRounds ⟨.fail, 5⟩ [])
      = some (⟨twoRounds, ⟨.fail, 0⟩, flush m⟩,
        [.ended (some ⟨.stepLimit, 2⟩), .done, .ended none]) ∧
    (∃ fuel, perform fuel .run (.start twoRounds ⟨.fail, 0⟩ [])
      = some (⟨twoRounds, ⟨.fail, 0⟩, flush m⟩, .ended none)) ∧
    ∃ options' replies, performAll 9 [.step, .run] ⟨twoRounds, ⟨.fail, 0⟩, flush m⟩
      = some (⟨twoRounds, options', flush^[replies.countP Reply.completes] (flush m)⟩, replies)
  := by
  obtain ⟨pauses, resumes, halts⟩ := machine_of_pauses twoRounds .fail []
  have stopped : perform 9 .run (.start twoRounds ⟨.fail, 5⟩ [])
      = some (⟨twoRounds, ⟨.fail, 5⟩, ⟨_, 2, [2], 5⟩⟩, .ended (some ⟨.stepLimit, 2⟩)) := rfl
  have carriedOut : performAll 9 [.run, .configure none (some 0), .run]
      (.start twoRounds ⟨.fail, 5⟩ []) = some (⟨twoRounds, ⟨.fail, 0⟩, ⟨_, 5, [], 8⟩⟩,
        [.ended (some ⟨.stepLimit, 2⟩), .done, .ended none]) := rfl
  obtain ⟨m, advanced, same⟩ := pauses 5 9 _ _ _
    (by simp [Command.Paces.run, Command.Paces.limit]) carriedOut (by simp [Reply.fault?])
  have same : ⟨_, 5, [], 8⟩ = flush m := same
  have halted : Halted twoRounds (flush m) := by
    rw [← same]
    exact ⟨by decide, rfl⟩
  have resumed := (resumes 5 0 9 _ 2 (.inl rfl) stopped ⟨twoRounds, ⟨.fail, 0⟩, flush m⟩ none).mp
    ⟨9, by rw [← same]; rfl⟩
  obtain ⟨options', replies, -, idle⟩ := halts ⟨.fail, 0⟩ _ [.step, .run] 8 halted
    (by simp [Command.Paces.step, Command.Paces.run])
  rw [same] at carriedOut
  exact ⟨m, advanced, carriedOut, resumed, options', replies, idle⟩

end Session

end ByteTape
