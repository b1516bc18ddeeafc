import ByteTape.Proofs.Session.Readings
import ByteTape.Proofs.Trace

/-!
# When a session hands over its output

The output of a session is an account of what the session did that the outside can see
(`output_of_performAll`).  It has been handed over once for each read, whatever that found, and once
for each run that came to the end of the program, and neither faults nor pauses nor changes of the
state make a difference.  Whenever a byte is asked for, all that was written before has been handed
over (`prompt_events`).
-/

namespace ByteTape

namespace Command

/-- What a command does that the outside can see. -/
def events (fuel : Nat) (session : Session) : Command → List Event
  | step => session.machine.events session.program session.options
  | run => Machine.eventsOfRun session.program session.options fuel session.machine
  | _ => []

end Command

namespace Session

/-- What commands do that the outside can see, when they are carried out one after the other. -/
def events (fuel : Nat) : List Command → Session → List Event
  | [], _ => []
  | command :: rest, session =>
    command.events fuel session ++
      match perform fuel command session with
      | some (next, _) => events fuel rest next
      | none => []

variable {fuel : Nat} {command : Command} {commands : List Command} {session session' : Session}
  {reply : Reply} {replies : List Reply}

/-! ### One command -/

/-- A byte is asked for by what a command reads, and by nothing else. -/
theorem found_events_command (fuel : Nat) (command : Command) (session : Session) :
  (command.events fuel session).filterMap Event.found? = command.readings fuel session
  := by
  cases command with
  | step => apply Machine.found_events
  | run => apply Machine.found_eventsOfRun
  | configure eof maxSteps => rfl
  | feed clear bytes => rfl
  | patch patch => rfl

theorem prompt_events_command (fuel : Nat) (command : Command) (session : Session) :
  Prompt (command.events fuel session)
  := by
  cases command with
  | step => apply Machine.prompt_events
  | run => apply Machine.prompt_eventsOfRun
  | configure eof maxSteps => apply prompt_of_silent rfl
  | feed clear bytes => apply prompt_of_silent rfl
  | patch patch => apply prompt_of_silent rfl

/-- A command leaves an account of its events.  It hands over the output for each of its reads, and
once more if it runs the program to its end. -/
theorem output_perform (performed : perform fuel command session = some (session', reply)) :
  session'.machine.store.output =
      session.machine.store.output.after (command.events fuel session) ∧
    (command.events fuel session).count .flushed =
      (command.readings fuel session).length + if reply.completes then 1 else 0
  := by
  cases command with
  | step =>
    obtain ⟨m, outcome, step, rfl, rfl⟩ := perform_step_iff.mp performed
    have output := Machine.output_step session.program session.options session.machine
    rw [step.step_eq] at output
    use output
    apply Machine.count_flushed_events
  | run =>
    obtain ⟨m, fault, ended, rfl, rfl⟩ := perform_run_iff.mp performed
    obtain ⟨output, flushes⟩ := Machine.output_run ended
    use output
    cases fault with
    | none => apply flushes
    | some fault => apply flushes
  | configure eof maxSteps => cases performed; exact ⟨rfl, rfl⟩
  | feed clear bytes =>
    cases performed
    cases clear with
    | false => exact ⟨rfl, rfl⟩
    | true => exact ⟨rfl, rfl⟩
  | patch patch => cases performed; exact ⟨rfl, rfl⟩

/-! ### All commands -/

/-- A byte is asked for by what a session reads, and by nothing else. -/
theorem found_events (fuel : Nat) (commands : List Command) (session : Session) :
  (events fuel commands session).filterMap Event.found? = readings fuel commands session
  := by
  induction commands generalizing session with
  | nil => rfl
  | cons command commands ih =>
    rw [events, readings, List.filterMap_append, found_events_command]
    congr 1
    cases perform fuel command session with
    | none => rfl
    | some result => apply ih

theorem prompt_events (fuel : Nat) (commands : List Command) (session : Session) :
  Prompt (events fuel commands session)
  := by
  induction commands generalizing session with
  | nil => apply prompt_of_silent rfl
  | cons command commands ih =>
    apply (prompt_events_command fuel command session).append
    split
    · apply ih
    · apply prompt_of_silent rfl

/-- A session leaves an account of its events.  It hands over the output for each of its reads, and
once for each run that comes to the end of the program. -/
theorem output_of_performAll
    (carriedOut : performAll fuel commands session = some (session', replies)) :
  session'.machine.store.output =
      session.machine.store.output.after (events fuel commands session) ∧
    (events fuel commands session).count .flushed =
      (readings fuel commands session).length + replies.countP Reply.completes
  := by
  induction commands generalizing session replies with
  | nil =>
    cases carriedOut
    exact ⟨rfl, rfl⟩
  | cons command commands ih =>
    obtain ⟨next, reply, rest, performed, following, rfl⟩ := performAll_cons_iff.mp carriedOut
    obtain ⟨output, flushes⟩ := output_perform performed
    obtain ⟨output', flushes'⟩ := ih following
    simp only [events, readings, performed]
    constructor
    · rw [Output.after_append, ← output, output']
    · rw [List.count_append, List.length_append, List.countP_cons, flushes, flushes']
      omega

/-- Output is handed over in time and not more often than needed.  In every session that begins with
a program, the number of flushes is the number of executed reads, of which each step makes one or
none, and of runs that came to the end of the program.  At every read, also in the midst of a run
that never ends, all that was written before has been handed over. -/
theorem flushes_of_performAll (program : Program) (options : Options) (input : List UInt8) :
  (∀ fuel commands session replies,
    performAll fuel commands (.start program options input) = some (session, replies) →
    session.machine.store.output =
      Output.empty.after (events fuel commands (.start program options input)) ∧
    session.machine.store.output.flushes =
      (readings fuel commands (.start program options input)).length +
        replies.countP Reply.completes) ∧
  (∀ session : Session,
    (session.machine.readings session.program session.options).length =
      if session.machine.Reads session.program session.options then 1 else 0) ∧
  ∀ fuel commands,
    (events fuel commands (.start program options input)).filterMap Event.found? =
      readings fuel commands (.start program options input) ∧
    Prompt (events fuel commands (.start program options input))
  := by
  and_intros
  · intro fuel commands session replies carriedOut
    obtain ⟨output, flushes⟩ := output_of_performAll carriedOut
    use output
    rw [output, Output.flushes_after, flushes]
    apply Nat.zero_add
  · intro session
    split
    · rename_i reads
      rw [Machine.readings_of_reads reads]
      rfl
    · rename_i idle
      rw [Machine.readings_of_not_reads idle]
      rfl
  · intro fuel commands
    exact ⟨found_events fuel commands _, prompt_events fuel commands _⟩

/-- The program `.,`, which writes a byte before it asks for one. -/
def prompts : Program :=
  #[.act .write, .act .read]

/-- Commands that run a program twice, the second time behind a fault, and then once more from its
beginning with a byte to read. -/
def threeRuns : List Command :=
  [.run, .run, .patch ⟨none, none, some 0, none, none⟩, .feed true [7], .run]

/-- Two bytes are asked for, the first one in vain, which is a fault.  Two runs come to the end of
the program, the first one right behind that fault.  So the output has been handed over four times,
and each byte was handed over before another one was asked for. -/
theorem flushes_of_performAll_prompts :
  (∃ session, performAll 3 threeRuns (.start prompts {} []) = some (session,
      [.ended (some ⟨.endOfInput, 1⟩), .ended none, .done, .done, .ended none]) ∧
    session.machine.store.output.flushes = 4) ∧
  Prompt [.written 0, .flushed, .asked none, .flushed,
    .written 0, .flushed, .asked (some 7), .flushed]
  := by
  obtain ⟨account, -, trace⟩ := flushes_of_performAll prompts {} []
  constructor
  · have carriedOut : performAll 3 threeRuns (.start prompts {} []) =
        some (⟨prompts, {}, ⟨_, 2, [], 4⟩⟩,
          [.ended (some ⟨.endOfInput, 1⟩), .ended none, .done, .done, .ended none]) := rfl
    have found : readings 3 threeRuns (.start prompts {} []) = [none, some 7] := by decide
    obtain ⟨-, flushes⟩ := account 3 threeRuns _ _ carriedOut
    rw [found] at flushes
    exact ⟨_, carriedOut, flushes⟩
  · have seen : events 3 threeRuns (.start prompts {} []) = [.written 0, .flushed, .asked none,
        .flushed, .written 0, .flushed, .asked (some 7), .flushed] := by decide
    rw [← seen]
    apply (trace 3 threeRuns).2

end Session

end ByteTape
