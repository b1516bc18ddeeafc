import ByteTape.Session
import ByteTape.Proofs.Progress

/-!
# Carrying out commands

A session goes through its commands one by one, so what each of them keeps holds at the end, and
what each of them makes sure of its reply is true of all replies (`of_performAll`).
`Reply.fault?` is the fault that a reply reports, whether it is about a step or about a run, and
`Reply.completes` says whether it tells of a run that came to the end of the program.
-/

namespace ByteTape

/-- The fault that a reply reports. -/
def Reply.fault? : Reply → Option Fault
  | stepped (.failed fault) => some fault
  | ended fault => fault
  | _ => none

/-- Whether a reply tells of a run that came to the end of the program. -/
def Reply.completes : Reply → Bool
  | ended none => true
  | _ => false

namespace Session

variable {fuel : Nat} {command : Command} {commands : List Command} {session session' : Session}
  {reply : Reply} {replies : List Reply}

/-! ### One command -/

/-- A command to step makes one step. -/
theorem perform_step_iff :
  perform fuel .step session = some (session', reply) ↔
    ∃ m outcome, session.machine.Transition session.program session.options m outcome ∧
      session' = { session with machine := m } ∧ reply = .stepped outcome
  := by
  constructor
  · intro performed
    cases performed
    exact ⟨_, _, Machine.transition_of_step rfl, rfl, rfl⟩
  · rintro ⟨m, outcome, step, rfl, rfl⟩
    rw [perform, step.step_eq]

/-- A command to run is carried out if the run ends. -/
theorem perform_run_iff :
  perform fuel .run session = some (session', reply) ↔
    ∃ m fault, Machine.run session.program session.options fuel session.machine = some (m, fault) ∧
      session' = { session with machine := m } ∧ reply = .ended fault
  := by
  rw [perform]
  constructor
  · intro performed
    split at performed
    · rename_i m fault ended
      cases performed
      exact ⟨m, fault, ended, rfl, rfl⟩
    · cases performed
  · rintro ⟨m, fault, ended, rfl, rfl⟩
    rw [ended]

/-- More fuel does not change what a command does. -/
theorem perform_mono {fuel' : Nat} (more : fuel ≤ fuel')
    (performed : perform fuel command session = some (session', reply)) :
  perform fuel' command session = some (session', reply)
  := by
  cases command with
  | run =>
    obtain ⟨m, fault, ended, rest⟩ := perform_run_iff.mp performed
    apply perform_run_iff.mpr
    use m, fault, Machine.run_mono more ended
  | step => apply performed
  | configure eof maxSteps => apply performed
  | feed clear bytes => apply performed
  | patch patch => apply performed

/-! ### All commands -/

/-- The first command is carried out before the rest. -/
theorem performAll_cons_iff :
  performAll fuel (command :: commands) session = some (session', replies) ↔
    ∃ next reply rest, perform fuel command session = some (next, reply) ∧
      performAll fuel commands next = some (session', rest) ∧ replies = reply :: rest
  := by
  rw [performAll]
  constructor
  · intro carriedOut
    split at carriedOut
    · rename_i next reply performed
      obtain ⟨⟨last, rest⟩, following, same⟩ := Option.map_eq_some_iff.mp carriedOut
      cases same
      exact ⟨next, reply, rest, performed, following, rfl⟩
    · cases carriedOut
  · rintro ⟨next, reply, rest, performed, following, rfl⟩
    simp only [performed, following]
    rfl

/-- What every command keeps, and makes sure of its reply, holds of all of them. -/
theorem of_performAll {P : Session → Prop} {Q : Reply → Prop}
    (each : ∀ command ∈ commands, ∀ {session session' reply}, P session →
      perform fuel command session = some (session', reply) → P session' ∧ Q reply)
    (start : P session) (carriedOut : performAll fuel commands session = some (session', replies)) :
  P session' ∧ ∀ reply ∈ replies, Q reply
  := by
  induction commands generalizing session replies with
  | nil =>
    cases carriedOut
    constructor
    · apply start
    · simp
  | cons command commands ih =>
    obtain ⟨next, reply, rest, performed, following, rfl⟩ := performAll_cons_iff.mp carriedOut
    obtain ⟨kept, first⟩ := each command List.mem_cons_self start performed
    obtain ⟨last, all⟩ :=
      ih (fun command later => each command (List.mem_cons_of_mem _ later)) kept following
    use last
    intro reply' among
    obtain rfl | later := List.mem_cons.mp among
    · apply first
    · apply all reply' later

end Session

end ByteTape
