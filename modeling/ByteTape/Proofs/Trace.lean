import ByteTape.Proofs.Input.Readings

/-!
# What the outside sees of a program

Whoever is in a conversation with a program sees it write bytes, hand over what it has written,
and ask for bytes, in some order.  `Machine.events` lists what the next step does of this, and
`Machine.eventsOfRun` what a run does.  An output keeps an account of these events, which is
`Output.after` (`output_step`, `output_run`).

Events are `Prompt` if a byte is asked for only when nothing that was written is waiting to be
handed over.  Those of steps and runs are, since a read hands over everything before it asks.
-/

namespace ByteTape

/-- What was found, if a byte was asked for. -/
def Event.found? : Event → Option (Option UInt8)
  | asked found => some found
  | _ => none

namespace Output

/-- An output after an event. -/
def note (output : Output) : Event → Output
  | .written byte => output.write byte
  | .flushed => output.flush
  | .asked _ => output

/-- An output after some events. -/
def after (output : Output) (events : List Event) : Output :=
  events.foldl note output

@[simp]
theorem after_nil (output : Output) :
  output.after [] = output
  := rfl

theorem after_append (output : Output) (first others : List Event) :
  output.after (first ++ others) = (output.after first).after others
  := List.foldl_append

/-- The account of flushes is kept. -/
theorem flushes_after (output : Output) (events : List Event) :
  (output.after events).flushes = output.flushes + events.count .flushed
  := by
  induction events generalizing output with
  | nil => rfl
  | cons event rest ih =>
    apply (ih (output.note event)).trans
    cases event with
    | written byte => simp [note]
    | flushed => simp [note, flush, Nat.add_assoc, Nat.add_comm 1]
    | asked found => simp [note]

end Output

/-- Whenever a byte is asked for, nothing is waiting to be handed over, whatever was waiting
before. -/
def Prompt (events : List Event) : Prop :=
  ∀ before found later, events = before ++ .asked found :: later →
    ∀ output : Output, (output.after before).delivered = (output.after before).bytes.size

/-- Where nothing is asked for, there is nothing to hand over before. -/
theorem prompt_of_silent {events : List Event} (silent : events.filterMap Event.found? = []) :
  Prompt events
  := by
  rintro before found later rfl
  simp [Event.found?] at silent

theorem prompt_flushed_asked (found : Option UInt8) :
  Prompt [.flushed, .asked found]
  := by
  intro before found' later split output
  rcases before with _ | ⟨first, _ | ⟨second, others⟩⟩
  · cases split
  · cases split
    rfl
  · simp at split

theorem Prompt.append {first others : List Event} (prompt : Prompt first)
    (prompt' : Prompt others) :
  Prompt (first ++ others)
  := by
  intro before found later split output
  obtain ⟨middle, rfl, rest⟩ | ⟨middle, rfl, rest⟩ := List.append_eq_append_iff.mp split
  · rw [Output.after_append]
    apply prompt' middle found later rest
  · cases middle with
    | nil => apply prompt' [] found later rest.symm (output.after before)
    | cons event middle =>
      cases rest
      apply prompt before found middle rfl

namespace Store

variable {eof : EofPolicy} {action : Action} {store : Store}

/-- A read first hands over all output and then asks for a byte. -/
theorem events_read :
  store.events eof .read = [.flushed, .asked store.input.read.1]
  := by
  have asks : Watched.ask (Watched.flush ⟨store, []⟩) =
      (store.input.read.1,
        ⟨⟨store.tape, store.input.read.2, store.output.flush⟩,
          [.flushed, .asked store.input.read.1]⟩) := rfl
  rw [events, Watched.perform, Watched.read, asks]
  cases store.input.read.1 with
  | some byte => rfl
  | none => cases eof <;> rfl

/-- The output after an action is an account of its events. -/
theorem output_perform (eof : EofPolicy) (action : Action) (store : Store) :
  (store.perform eof action).1.output = store.output.after (store.events eof action)
  := by
  cases action with
  | right => rw [perform_right, move]; split <;> rfl
  | left => rw [perform_left, move]; split <;> rfl
  | increment => rfl
  | decrement => rfl
  | write => rfl
  | read =>
    rw [perform_read, read_eq, events_read]
    split
    · rfl
    · cases eof <;> rfl

end Store

namespace Machine

variable {program : Program} {options : Options} {m m' : Machine} {outcome : Outcome}
  {fault : Option Fault} {fuel : Nat}

/-- What the next step does that the outside can see. -/
def events (program : Program) (options : Options) (m : Machine) : List Event :=
  match program[m.position]? with
  | some (.act action) =>
    if options.exhausted m.steps then [] else m.store.events options.eof action
  | _ => []

/-- What a run does within `fuel` steps that the outside can see. -/
def eventsOfRun (program : Program) (options : Options) : (fuel : Nat) → Machine → List Event
  | 0, _ => []
  | fuel + 1, m =>
    m.events program options ++
      match m.step program options with
      | (m', .running) => eventsOfRun program options fuel m'
      | (_, .halted) => [.flushed]
      | (_, .failed _) => []

/-! ### Steps -/

theorem events_of_reads (reads : m.Reads program options) :
  m.events program options = [.flushed, .asked m.store.input.read.1]
  := by
  simp [events, reads.1, reads.2, Store.events_read]

/-- A step that does not read writes a byte or does nothing that the outside can see. -/
theorem events_of_not_reads (idle : ¬ m.Reads program options) :
  m.events program options = [] ∨ ∃ byte, m.events program options = [.written byte]
  := by
  fun_cases events program options m with
  | case1 => left; rfl
  | case2 action here granted =>
    cases action with
    | write => right; exact ⟨_, rfl⟩
    | read => exact absurd ⟨here, by simpa using granted⟩ idle
    | _ => left; rfl
  | case3 => left; rfl

/-- The output after a step is an account of its events. -/
theorem output_step (program : Program) (options : Options) (m : Machine) :
  (m.step program options).1.store.output = m.store.output.after (m.events program options)
  := by
  cases stepped : m.step program options with
  | mk m' outcome =>
    cases transition_of_step stepped with
    | halted past closed => simp [events, past]
    | leftOpen past still => simp [events, past]
    | refused inside exhausted =>
      have silent : m.events program options = [] := by
        unfold events
        split
        · rw [if_pos exhausted]
        · rfl
      rw [silent]
      rfl
    | performed here granted effect =>
      rw [events, here]
      simp only [granted, Bool.false_eq_true, if_false, ← Store.output_perform options.eof, effect]
    | stopped here granted effect =>
      rw [events, here]
      simp only [granted, Bool.false_eq_true, if_false, ← Store.output_perform options.eof, effect]
    | skipped here granted zero found => simp [events, here]
    | unended here granted zero missing => simp [events, here]
    | entered here granted nonzero => simp [events, here]
    | unbegun here granted closed => simp [events, here]
    | left here granted still zero => simp [events, here]
    | repeated here granted still nonzero => simp [events, here]

/-- A byte is asked for by a step that reads, and by no other. -/
theorem found_events (program : Program) (options : Options) (m : Machine) :
  (m.events program options).filterMap Event.found? = m.readings program options
  := by
  by_cases reads : m.Reads program options
  · rw [events_of_reads reads, readings_of_reads reads]
    rfl
  · rw [readings_of_not_reads reads]
    obtain nothing | ⟨byte, wrote⟩ := events_of_not_reads reads
    · rw [nothing]
      rfl
    · rw [wrote]
      rfl

/-- A step hands over the output if it reads, and not otherwise. -/
theorem count_flushed_events (program : Program) (options : Options) (m : Machine) :
  (m.events program options).count .flushed = (m.readings program options).length
  := by
  by_cases reads : m.Reads program options
  · rw [events_of_reads reads, readings_of_reads reads]
    rfl
  · rw [readings_of_not_reads reads]
    obtain nothing | ⟨byte, wrote⟩ := events_of_not_reads reads
    · rw [nothing]
      rfl
    · rw [wrote]
      rfl

theorem prompt_events (program : Program) (options : Options) (m : Machine) :
  Prompt (m.events program options)
  := by
  by_cases reads : m.Reads program options
  · rw [events_of_reads reads]
    apply prompt_flushed_asked
  · apply prompt_of_silent
    rw [found_events, readings_of_not_reads reads]

/-! ### Runs -/

/-- A byte is asked for by the reads of a run, and by nothing else. -/
theorem found_eventsOfRun (program : Program) (options : Options) (fuel : Nat) (m : Machine) :
  (eventsOfRun program options fuel m).filterMap Event.found? =
    readingsOfRun program options fuel m
  := by
  induction fuel generalizing m with
  | zero => rfl
  | succ fuel ih =>
    rw [eventsOfRun, readingsOfRun, List.filterMap_append, found_events]
    congr 1
    split
    · rename_i next stepped
      rw [stepped]
      apply ih
    · rename_i next stepped
      rw [stepped]
      rfl
    · rename_i next fault stepped
      rw [stepped]
      rfl

theorem prompt_eventsOfRun (program : Program) (options : Options) (fuel : Nat) (m : Machine) :
  Prompt (eventsOfRun program options fuel m)
  := by
  induction fuel generalizing m with
  | zero => apply prompt_of_silent rfl
  | succ fuel ih =>
    apply (prompt_events program options m).append
    split
    · apply ih
    · apply prompt_of_silent rfl
    · apply prompt_of_silent rfl

/-- A run that ends leaves an account of its events.  It has handed over the output for each of its
reads, and once more if it came to the end of the program. -/
theorem output_run (ended : run program options fuel m = some (m', fault)) :
  m'.store.output = m.store.output.after (eventsOfRun program options fuel m) ∧
    (eventsOfRun program options fuel m).count .flushed =
      (readingsOfRun program options fuel m).length + if fault = none then 1 else 0
  := by
  induction fuel generalizing m with
  | zero => cases ended
  | succ fuel ih =>
    have first := output_step program options m
    have counted := count_flushed_events program options m
    rw [run] at ended
    rw [eventsOfRun, readingsOfRun, Output.after_append, List.count_append, List.length_append,
      counted, ← first, Nat.add_assoc]
    split at ended
    · rename_i next stepped
      obtain ⟨account, flushes⟩ := ih ended
      rw [stepped]
      exact ⟨account, congrArg _ flushes⟩
    · rename_i next stepped
      cases ended
      rw [stepped]
      exact ⟨rfl, rfl⟩
    · rename_i next fault stepped
      cases ended
      rw [stepped]
      exact ⟨rfl, rfl⟩

end Machine

end ByteTape
