import ByteTape.Proofs.Input.Readings
import ByteTape.Proofs.Session.Commands

/-!
# What a session reads

The user of a session may feed its input at any time, and reads that met the end of the input may
be followed by others.  Nothing gets lost on the way: what the reads of a session have stored,
followed by what they have left, is what was there at the beginning, followed by what was fed
(`lossless_of_performAll`).  Between two commands that clear the end of the input, a read that
meets it is followed only by reads that meet it, whatever is fed (`readings_pairwise`).
-/

namespace ByteTape

namespace Command

/-- The bytes that a command feeds. -/
def fed : Command → List UInt8
  | feed _ bytes => bytes
  | _ => []

/-- What a command reads. -/
def readings (fuel : Nat) (session : Session) : Command → List (Option UInt8)
  | step => session.machine.readings session.program session.options
  | run => Machine.readingsOfRun session.program session.options fuel session.machine
  | _ => []

end Command

namespace Session

/-- What commands read that are carried out one after the other. -/
def readings (fuel : Nat) : List Command → Session → List (Option UInt8)
  | [], _ => []
  | command :: rest, session =>
    command.readings fuel session ++
      match perform fuel command session with
      | some (next, _) => readings fuel rest next
      | none => []

variable {fuel : Nat} {command : Command} {commands : List Command} {session session' : Session}
  {replies : List Reply}

/-- A command reads what it finds in the input.  What it leaves is the input afterwards, with the
bytes that it feeds. -/
theorem readings_perform (fuel : Nat) (command : Command) (session : Session) :
  ∃ after, Input.Readings session.machine.store.input (command.readings fuel session) after ∧
    ∀ session' reply, perform fuel command session = some (session', reply) →
      session'.machine.store.input.unread = after.unread ++ command.fed ∧
      ((∀ bytes, command ≠ .feed true bytes) →
        session'.machine.store.input.ended = after.ended)
  := by
  cases command with
  | step =>
    refine ⟨_, Machine.readings_step session.program session.options session.machine, ?_⟩
    intro session' reply performed
    obtain ⟨m, outcome, step, rfl, rfl⟩ := perform_step_iff.mp performed
    rw [step.step_eq]
    exact ⟨(List.append_nil _).symm, fun _ => rfl⟩
  | run =>
    obtain ⟨after, read, ends⟩ :=
      Machine.readings_run session.program session.options fuel session.machine
    use after, read
    intro session' reply performed
    obtain ⟨m, fault, ended, rfl, rfl⟩ := perform_run_iff.mp performed
    rw [ends m fault ended]
    exact ⟨(List.append_nil _).symm, fun _ => rfl⟩
  | configure eof maxSteps =>
    use session.machine.store.input, .done _
    rintro session' reply ⟨⟩
    exact ⟨(List.append_nil _).symm, fun _ => rfl⟩
  | feed clear bytes =>
    use session.machine.store.input, .done _
    rintro session' reply ⟨⟩
    cases clear with
    | false => exact ⟨rfl, fun _ => rfl⟩
    | true => exact ⟨rfl, fun kept => absurd rfl (kept bytes)⟩
  | patch patch =>
    use session.machine.store.input, .done _
    rintro session' reply ⟨⟩
    exact ⟨(List.append_nil _).symm, fun _ => rfl⟩

/-- What commands store by their reads, followed by what they leave, is what was unread before,
followed by what they feed. -/
theorem lossless_of_performAll
    (carriedOut : performAll fuel commands session = some (session', replies)) :
  (readings fuel commands session).reduceOption ++ session'.machine.store.input.unread =
    session.machine.store.input.unread ++ commands.flatMap Command.fed
  := by
  induction commands generalizing session replies with
  | nil =>
    cases carriedOut
    apply (List.append_nil _).symm
  | cons command commands ih =>
    obtain ⟨next, reply, rest, performed, following, rfl⟩ := performAll_cons_iff.mp carriedOut
    obtain ⟨after, read, left⟩ := readings_perform fuel command session
    obtain ⟨unread, -⟩ := left next reply performed
    simp only [readings, performed, List.reduceOption_append, List.flatMap_cons]
    rw [List.append_assoc, ih following, unread, ← read.lossless]
    simp only [List.append_assoc]

/-- Once the end of the input has been met, all reads meet it until it is cleared. -/
theorem readings_of_ended (kept : ∀ bytes, .feed true bytes ∉ commands)
    (ended : session.machine.store.input.ended = true) :
  ∀ result ∈ readings fuel commands session, result = none
  := by
  induction commands generalizing session with
  | nil => simp [readings]
  | cons command commands ih =>
    obtain ⟨after, read, left⟩ := readings_perform fuel command session
    obtain ⟨same, nothing⟩ := read.of_ended ended
    intro result among
    rw [readings] at among
    obtain first | later := List.mem_append.mp among
    · apply nothing result first
    · split at later
      · rename_i next reply performed
        have still := (left next reply performed).2 fun bytes clears =>
          kept bytes (clears ▸ List.mem_cons_self)
        rw [same, ended] at still
        apply ih (fun bytes cleared => kept bytes (List.mem_cons_of_mem command cleared)) still
          result later
      · cases later

/-- A read that meets the end of the input is followed only by reads that meet it, until the end
is cleared. -/
theorem readings_pairwise (kept : ∀ bytes, .feed true bytes ∉ commands) :
  (readings fuel commands session).Pairwise fun earlier later => earlier = none → later = none
  := by
  induction commands generalizing session with
  | nil => apply List.Pairwise.nil
  | cons command commands ih =>
    have kept' : ∀ bytes, .feed true bytes ∉ commands := fun bytes cleared =>
      kept bytes (List.mem_cons_of_mem command cleared)
    obtain ⟨after, read, left⟩ := readings_perform fuel command session
    rw [readings]
    apply List.pairwise_append.mpr
    use read.pairwise
    split
    · rename_i next reply performed
      use ih kept'
      rintro _ missed result later rfl
      have ended := (left next reply performed).2 fun bytes clears =>
        kept bytes (clears ▸ List.mem_cons_self)
      rw [read.ended_of_mem missed] at ended
      apply readings_of_ended kept' ended result later
    · use List.Pairwise.nil
      intro _ _ result later
      cases later

/-- No byte of the input is lost, read twice or read out of order.  In every session the bytes
stored by its reads, in the order of these, followed by those that are still unread, are the bytes
of its input, followed by those that were fed.  A read stores the first unread byte if there is
one and the end of the input has not been met.  A read that meets the end takes nothing, and until
the end is cleared it is followed only by reads that meet it, whatever is fed. -/
theorem input_of_performAll (program : Program) (options : Options) (input : List UInt8) :
  (∀ fuel commands session replies,
    performAll fuel commands (.start program options input) = some (session, replies) →
    (readings fuel commands (.start program options input)).reduceOption ++
      session.machine.store.input.unread = input ++ commands.flatMap Command.fed) ∧
  (∀ (session : Session) byte rest,
    session.machine.Reads session.program session.options →
    session.machine.store.input = ⟨byte :: rest, false⟩ →
    session.machine.readings session.program session.options = [some byte]) ∧
  (∀ session : Session, session.machine.MeetsEnd session.program session.options →
    session.machine.readings session.program session.options = [none] ∧
    (session.machine.step session.program session.options).1.store.input.unread =
      session.machine.store.input.unread) ∧
  ∀ fuel commands (session : Session), (∀ bytes, .feed true bytes ∉ commands) →
    (readings fuel commands session).Pairwise fun earlier later =>
      earlier = none → later = none
  := by
  and_intros
  · intro fuel commands session replies carriedOut
    apply lossless_of_performAll carriedOut
  · intro session byte rest reads front
    rw [Machine.readings_of_reads reads, front, Input.read_cons]
  · intro session missed
    apply Machine.readings_of_meetsEnd missed
  · intro fuel commands session kept
    apply readings_pairwise kept

/-- The program `,,,,`, which reads four times. -/
def fourReads : Program :=
  #[.act .read, .act .read, .act .read, .act .read]

/-- The second read meets the end of the input.  The third one meets it too, though a byte has been
fed by then, which the fourth one reads once the end has been cleared. -/
theorem input_of_performAll_fourReads :
  (∃ session replies,
    performAll 0 [.step, .step, .feed false [8], .step, .feed true [9], .step]
      (.start fourReads {} [7]) = some (session, replies) ∧
    [some 7, none, none, some 8].reduceOption ++ session.machine.store.input.unread =
      [7] ++ [8, 9]) ∧
  (start fourReads {} [7]).machine.readings fourReads {} = [some 7] ∧
  (∃ session replies, performAll 0 [.step] (.start fourReads {} [7]) = some (session, replies) ∧
    session.machine.readings fourReads {} = [none]) ∧
  [some (7 : UInt8), none, none].Pairwise fun earlier later => earlier = none → later = none
  := by
  obtain ⟨lossless, takes, misses, lasts⟩ := input_of_performAll fourReads {} [7]
  and_intros
  · have carriedOut :
        performAll 0 [.step, .step, .feed false [8], .step, .feed true [9], .step]
          (.start fourReads {} [7]) = some (⟨fourReads, {}, ⟨_, 4, [], 4⟩⟩,
            [.stepped .running, .stepped (.failed ⟨.endOfInput, 1⟩), .done,
              .stepped (.failed ⟨.endOfInput, 2⟩), .done, .stepped .running]) := rfl
    have found :
        readings 0 [.step, .step, .feed false [8], .step, .feed true [9], .step]
          (.start fourReads {} [7]) = [some 7, none, none, some 8] := by decide
    have kept := lossless 0 _ _ _ carriedOut
    rw [found] at kept
    exact ⟨_, _, carriedOut, kept⟩
  · apply takes (start fourReads {} [7]) 7 [] (by decide) rfl
  · have carriedOut : performAll 0 [.step] (.start fourReads {} [7]) =
        some (⟨fourReads, {}, ⟨_, 1, [], 1⟩⟩, [.stepped .running]) := rfl
    exact ⟨_, _, carriedOut, (misses _ (by decide)).1⟩
  · have found : readings 0 [.step, .step, .feed false [8], .step] (.start fourReads {} [7]) =
        [some 7, none, none] := by decide
    rw [← found]
    apply lasts
    simp

end Session

end ByteTape
