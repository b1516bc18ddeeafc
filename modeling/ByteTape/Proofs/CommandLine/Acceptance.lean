import ByteTape.CommandLine.Request
import Mathlib.Data.List.Basic

/-!
# Which command lines are accepted

A command line asks for a job if each of its groups of arguments can be accepted by itself and
there is one source file among them.  The job does not depend on the order of the groups, apart
from the choices that are made more than once, of which the last ones count
(`Request.ofArguments_eq_job_iff`).
-/

namespace ByteTape

namespace CommandLine

namespace Argument

/-- Whether a group of arguments can be accepted, as far as this does not depend on the groups
before it. -/
def isAcceptable : Argument → Bool
  | verbose | printOnly | source _ => true
  | eof value => (EofPolicy.ofBytes? value).isSome
  | limit value => (Options.stepLimit? value).isSome
  | help | valueless _ | unknown _ => false

/-- The source file that a group of arguments gives. -/
def path? : Argument → Option Bytes
  | source path => some path
  | _ => none

/-- What a group of arguments chooses for the end of the input. -/
def eof? : Argument → Option EofPolicy
  | eof value => EofPolicy.ofBytes? value
  | _ => none

/-- The step limit that a group of arguments chooses. -/
def maxSteps? : Argument → Option UInt64
  | limit value => Options.stepLimit? value
  | _ => none

/-- The last choice that groups of arguments make, or what holds without any. -/
def lastChoice {α : Type} (choice? : Argument → Option α) (otherwise : α)
    (arguments : List Argument) : α :=
  (arguments.filterMap choice?).getLast?.getD otherwise

@[simp]
theorem lastChoice_nil {α : Type} (choice? : Argument → Option α) (otherwise : α) :
  lastChoice choice? otherwise [] = otherwise
  := rfl

/-- A choice is what holds without any of the choices that come later. -/
@[simp]
theorem lastChoice_cons {α : Type} (choice? : Argument → Option α) (otherwise : α)
    (argument : Argument) (rest : List Argument) :
  lastChoice choice? otherwise (argument :: rest) =
    lastChoice choice? ((choice? argument).getD otherwise) rest
  := by
  cases chosen : choice? argument <;> simp [lastChoice, chosen, List.getLast?_cons]

end Argument

namespace Choices

open Argument

variable {choices next : Choices} {argument : Argument} {arguments : List Argument}

/-- The choices after groups of arguments that are all accepted. -/
def after (choices : Choices) (arguments : List Argument) : Choices where
  verbose := choices.verbose || arguments.contains .verbose
  printOnly := choices.printOnly || arguments.contains .printOnly
  options := ⟨lastChoice eof? choices.options.eof arguments,
    lastChoice maxSteps? choices.options.maxSteps arguments⟩
  source := choices.source.or (arguments.findSome? path?)

@[simp]
theorem after_nil (choices : Choices) :
  choices.after [] = choices
  := by
  simp [after]

theorem after_cons (choices : Choices) (argument : Argument) (rest : List Argument) :
  choices.after (argument :: rest) = (choices.after [argument]).after rest
  := by
  cases given : argument.path? <;> simp [after, Bool.or_assoc, given]

/-- A group of arguments is accepted if it is acceptable by itself and does not give a second source
file. -/
theorem accept_eq_ok_iff :
  choices.accept argument = .ok next ↔
    argument.isAcceptable ∧ (choices.source = none ∨ argument.path? = none) ∧
      next = choices.after [argument]
  := by
  cases argument with
  | verbose => simp [accept, isAcceptable, after, path?, eof?, maxSteps?, eq_comm]
  | printOnly => simp [accept, isAcceptable, after, path?, eof?, maxSteps?, eq_comm]
  | help => simp [accept, isAcceptable]
  | eof value =>
    cases known : EofPolicy.ofBytes? value <;>
      simp [accept, isAcceptable, after, path?, eof?, maxSteps?, known, eq_comm]
  | limit value =>
    cases known : Options.stepLimit? value <;>
      simp [accept, isAcceptable, after, path?, eof?, maxSteps?, known, eq_comm]
  | valueless flag => simp [accept, isAcceptable]
  | unknown flag => simp [accept, isAcceptable]
  | source path =>
    cases given : choices.source <;>
      simp [accept, isAcceptable, after, path?, eof?, maxSteps?, given, eq_comm]

/-- The source files of choices and of groups of arguments that follow them. -/
def sources (choices : Choices) (arguments : List Argument) : List Bytes :=
  choices.source.toList ++ arguments.filterMap path?

/-- There is at most one source file if the first group of arguments does not give a second one,
and the groups after it do not either. -/
theorem length_sources_cons_le_one (choices : Choices) (argument : Argument)
    (rest : List Argument) :
  (choices.sources (argument :: rest)).length ≤ 1 ↔
    (choices.source = none ∨ argument.path? = none) ∧
      ((choices.after [argument]).sources rest).length ≤ 1
  := by
  cases given : argument.path? <;> cases first : choices.source <;>
    simp [sources, after, given, first]

/-- Groups of arguments are accepted if all are acceptable by themselves and there is at most one
source file. -/
theorem foldlM_accept_eq_ok_iff :
  arguments.foldlM accept choices = .ok next ↔
    (∀ argument ∈ arguments, argument.isAcceptable) ∧ (choices.sources arguments).length ≤ 1 ∧
      next = choices.after arguments
  := by
  -- What the first group chooses counts as chosen before the groups after it.
  induction arguments generalizing choices with
  | nil =>
    have atMostOne : choices.source.toList.length ≤ 1 := Option.length_toList_le
    simpa [sources, pure, Except.pure, atMostOne] using eq_comm
  | cons argument rest ih =>
    rw [List.foldlM_cons, after_cons, length_sources_cons_le_one, List.forall_mem_cons]
    constructor
    · intro accepted
      cases first : choices.accept argument with
      | error request => simp [first, bind, Except.bind] at accepted
      | ok middle =>
        obtain ⟨acceptable, single, rfl⟩ := accept_eq_ok_iff.mp first
        rw [first] at accepted
        obtain ⟨acceptables, singles, rfl⟩ := ih.mp accepted
        exact ⟨⟨acceptable, acceptables⟩, ⟨single, singles⟩, rfl⟩
    · rintro ⟨⟨acceptable, acceptables⟩, ⟨single, singles⟩, rfl⟩
      rw [accept_eq_ok_iff.mpr ⟨acceptable, single, rfl⟩]
      apply ih.mpr ⟨acceptables, singles, rfl⟩

/-- A group of arguments that is not accepted does not ask for a job. -/
theorem accept_ne_error_job (choices : Choices) (argument : Argument) (job : Job) :
  choices.accept argument ≠ .error (.job job)
  := by
  fun_cases accept choices argument <;> simp

theorem foldlM_accept_ne_error_job (choices : Choices) (arguments : List Argument) (job : Job) :
  arguments.foldlM accept choices ≠ .error (.job job)
  := by
  induction arguments generalizing choices with
  | nil => simp [pure, Except.pure]
  | cons argument rest ih =>
    rw [List.foldlM_cons]
    cases first : choices.accept argument with
    | error request =>
      rintro ⟨⟩
      apply accept_ne_error_job choices argument job first
    | ok next => apply ih

end Choices

namespace Request

open Argument

variable {arguments : List Argument} {job : Job}

/-- Choices are complete once there is a source file. -/
theorem request_eq_job_iff {choices : Choices} :
  choices.request = .job job ↔
    choices.source = some job.source ∧ job.verbose = choices.verbose ∧
      job.printOnly = choices.printOnly ∧ job.options = choices.options
  := by
  obtain ⟨verbose, printOnly, options, _ | path⟩ := choices
  · simp [Choices.request]
  · obtain ⟨source, verbose', printOnly', options'⟩ := job
    simp [Choices.request, eq_comm]

/-- Groups of arguments ask for a job if all are accepted and the choices after them are
complete. -/
theorem ofArguments_eq_job_iff_exists :
  ofArguments arguments = .job job ↔
    ∃ choices, arguments.foldlM Choices.accept {} = .ok choices ∧ choices.request = .job job
  := by
  rw [ofArguments]
  cases accepted : arguments.foldlM Choices.accept {} with
  | error request =>
    have decided : request ≠ .job job := by
      rintro rfl
      apply Choices.foldlM_accept_ne_error_job {} arguments job accepted
    simp [decided]
  | ok choices => simp

/-- Groups of arguments ask for a job exactly if all are acceptable and one of them gives a source
file.  The job is to do with this file what the groups choose. -/
theorem ofArguments_eq_job_iff :
  ofArguments arguments = .job job ↔
    (∀ argument ∈ arguments, argument.isAcceptable) ∧ arguments.filterMap path? = [job.source] ∧
      job.verbose = arguments.contains .verbose ∧ job.printOnly = arguments.contains .printOnly ∧
      job.options = ⟨lastChoice eof? .fail arguments, lastChoice maxSteps? 0 arguments⟩
  := by
  have single (paths : List Bytes) :
      paths.length ≤ 1 ∧ paths.head? = some job.source ↔ paths = [job.source] := by
    match paths with
    | [] => simp
    | [path] => simp
    | _ :: _ :: _ => simp
  rw [ofArguments_eq_job_iff_exists, ← single, List.head?_filterMap]
  constructor
  · rintro ⟨choices, accepted, asked⟩
    obtain ⟨acceptable, atMostOne, rfl⟩ := Choices.foldlM_accept_eq_ok_iff.mp accepted
    obtain ⟨given, verbose, printOnly, options⟩ := request_eq_job_iff.mp asked
    exact ⟨acceptable, ⟨atMostOne, given⟩, verbose, printOnly, options⟩
  · rintro ⟨acceptable, ⟨atMostOne, given⟩, verbose, printOnly, options⟩
    use Choices.after {} arguments
    exact ⟨Choices.foldlM_accept_eq_ok_iff.mpr ⟨acceptable, atMostOne, rfl⟩,
      request_eq_job_iff.mpr ⟨given, verbose, printOnly, options⟩⟩

end Request

end CommandLine

end ByteTape
