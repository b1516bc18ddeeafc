import ByteTape.Proofs.CommandLine.Execution
import ByteTape.Proofs.CommandLine.Grouping

/-!
# Verbose executions

A verbose execution tells more than another one and does the same.  An argument that asks for it may
be inserted into a command line wherever it does not become the value of a flag
(`Argument.AwaitsValue`); the report then has the same exit code and the same output, the same files
have been opened and the same input is left, and what was told without it comes last in what is told
with it (`execute_insert_verbose`).
-/

namespace ByteTape

namespace CommandLine

/-- The second execution differs from the first one only in that more may be told before. -/
structure Elaborates (quiet loud : Report × Input) : Prop where
  exitCode : loud.1.exitCode = quiet.1.exitCode
  output : loud.1.output = quiet.1.output
  diagnostics : quiet.1.diagnostics.toList <:+ loud.1.diagnostics.toList
  opened : loud.1.opened = quiet.1.opened
  left : loud.2 = quiet.2

/-- What is left as it is, an execution or the want of one, tells all that it told. -/
theorem elaborates_refl (result : Option (Report × Input)) :
  Option.Rel Elaborates result result
  := by
  cases result with
  | none => apply Option.Rel.none
  | some ending => exact Option.Rel.some ⟨rfl, rfl, List.suffix_refl _, rfl, rfl⟩

/-! ### Asking for more words -/

/-- The choices with the choice to be verbose. -/
def Choices.loud (choices : Choices) : Choices :=
  { choices with verbose := true }

/-- The job, done verbosely. -/
def Job.loud (job : Job) : Job :=
  { job with verbose := true }

/-- The request for the same job, done verbosely. -/
def Request.loud : Request → Request
  | .job wanted => .job wanted.loud
  | request => request

namespace Choices

variable {choices : Choices}

theorem request_loud (choices : Choices) :
  choices.loud.request = choices.request.loud
  := by
  cases given : choices.source <;> simp [loud, request, given, Request.loud, Job.loud]

/-- Whether a group of arguments is accepted does not depend on the choice to be verbose, and it
does not undo that choice. -/
theorem accept_loud (choices : Choices) (argument : Argument) :
  choices.loud.accept argument = (choices.accept argument).map loud
  := by
  cases argument with
  | verbose => rfl
  | printOnly => rfl
  | help => rfl
  | eof value => cases known : EofPolicy.ofBytes? value <;> simp [accept, known, loud, Except.map]
  | limit value => cases known : Options.stepLimit? value <;> simp [accept, known, loud, Except.map]
  | valueless flag => rfl
  | unknown flag => rfl
  | source path => cases given : choices.source <;> simp [accept, given, loud, Except.map]

theorem foldlM_accept_loud (choices : Choices) (arguments : List Argument) :
  arguments.foldlM accept choices.loud = (arguments.foldlM accept choices).map loud
  := by
  induction arguments generalizing choices with
  | nil => rfl
  | cons argument rest ih =>
    rw [List.foldlM_cons, List.foldlM_cons, accept_loud]
    cases choices.accept argument with
    | error request => rfl
    | ok next => apply ih

end Choices

namespace Request

/-- There is nothing to be verbose about if some groups of arguments are not accepted. -/
theorem loud_of_foldlM_accept {choices : Choices} {arguments : List Argument} {request : Request}
    (refused : arguments.foldlM Choices.accept choices = .error request) :
  request.loud = request
  := by
  cases request with
  | job wanted => apply absurd refused (Choices.foldlM_accept_ne_error_job choices arguments wanted)
  | help => rfl
  | refused complaint => rfl

/-- A group that asks for more words does nothing else to the request. -/
theorem ofArguments_insert_verbose (front back : List Argument) :
  ofArguments (front ++ .verbose :: back) = (ofArguments (front ++ back)).loud
  := by
  rw [ofArguments, ofArguments, List.foldlM_append, List.foldlM_append]
  cases before : front.foldlM Choices.accept {} with
  | error request => exact (loud_of_foldlM_accept before).symm
  | ok choices =>
    have inserted : (.verbose :: back).foldlM Choices.accept choices =
        (back.foldlM Choices.accept choices).map Choices.loud :=
      Choices.foldlM_accept_loud choices back
    simp only [bind, Except.bind, inserted]
    cases after : back.foldlM Choices.accept choices with
    | error request => exact (loud_of_foldlM_accept after).symm
    | ok choices => apply Choices.request_loud

end Request

namespace Launch

/-- A verbose run ends like any other, and tells of its end last. -/
theorem report_elaborates (program : Program) (options : Options) (diagnostics : Bytes)
    (opened : List Bytes) (m : Machine) (fault : Option Fault) (left : Input) :
  Elaborates (Launch.report ⟨program, options, false, #[], opened⟩ m fault, left)
    (Launch.report ⟨program, options, true, diagnostics, opened⟩ m fault, left)
  where
  exitCode := rfl
  output := rfl
  diagnostics := by
    cases fault with
    | none => simp [report, closing, infoLine]
    | some fault => simp [report, closing, List.suffix_append]
  opened := rfl
  left := rfl

end Launch

namespace Job

variable {job : Job}

theorem loud_of_verbose (verbose : job.verbose = true) :
  job.loud = job
  := by
  rw [loud, ← verbose]

/-- A job that is not verbose is done in the same way when it is made so. -/
theorem outcome_elaborates_of_silent (silent : job.verbose = false) (shown : Bytes → Bytes)
    (loaded : Except LoadError Bytes) (fuel : Nat) (input : List UInt8) :
  Option.Rel Elaborates (job.outcome shown loaded fuel input)
    (job.loud.outcome shown loaded fuel input)
  := by
  cases loaded with
  | error error =>
    apply Option.Rel.some
    refine ⟨rfl, rfl, ?_, rfl, rfl⟩
    simp [opening, infoLine, silent, List.suffix_append]
  | ok source =>
    cases printed : job.printOnly with
    | true =>
      have quietly : job.prepare shown (.ok source) =
          .error ⟨0, .ofBytes ((Program.parse source).format.push newline), #[], [job.source]⟩ := by
        simp [prepare, opening, infoLine, silent, printed]
      have loudly : job.loud.prepare shown (.ok source) =
          .error ⟨0, .ofBytes ((Program.parse source).format.push newline), job.loud.opening,
            [job.source]⟩ := by
        simp [prepare, loud, printed]
      rw [outcome, outcome, quietly, loudly]
      apply Option.Rel.some
      exact ⟨rfl, rfl, List.nil_suffix, rfl, rfl⟩
    | false =>
      have loudly : job.loud.prepare shown (.ok source) =
          .ok ⟨Program.parse source, job.options, true,
            job.loud.opening ++ job.loud.dump (Program.parse source), [job.source]⟩ := by
        simp [prepare, loud, printed]
      rw [outcome, outcome, prepare_ok silent printed, loudly]
      simp only [Launch.run]
      cases Machine.run (Program.parse source) job.options fuel (.initial input) with
      | none => apply Option.Rel.none
      | some ending =>
        apply Option.Rel.some
        apply Launch.report_elaborates

theorem outcome_elaborates (job : Job) (shown : Bytes → Bytes) (loaded : Except LoadError Bytes)
    (fuel : Nat) (input : List UInt8) :
  Option.Rel Elaborates (job.outcome shown loaded fuel input)
    (job.loud.outcome shown loaded fuel input)
  := by
  cases verbose : job.verbose with
  | false => apply outcome_elaborates_of_silent verbose
  | true =>
    rw [loud_of_verbose verbose]
    apply elaborates_refl

end Job

/-- If a command line asks for the same as another one, but verbosely, then it is carried out in the
same way. -/
theorem execute_elaborates {quiet loud : List Bytes}
    (asked : Request.ofList loud = (Request.ofList quiet).loud) (shown : Bytes → Bytes) (fuel : Nat)
    (name : Bytes) (files : FileSystem) (input : List UInt8) :
  Option.Rel Elaborates (execute shown fuel name quiet files input)
    (execute shown fuel name loud files input)
  := by
  rw [execute, execute, asked]
  cases Request.ofList quiet with
  | help => apply elaborates_refl
  | refused complaint => apply elaborates_refl
  | job wanted => apply Job.outcome_elaborates wanted

/-- Whether an argument that follows some others would be the value of a flag. -/
def Argument.AwaitsValue (arguments : List Bytes) : Prop :=
  ∃ flag, .valueless flag ∈ ofList arguments

namespace Argument

variable {front : List Bytes}

/-- An argument that asks for more words is a group by itself wherever it is not a value. -/
theorem ofList_insert_verbose (place : ¬ AwaitsValue front) (back : List Bytes) :
  ofList (front ++ back) = ofList front ++ ofList back ∧
    ofList (front ++ Bytes.ofString "-v" :: back) = ofList front ++ .verbose :: ofList back
  := by
  have complete : ∀ group ∈ ofList front, group.isComplete := by
    intro group among
    cases group with
    | valueless flag => exact absurd ⟨flag, among⟩ place
    | _ => rfl
  rw [ofList_append complete, ofList_append complete, ofList_cons_of_none rfl]
  exact ⟨rfl, rfl⟩

end Argument

/-- An argument that asks for more words may be inserted into a command line wherever it does not
become the value of a flag.  If an execution ends without it then one with it ends too.  The exit
code and the output are the same, the same files are opened and the same input is left, and whatever
is told without it is the end of what is told with it. -/
theorem execute_insert_verbose {front : List Bytes} (place : ¬ Argument.AwaitsValue front)
    (back : List Bytes) (shown : Bytes → Bytes) (fuel : Nat) (name : Bytes) (files : FileSystem)
    (input : List UInt8) :
  (∀ report left, execute shown fuel name (front ++ back) files input = some (report, left) →
    ∃ report',
      execute shown fuel name (front ++ Bytes.ofString "-v" :: back) files input =
        some (report', left) ∧
      report'.exitCode = report.exitCode ∧ report'.output = report.output ∧
      report'.opened = report.opened ∧
      report.diagnostics.toList <:+ report'.diagnostics.toList) ∧
  (execute shown fuel name (front ++ back) files input = none →
    execute shown fuel name (front ++ Bytes.ofString "-v" :: back) files input = none)
  := by
  obtain ⟨apart, inserted⟩ := Argument.ofList_insert_verbose place back
  have asked : Request.ofList (front ++ Bytes.ofString "-v" :: back) =
      (Request.ofList (front ++ back)).loud := by
    rw [Request.ofList, Request.ofList, apart, inserted, Request.ofArguments_insert_verbose]
  have related := execute_elaborates asked shown fuel name files input
  generalize execute shown fuel name (front ++ back) files input = quietly at related ⊢
  generalize execute shown fuel name (front ++ Bytes.ofString "-v" :: back) files input = loudly
    at related ⊢
  cases related with
  | none => simp
  | @some _ loud elaborates =>
    constructor
    · rintro report left ⟨⟩
      obtain ⟨report', left'⟩ := loud
      obtain ⟨exitCode, output, diagnostics, opened, rfl⟩ := elaborates
      exact ⟨report', rfl, exitCode, output, opened, diagnostics⟩
    · rintro ⟨⟩

/-- The arguments `-e keep -e fail`. -/
def endsWithValue : List Bytes :=
  ["-e", "keep", "-e", "fail"].map Bytes.ofString

/-- The program in the file `echo` meets the end of its input after one byte.  The verbose execution
fails in the same way and shows the same byte. -/
theorem execute_insert_verbose_echo :
  ¬ Argument.AwaitsValue endsWithValue ∧
  ∃ quiet loud,
    execute id 5 #[] (endsWithValue ++ [Bytes.ofString "echo"]) echoFiles [1] =
      some (quiet, ⟨[], true⟩) ∧
    execute id 5 #[] (endsWithValue ++ [Bytes.ofString "-v", Bytes.ofString "echo"]) echoFiles [1] =
      some (loud, ⟨[], true⟩) ∧
    loud.exitCode = 1 ∧ loud.output.bytes = #[1] ∧ loud.opened = [Bytes.ofString "echo"] ∧
    quiet.diagnostics.toList <:+ loud.diagnostics.toList
  := by
  have place : ¬ Argument.AwaitsValue endsWithValue := by
    rintro ⟨flag, among⟩
    have groups : Argument.ofList endsWithValue =
      [.eof (Bytes.ofString "keep"), .eof (Bytes.ofString "fail")] := by rfl
    simp [groups] at among
  have accepted : Request.ofList (endsWithValue ++ [Bytes.ofString "echo"]) =
      .job ⟨Bytes.ofString "echo", false, false, ⟨.fail, 0⟩⟩ := by rfl
  have loaded : echoFiles.load (Bytes.ofString "echo") = .ok (Bytes.ofString ",.,.") := by
    with_unfolding_all rfl
  have ended := execute_job id 5 #[] echoFiles [1] accepted
  rw [loaded, Job.outcome, Job.prepare_ok rfl rfl] at ended
  obtain ⟨loud, same, exitCode, output, opened, told⟩ :=
    (execute_insert_verbose place [Bytes.ofString "echo"] id 5 #[] echoFiles [1]).1 _ _ ended
  exact ⟨place, _, loud, ended, same, exitCode, congrArg Output.bytes output, opened, told⟩

end CommandLine

end ByteTape
