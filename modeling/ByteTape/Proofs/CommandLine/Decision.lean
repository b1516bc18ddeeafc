import ByteTape.Proofs.CommandLine.Execution
import ByteTape.Proofs.CommandLine.Grouping

/-!
# What decides about a command line

A command line reaches its source file if each of its groups of arguments can be accepted at its
place and there is a source file among them (`Argument.Accepted`).  What is done then depends on
the groups, but hardly on their order.  Otherwise one group decides alone, or the want of a source
file does (`Argument.Decided`).  What is said then is given word for word; no file is opened, and
the input is left as it is.  All this is put together in `execute_by_groups`.
-/

namespace ByteTape

namespace CommandLine

namespace Argument

variable {name : Bytes} {argument : Argument} {arguments before : List Argument}
  {request : Request} {report : Report}

/-- Whether a group makes a choice for the end of the input. -/
def isEof : Argument → Bool
  | eof _ => true
  | _ => false

/-- Whether a group chooses a step limit. -/
def isLimit : Argument → Bool
  | limit _ => true
  | _ => false

/-- Groups of arguments that ask for a job. -/
def Accepted (arguments : List Argument) : Prop :=
  (∀ argument ∈ arguments, argument.isAcceptable) ∧ ∃ path, arguments.filterMap path? = [path]

/-- Groups of arguments that leave the decision to those that follow. -/
def Undecided (arguments : List Argument) : Prop :=
  (∀ argument ∈ arguments, argument.isAcceptable) ∧ (arguments.filterMap path?).length ≤ 1

/-- `Objection before argument text`: what is said against a group of arguments that has some others
before it. -/
inductive Objection (before : List Argument) : Argument → Bytes → Prop where
  | missingValue (flag : Bytes) :
    Objection before (.valueless flag) (Bytes.ofString "missing value for " ++ flag)
  | unknownFlag (flag : Bytes) :
    Objection before (.unknown flag) (Bytes.ofString "unknown flag: " ++ flag)
  | invalidEof {value : Bytes} (invalid : EofPolicy.ofBytes? value = none) :
    Objection before (.eof value) (Bytes.ofString "invalid eof behaviour: " ++ value)
  | invalidLimit {value : Bytes} (invalid : Options.stepLimit? value = none) :
    Objection before (.limit value) (Bytes.ofString "invalid step limit: " ++ value)
  | secondSource {path : Bytes} (another : before.filterMap path? ≠ []) :
    Objection before (.source path) (Bytes.ofString "only one source file can be run")

/-- The report that a command line is refused, for a reason that is told on a line of its own before
the usage. -/
def refusal (name reason : Bytes) : Report :=
  ⟨1, .empty, Bytes.ofString "error: " ++ reason ++ Bytes.ofString "\n" ++ usage name, []⟩

/-- `Decided name arguments report`: groups of arguments that do not ask for a job, and the report
of them.  The leftmost group that asks for help or meets an objection decides; if there is none,
the source file is missing. -/
inductive Decided (name : Bytes) (arguments : List Argument) : Report → Prop where
  | help {before after : List Argument} (divided : arguments = before ++ .help :: after)
      (undecided : Undecided before) :
    Decided name arguments ⟨0, .empty, usage name, []⟩
  | refused {before after : List Argument} {argument : Argument} {text : Bytes}
      (divided : arguments = before ++ argument :: after) (undecided : Undecided before)
      (objection : Objection before argument text) :
    Decided name arguments (refusal name text)
  | incomplete (undecided : Undecided arguments) (missing : arguments.filterMap path? = []) :
    Decided name arguments (refusal name (Bytes.ofString "file to run not specified"))

/-- What is decided is said, and nothing else is done. -/
theorem Decided.silent (decided : Decided name arguments report) :
  report.output = .empty ∧ report.opened = []
  := by
  cases decided with
  | help divided undecided => exact ⟨rfl, rfl⟩
  | refused divided undecided objection => exact ⟨rfl, rfl⟩
  | incomplete undecided missing => exact ⟨rfl, rfl⟩

/-- A choice for the end of the input is acceptable if it is one of three words. -/
theorem isAcceptable_eof_iff {value : Bytes} :
  (eof value).isAcceptable ↔ value ∈ ["fail", "zero", "keep"].map Bytes.ofString
  := by
  simp only [isAcceptable, EofPolicy.ofBytes?, List.map_cons, List.map_nil, List.mem_cons,
    List.not_mem_nil, or_false]
  by_cases fail : value = Bytes.ofString "fail"
  · simp [fail]
  · by_cases zero : value = Bytes.ofString "zero"
    · rw [if_neg fail, if_pos zero]
      simp [zero]
    · simp [fail, zero]

end Argument

namespace Choices

open Argument

variable {argument : Argument} {arguments before : List Argument} {request : Request}
  {choices next : Choices}

/-- Groups that leave the decision to others are all accepted, one after the other. -/
theorem foldlM_accept_default_iff :
  arguments.foldlM accept {} = .ok next ↔ Undecided arguments ∧ next = after {} arguments
  := by
  simp [foldlM_accept_eq_ok_iff, Undecided, sources, and_assoc]

/-- A group that meets an objection is refused, and the complaint is the objection. -/
theorem accept_after_of_objection {text : Bytes} (objection : Objection before argument text) :
  ∃ complaint, (after {} before).accept argument = .error (.refused complaint) ∧
    complaint.message = text
  := by
  cases objection with
  | missingValue flag => exact ⟨.missingValue flag, rfl, rfl⟩
  | unknownFlag flag => exact ⟨.unknownFlag flag, rfl, rfl⟩
  | @invalidEof value invalid => exact ⟨.invalidEof value, by simp [accept, invalid], rfl⟩
  | @invalidLimit value invalid => exact ⟨.invalidLimit value, by simp [accept, invalid], rfl⟩
  | secondSource another =>
    use .secondSource
    cases given : before.filterMap path? with
    | nil => exact absurd given another
    | cons path others => simp [accept, after, ← List.head?_filterMap, given, Complaint.message]

/-- A group that is not accepted asks for help or meets an objection. -/
theorem objection_of_accept_after (refused : (after {} before).accept argument = .error request) :
  argument = .help ∧ request = .help ∨
    ∃ complaint, request = .refused complaint ∧ Objection before argument complaint.message
  := by
  cases argument with
  | verbose => cases refused
  | printOnly => cases refused
  | help => cases refused; exact .inl ⟨rfl, rfl⟩
  | valueless flag => cases refused; exact .inr ⟨_, rfl, .missingValue flag⟩
  | unknown flag => cases refused; exact .inr ⟨_, rfl, .unknownFlag flag⟩
  | eof value =>
    rw [accept] at refused
    split at refused
    · cases refused
    · rename_i invalid
      cases refused
      exact .inr ⟨_, rfl, .invalidEof invalid⟩
  | limit value =>
    rw [accept] at refused
    split at refused
    · cases refused
    · rename_i invalid
      cases refused
      exact .inr ⟨_, rfl, .invalidLimit invalid⟩
  | source path =>
    rw [accept] at refused
    split at refused
    · cases refused
    · rename_i given
      cases refused
      refine .inr ⟨_, rfl, .secondSource ?_⟩
      intro nothing
      simp [after, ← List.head?_filterMap, nothing] at given

/-- If groups are not all accepted, then there is a first one that is not. -/
theorem foldlM_accept_eq_error_iff :
  arguments.foldlM accept choices = .error request ↔
    ∃ before argument rest middle, arguments = before ++ argument :: rest ∧
      before.foldlM accept choices = .ok middle ∧ middle.accept argument = .error request
  := by
  constructor
  · intro refused
    induction arguments generalizing choices with
    | nil => cases refused
    | cons argument rest ih =>
      rw [List.foldlM_cons] at refused
      cases first : choices.accept argument with
      | error decided =>
        rw [first] at refused
        cases refused
        exact ⟨[], argument, rest, choices, rfl, rfl, first⟩
      | ok next =>
        rw [first] at refused
        obtain ⟨before, last, rest, middle, rfl, accepted, refused⟩ := ih refused
        refine ⟨argument :: before, last, rest, middle, rfl, ?_, refused⟩
        rw [List.foldlM_cons, first]
        exact accepted
  · rintro ⟨before, argument, rest, middle, rfl, accepted, refused⟩
    rw [List.foldlM_append, accepted]
    change (argument :: rest).foldlM accept middle = _
    rw [List.foldlM_cons, refused]
    rfl

end Choices

namespace Request

open Argument

variable {name : Bytes} {arguments : List Argument} {job : Job} {report : Report}

theorem job?_eq_ok_iff {request : Request} :
  request.job? name = .ok job ↔ request = .job job
  := by
  cases request <;> simp [job?]

/-- A request that is refused is reported on with the complaint and the usage. -/
theorem job?_refused (complaint : Complaint) :
  (refused complaint).job? name = .error (refusal name complaint.message)
  := by
  rw [job?, refusal, errorLine_eq]

/-- Groups of arguments ask for a job exactly if they are accepted. -/
theorem exists_job_iff :
  (∃ job, (ofArguments arguments).job? name = .ok job) ↔ Accepted arguments
  := by
  simp only [job?_eq_ok_iff, ofArguments_eq_job_iff]
  constructor
  · rintro ⟨job, acceptable, single, -⟩
    exact ⟨acceptable, job.source, single⟩
  · rintro ⟨acceptable, path, single⟩
    exact ⟨⟨path, _, _, _⟩, acceptable, single, rfl, rfl, rfl⟩

/-- The first group that is not accepted decides. -/
theorem ofArguments_of_undecided {before : List Argument} {argument : Argument} {request : Request}
    (undecided : Undecided before)
    (refused : (Choices.after {} before).accept argument = .error request)
    (rest : List Argument) :
  ofArguments (before ++ argument :: rest) = request
  := by
  have passed := Choices.foldlM_accept_default_iff.mpr ⟨undecided, rfl⟩
  rw [ofArguments,
    Choices.foldlM_accept_eq_error_iff.mpr ⟨before, argument, rest, _, rfl, passed, refused⟩]

/-- If no group decides, then it matters whether there is a source file. -/
theorem ofArguments_of_passed (undecided : Undecided arguments) :
  ofArguments arguments = (Choices.after {} arguments).request
  := by
  rw [ofArguments, Choices.foldlM_accept_default_iff.mpr ⟨undecided, rfl⟩]

/-- There is no source file if no group gives one. -/
theorem request_after_of_missing (missing : arguments.filterMap path? = []) :
  (Choices.after {} arguments).request = .refused .noSource
  := by
  simp [Choices.request, Choices.after, ← List.head?_filterMap, missing]

/-- Groups of arguments are reported on at once exactly if something decides so. -/
theorem job?_eq_error_iff :
  (ofArguments arguments).job? name = .error report ↔ Decided name arguments report
  := by
  constructor
  · intro told
    cases accepted : arguments.foldlM Choices.accept {} with
    | error request =>
      obtain ⟨before, argument, rest, middle, rfl, passed, refused⟩ :=
        Choices.foldlM_accept_eq_error_iff.mp accepted
      obtain ⟨undecided, rfl⟩ := Choices.foldlM_accept_default_iff.mp passed
      rw [ofArguments_of_undecided undecided refused] at told
      obtain ⟨rfl, rfl⟩ | ⟨complaint, rfl, objection⟩ := Choices.objection_of_accept_after refused
      · cases told
        apply Decided.help rfl undecided
      · rw [job?_refused] at told
        cases told
        apply Decided.refused rfl undecided objection
    | ok choices =>
      obtain ⟨undecided, -⟩ := Choices.foldlM_accept_default_iff.mp accepted
      rw [ofArguments_of_passed undecided] at told
      cases given : arguments.filterMap path? with
      | nil =>
        rw [request_after_of_missing given, job?_refused] at told
        cases told
        apply Decided.incomplete undecided given
      | cons path others =>
        simp [Choices.request, Choices.after, ← List.head?_filterMap, given, job?] at told
  · intro decided
    cases decided with
    | @help before _ divided undecided =>
      have asked : (Choices.after {} before).accept .help = .error .help := rfl
      rw [divided, ofArguments_of_undecided undecided asked]
      rfl
    | refused divided undecided objection =>
      obtain ⟨complaint, refused, rfl⟩ := Choices.accept_after_of_objection objection
      rw [divided, ofArguments_of_undecided undecided refused, job?_refused]
    | incomplete undecided missing =>
      rw [ofArguments_of_passed undecided, request_after_of_missing missing, job?_refused]
      rfl

end Request

/-! ### The order of groups -/

namespace Argument

/-- A choice does not depend on groups that do not make it. -/
theorem lastChoice_filter {α : Type} {choice? : Argument → Option α} {makes : Argument → Bool}
    (only : ∀ argument, makes argument = false → choice? argument = none) (otherwise : α)
    (arguments : List Argument) :
  lastChoice choice? otherwise (arguments.filter makes) = lastChoice choice? otherwise arguments
  := by
  rw [lastChoice, lastChoice, List.filterMap_filter]
  congr 3
  funext argument
  cases made : makes argument with
  | false => rw [only argument made]; rfl
  | true => rfl

theorem eof?_of_not_isEof {argument : Argument} (other : argument.isEof = false) :
  argument.eof? = none
  := by
  cases argument <;> first | rfl | cases other

theorem maxSteps?_of_not_isLimit {argument : Argument} (other : argument.isLimit = false) :
  argument.maxSteps? = none
  := by
  cases argument <;> first | rfl | cases other

theorem isComplete_of_isAcceptable {argument : Argument} (acceptable : argument.isAcceptable) :
  argument.isComplete
  := by
  cases argument <;> first | rfl | cases acceptable

end Argument

namespace Request

open Argument

variable {arguments arguments' : List Argument} {job : Job}

/-- Groups of arguments in another order ask for the same job, as long as those that choose the same
thing stay in order. -/
theorem ofArguments_of_perm (reordered : arguments'.Perm arguments)
    (eofs : arguments'.filter isEof = arguments.filter isEof)
    (limits : arguments'.filter isLimit = arguments.filter isLimit)
    (asked : ofArguments arguments = .job job) :
  ofArguments arguments' = .job job
  := by
  obtain ⟨acceptable, single, verbose, printOnly, options⟩ := ofArguments_eq_job_iff.mp asked
  apply ofArguments_eq_job_iff.mpr
  refine ⟨?_, ?_, ?_, ?_, ?_⟩
  · intro argument among
    apply acceptable argument (reordered.mem_iff.mp among)
  · apply List.perm_singleton.mp
    rw [← single]
    apply reordered.filterMap
  · rw [verbose, reordered.contains_eq]
  · rw [printOnly, reordered.contains_eq]
  · rw [options, ← lastChoice_filter (fun _ => eof?_of_not_isEof) _ arguments, ← eofs,
      lastChoice_filter (fun _ => eof?_of_not_isEof),
      ← lastChoice_filter (fun _ => maxSteps?_of_not_isLimit) _ arguments, ← limits,
      lastChoice_filter (fun _ => maxSteps?_of_not_isLimit)]

end Request

open Argument

/-- Groups of arguments that have been accepted are found again when they are written in another
order. -/
theorem ofList_flatMap_written_of_perm {arguments : List Bytes} {groups : List Argument} {job : Job}
    (accepted : Request.ofList arguments = .job job) (reordered : groups.Perm (ofList arguments)) :
  ofList (groups.flatMap written) = groups
  := by
  obtain ⟨acceptable, -⟩ := Request.ofArguments_eq_job_iff.mp accepted
  apply ofList_flatMap_written
  · intro group among
    apply (divides_ofList arguments).proper group (reordered.mem_iff.mp among)
  · intro group among
    apply isComplete_of_isAcceptable
    apply acceptable group (reordered.mem_iff.mp among)

/-- The arguments `-e zero -l 5 echo -e keep -v`. -/
def chosenTwice : List Bytes :=
  ["-e", "zero", "-l", "5", "echo", "-e", "keep", "-v"].map Bytes.ofString

/-- The same groups in the order `-v -e zero echo -e keep -l 5`. -/
def chosenTwiceReordered : List Argument :=
  [.verbose, .eof (Bytes.ofString "zero"), .source (Bytes.ofString "echo"),
    .eof (Bytes.ofString "keep"), .limit (Bytes.ofString "5")]

/-- The arguments `echo -e -h -x`. -/
def mistaken : List Bytes :=
  ["echo", "-e", "-h", "-x"].map Bytes.ofString

/-- What is reported of the arguments `echo -e -h -x`. -/
def mistakenReport : Report :=
  ⟨1, .empty, Bytes.ofString "error: invalid eof behaviour: -h\nUsage:\nbfinterp" ++ Bytes.ofString
    (" [-v] [-p] [-e MODE] [-l STEPS] SOURCE_FILE\n"
      ++ "OPTIONS:\n"
      ++ "    -v      print loading and execution info on stderr\n"
      ++ "    -p      print the decoded program and exit\n"
      ++ "    -e      behaviour of \",\" at end of input: fail (default), zero, keep\n"
      ++ "    -l      abort after STEPS executed instructions (0 = no limit)\n"
      ++ "    -h      print this message\n"), []⟩

theorem mistakenReport_eq :
  mistakenReport = refusal (Bytes.ofString "bfinterp")
    (Bytes.ofString "invalid eof behaviour: " ++ Bytes.ofString "-h")
  := by
  have front : Bytes.ofString "error: invalid eof behaviour: -h\nUsage:\nbfinterp" =
      Bytes.ofString "error: " ++ (Bytes.ofString "invalid eof behaviour: " ++ Bytes.ofString "-h")
        ++ Bytes.ofString "\n" ++ (Bytes.ofString "Usage:\n" ++ Bytes.ofString "bfinterp") := by
    decide +kernel
  rw [mistakenReport, refusal, usage, front, Array.append_assoc]

end CommandLine

end ByteTape
