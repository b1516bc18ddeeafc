import ByteTape.CommandLine.Argument
import ByteTape.Options

/-!
# What a command line asks for

`Request.ofArguments` reads groups of arguments from left to right.  The first group that asks
for help or cannot be accepted decides; if all are accepted, there must be a source file.
Nothing but the arguments is looked at.
-/

namespace ByteTape

namespace CommandLine

/-- What can be wrong with a command line. -/
inductive Complaint where
  | missingValue (flag : Bytes)
  | invalidEof (value : Bytes)
  | invalidLimit (value : Bytes)
  | unknownFlag (flag : Bytes)
  | secondSource
  | noSource
  deriving DecidableEq

/-- A complaint in words. -/
def Complaint.message : Complaint → Bytes
  | missingValue flag => Bytes.ofString "missing value for " ++ flag
  | invalidEof value => Bytes.ofString "invalid eof behaviour: " ++ value
  | invalidLimit value => Bytes.ofString "invalid step limit: " ++ value
  | unknownFlag flag => Bytes.ofString "unknown flag: " ++ flag
  | secondSource => Bytes.ofString "only one source file can be run"
  | noSource => Bytes.ofString "file to run not specified"

/-- The choices made on a command line. -/
structure Choices where
  verbose : Bool := false
  printOnly : Bool := false
  options : Options := {}
  source : Option Bytes := none
  deriving DecidableEq

/-- A source file and what to do with it. -/
structure Job where
  source : Bytes
  verbose : Bool
  printOnly : Bool
  options : Options
  deriving DecidableEq

/-- What a command line asks for. -/
inductive Request where
  /-- Print how the program is used. -/
  | help
  /-- Nothing that can be done. -/
  | refused (complaint : Complaint)
  /-- Run or print a source file. -/
  | job (job : Job)
  deriving DecidableEq

/-- The choices after one more group of arguments, or the request that this group decides. -/
def Choices.accept (choices : Choices) : Argument → Except Request Choices
  | .verbose => .ok { choices with verbose := true }
  | .printOnly => .ok { choices with printOnly := true }
  | .help => .error .help
  | .eof value =>
    match EofPolicy.ofBytes? value with
    | some eof => .ok { choices with options := { choices.options with eof } }
    | none => .error (.refused (.invalidEof value))
  | .limit value =>
    match Options.stepLimit? value with
    | some maxSteps => .ok { choices with options := { choices.options with maxSteps } }
    | none => .error (.refused (.invalidLimit value))
  | .valueless flag => .error (.refused (.missingValue flag))
  | .unknown flag => .error (.refused (.unknownFlag flag))
  | .source path =>
    match choices.source with
    | none => .ok { choices with source := some path }
    | some _ => .error (.refused .secondSource)

/-- The request made by choices that are complete. -/
def Choices.request (choices : Choices) : Request :=
  match choices.source with
  | some source => .job ⟨source, choices.verbose, choices.printOnly, choices.options⟩
  | none => .refused .noSource

namespace Request

/-- The request made by groups of arguments. -/
def ofArguments (arguments : List Argument) : Request :=
  match arguments.foldlM Choices.accept {} with
  | .ok choices => choices.request
  | .error request => request

/-- The request made by a command line. -/
def ofList (arguments : List Bytes) : Request :=
  ofArguments (Argument.ofList arguments)

end Request

end CommandLine

end ByteTape
