import ByteTape.CommandLine.Request
import ByteTape.Load
import ByteTape.Machine

/-!
# What a command line does

A `Report` is what can be seen of a finished execution: its exit code, what it printed and which
source files it opened.  `CommandLine.execute` gives the report of a command line together with
what is left of the input.  On the way, `Job.prepare` turns a loaded source file into a `Launch`,
which is a program about to be run, and `Launch.report` turns the end of the run into a report.
-/

namespace ByteTape

namespace CommandLine

/-- What can be seen of a finished execution. -/
structure Report where
  exitCode : UInt32
  output : Output
  /-- What was printed besides the output: errors, information and usage. -/
  diagnostics : Bytes
  /-- The source files that were opened. -/
  opened : List Bytes
  deriving DecidableEq

/-- How the program is used, given the name under which it was called. -/
def usage (name : Bytes) : Bytes :=
  Bytes.ofString "Usage:\n" ++ name ++ Bytes.ofString
    (" [-v] [-p] [-e MODE] [-l STEPS] SOURCE_FILE\n"
      ++ "OPTIONS:\n"
      ++ "    -v      print loading and execution info on stderr\n"
      ++ "    -p      print the decoded program and exit\n"
      ++ "    -e      behaviour of \",\" at end of input: fail (default), zero, keep\n"
      ++ "    -l      abort after STEPS executed instructions (0 = no limit)\n"
      ++ "    -h      print this message\n")

/-- The byte that ends a line. -/
def newline : UInt8 := '\n'.toUInt8

/-- A line that tells of an error. -/
def errorLine (message : Bytes) : Bytes :=
  (Bytes.ofString "error: " ++ message).push newline

/-- A line that tells what is being done, printed only by verbose executions. -/
def infoLine (verbose : Bool) (message : Bytes) : Bytes :=
  if verbose then (Bytes.ofString "[INFO] " ++ message).push newline else #[]

/-- A program about to be run. -/
structure Launch where
  program : Program
  options : Options
  verbose : Bool
  /-- The diagnostics printed so far. -/
  diagnostics : Bytes
  /-- The source files opened so far. -/
  opened : List Bytes

/-- The line printed before a source file is loaded. -/
def Job.opening (job : Job) : Bytes :=
  infoLine job.verbose (Bytes.ofString "Opening file " ++ job.source)

/-- The line printed before a program is run. -/
def Job.dump (job : Job) (program : Program) : Bytes :=
  infoLine job.verbose
    (Bytes.ofString ("Dumping program (" ++ Decimal.ofNat program.size ++ " instructions):\n")
      ++ program.format)

/-- What to do once the source file has been loaded, or not: give a report at once, or run a
program.  An error tells of a path in the way in which paths are shown. -/
def Job.prepare (job : Job) (shown : Bytes → Bytes) :
    Except LoadError Bytes → Except Report Launch
  | .error error =>
    .error ⟨1, .empty, job.opening ++ errorLine (error.message shown), []⟩
  | .ok source =>
    let program := Program.parse source
    if job.printOnly then
      .error ⟨0, .ofBytes (program.format.push newline), job.opening, [job.source]⟩
    else
      .ok ⟨program, job.options, job.verbose, job.opening ++ job.dump program, [job.source]⟩

/-- The last line of diagnostics of a run. -/
def Launch.closing (launch : Launch) (steps : UInt64) : Option Fault → Bytes
  | none =>
    infoLine launch.verbose
      (Bytes.ofString ("Halted after " ++ Decimal.ofNat steps.toNat ++ " steps"))
  | some fault => errorLine (Bytes.ofString fault.message)

/-- The exit code of a run. -/
def exitCode (fault : Option Fault) : UInt32 :=
  if fault.isSome then 1 else 0

/-- The output that a run leaves.  All of it is handed over before a fault is told. -/
def finalOutput (m : Machine) : Option Fault → Output
  | none => m.store.output
  | some _ => m.store.output.flush

/-- The report of a run that ended in a given state, with a fault or without. -/
def Launch.report (launch : Launch) (m : Machine) (fault : Option Fault) : Report :=
  ⟨exitCode fault, finalOutput m fault, launch.diagnostics ++ launch.closing m.steps fault,
    launch.opened⟩

/-- The report of a request that does not touch any file, and the job of any other. -/
def Request.job? (name : Bytes) : Request → Except Report Job
  | .help => .error ⟨0, .empty, usage name, []⟩
  | .refused complaint => .error ⟨1, .empty, errorLine complaint.message ++ usage name, []⟩
  | .job wanted => .ok wanted

/-- Run a program that is about to be run. -/
def Launch.run (launch : Launch) (fuel : Nat) (input : List UInt8) : Option (Report × Input) :=
  (Machine.run launch.program launch.options fuel (.initial input)).map
    fun (m, fault) => (launch.report m fault, m.store.input)

/-- The report of a command line and what is left of its input, given how paths are shown, the
name of the program, the files there are, and the input.  Nothing is given if the source file is
run and does not end within `fuel` steps. -/
def execute (shown : Bytes → Bytes) (fuel : Nat) (name : Bytes) (arguments : List Bytes)
    (files : FileSystem) (input : List UInt8) : Option (Report × Input) :=
  match (Request.ofList arguments).job? name with
  | .error report => some (report, .ofList input)
  | .ok job =>
    match job.prepare shown (files.load job.source) with
    | .error report => some (report, .ofList input)
    | .ok launch => launch.run fuel input

end CommandLine

end ByteTape
