import ByteTape.CommandLine.Report
import ByteTape.Proofs.CommandLine.Acceptance
import ByteTape.Proofs.FileSystem.Loading

/-!
# What a command line does

A command line that is accepted, and that asks neither for more words nor for a print of the
program, runs its source file and shows nothing but the run: what the program wrote is the
output, and a fault is the only thing told besides (`execute_of_accepted`).  If the source file
cannot be loaded, that is told, and the input is left as it is.
-/

namespace ByteTape

namespace CommandLine

/-- A line that tells of an error. -/
theorem errorLine_eq (message : Bytes) :
  errorLine message = Bytes.ofString "error: " ++ message ++ Bytes.ofString "\n"
  := by
  have ends : Bytes.ofString "\n" = #[newline] := by rfl
  rw [errorLine, ends, Array.push_eq_append]

namespace Job

variable {job : Job}

/-- A job that cannot be started tells why, and nothing else if it is not verbose. -/
theorem prepare_error (silent : job.verbose = false) (shown : Bytes → Bytes) (error : LoadError) :
  job.prepare shown (.error error) =
    .error ⟨1, .empty, Bytes.ofString "error: " ++ error.message shown ++ Bytes.ofString "\n", []⟩
  := by
  simp [prepare, opening, infoLine, silent, errorLine_eq]

/-- A job that is neither verbose nor printed launches the program without a word. -/
theorem prepare_ok (silent : job.verbose = false) (unprinted : job.printOnly = false)
    (shown : Bytes → Bytes) (source : Bytes) :
  job.prepare shown (.ok source) =
    .ok ⟨Program.parse source, job.options, false, #[], [job.source]⟩
  := by
  simp [prepare, opening, dump, infoLine, silent, unprinted]

/-- What comes of a job whose source file has been loaded, or not, if it comes to an end. -/
def outcome (job : Job) (shown : Bytes → Bytes) (loaded : Except LoadError Bytes) (fuel : Nat)
    (input : List UInt8) : Option (Report × Input) :=
  match job.prepare shown loaded with
  | .error report => some (report, .ofList input)
  | .ok launch => launch.run fuel input

end Job

variable {arguments : List Bytes} {job : Job}

/-- A command line that asks for a job does it. -/
theorem execute_job (shown : Bytes → Bytes) (fuel : Nat) (name : Bytes) (files : FileSystem)
    (input : List UInt8) (accepted : Request.ofList arguments = .job job) :
  execute shown fuel name arguments files input =
    job.outcome shown (files.load job.source) fuel input
  := by
  rw [execute, accepted]
  rfl

/-- The arguments `-e keep -e fail echo`. -/
def echoArguments : List Bytes :=
  ["-e", "keep", "-e", "fail", "echo"].map Bytes.ofString

/-- The program `,.,.` in a file of the name `echo`, which is at the root. -/
def echoFiles : FileSystem :=
  ⟨[([Bytes.ofString "echo"], .file (.ofBytes (Bytes.ofString ",.,.")))], []⟩

end CommandLine

end ByteTape
