import ByteTape.Proofs.CommandLine.Decision
import ByteTape.Proofs.FileSystem.Loading
import ByteTape.Proofs.Spelling

/-!
# Printed programs

A command line that asks for a print of the program puts out the source file without its comments,
on a line of its own (`print`).  This is a source file itself, and it spells the same program
(`parse_print`).  If it is named instead of the source file that it was printed from (`naming`),
then nothing changes but which file is opened and the line that tells so.  Only the end of the line
can make it too big (`maxFileSize_lt_size_print_iff`).
-/

namespace ByteTape

namespace CommandLine

/-- What is printed of a source file: its instructions, on a line. -/
def print (source : Bytes) : Bytes :=
  (Program.withoutComments source).push newline

/-! ### The text that is printed -/

/-- The print of a source file spells the same program. -/
theorem parse_print (source : Bytes) :
  Program.parse (print source) = Program.parse source
  := by
  have comment : Program.parse #[newline] = #[] := by rfl
  rw [print, Array.push_eq_append, Program.parse_append, Program.parse_withoutComments, comment,
    Array.append_empty]

/-- The print of a print is the same. -/
theorem print_print (source : Bytes) :
  print (print source) = print source
  := by
  rw [print, Program.parse_eq_parse_iff.mp (parse_print source), print]

/-- The print of a source file that is not too big is too big only if there are no comments in the
source file and it has the greatest size that there may be. -/
theorem maxFileSize_lt_size_print_iff {source : Bytes}
    (small : source.size ≤ FileSystem.maxFileSize) :
  FileSystem.maxFileSize < (print source).size ↔
    source.size = FileSystem.maxFileSize ∧ ∀ byte ∈ source, byte ∈ Instruction.alphabet
  := by
  have longer : (print source).size = (Program.withoutComments source).size + 1 :=
    Array.size_push ..
  have shorter : (Program.withoutComments source).size ≤ source.size := Array.size_filter_le
  have equal : (Program.withoutComments source).size = source.size ↔
      ∀ byte ∈ source, byte ∈ Instruction.alphabet := by
    rw [Program.withoutComments, Array.filter_size_eq_size]
    simp
  rw [← equal, longer]
  omega

/-! ### Naming another source file -/

namespace Argument

variable {path : Bytes} {argument : Argument} {arguments : List Argument}

/-- The group that gives another source file, if it gives one. -/
def withSource (path : Bytes) : Argument → Argument
  | source _ => source path
  | argument => argument

theorem isProper_withSource (plain : path[0]? ≠ some hyphen) (proper : argument.IsProper) :
  (argument.withSource path).IsProper
  := by
  cases argument with
  | source _ => apply plain
  | _ => apply proper

theorem isAcceptable_withSource (path : Bytes) (argument : Argument) :
  (argument.withSource path).isAcceptable = argument.isAcceptable
  := by
  cases argument <;> rfl

theorem path?_withSource (path : Bytes) (argument : Argument) :
  (argument.withSource path).path? = argument.path?.map fun _ => path
  := by
  cases argument <;> rfl

/-- A group that gives no source file is left as it is. -/
theorem withSource_of_path? (other : argument.path? = none) (path : Bytes) :
  argument.withSource path = argument
  := by
  cases argument with
  | source _ => cases other
  | _ => rfl

theorem contains_map_withSource (other : argument.path? = none) (path : Bytes)
    (arguments : List Argument) :
  (arguments.map (withSource path)).contains argument = arguments.contains argument
  := by
  apply Bool.eq_iff_iff.mpr
  rw [List.contains_iff_mem, List.contains_iff_mem, List.mem_map]
  constructor
  · rintro ⟨argument', among, rfl⟩
    rw [path?_withSource, Option.map_eq_none_iff] at other
    rwa [withSource_of_path? other]
  · intro among
    exact ⟨argument, among, withSource_of_path? other path⟩

/-- Choices do not depend on the source file. -/
theorem lastChoice_map_withSource {α : Type} {choice? : Argument → Option α}
    (apart : ∀ path, choice? (source path) = none) (otherwise : α) (path : Bytes)
    (arguments : List Argument) :
  lastChoice choice? otherwise (arguments.map (withSource path)) =
    lastChoice choice? otherwise arguments
  := by
  have same : choice? ∘ withSource path = choice? := by
    funext argument
    cases argument with
    | source _ => simp [withSource, apart]
    | _ => rfl
  rw [lastChoice, lastChoice, List.filterMap_map, same]

end Argument

open Argument

/-- The command line that names another source file instead of its own. -/
def naming (path : Bytes) (arguments : List Bytes) : List Bytes :=
  ((ofList arguments).map (withSource path)).flatMap written

variable {arguments : List Bytes} {job : Job} {path : Bytes}

/-- Groups of arguments with another source file ask for the same to be done with that. -/
theorem Request.ofArguments_map_withSource {arguments : List Argument}
    (asked : ofArguments arguments = .job job) (path : Bytes) :
  ofArguments (arguments.map (withSource path)) = .job { job with source := path }
  := by
  obtain ⟨acceptable, given, verbose, printOnly, options⟩ := ofArguments_eq_job_iff.mp asked
  apply ofArguments_eq_job_iff.mpr
  refine ⟨?_, ?_, ?_, ?_, ?_⟩
  · simpa [isAcceptable_withSource] using acceptable
  · have paths : path? ∘ withSource path = fun argument => argument.path?.map fun _ => path := by
      funext argument
      apply path?_withSource
    rw [List.filterMap_map, paths, ← List.map_filterMap, given]
    rfl
  · rw [contains_map_withSource rfl, verbose]
  · rw [contains_map_withSource rfl, printOnly]
  · rw [lastChoice_map_withSource fun _ => rfl, lastChoice_map_withSource fun _ => rfl, options]

/-- The groups of a command line that names another source file are the same, but for that file. -/
theorem ofList_naming (accepted : Request.ofList arguments = .job job)
    (plain : path[0]? ≠ some hyphen) :
  ofList (naming path arguments) = (ofList arguments).map (withSource path)
  := by
  obtain ⟨acceptable, -⟩ := Request.ofArguments_eq_job_iff.mp accepted
  apply ofList_flatMap_written
  · intro group among
    obtain ⟨argument, given, rfl⟩ := List.mem_map.mp among
    apply isProper_withSource plain ((divides_ofList arguments).proper argument given)
  · intro group among
    obtain ⟨argument, given, rfl⟩ := List.mem_map.mp among
    apply isComplete_of_isAcceptable
    rw [isAcceptable_withSource]
    apply acceptable argument given

/-- A command line that names another source file is accepted if that cannot be taken for a flag. -/
theorem Request.ofList_naming_eq_job (accepted : ofList arguments = .job job)
    (plain : path[0]? ≠ some hyphen) :
  ofList (naming path arguments) = .job { job with source := path }
  := by
  rw [ofList, ofList_naming accepted plain]
  apply ofArguments_map_withSource accepted

/-- Nothing but the one argument that is the source file is replaced. -/
theorem exists_naming (accepted : Request.ofList arguments = .job job) (path : Bytes) :
  ∃ front back, arguments = front ++ job.source :: back ∧
    naming path arguments = front ++ path :: back
  := by
  obtain ⟨-, given, -⟩ := Request.ofArguments_eq_job_iff.mp accepted
  obtain ⟨before, argument, after, divided, others, here, later⟩ :=
    List.filterMap_eq_cons_iff.mp given
  obtain rfl : argument = .source job.source := by
    cases argument <;> simp_all [path?]
  have kept {groups : List Argument} (others : ∀ group ∈ groups, group.path? = none) :
      groups.map (withSource path) = groups := by
    apply (List.map_congr_left fun group among => ?_).trans (List.map_id groups)
    apply withSource_of_path? (others group among)
  use before.flatMap written, after.flatMap written
  constructor
  · rw [← (divides_ofList arguments).spelled, divided, List.flatMap_append, List.flatMap_cons]
    rfl
  · rw [naming, divided, List.map_append, List.map_cons, kept others,
      kept (List.filterMap_eq_nil_iff.mp later), List.flatMap_append, List.flatMap_cons]
    rfl

/-! ### What is done with a print -/

/-- What comes of a job with a source file that spells a program, apart from the opening of that
file. -/
def Job.work (job : Job) (program : Program) (fuel : Nat) (input : List UInt8) :
    Option (Report × Input) :=
  if job.printOnly then some (⟨0, .ofBytes (program.format.push newline), #[], []⟩, .ofList input)
  else Launch.run ⟨program, job.options, job.verbose, job.dump program, []⟩ fuel input

/-- An execution behind a line that is told and a file that is opened first. -/
def behindOpening (line path : Bytes) : Report × Input → Report × Input
  | (⟨exitCode, output, diagnostics, opened⟩, left) =>
    (⟨exitCode, output, line ++ diagnostics, path :: opened⟩, left)

/-- A job first opens its source file, and what it does then depends on the program only. -/
theorem Job.outcome_ok (job : Job) (shown : Bytes → Bytes) (source : Bytes) (fuel : Nat)
    (input : List UInt8) :
  job.outcome shown (.ok source) fuel input =
    (job.work (Program.parse source) fuel input).map
      (CommandLine.behindOpening job.opening job.source)
  := by
  cases printed : job.printOnly with
  | true => simp [outcome, prepare, work, printed, CommandLine.behindOpening]
  | false =>
    simp [outcome, prepare, work, printed, Launch.run, Launch.report, Launch.closing,
      CommandLine.behindOpening, Function.comp_def]

/-- A job that asks for a print puts it out. -/
theorem Job.prepare_printOnly (printed : job.printOnly = true) (shown : Bytes → Bytes)
    (source : Bytes) :
  job.prepare shown (.ok source) =
    .error ⟨0, .ofBytes (CommandLine.print source), job.opening, [job.source]⟩
  := by
  rw [prepare, if_pos printed, Program.format_parse_eq, CommandLine.print]

/-- A source file `s`, and its print in a file `d`. -/
def withPrint (source : Bytes) : FileSystem :=
  ⟨[([Bytes.ofString "s"], .file (.ofBytes source)),
    ([Bytes.ofString "d"], .file (.ofBytes (print source)))], []⟩

theorem isFile_withPrint (source : Bytes) :
  (withPrint source).IsFile (Bytes.ofString "s") (.ofBytes source) ∧
  (withPrint source).IsFile (Bytes.ofString "d") (.ofBytes (print source))
  := by
  -- `Path.visible` is not structurally recursive, so that no plain `rfl` unfolds it.
  constructor
  · apply FileSystem.isFile_iff.mpr
    with_unfolding_all rfl
  · apply FileSystem.isFile_iff.mpr
    with_unfolding_all rfl

theorem load_withPrint {source : Bytes} (small : source.size ≤ FileSystem.maxFileSize) :
  (withPrint source).load (Bytes.ofString "s") = .ok source
  := by
  have loads := FileSystem.Loads.loaded (isFile_withPrint source).1 small rfl
  rw [File.bytes_ofBytes] at loads
  apply FileSystem.load_eq_iff.mpr loads

/-- A source with a bracket that is not closed. -/
def unclosed : Bytes :=
  Bytes.ofString "a[,b"

/-- A source that has the greatest size there may be, and no comments. -/
def full : Bytes :=
  Array.replicate FileSystem.maxFileSize '+'.toUInt8

theorem size_print_full :
  (print full).size = FileSystem.maxFileSize + 1
  := by
  have plus : '+'.toUInt8 ∈ Instruction.alphabet := by decide
  simp [print, Program.withoutComments, full, plus]

end CommandLine

end ByteTape
