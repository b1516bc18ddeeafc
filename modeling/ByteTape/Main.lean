import ByteTape.CommandLine.Report

/-!
# The program

The program carries out a command line with the files, the input and the output of the
process.  Everything it decides is decided by the functions that `CommandLine.execute` is
made of.  The difference is in time: the output is printed while a program runs, and input is
asked for when it needs some, so that one can have a conversation with it.
-/

namespace ByteTape

namespace Console

/-- The bytes of a source file, or why there are none. -/
def loadFile (source : Bytes) : IO (Except LoadError Bytes) := do
  let path := (String.fromUTF8? ⟨source⟩).getD ""
  let information ← try
      let information ← (← IO.FS.realPath path).metadata
      pure (some information)
    catch _ => pure none
  match information with
  | none => return .error (.notRegular source)
  | some information =>
    if information.type != .file then return .error (.notRegular source)
    if FileSystem.maxFileSize < information.byteSize.toNat then
      return .error (.tooBig information.byteSize.toNat)
    try
      return .ok (← IO.FS.readBinFile path).data
    catch _ => return .error (.cannotOpen source)

/-- Print bytes and make sure that they arrive. -/
def print (stream : IO.FS.Stream) (bytes : Bytes) : IO Unit := do
  stream.write ⟨bytes⟩
  stream.flush

/-- Print a report and give its exit code. -/
def printReport (report : CommandLine.Report) : IO UInt32 := do
  print (← IO.getStdout) report.output.bytes
  print (← IO.getStderr) report.diagnostics
  return report.exitCode

/-- How many bytes are read or printed at once. -/
def chunk : Nat := 4096

/-- The machine with input to read and with its output printed, when it is time for that. -/
def exchange (launch : CommandLine.Launch) (input output : IO.FS.Stream) (m : Machine) :
    IO Machine := do
  if m.awaitsInput launch.program launch.options then
    print output m.store.output.bytes
    let bytes ← input.read chunk.toUSize
    return m.forgetOutput.feed bytes.data.toList
  else if chunk ≤ m.store.output.bytes.size then
    print output m.store.output.bytes
    return m.forgetOutput
  else
    return m

/-- Bring a machine to its end. -/
partial def conduct (launch : CommandLine.Launch) (input output : IO.FS.Stream) (m : Machine) :
    IO (Machine × Option Fault) := do
  match (← exchange launch input output m).step launch.program launch.options with
  | (m, .running) => conduct launch input output m
  | (m, .halted) => return (m, none)
  | (m, .failed fault) => return (m, some fault)

/-- Carry out a job.  Paths are shown as they are. -/
def carryOut (job : CommandLine.Job) : IO UInt32 := do
  match job.prepare id (← loadFile job.source) with
  | .error report => printReport report
  | .ok launch =>
    let output ← IO.getStdout
    let diagnostics ← IO.getStderr
    print diagnostics launch.diagnostics
    let (m, fault) ← conduct launch (← IO.getStdin) output (.initial [])
    print output m.store.output.bytes
    print diagnostics (launch.closing m.steps fault)
    return CommandLine.exitCode fault

end Console

end ByteTape

/-- Carry out the command line of the process. -/
def main (arguments : List String) : IO UInt32 := do
  let name := ByteTape.Bytes.ofString (← IO.appPath).toString
  let request := ByteTape.CommandLine.Request.ofList (arguments.map ByteTape.Bytes.ofString)
  match request.job? name with
  | .error report => ByteTape.Console.printReport report
  | .ok job => ByteTape.Console.carryOut job
