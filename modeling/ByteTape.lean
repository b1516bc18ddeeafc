import ByteTape.Code
import ByteTape.FileSystem.Creation
import ByteTape.JumpTable
import ByteTape.Main
import ByteTape.Nesting
import ByteTape.Proofs.Code.Run
import ByteTape.Proofs.CommandLine.Acceptance
import ByteTape.Proofs.CommandLine.Decision
import ByteTape.Proofs.CommandLine.Execution
import ByteTape.Proofs.CommandLine.Grouping
import ByteTape.Proofs.CommandLine.Print
import ByteTape.Proofs.CommandLine.Verbosity
import ByteTape.Proofs.Copying
import ByteTape.Proofs.CountingLoop
import ByteTape.Proofs.Decimal
import ByteTape.Proofs.Failure
import ByteTape.Proofs.FileSystem.Loading
import ByteTape.Proofs.Input.Causality
import ByteTape.Proofs.Input.Padding
import ByteTape.Proofs.Input.Readings
import ByteTape.Proofs.Matching
import ByteTape.Proofs.Nesting
import ByteTape.Proofs.Pairing
import ByteTape.Proofs.Progress
import ByteTape.Proofs.Sequence
import ByteTape.Proofs.Session.Brackets
import ByteTape.Proofs.Session.Commands
import ByteTape.Proofs.Session.Flushes
import ByteTape.Proofs.Session.Pauses
import ByteTape.Proofs.Session.Readings
import ByteTape.Proofs.Spelling
import ByteTape.Proofs.StepLimit
import ByteTape.Proofs.Termination
import ByteTape.Proofs.Transition
import ByteTape.Proofs.Verdict
import ByteTape.Proofs.WordMachine
import ByteTape.Session
import ByteTape.WordMachine
