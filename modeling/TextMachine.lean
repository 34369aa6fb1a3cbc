import TextMachine.AssocList
import TextMachine.Op
import TextMachine.Instruction
import TextMachine.Comments
import TextMachine.Program
import TextMachine.Resolution
import TextMachine.Lifting
import TextMachine.Lines
import TextMachine.Listing
import TextMachine.Output
import TextMachine.Reading
import TextMachine.Machine.Queue
import TextMachine.Machine.Registers
import TextMachine.Machine.Basic
import TextMachine.Routine
import TextMachine.Build.Pool
import TextMachine.Build.Basic
import TextMachine.Build.Control
import TextMachine.Build.Library
import TextMachine.Script.Basic
import TextMachine.Script.Run
import TextMachine.CommandLine.Number
import TextMachine.CommandLine.Arguments
import TextMachine.CommandLine.Failure
import TextMachine.CommandLine.Command
import TextMachine.CommandLine.Environment
import TextMachine.Main
import TextMachine.Proofs.Resolution.Positions
import TextMachine.Proofs.Machine.Traces
import TextMachine.Proofs.Build.Temporaries
import TextMachine.Proofs.Structured.Basic
import TextMachine.Proofs.Build.Emission
import TextMachine.Proofs.Structured.Layout
import TextMachine.Proofs.Structured.Simulation
import TextMachine.Proofs.Resolution.Symbolic
import TextMachine.Proofs.Resolution.RoundTrip
import TextMachine.Proofs.Structured.Labels
import TextMachine.Proofs.Library.Effects
import TextMachine.Proofs.Structured.Folds
import TextMachine.Proofs.Structured.Timing
import TextMachine.Proofs.Library.RunningTime
import TextMachine.Proofs.Resolution.Errors
import TextMachine.Proofs.Text.Reading
import TextMachine.Proofs.Text.Grammar
import TextMachine.Proofs.Text.Lines
import TextMachine.Proofs.Text.Transcripts
import TextMachine.Proofs.Text.Limits
import TextMachine.Proofs.Structured.SelfJumps
import TextMachine.Proofs.Build.LabelNames
import TextMachine.Proofs.Build.Sessions
import TextMachine.Proofs.Script.Labels
import TextMachine.Proofs.Build.Operands
import TextMachine.Proofs.CommandLine.Arguments
import TextMachine.Proofs.CommandLine.Numerals
import TextMachine.Proofs.CommandLine.Requests
import TextMachine.Proofs.CommandLine.Delivery
import TextMachine.Proofs.CommandLine.EndToEnd
import TextMachine.Proofs.Machine.Bounds
import TextMachine.Proofs.Resolution.Concatenation
import TextMachine.Proofs.Resolution.Invariance
import TextMachine.Proofs.Machine.Concatenation
import TextMachine.Proofs.Build.Recipes
import TextMachine.Proofs.Build.Histories
import TextMachine.Proofs.Build.Nesting
import TextMachine.Proofs.Script.Recipes
import TextMachine.Proofs.Script.FailedBodies
import TextMachine.Proofs.Build.Rebasing
import TextMachine.Proofs.Machine.Rebasing
import TextMachine.Proofs.Script.Rebasing
import TextMachine.Proofs.Resolution.Specification
import TextMachine.Proofs.Resolution.Lifting
import TextMachine.Proofs.Library.Validation
