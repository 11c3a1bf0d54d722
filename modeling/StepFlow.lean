import StepFlow.Binary64
import StepFlow.Binary64.Shortest
import StepFlow.Choice
import StepFlow.Choice.Glob
import StepFlow.CommandLine
import StepFlow.CommandLine.Options
import StepFlow.Definition
import StepFlow.Definition.Reader
import StepFlow.Definition.Writer
import StepFlow.Document
import StepFlow.Document.Draft
import StepFlow.Document.Numeral
import StepFlow.Document.Printer
import StepFlow.Document.Record
import StepFlow.Document.Shape
import StepFlow.Duration
import StepFlow.Execution
import StepFlow.Execution.Context
import StepFlow.Execution.Error
import StepFlow.Execution.Event
import StepFlow.Execution.Failure
import StepFlow.Execution.Flow
import StepFlow.Execution.Recovery
import StepFlow.Execution.Status
import StepFlow.Execution.Step
import StepFlow.Main
import StepFlow.Path
import StepFlow.Path.Grammar
import StepFlow.Path.Query
import StepFlow.Path.Reference
import StepFlow.Path.Template
import StepFlow.Process
import StepFlow.Process.Gather
import StepFlow.Process.Timeline
import StepFlow.Runner.Config
import StepFlow.Runner.Container
import StepFlow.Runner.Error
import StepFlow.Runner.Registry
import StepFlow.Runner.Request
import StepFlow.Runner.Script
import StepFlow.Session
import StepFlow.Table
import StepFlow.Text
import StepFlow.Text.Printable
import StepFlow.Text.Quoted
import StepFlow.Text.Utf8
import StepFlow.Timestamp
import StepFlow.Workflow
import StepFlow.Workflow.Error
import StepFlow.Workflow.Retry
import StepFlow.Workflow.State
import StepFlow.Proofs.Binary64.Nearest
import StepFlow.Proofs.Choice.Expression
import StepFlow.Proofs.Choice.FirstMatch
import StepFlow.Proofs.Choice.Glob
import StepFlow.Proofs.Choice.Integers
import StepFlow.Proofs.Choice.Inward
import StepFlow.Proofs.Choice.Operators
import StepFlow.Proofs.Choice.Order
import StepFlow.Proofs.Definition.Readable
import StepFlow.Proofs.Definition.RoundTrip
import StepFlow.Proofs.Definition.Written
import StepFlow.Proofs.Document.Canonical
import StepFlow.Proofs.Document.Decimal
import StepFlow.Proofs.Document.Record
import StepFlow.Proofs.Document.Table
import StepFlow.Proofs.Except
import StepFlow.Proofs.Execution.Account
import StepFlow.Proofs.Execution.Attempt
import StepFlow.Proofs.Execution.Backoff
import StepFlow.Proofs.Execution.BranchesAlone
import StepFlow.Proofs.Execution.Canonical
import StepFlow.Proofs.Execution.Checked
import StepFlow.Proofs.Execution.Course
import StepFlow.Proofs.Execution.Credentials
import StepFlow.Proofs.Execution.Determinate
import StepFlow.Proofs.Execution.History
import StepFlow.Proofs.Execution.Independent
import StepFlow.Proofs.Execution.Leaving
import StepFlow.Proofs.Execution.MapInTurn
import StepFlow.Proofs.Execution.MapSchedule
import StepFlow.Proofs.Execution.Merged
import StepFlow.Proofs.Execution.Nested
import StepFlow.Proofs.Execution.Onward
import StepFlow.Proofs.Execution.Orderly
import StepFlow.Proofs.Execution.Outcome
import StepFlow.Proofs.Execution.ParallelInTime
import StepFlow.Proofs.Execution.Parts
import StepFlow.Proofs.Execution.Prompt
import StepFlow.Proofs.Execution.Protocol
import StepFlow.Proofs.Execution.ReadBack
import StepFlow.Proofs.Execution.Recount
import StepFlow.Proofs.Execution.Sim
import StepFlow.Proofs.Execution.Tree
import StepFlow.Proofs.Execution.Untimed
import StepFlow.Proofs.Execution.Visit
import StepFlow.Proofs.Path.Acceptance
import StepFlow.Proofs.Path.Apart
import StepFlow.Proofs.Path.Canonical
import StepFlow.Proofs.Path.Delimited
import StepFlow.Proofs.Path.Grammar
import StepFlow.Proofs.Path.Halt
import StepFlow.Proofs.Path.Lens
import StepFlow.Proofs.Path.Location
import StepFlow.Proofs.Path.Longest
import StepFlow.Proofs.Path.Order
import StepFlow.Proofs.Path.Progression
import StepFlow.Proofs.Path.Rendering
import StepFlow.Proofs.Path.Root
import StepFlow.Proofs.Path.RoundTrip
import StepFlow.Proofs.Path.Select
import StepFlow.Proofs.Path.Slice
import StepFlow.Proofs.Path.Slot
import StepFlow.Proofs.Path.Spelling
import StepFlow.Proofs.Path.Stability
import StepFlow.Proofs.Path.Stops
import StepFlow.Proofs.Path.Tokens
import StepFlow.Proofs.Process.Acts
import StepFlow.Proofs.Process.Contract
import StepFlow.Proofs.Process.Exchanges
import StepFlow.Proofs.Process.FirstFailure
import StepFlow.Proofs.Process.Gather
import StepFlow.Proofs.Process.InTurn
import StepFlow.Proofs.Process.Lasts
import StepFlow.Proofs.Process.Run
import StepFlow.Proofs.Process.Sim
import StepFlow.Proofs.Runner.Settings
import StepFlow.Proofs.Session.Calls
import StepFlow.Proofs.Session.Closed
import StepFlow.Proofs.Session.Completion
import StepFlow.Proofs.Session.Credentials
import StepFlow.Proofs.Session.Events
import StepFlow.Proofs.Session.History
import StepFlow.Proofs.Session.Lifecycle
import StepFlow.Proofs.Session.Nested
import StepFlow.Proofs.Session.Order
import StepFlow.Proofs.Session.ReadBack
import StepFlow.Proofs.Session.Recount
import StepFlow.Proofs.Session.Steps
import StepFlow.Proofs.Session.Timeout
import StepFlow.Proofs.Session.Tree
import StepFlow.Proofs.Text
import StepFlow.Proofs.Workflow.Accepted
import StepFlow.Proofs.Workflow.Canonical
import StepFlow.Proofs.Workflow.Closed
import StepFlow.Proofs.Workflow.Contains
import StepFlow.Proofs.Workflow.Parts
import StepFlow.Proofs.Workflow.Verdict
