import Rehearsal.Broadcast
import Rehearsal.Catalog
import Rehearsal.CommandLine.Exit
import Rehearsal.CommandLine.Generate
import Rehearsal.CommandLine.Run
import Rehearsal.Configuration
import Rehearsal.Deployment
import Rehearsal.Error
import Rehearsal.Event
import Rehearsal.Execution
import Rehearsal.FileTree
import Rehearsal.FileTree.Path
import Rehearsal.Generation
import Rehearsal.Instant
import Rehearsal.Json.Decode
import Rehearsal.Json.Number
import Rehearsal.Json.Parser
import Rehearsal.Json.Printer
import Rehearsal.Json.Value
import Rehearsal.Libraries
import Rehearsal.Logbook
import Rehearsal.Number.Binary64
import Rehearsal.Number.Shortest
import Rehearsal.Page
import Rehearsal.Plan
import Rehearsal.Procedure
import Rehearsal.Proofs.Cancellation
import Rehearsal.Proofs.Cancellation.Record
import Rehearsal.Proofs.Cancellation.Token
import Rehearsal.Proofs.Check
import Rehearsal.Proofs.Conduct
import Rehearsal.Proofs.Configuration
import Rehearsal.Proofs.Configuration.Merge
import Rehearsal.Proofs.Configuration.Setting
import Rehearsal.Proofs.Consists
import Rehearsal.Proofs.Crowd
import Rehearsal.Proofs.Ending
import Rehearsal.Proofs.Fallible
import Rehearsal.Proofs.FileTree.Path
import Rehearsal.Proofs.FileTree.Place
import Rehearsal.Proofs.FileTree.Site
import Rehearsal.Proofs.Generation
import Rehearsal.Proofs.Generation.Artifact
import Rehearsal.Proofs.Generation.Build
import Rehearsal.Proofs.Generation.Produced
import Rehearsal.Proofs.Generation.Result
import Rehearsal.Proofs.Instant
import Rehearsal.Proofs.Interleaving
import Rehearsal.Proofs.Interleaving.Chronicle
import Rehearsal.Proofs.Interleaving.Notes
import Rehearsal.Proofs.Interleaving.Refusal
import Rehearsal.Proofs.Interleaving.Tokens
import Rehearsal.Proofs.Json.Delimit
import Rehearsal.Proofs.Json.Field
import Rehearsal.Proofs.Json.Number
import Rehearsal.Proofs.Json.Printer
import Rehearsal.Proofs.Json.Reading
import Rehearsal.Proofs.Json.Sorted
import Rehearsal.Proofs.Json.Stable
import Rehearsal.Proofs.Plan
import Rehearsal.Proofs.Plot
import Rehearsal.Proofs.Repetition
import Rehearsal.Proofs.Report.Credit
import Rehearsal.Proofs.Report.Lookup
import Rehearsal.Proofs.Report.Outcome
import Rehearsal.Proofs.Report.Walk
import Rehearsal.Proofs.Run
import Rehearsal.Proofs.Secures
import Rehearsal.Proofs.Selector
import Rehearsal.Proofs.Source.Checks
import Rehearsal.Proofs.Source.ClassFile
import Rehearsal.Proofs.Source.ConfigFile
import Rehearsal.Proofs.Source.Declarations
import Rehearsal.Proofs.Source.Faults
import Rehearsal.Proofs.Source.Line
import Rehearsal.Proofs.Source.Nesting
import Rehearsal.Proofs.Source.Outline
import Rehearsal.Proofs.Source.References
import Rehearsal.Proofs.Source.Remarks
import Rehearsal.Proofs.Source.Settings
import Rehearsal.Proofs.Step
import Rehearsal.Proofs.Store
import Rehearsal.Proofs.Store.History
import Rehearsal.Proofs.Store.Listing
import Rehearsal.Proofs.Store.Loading
import Rehearsal.Proofs.Stored
import Rehearsal.Proofs.Sweep
import Rehearsal.Proofs.Sweep.Expiry
import Rehearsal.Proofs.Text.Comment
import Rehearsal.Proofs.Text.Line
import Rehearsal.Proofs.Text.Literal
import Rehearsal.Proofs.Text.Name
import Rehearsal.Proofs.Text.Script
import Rehearsal.Proofs.Text.Spelling
import Rehearsal.Proofs.Text.Stem
import Rehearsal.Proofs.Text.Utf8
import Rehearsal.Proofs.Uuid
import Rehearsal.Proofs.Workspace
import Rehearsal.Proofs.Workspace.Isolation
import Rehearsal.Proofs.Workspace.Job
import Rehearsal.Proofs.World
import Rehearsal.Report.Document
import Rehearsal.Report.Outcome
import Rehearsal.Report.Result
import Rehearsal.Run
import Rehearsal.Runner.Command
import Rehearsal.Runner.Job
import Rehearsal.Runner.Machine
import Rehearsal.Selector
import Rehearsal.Session
import Rehearsal.Source.Lines
import Rehearsal.Source.PageObject
import Rehearsal.Source.Settings
import Rehearsal.Source.Spec
import Rehearsal.Statistics
import Rehearsal.Step
import Rehearsal.Store
import Rehearsal.Suite
import Rehearsal.Sweep
import Rehearsal.Table
import Rehearsal.Text.Blank
import Rehearsal.Text.Comment
import Rehearsal.Text.Literal
import Rehearsal.Text.Lower
import Rehearsal.Text.Name
import Rehearsal.Text.Utf8
import Rehearsal.Uuid
import Rehearsal.World
