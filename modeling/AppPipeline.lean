import AppPipeline.Text.Blank
import AppPipeline.Text.Lines
import AppPipeline.Text.Search
import AppPipeline.Text.Printable
import AppPipeline.Text.Quoted
import AppPipeline.Text.Utf8
import AppPipeline.Number.Decimal
import AppPipeline.Json.Reader
import AppPipeline.Json.Writer
import AppPipeline.Value.Display
import AppPipeline.Config.Reader
import AppPipeline.Workflow.Compile
import AppPipeline.Needs.Levels
import AppPipeline.Yaml.Plain
import AppPipeline.Yaml.Writer
import AppPipeline.Validation.Check
import AppPipeline.Yaml.Cursor
import AppPipeline.Yaml.Folding
import AppPipeline.Yaml.Block
import AppPipeline.Yaml.Marks
import AppPipeline.Yaml.Token
import AppPipeline.Yaml.Node
import AppPipeline.Text.Base64
import AppPipeline.Yaml.Number
import AppPipeline.Yaml.Reader
import AppPipeline.Validation.Text
import AppPipeline.Command.Basic
import AppPipeline.Command.Signature
import AppPipeline.Matrix.Entry
import AppPipeline.Matrix.Enumeration
import AppPipeline.Matrix.Generation
import AppPipeline.Files.Tree
import AppPipeline.Matrix.Store
import AppPipeline.App.Probe
import AppPipeline.Run.Harness
import AppPipeline.CommandLine.Session
import AppPipeline.Main
import AppPipeline.Proofs.Text.Separated
import AppPipeline.Proofs.Command.Signature
import AppPipeline.Proofs.Command.TestPhase
import AppPipeline.Proofs.Matrix.FirstSeen
import AppPipeline.Proofs.Matrix.Exhaustive
import AppPipeline.Proofs.Json.Same
import AppPipeline.Proofs.Workflow.Features
import AppPipeline.Proofs.Workflow.Data
import AppPipeline.Proofs.Workflow.Traces
import AppPipeline.Proofs.Needs.Building
import AppPipeline.Proofs.Needs.Leveling
import AppPipeline.Proofs.Needs.Cycles
import AppPipeline.Proofs.Validation.Order
import AppPipeline.Proofs.Needs.Depth
import AppPipeline.Proofs.Workflow.Accepted
import AppPipeline.Proofs.Yaml.RoundTrip
import AppPipeline.Proofs.Workflow.Emitted
import AppPipeline.Proofs.Run.Halting
import AppPipeline.Proofs.Json.Texts
import AppPipeline.Proofs.Json.RoundTrip
import AppPipeline.Proofs.Config.RoundTrip
import AppPipeline.Proofs.Matrix.Stored
import AppPipeline.Proofs.Guard.Comparison
import AppPipeline.Proofs.Workflow.Guards
import AppPipeline.Proofs.App.Offered
import AppPipeline.Proofs.Validation.Steps
import AppPipeline.Proofs.Text.Words
import AppPipeline.Proofs.Command.Local
import AppPipeline.Proofs.CommandLine.Arguments
import AppPipeline.Proofs.CommandLine.LocalRuns
import AppPipeline.Proofs.Text.References
import AppPipeline.Proofs.Workflow.References
import AppPipeline.Proofs.Json.Contents
import AppPipeline.Proofs.Workflow.Unmarked
import AppPipeline.Proofs.Workflow.Referring
import AppPipeline.Proofs.Workflow.Closed
import AppPipeline.Proofs.Command.Additive
import AppPipeline.Proofs.Text.Whole
import AppPipeline.Proofs.Command.Printing
import AppPipeline.Proofs.Run.Verdict
import AppPipeline.Proofs.Run.Printing
import AppPipeline.Proofs.Files.Folders
import AppPipeline.Proofs.CommandLine.Verdicts
import AppPipeline.Proofs.CommandLine.AppRuns
import AppPipeline.Proofs.CommandLine.EntryRuns
import AppPipeline.Proofs.Validation.Faults
import AppPipeline.Proofs.Workflow.Parts
import AppPipeline.Proofs.Workflow.Sections
import AppPipeline.Proofs.Workflow.Managers
import AppPipeline.Proofs.Guard.Nested
import AppPipeline.Proofs.Command.Extraction
import AppPipeline.Proofs.Config.Record
import AppPipeline.Proofs.Config.Variants
import AppPipeline.Proofs.Config.Faults
import AppPipeline.Proofs.Config.Updates
import AppPipeline.Proofs.Workflow.Publication
import AppPipeline.Proofs.Matrix.Points
import AppPipeline.Proofs.Needs.Rewriting
import AppPipeline.Proofs.Command.Multisets
import AppPipeline.Proofs.Matrix.Fixtures
import AppPipeline.Proofs.Matrix.Subsets
import AppPipeline.Proofs.Needs.Mirroring
