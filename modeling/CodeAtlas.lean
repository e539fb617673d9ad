import CodeAtlas.Analysis.Fresh
import CodeAtlas.Collaborators
import CodeAtlas.CommandLine.Console
import CodeAtlas.CommandLine.Display
import CodeAtlas.CommandLine.Run
import CodeAtlas.CommandLine.Words
import CodeAtlas.Dict
import CodeAtlas.Enrichment.Answer
import CodeAtlas.Enrichment.Batches
import CodeAtlas.Failure
import CodeAtlas.FileTree
import CodeAtlas.Graph.Basic
import CodeAtlas.Graph.Document
import CodeAtlas.Graph.Kind
import CodeAtlas.Graph.Method
import CodeAtlas.Ignore.Patterns
import CodeAtlas.Ignore.Rules
import CodeAtlas.Json.Basic
import CodeAtlas.Json.Limits
import CodeAtlas.Json.Number
import CodeAtlas.Json.Printer
import CodeAtlas.Json.Reader
import CodeAtlas.Json.Wording
import CodeAtlas.Main
import CodeAtlas.Path
import CodeAtlas.Platform
import CodeAtlas.Process.Host
import CodeAtlas.Program.Terminal
import CodeAtlas.Proofs.Agreement.Analyzed
import CodeAtlas.Proofs.Agreement.Basic
import CodeAtlas.Proofs.Agreement.Enriched
import CodeAtlas.Proofs.Agreement.History
import CodeAtlas.Proofs.Agreement.Synced
import CodeAtlas.Proofs.Agreement.Written
import CodeAtlas.Proofs.CommandLine.Analyze
import CodeAtlas.Proofs.CommandLine.Sessions
import CodeAtlas.Proofs.Files.Straight
import CodeAtlas.Proofs.Graph.Abroad
import CodeAtlas.Proofs.Graph.Answers
import CodeAtlas.Proofs.Graph.Bare
import CodeAtlas.Proofs.Graph.Breadth
import CodeAtlas.Proofs.Graph.Closed
import CodeAtlas.Proofs.Graph.Edges
import CodeAtlas.Proofs.Graph.Filled
import CodeAtlas.Proofs.Graph.Labels
import CodeAtlas.Proofs.Graph.Normalized
import CodeAtlas.Proofs.Graph.Rebuilt
import CodeAtlas.Proofs.Graph.Rehydrated
import CodeAtlas.Proofs.Graph.Relabel
import CodeAtlas.Proofs.Graph.Reloaded
import CodeAtlas.Proofs.Graph.Spelled
import CodeAtlas.Proofs.Graph.Told
import CodeAtlas.Proofs.Graph.WellFormed
import CodeAtlas.Proofs.Graph.Written
import CodeAtlas.Proofs.Json.Numbers
import CodeAtlas.Proofs.Json.Reread
import CodeAtlas.Proofs.Json.Scanned
import CodeAtlas.Proofs.Links.Afresh
import CodeAtlas.Proofs.Links.Described
import CodeAtlas.Proofs.Links.Examined
import CodeAtlas.Proofs.Links.History
import CodeAtlas.Proofs.Links.Published
import CodeAtlas.Proofs.Links.Releases
import CodeAtlas.Proofs.Links.Resolution
import CodeAtlas.Proofs.Query.Answered
import CodeAtlas.Proofs.Query.Grammar
import CodeAtlas.Proofs.Query.Neighbours
import CodeAtlas.Proofs.Query.Reloaded
import CodeAtlas.Proofs.Record.Confined
import CodeAtlas.Proofs.Record.Consistent
import CodeAtlas.Proofs.Record.Integrity
import CodeAtlas.Proofs.Record.Keyed
import CodeAtlas.Proofs.Record.Ownership
import CodeAtlas.Proofs.Record.Patched
import CodeAtlas.Proofs.Record.Reads
import CodeAtlas.Proofs.Record.Reloaded
import CodeAtlas.Proofs.Record.Reworded
import CodeAtlas.Proofs.Record.Rollback
import CodeAtlas.Proofs.Run.Analysis
import CodeAtlas.Proofs.Run.Asked
import CodeAtlas.Proofs.Run.Atomic
import CodeAtlas.Proofs.Run.Batches
import CodeAtlas.Proofs.Run.Confluent
import CodeAtlas.Proofs.Run.Described
import CodeAtlas.Proofs.Run.Distinct
import CodeAtlas.Proofs.Run.Extraction
import CodeAtlas.Proofs.Run.Filed
import CodeAtlas.Proofs.Run.History
import CodeAtlas.Proofs.Run.Indexed
import CodeAtlas.Proofs.Run.Isolated
import CodeAtlas.Proofs.Run.Saving
import CodeAtlas.Proofs.Run.Sight
import CodeAtlas.Proofs.Run.Staged
import CodeAtlas.Proofs.Run.Steps
import CodeAtlas.Proofs.Run.Surveyed
import CodeAtlas.Proofs.Run.Undone
import CodeAtlas.Proofs.Run.Untouched
import CodeAtlas.Proofs.Run.WriteBack
import CodeAtlas.Proofs.Run.Writing
import CodeAtlas.Proofs.Source.Addresses
import CodeAtlas.Proofs.Source.Comments.Decorators
import CodeAtlas.Proofs.Source.Comments.Inserted
import CodeAtlas.Proofs.Source.Comments.Java
import CodeAtlas.Proofs.Source.Comments.Scripts
import CodeAtlas.Proofs.Source.Comments.Unchanged
import CodeAtlas.Proofs.Source.Discovered
import CodeAtlas.Proofs.Source.Facts
import CodeAtlas.Proofs.Source.Identified
import CodeAtlas.Proofs.Source.Imported
import CodeAtlas.Proofs.Source.Lost
import CodeAtlas.Proofs.Source.Named
import CodeAtlas.Proofs.Source.Overloads
import CodeAtlas.Proofs.Source.Packages
import CodeAtlas.Proofs.Source.Readable
import CodeAtlas.Proofs.Source.References
import CodeAtlas.Proofs.Source.Routes
import CodeAtlas.Proofs.Source.Scoping
import CodeAtlas.Proofs.Source.Shape
import CodeAtlas.Proofs.Source.Sought
import CodeAtlas.Proofs.Source.Specifiers
import CodeAtlas.Proofs.Source.Spoiled
import CodeAtlas.Proofs.Source.Walks
import CodeAtlas.Proofs.State.Entries
import CodeAtlas.Proofs.State.Interrupted
import CodeAtlas.Proofs.State.Remembered
import CodeAtlas.Proofs.State.Saved
import CodeAtlas.Proofs.State.Together
import CodeAtlas.Proofs.Sync.Commit
import CodeAtlas.Proofs.Sync.Course
import CodeAtlas.Proofs.Sync.Current
import CodeAtlas.Proofs.Sync.Exact
import CodeAtlas.Proofs.Sync.Filed
import CodeAtlas.Proofs.Sync.Inquiry
import CodeAtlas.Proofs.Sync.Outcome
import CodeAtlas.Proofs.Sync.Plan
import CodeAtlas.Proofs.Sync.Relabelled
import CodeAtlas.Proofs.Sync.Renewed
import CodeAtlas.Proofs.Sync.Restored
import CodeAtlas.Proofs.Sync.Resync
import CodeAtlas.Proofs.Sync.Spared
import CodeAtlas.Proofs.Sync.Stage
import CodeAtlas.Proofs.Sync.Texts
import CodeAtlas.Proofs.Sync.Whole
import CodeAtlas.Proofs.Text.Occurrences
import CodeAtlas.Proofs.Text.Split
import CodeAtlas.Proofs.Text.Trimmed
import CodeAtlas.Proofs.Trace.Matched
import CodeAtlas.Proofs.Trace.Surrounded
import CodeAtlas.Proofs.Trace.Written
import CodeAtlas.Proofs.Version.Listed
import CodeAtlas.Query.Result
import CodeAtlas.Query.Token
import CodeAtlas.Record.Access
import CodeAtlas.Record.Document
import CodeAtlas.Record.Staging
import CodeAtlas.Record.Store
import CodeAtlas.Registry
import CodeAtlas.Source.Discovery
import CodeAtlas.Source.Examiner
import CodeAtlas.Source.ExternalAnalyzer
import CodeAtlas.Source.File
import CodeAtlas.Source.Go
import CodeAtlas.Source.Java
import CodeAtlas.Source.Languages
import CodeAtlas.Source.ModuleAnalysis
import CodeAtlas.Source.Python
import CodeAtlas.Source.SyntaxTree
import CodeAtlas.Source.TypeScript
import CodeAtlas.State.Basic
import CodeAtlas.State.Files
import CodeAtlas.Survey
import CodeAtlas.Sync.Engine
import CodeAtlas.Text.Case
import CodeAtlas.Text.CaseTable
import CodeAtlas.Text.CharSet
import CodeAtlas.Text.Decoding
import CodeAtlas.Text.Lines
import CodeAtlas.Text.Order
import CodeAtlas.Text.Pieces
import CodeAtlas.Text.Quoted
import CodeAtlas.Text.Units
import CodeAtlas.Text.UnprintableSet
import CodeAtlas.Text.WordSet
import CodeAtlas.Trace.Context
import CodeAtlas.Trace.Frame
import CodeAtlas.Version.Git
import CodeAtlas.Workspace
