import Harkness.Context.Cache.Generation
import Harkness.Context.Cache.Lives
import Harkness.Context.Chunk.LineWindow
import Harkness.Context.DirtySet
import Harkness.Context.Index.Batch
import Harkness.Context.Index.Collect
import Harkness.Context.Index.Commit
import Harkness.Context.Index.Extraction
import Harkness.Context.Index.Forget
import Harkness.Context.Index.Reading
import Harkness.Context.Index.Schema
import Harkness.Context.Index.Store
import Harkness.Context.Index.Suffix
import Harkness.Context.Index.Symbols
import Harkness.Context.Inventory.Entry
import Harkness.Context.Path
import Harkness.Context.Reconcile.Merge
import Harkness.Context.Reconcile.Overlap
import Harkness.Context.Reconcile.Pass
import Harkness.Context.Scope
import Harkness.Context.Search.Excerpt
import Harkness.Context.Snapshot.Record
import Harkness.Context.Snapshot.Verify
import Harkness.Context.Symbol.Extract
import Harkness.Context.Symbol.Language
import Harkness.Context.Symbol.Naming
import Harkness.Context.Symbol.Record
import Harkness.Context.Watch
import Harkness.Git.CanonicalPath
import Harkness.Git.Diff
import Harkness.Git.FileContext
import Harkness.Git.History
import Harkness.Git.HistoryPaging
import Harkness.Git.Hunk.Body
import Harkness.Git.Hunk.ByLines
import Harkness.Git.Hunk.EndOfFile
import Harkness.Git.Hunk.Patch
import Harkness.Git.Hunk.Position
import Harkness.Git.Hunk.Prepare
import Harkness.Git.Hunk.Remap
import Harkness.Git.Hunk.Render
import Harkness.Git.Hunk.Width
import Harkness.Git.IntraLine.Annotate
import Harkness.Git.IntraLine.Tokens
import Harkness.Git.Porcelain
import Harkness.Git.Provenance.Attribution
import Harkness.Git.Provenance.Builder
import Harkness.Git.Provenance.Interning
import Harkness.Git.Provenance.Message
import Harkness.Git.Provenance.Narrowed
import Harkness.Git.Provenance.RangeCover
import Harkness.Git.Provenance.Recorded
import Harkness.Git.QuotedPath
import Harkness.Git.Status
import Harkness.Git.UnifiedPatch
import Harkness.Machine.Mutation
import Harkness.Machine.OneShot
import Harkness.Machine.Path
import Harkness.Platform.FileTree
import Harkness.Provider.Assembler
import Harkness.Provider.Content
import Harkness.Provider.Run
import Harkness.Provider.Turn
import Harkness.Provider.Utf8Accumulator
import Harkness.Runtime.Approval.Authorization
import Harkness.Runtime.Approval.Canonical
import Harkness.Runtime.Approval.Gate
import Harkness.Runtime.Approval.Lifecycle
import Harkness.Runtime.Approval.Matcher
import Harkness.Runtime.Approval.Record
import Harkness.Runtime.Containment
import Harkness.Runtime.Coordinator.Delivery
import Harkness.Runtime.Coordinator.Follow
import Harkness.Runtime.Coordinator.Gapless
import Harkness.Runtime.Coordinator.Subscription
import Harkness.Runtime.Domain.Discipline
import Harkness.Runtime.Domain.Lifecycle
import Harkness.Runtime.Domain.Operations
import Harkness.Runtime.Domain.Record
import Harkness.Runtime.Domain.RoundTrip
import Harkness.Runtime.Domain.State
import Harkness.Runtime.Domain.Evaluation
import Harkness.Runtime.Domain.Wire
import Harkness.Runtime.Integration.IdentityWire
import Harkness.Runtime.Integration.Record
import Harkness.Runtime.Integration.Subject
import Harkness.Runtime.Integration.Trust
import Harkness.Runtime.Observe.LineFilter
import Harkness.Runtime.Observe.Secret
import Harkness.Runtime.PathBoundary
import Harkness.Runtime.Policy.Classification
import Harkness.Runtime.Policy.Decision
import Harkness.Runtime.Policy.Engine
import Harkness.Runtime.Policy.External
import Harkness.Runtime.Policy.Layers
import Harkness.Runtime.Policy.Tightening
import Harkness.Runtime.Policy.Validate
import Harkness.Runtime.Schedule.Exclusion
import Harkness.Runtime.Schedule.Ledger
import Harkness.Runtime.Schedule.Order
import Harkness.Runtime.Schedule.Posting
import Harkness.Runtime.Schedule.Section
import Harkness.Runtime.Schedule.Shutdown
import Harkness.Runtime.Schedule.Slots
import Harkness.Runtime.Schedule.Stop
import Harkness.Runtime.Schedule.Tickets
import Harkness.Runtime.Schedule.WakeUp
import Harkness.Runtime.Schedule.Workspace
import Harkness.Runtime.Store.Approval
import Harkness.Runtime.Store.Artifact
import Harkness.Runtime.Store.ArtifactStream
import Harkness.Runtime.Store.Column
import Harkness.Runtime.Store.Event
import Harkness.Runtime.Store.EventLog
import Harkness.Runtime.Store.Listing
import Harkness.Runtime.Store.Migration
import Harkness.Runtime.Store.MigrationClimb
import Harkness.Runtime.Store.Paging
import Harkness.Runtime.Store.Recovery
import Harkness.Runtime.Store.RecoveryMark
import Harkness.Runtime.Store.RecoverySweep
import Harkness.Runtime.Tool.ApplyPatch
import Harkness.Runtime.Tool.Capture
import Harkness.Runtime.Tool.Descriptor
import Harkness.Runtime.Tool.Excerpts
import Harkness.Runtime.Tool.Execute
import Harkness.Runtime.Tool.Identifier
import Harkness.Runtime.Tool.PatchResult
import Harkness.Runtime.Tool.Supervise
import Harkness.ToMathlib.Alignment
import Harkness.ToMathlib.Ancestry
import Harkness.ToMathlib.Between
import Harkness.ToMathlib.CQuote
import Harkness.ToMathlib.Except
import Harkness.ToMathlib.Grid
import Harkness.ToMathlib.Hex
import Harkness.ToMathlib.Interned
import Harkness.ToMathlib.Json
import Harkness.ToMathlib.JsonText
import Harkness.ToMathlib.Keyed
import Harkness.ToMathlib.LengthFrame
import Harkness.ToMathlib.Lines
import Harkness.ToMathlib.ListInterleave
import Harkness.ToMathlib.ListSplice
import Harkness.ToMathlib.ListTotal
import Harkness.ToMathlib.Numbered
import Harkness.ToMathlib.Occurrences
import Harkness.ToMathlib.Replace
import Harkness.ToMathlib.Separated
import Harkness.ToMathlib.Sort
import Harkness.ToMathlib.SplitN
import Harkness.ToMathlib.TreeMap
import Harkness.ToMathlib.TrimEnds
import Harkness.ToMathlib.Utf8
import Harkness.ToMathlib.Utf8Lossy
import Harkness.ToMathlib.Utf8Strict
import Harkness.Transport.Answer
import Harkness.Transport.Connection
import Harkness.Transport.ConnectionTable
import Harkness.Transport.Correlation
import Harkness.Transport.Delivery
import Harkness.Transport.Error
import Harkness.Transport.Frame
import Harkness.Transport.Framing
import Harkness.Transport.Message
import Harkness.Transport.MessageRoundTrip
import Harkness.Transport.MessageWire
import Harkness.Transport.Pump
