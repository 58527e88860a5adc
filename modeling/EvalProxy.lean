import EvalProxy.Assoc
import EvalProxy.Cache.Caching
import EvalProxy.Cache.Closest
import EvalProxy.Cache.Diagnosis
import EvalProxy.Cache.Export
import EvalProxy.Cache.Fingerprint
import EvalProxy.Cache.Interceptor
import EvalProxy.Cache.Keys
import EvalProxy.Cache.SaveLimit
import EvalProxy.Cache.Store
import EvalProxy.CallLog
import EvalProxy.Chain
import EvalProxy.CommandLine
import EvalProxy.Config.Adapter
import EvalProxy.Config.App
import EvalProxy.Config.Conform
import EvalProxy.Config.Load
import EvalProxy.Config.Setting
import EvalProxy.Decimal.Layout
import EvalProxy.Decimal.Scale
import EvalProxy.Decimal.Shortest
import EvalProxy.Diff.Compaction
import EvalProxy.Diff.Script
import EvalProxy.Diff.Unified
import EvalProxy.Digest
import EvalProxy.Discovery.Catalog
import EvalProxy.Discovery.Preset
import EvalProxy.Endpoint
import EvalProxy.Failure
import EvalProxy.Files.Path
import EvalProxy.Files.Tree
import EvalProxy.Hooks.Context
import EvalProxy.Hooks.Report
import EvalProxy.Hooks.RunMetadata
import EvalProxy.Http.Address
import EvalProxy.Http.Headers
import EvalProxy.Http.Message
import EvalProxy.Interceptor
import EvalProxy.Json.Basic
import EvalProxy.Json.Fault
import EvalProxy.Json.Lexical
import EvalProxy.Json.Parse
import EvalProxy.Json.Print
import EvalProxy.Json.Shape
import EvalProxy.Json.Typed
import EvalProxy.Main
import EvalProxy.Metrics
import EvalProxy.Payload
import EvalProxy.Pipeline
import EvalProxy.Probe
import EvalProxy.Progress
import EvalProxy.Proofs.Cache.Calls
import EvalProxy.Proofs.Cache.Closest
import EvalProxy.Proofs.Cache.Codec
import EvalProxy.Proofs.Cache.Entries
import EvalProxy.Proofs.Cache.Fields
import EvalProxy.Proofs.Cache.Fingerprint
import EvalProxy.Proofs.Cache.Limits
import EvalProxy.Proofs.Cache.Listing
import EvalProxy.Proofs.Cache.Merge
import EvalProxy.Proofs.Cache.Paging
import EvalProxy.Proofs.Cache.Placed
import EvalProxy.Proofs.Cache.Refused
import EvalProxy.Proofs.Cache.Renderings
import EvalProxy.Proofs.Cache.Replay
import EvalProxy.Proofs.Cache.Requests
import EvalProxy.Proofs.Cache.Slots
import EvalProxy.Proofs.Cache.Snapshot
import EvalProxy.Proofs.Cache.Store
import EvalProxy.Proofs.Cache.Transfer
import EvalProxy.Proofs.Cache.Trouble
import EvalProxy.Proofs.Cache.Whole
import EvalProxy.Proofs.Chain.Account
import EvalProxy.Proofs.Chain.BestEffort
import EvalProxy.Proofs.Chain.Counting
import EvalProxy.Proofs.Chain.Joined
import EvalProxy.Proofs.Chain.Limited
import EvalProxy.Proofs.Chain.Observers
import EvalProxy.Proofs.Chain.OneCache
import EvalProxy.Proofs.Chain.Phases
import EvalProxy.Proofs.Chain.Repeated
import EvalProxy.Proofs.Chain.Run
import EvalProxy.Proofs.Chain.TestMode
import EvalProxy.Proofs.Chain.WriteBack
import EvalProxy.Proofs.Decimal.Arithmetic
import EvalProxy.Proofs.Decimal.Layout
import EvalProxy.Proofs.Decimal.Literal
import EvalProxy.Proofs.Decimal.Moderate
import EvalProxy.Proofs.Decimal.Order
import EvalProxy.Proofs.Decimal.Regular
import EvalProxy.Proofs.Decimal.Rounding
import EvalProxy.Proofs.Decimal.Shortest
import EvalProxy.Proofs.Dict
import EvalProxy.Proofs.Diff
import EvalProxy.Proofs.Files.Kept
import EvalProxy.Proofs.Files.Paths
import EvalProxy.Proofs.Files.Replaced
import EvalProxy.Proofs.Http.NormalForm
import EvalProxy.Proofs.Interceptor
import EvalProxy.Proofs.Json.Canonical
import EvalProxy.Proofs.Json.Compact
import EvalProxy.Proofs.Json.Fields
import EvalProxy.Proofs.Json.Indented
import EvalProxy.Proofs.Json.Members
import EvalProxy.Proofs.Json.Numbers
import EvalProxy.Proofs.Json.Quoted
import EvalProxy.Proofs.Json.Scalars
import EvalProxy.Proofs.Json.TextMap
import EvalProxy.Proofs.Json.UniqueReading
import EvalProxy.Proofs.Metrics
import EvalProxy.Proofs.Payload
import EvalProxy.Proofs.Pipeline.Lifecycle
import EvalProxy.Proofs.Pipeline.Startup
import EvalProxy.Proofs.Progress
import EvalProxy.Proofs.Progress.Cadence
import EvalProxy.Proofs.Reasoning.Split
import EvalProxy.Proofs.Reasoning.Stripped
import EvalProxy.Proofs.Redaction.Clean
import EvalProxy.Proofs.Redaction.Doubled
import EvalProxy.Proofs.Redaction.Replaced
import EvalProxy.Proofs.Registry
import EvalProxy.Proofs.Report
import EvalProxy.Proofs.Stats.Batch
import EvalProxy.Proofs.Stats.Record
import EvalProxy.Proofs.Stats.Resumed
import EvalProxy.Proofs.Stats.Saved
import EvalProxy.Proofs.Stats.Shared
import EvalProxy.Proofs.Stats.State
import EvalProxy.Proofs.Stats.Switched
import EvalProxy.Proofs.SystemMessage
import EvalProxy.Proofs.Text.Lossy
import EvalProxy.Proofs.Text.Octets
import EvalProxy.Proofs.Text.Order
import EvalProxy.Proofs.Toml.Tables
import EvalProxy.Proofs.Usage
import EvalProxy.Proofs.World
import EvalProxy.Reasoning
import EvalProxy.Redaction
import EvalProxy.Registry
import EvalProxy.Server
import EvalProxy.Settings
import EvalProxy.Startup
import EvalProxy.Stats.Aggregate
import EvalProxy.Stats.Recorder
import EvalProxy.SystemMessage
import EvalProxy.Text.Blank
import EvalProxy.Text.Bytes
import EvalProxy.Text.Integer
import EvalProxy.Text.LowerCase
import EvalProxy.Text.Shown
import EvalProxy.Toml.Basic
import EvalProxy.Toml.Lexical
import EvalProxy.Toml.Moment
import EvalProxy.Toml.Number
import EvalProxy.Toml.Parse
import EvalProxy.Usage
import EvalProxy.World
