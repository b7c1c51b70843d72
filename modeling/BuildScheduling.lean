import BuildScheduling.BuildCause
import BuildScheduling.Collaborators.Basic
import BuildScheduling.Collaborators.InMemory
import BuildScheduling.ConfigError
import BuildScheduling.Cron.Field
import BuildScheduling.Cron.Grammar
import BuildScheduling.Cron.Schedule
import BuildScheduling.Debounce
import BuildScheduling.Decision
import BuildScheduling.Digest.Sha256
import BuildScheduling.Engine.Basic
import BuildScheduling.Engine.Operation
import BuildScheduling.Failure
import BuildScheduling.FanIn
import BuildScheduling.Fingerprint
import BuildScheduling.Format.Cause
import BuildScheduling.Format.Coded
import BuildScheduling.Format.Configuration
import BuildScheduling.Format.Health
import BuildScheduling.Format.Json
import BuildScheduling.Format.Settings
import BuildScheduling.Format.Value
import BuildScheduling.Graph.Basic
import BuildScheduling.Graph.CycleSearch
import BuildScheduling.Health
import BuildScheduling.Instant.Basic
import BuildScheduling.Instant.Calendar
import BuildScheduling.Instant.Rfc3339
import BuildScheduling.Material
import BuildScheduling.Name
import BuildScheduling.Pipeline
import BuildScheduling.Queue
import BuildScheduling.Resolution
import BuildScheduling.Revision
import BuildScheduling.Samples
import BuildScheduling.Settings
import BuildScheduling.Snapshot
import BuildScheduling.SortedMap
import BuildScheduling.SortedMap.Lemmas
import BuildScheduling.Text.Scan
import BuildScheduling.Yaml.Document
import BuildScheduling.Yaml.Glyph
import BuildScheduling.Yaml.Node
import BuildScheduling.Yaml.Node.Parser
import BuildScheduling.Yaml.Plain
import BuildScheduling.Yaml.Quoted
import BuildScheduling.Yaml.Scalar
import BuildScheduling.Yaml.Token
import BuildScheduling.Yaml.Token.Lexer
import BuildScheduling.Proofs.Graph.CycleSearch
import BuildScheduling.Proofs.Graph.Declared
import BuildScheduling.Proofs.Engine.History
import BuildScheduling.Proofs.Graph.BuildOrder
import BuildScheduling.Proofs.Engine.Effect
import BuildScheduling.Proofs.Snapshot.Acceptance
import BuildScheduling.Proofs.Engine.Answer
import BuildScheduling.Proofs.Queue.ForcedCause
import BuildScheduling.Proofs.Debounce.TimerLaw
import BuildScheduling.Proofs.Latest.Climbing
import BuildScheduling.Proofs.Latest.Monotone
import BuildScheduling.Proofs.Resolution.Report
import BuildScheduling.Proofs.Decision.Order
import BuildScheduling.Proofs.Latest.Backing
import BuildScheduling.Proofs.Queue.Provenance
import BuildScheduling.Proofs.Steady.Refresh
import BuildScheduling.Proofs.Steady.Attempt
import BuildScheduling.Proofs.Steady.Imprint
import BuildScheduling.Proofs.Steady.InMemory
import BuildScheduling.Proofs.Steady.Reorder
import BuildScheduling.Proofs.Graph.CycleErrors
import BuildScheduling.Proofs.Decision.Origin
import BuildScheduling.Proofs.Queue.OwnPipeline
import BuildScheduling.Proofs.Snapshot.Reload
import BuildScheduling.Proofs.Material.Identity
import BuildScheduling.Proofs.Latest.Heard
import BuildScheduling.Proofs.Latest.Lagging
import BuildScheduling.Proofs.Snapshot.Belonging
import BuildScheduling.Proofs.Snapshot.Notification
import BuildScheduling.Proofs.Snapshot.FanIn
import BuildScheduling.Proofs.Health.Mirror
import BuildScheduling.Proofs.Resolution.Pegging
import BuildScheduling.Proofs.Format.RoundTrip
import BuildScheduling.Proofs.Graph.Neighbours
import BuildScheduling.Proofs.Snapshot.Faults
import BuildScheduling.Proofs.Graph.FirstCycle
import BuildScheduling.Proofs.Graph.CyclePath
import BuildScheduling.Proofs.Resolution.HistoryOrder
import BuildScheduling.Proofs.Cron.Fields
import BuildScheduling.Proofs.Cron.NextFire
import BuildScheduling.Proofs.Instant.DateOrder
import BuildScheduling.Proofs.Latest.LeadingRun
import BuildScheduling.Proofs.Steady.Agreement
import BuildScheduling.Proofs.Cron.Windows
import BuildScheduling.Proofs.Snapshot.Due
import BuildScheduling.Proofs.Engine.Failing
import BuildScheduling.Proofs.Queue.Tick
import BuildScheduling.Proofs.Health.Window
import BuildScheduling.Proofs.Queue.Waiting
import BuildScheduling.Proofs.Material.Checkout
import BuildScheduling.Proofs.Spelling.Run
import BuildScheduling.Proofs.Graph.SearchHistory
import BuildScheduling.Proofs.Name.Agreement
import BuildScheduling.Proofs.Settings.Tick
import BuildScheduling.Proofs.Debounce.LastMention
