import Decompile.Archive.Bits
import Decompile.Archive.Bits.Lemmas
import Decompile.Archive.Crc32
import Decompile.Archive.Deflate
import Decompile.Archive.Zip
import Decompile.Backend
import Decompile.Bus
import Decompile.CommandLine.Arguments
import Decompile.CommandLine.Program
import Decompile.CommandLine.Screen
import Decompile.Config
import Decompile.Disk.Basic
import Decompile.Disk.Change
import Decompile.Disk.Error
import Decompile.Disk.Lookup
import Decompile.Engine.Resume
import Decompile.Engine.Run
import Decompile.Engine.Submit
import Decompile.Failure
import Decompile.Job.State
import Decompile.Job.Submission
import Decompile.Log
import Decompile.Main
import Decompile.Memory
import Decompile.Path
import Decompile.Preferences
import Decompile.Progress
import Decompile.ProgressLine
import Decompile.Record.Basic
import Decompile.Record.Store
import Decompile.Record.Text
import Decompile.Registry
import Decompile.Rehearsal.Cue
import Decompile.Rehearsal.Sample
import Decompile.Rehearsal.StandIn
import Decompile.Ron.Access
import Decompile.Ron.Reader
import Decompile.Ron.Scan
import Decompile.Ron.Value
import Decompile.Sha256
import Decompile.Stage
import Decompile.Stage.Chunks
import Decompile.Stage.Items
import Decompile.Stage.Run
import Decompile.Stage.Work
import Decompile.Target.Info
import Decompile.Target.Key
import Decompile.Target.Markers
import Decompile.Text.Ascii
import Decompile.Text.Blank
import Decompile.Text.Decimal
import Decompile.Text.Fraction
import Decompile.Text.Json
import Decompile.Text.Property.GraphemeExtend
import Decompile.Text.Property.Identifier
import Decompile.Text.Property.Unprintable
import Decompile.Text.Quoted
import Decompile.Text.Utf8
import Decompile.Timestamp
import Decompile.Tool.Catalog
import Decompile.Tool.Invocation
import Decompile.Tool.ProgramRun
import Decompile.World.Basic
import Decompile.World.Files
import Decompile.World.Logging
import Decompile.World.Storage
import Decompile.Proofs.Lifecycle.Phase
import Decompile.Proofs.Lifecycle.Shape
import Decompile.Proofs.Lifecycle.Outcome
import Decompile.Proofs.Lifecycle.Replay
import Decompile.Proofs.Lifecycle.Trace
import Decompile.Proofs.Act.Keeps
import Decompile.Proofs.Act.Moments
import Decompile.Proofs.Act.Moves
import Decompile.Proofs.Act.StageMoves
import Decompile.Proofs.Act.Succeeds
import Decompile.Proofs.Protocol.Told
import Decompile.Proofs.Protocol.Transcript
import Decompile.Proofs.Protocol.Run
import Decompile.Proofs.Session
import Decompile.Proofs.Protocol.Bus
import Decompile.Proofs.Exclusion.Registry
import Decompile.Proofs.Exclusion.Holding
import Decompile.Proofs.Cancellation.Heeds
import Decompile.Proofs.Cancellation.Run
import Decompile.Proofs.Cancellation.Stop
import Decompile.Proofs.Exclusion.Fleet
import Decompile.Proofs.Exclusion.Mutual
import Decompile.Proofs.Exclusion.Sessions
import Decompile.Proofs.Text.Decimal
import Decompile.Proofs.Disk.Paths
import Decompile.Proofs.Disk.Plain
import Decompile.Proofs.Disk.Areas
import Decompile.Proofs.Disk.Ways
import Decompile.Proofs.Disk.Anchored
import Decompile.Proofs.Disk.Written
import Decompile.Proofs.Provenance.Law
import Decompile.Proofs.Provenance.Files
import Decompile.Proofs.Provenance.Work
import Decompile.Proofs.Provenance.Stage
import Decompile.Proofs.Provenance.Run
import Decompile.Proofs.Provenance.Origin
import Decompile.Proofs.Conservation.Site
import Decompile.Proofs.Conservation.Files
import Decompile.Proofs.Conservation.Work
import Decompile.Proofs.Conservation.Outputs
import Decompile.Proofs.Conservation.Attempts
import Decompile.Proofs.Conservation.Chunks
import Decompile.Proofs.Conservation.Stage
import Decompile.Proofs.Conservation.Items
import Decompile.Proofs.Conservation.Unpack
import Decompile.Proofs.Conservation.Resources
import Decompile.Proofs.Conservation.Run
import Decompile.Proofs.Conservation.Spares
import Decompile.Proofs.Conservation.Tree
import Decompile.Proofs.Conservation.Calls
import Decompile.Proofs.Conservation.Archives
import Decompile.Proofs.Conservation.Containers
import Decompile.Proofs.Conservation.Libraries
import Decompile.Proofs.Twins.Pairs
import Decompile.Proofs.Twins.Files
import Decompile.Proofs.Twins.Work
import Decompile.Proofs.Twins.Stage
import Decompile.Proofs.Twins.Run
import Decompile.Proofs.Refusal.Law
import Decompile.Proofs.Refusal.Run
import Decompile.Proofs.Disk.Above
import Decompile.Proofs.Twins.Alone
import Decompile.Proofs.Confinement.Links
import Decompile.Proofs.Confinement.Law
import Decompile.Proofs.Confinement.Run
import Decompile.Proofs.Protocol.Delivery
import Decompile.Proofs.Resume.Aftermath
import Decompile.Proofs.Resume.Again
import Decompile.Proofs.Resume.Tree
import Decompile.Proofs.Retry.Budget
import Decompile.Proofs.Retry.Run
import Decompile.Proofs.Text.Utf8
import Decompile.Proofs.Ron.Tokens
import Decompile.Proofs.Ron.Values
import Decompile.Proofs.Text.Timestamp
import Decompile.Proofs.Record.Text
import Decompile.Proofs.Disk.Replaced
import Decompile.Proofs.Record.Storage
import Decompile.Proofs.Durability.Spared
import Decompile.Proofs.Durability.Work
import Decompile.Proofs.Durability.Mirror
import Decompile.Proofs.Text.Ascii
import Decompile.Proofs.Text.ProgressLine
import Decompile.Proofs.Disk.Alike
import Decompile.Proofs.Disk.Parents
import Decompile.Proofs.Disk.Digging
import Decompile.Proofs.Disk.Stairs
import Decompile.Proofs.Unpacking.Calm
import Decompile.Proofs.Unpacking.Directories
import Decompile.Proofs.Unpacking.Members
import Decompile.Proofs.Unpacking.Work
import Decompile.Proofs.Unpacking.Chunks
import Decompile.Proofs.Unpacking.Stage
import Decompile.Proofs.Lifecycle.Status
import Decompile.Proofs.Target.Key
import Decompile.Proofs.Memory.Window
import Decompile.Proofs.Packing.Sources
import Decompile.Proofs.Packing.Pack
import Decompile.Proofs.Packing.Tree
import Decompile.Proofs.Packing.Expand
import Decompile.Proofs.Markers.Halt
import Decompile.Proofs.Markers.History
import Decompile.Proofs.Text.Lossy
import Decompile.Proofs.Tool.Output
import Decompile.Proofs.Preferences
import Decompile.Proofs.Locality.Files
import Decompile.Proofs.Locality.Run
import Decompile.Proofs.Disk.Agreeing
import Decompile.Proofs.Disk.Trees
import Decompile.Proofs.Discards.Beside
import Decompile.Proofs.Discards.Ground
import Decompile.Proofs.Discards.Loss
import Decompile.Proofs.Discards.Found
import Decompile.Proofs.Discards.Work
import Decompile.Proofs.Discards.Clearing
import Decompile.Proofs.Discards.Stage
import Decompile.Proofs.Discards.Run
import Decompile.Proofs.Discards.Request
import Decompile.Proofs.Discards.Law
