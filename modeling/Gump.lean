import Gump.Foundation.OrdMap
import Gump.Foundation.Words
import Gump.Foundation.Run
import Gump.Foundation.Effects
import Gump.Foundation.Feed
import Gump.Foundation.Serde
import Gump.Foundation.RankedStore
import Gump.Foundation.JsonSize
import Gump.Foundation.ByteStream
import Gump.Foundation.Json
import Gump.Foundation.Descriptors
import Gump.Foundation.Account
import Gump.Types.Label
import Gump.Types.Id
import Gump.Memory.Records.Record
import Gump.Memory.Records.Lease
import Gump.Memory.Records.Watch
import Gump.Memory.Records.Machine
import Gump.Memory.Records.Effect
import Gump.Memory.Records.ChangeFeed
import Gump.Memory.Records.Resume
import Gump.Memory.Records.LeaseNotice
import Gump.Memory.Records.Accounting
import Gump.Memory.Authority.Controller
import Gump.Memory.ClusterState
import Gump.Memory.ClusterStep
import Gump.Memory.Rejection
import Gump.Memory.Authority.Fencing
import Gump.Memory.Desired
import Gump.Memory.Receipts
import Gump.Memory.RetrySafety
import Gump.Memory.Serialize
import Gump.Memory.Snapshot
import Gump.Memory.RamStore
import Gump.Memory.ClusterNet
import Gump.Memory.ClusterNode
import Gump.Capsule.Segment
import Gump.Capsule.Header
import Gump.Capsule.Stream
import Gump.Crypto.Transcript
import Gump.Crypto.Trust
import Gump.Connectors.Object
import Gump.Connectors.Fake
import Gump.Connectors.Ingress
import Gump.Connectors.Accept
import Gump.Connectors.Residue
import Gump.Agent.Fence
import Gump.Agent.Lifecycle
import Gump.Agent.Host
import Gump.Agent.Reconcile
import Gump.Agent.Acts
import Gump.Agent.Chain
import Gump.Agent.Authority
import Gump.Agent.Failures
import Gump.Agent.View
import Gump.Agent.Success
import Gump.Agent.Retries
import Gump.Agent.Probes
import Gump.Scheduler.Capability
import Gump.Scheduler.Ledger
import Gump.Scheduler.Place
import Gump.Server.Host
import Gump.Server.Runtime
import Gump.Server.Steps
import Gump.Server.Books
import Gump.Server.Admission
import Gump.Server.Reservations
import Gump.Server.Independence
import Gump.Server.Completions
import Gump.Server.DeployTxn
import Gump.Server.DeployExits
import Gump.Server.Orphans
import Gump.Server.RecoveryTxn
import Gump.Server.Intent
import Gump.Server.HandleDeploy
import Gump.Hiccup.Topic
import Gump.Hiccup.Codec
import Gump.Hiccup.Board
import Gump.Hiccup.Snapshot
import Gump.Hiccup.Keeper
import Gump.Hiccup.Merge
import Gump.Driver.Secrets
import Gump.Driver.Common
import Gump.Telemetry.Ring
import Gump.Telemetry.Session
import Gump.Archive.Path
import Gump.Archive.Ustar
import Gump.Foundation.TopRanked
import Gump.Memory.Records.TxnRevision
import Gump.Memory.Authority.Agent
import Gump.Memory.Membership
import Gump.Memory.JointQuorum
import Gump.Agent.Exhausted
import Gump.Scheduler.Balance
import Gump.Scheduler.Choice
import Gump.Telemetry.Keeper
import Gump.Foundation.Base128
import Gump.Protocol.Frame
import Gump.Telemetry.Relay
import Gump.Telemetry.Bounds
import Gump.Telemetry.Stream
import Gump.Telemetry.Plane
import Gump.Telemetry.Sinks
import Gump.Telemetry.Adapter
import Gump.Foundation.Rotation
import Gump.Hiccup.Delivery
import Gump.Hiccup.Introductions
import Gump.Archive.Jail
import Gump.Foundation.Segments
import Gump.Manifest.Capture
