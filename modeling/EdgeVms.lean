import EdgeVms.Process.Pool
import EdgeVms.Process.Versioned
import EdgeVms.Python.Value
import EdgeVms.Platform.World
import EdgeVms.Platform.Variables
import EdgeVms.Platform.Contract
import EdgeVms.Vms.Controller
import EdgeVms.Verified.Platform.Rules
import EdgeVms.Verified.Vms.Placement
import EdgeVms.Verified.Vms.Overlap
import EdgeVms.Verified.Platform.Alone
import EdgeVms.Verified.Vms.EnsurePlaced
import EdgeVms.Verified.Vms.CrashHealing
import EdgeVms.Verified.Vms.CameraRow
import EdgeVms.Verified.Vms.CameraEdits
import EdgeVms.Domain.Signer
import EdgeVms.Verified.Domain.TrustBundle
import EdgeVms.Domain.Tokens
import EdgeVms.Verified.Domain.Revocation
import EdgeVms.Verified.Platform.LostUpdate
import EdgeVms.Verified.Platform.Commits
import EdgeVms.Platform.Events
import EdgeVms.Vms.Archive
import EdgeVms.Verified.Platform.EpochLock
import EdgeVms.Verified.Platform.SlotIdentity
import EdgeVms.Python.Table
import EdgeVms.Vms.Reconciler
import EdgeVms.Vms.Worker
import EdgeVms.Verified.Vms.WorkerRuns
import EdgeVms.Verified.Vms.Deaths
import EdgeVms.Verified.Vms.ReportedState
import EdgeVms.Verified.Vms.Partition
import EdgeVms.Cluster.Config
import EdgeVms.Cluster.Publisher
import EdgeVms.Verified.Cluster.Replicated
import EdgeVms.Cluster.Rehydrate
import EdgeVms.Verified.Cluster.Restorable
import EdgeVms.Verified.Vms.SingleController
import EdgeVms.Verified.Vms.Repair
import EdgeVms.Verified.Vms.Promotion
import EdgeVms.Node.AppHost
import EdgeVms.Verified.Node.StopRecording
import EdgeVms.Verified.Node.Indexing
import EdgeVms.Platform.EventIndex
import EdgeVms.Verified.Platform.EventRows
import EdgeVms.Verified.Platform.EventHonesty
import EdgeVms.Verified.Vms.RetentionRows
import EdgeVms.Process.Greedy
import EdgeVms.Verified.Vms.Board
import EdgeVms.Verified.Vms.ReleasedSlots
import EdgeVms.Vms.ClusterController
import EdgeVms.Verified.Vms.Reachability
import EdgeVms.Platform.Fleet
import EdgeVms.Verified.Platform.Passes
import EdgeVms.Verified.Platform.Mirrors
import EdgeVms.Verified.Platform.CopyRetention
import EdgeVms.Verified.Platform.EventIdentity
import EdgeVms.Cluster.Directory
import EdgeVms.Domain.Federation
import EdgeVms.Domain.ReadView
import EdgeVms.Verified.Domain.Unreachable
import EdgeVms.Domain.Api
import EdgeVms.Verified.Domain.Idempotency
import EdgeVms.Domain.KeyStore
import EdgeVms.Verified.Domain.ColdStart
import EdgeVms.Verified.Domain.TokenKeys
import EdgeVms.Domain.Identity
import EdgeVms.Verified.Domain.IdentityEdits
import EdgeVms.Verified.Domain.PublishedSet
import EdgeVms.Vms.Instances
import EdgeVms.Verified.Vms.OwnWrites
import EdgeVms.Verified.Vms.FencedInstance
import EdgeVms.Cluster.Placer
import EdgeVms.Verified.Cluster.StoredPlacement
import EdgeVms.Node.GoReconciler
import EdgeVms.Verified.Vms.Converges
import EdgeVms.Verified.Node.SameReconciler
import EdgeVms.Domain.Rotation
import EdgeVms.Verified.Domain.RootRotation
import EdgeVms.Domain.Enroll
import EdgeVms.Verified.Domain.Enrollment
import EdgeVms.Domain.ClusterPlacement
import EdgeVms.Verified.Domain.PlacersAgree
import EdgeVms.Verified.Vms.Tombstones
import EdgeVms.Node.Pipeline
import EdgeVms.Verified.Node.OwnStarts
import EdgeVms.Domain.Gateway
import EdgeVms.Verified.Domain.GatewayViewers
import EdgeVms.Node.Retention
import EdgeVms.Process.Throughout
import EdgeVms.Verified.Node.RetentionOrder
import EdgeVms.Process.Ring
import EdgeVms.Verified.Platform.PeerRing
import EdgeVms.Vms.Timeline
import EdgeVms.Platform.VarFiles
import EdgeVms.Verified.Vms.Timeline
import EdgeVms.Verified.Platform.VarFileKeys
import EdgeVms.Vms.Console
import EdgeVms.Verified.Vms.RetriedCreate
import EdgeVms.Verified.Vms.OperatorFields
import EdgeVms.Process.Stable
import EdgeVms.Verified.Vms.ExactRepair
import EdgeVms.Verified.Vms.ExactRetention
import EdgeVms.Python.Json
import EdgeVms.Vms.Manifest
import EdgeVms.Verified.Vms.Rebuildable
import EdgeVms.Python.Calendar
import EdgeVms.Python.Stamps
import EdgeVms.Python.Relpath
import EdgeVms.Vms.PathParsers
import EdgeVms.Verified.Vms.PathParsers
import EdgeVms.Verified.Vms.HeldEpochs
import EdgeVms.Verified.Vms.Rebalance
import EdgeVms.Verified.Platform.Retirement
import EdgeVms.Verified.Domain.Coverage
import EdgeVms.Domain.Preferences
import EdgeVms.Verified.Domain.SecondTab
import EdgeVms.Domain.Grants
import EdgeVms.Verified.Domain.AccessEnds
import EdgeVms.Cluster.FakeVariables
import EdgeVms.Verified.Cluster.OneLog
import EdgeVms.Cluster.SegmentRoute
import EdgeVms.Verified.Cluster.RangeReads
import EdgeVms.Domain.StoredRoot
import EdgeVms.Verified.Domain.HalfRotation
import EdgeVms.Domain.Serials
import EdgeVms.Verified.Domain.SerialNumbers
import EdgeVms.Domain.TokenText
import EdgeVms.Verified.Domain.TokenTotality
import EdgeVms.Platform.IndexedFleet
import EdgeVms.Verified.Platform.DeletedBuckets
import EdgeVms.Domain.Shadow
import EdgeVms.Verified.Domain.CleanShadow
import EdgeVms.Verified.Domain.Stalls
import EdgeVms.Verified.Domain.LastKnown
import EdgeVms.Verified.Domain.Causes
import EdgeVms.Verified.Domain.FrameAccounts
import EdgeVms.Verified.Node.GivenUp
import EdgeVms.Edge.Spool
import EdgeVms.Verified.Edge.SpoolAccounts
import EdgeVms.Edge.Upload
import EdgeVms.Verified.Edge.Acknowledged
import EdgeVms.Cluster.Reindex
import EdgeVms.Verified.Cluster.Sweeps
import EdgeVms.Node.Secrets
import EdgeVms.Verified.Node.Redaction
import EdgeVms.Kvs.Fragments
import EdgeVms.Verified.Kvs.Runs
import EdgeVms.Kvs.Player
import EdgeVms.Verified.Kvs.Clicks
import EdgeVms.Cluster.Timeline
import EdgeVms.Python.Reread
import EdgeVms.Verified.Cluster.MergedView
import EdgeVms.Cluster.ResourceServer
import EdgeVms.Verified.Cluster.Containment
import EdgeVms.Cluster.NodeHost
import EdgeVms.Verified.Cluster.Zombies
import EdgeVms.Verified.Cluster.FreshEpochs
import EdgeVms.Verified.Cluster.InTime
import EdgeVms.Verified.Cluster.Recovery
import EdgeVms.Cluster.RaftVariables
import EdgeVms.Process.Escape
import EdgeVms.Verified.Cluster.StorePort
import EdgeVms.Kvs.Looper
import EdgeVms.Verified.Kvs.Shutdown
import EdgeVms.Process.Rows
import EdgeVms.Verified.Cluster.Recovered
import EdgeVms.Process.Alongside
import EdgeVms.Verified.Platform.Incremental
import EdgeVms.Node.PgStore
import EdgeVms.Process.Asks
import EdgeVms.Verified.Node.Observed
import EdgeVms.Verified.Node.ConditionSince
import EdgeVms.Verified.Node.Settles
import EdgeVms.Verified.Node.StaysConverged
