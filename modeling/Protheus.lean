import Protheus.ActionReceipts
import Protheus.AdaptiveStore.CompareAndSet
import Protheus.ApprovalReplies
import Protheus.AttentionCompaction
import Protheus.AttentionCursor
import Protheus.AttentionDedupe
import Protheus.AttentionOrder
import Protheus.AttentionTally
import Protheus.AutoApproval.Accounts
import Protheus.Autoscale.TierReservation
import Protheus.Campaigns.Seeds
import Protheus.CommandCenter
import Protheus.ConduitCommand
import Protheus.ConduitRuns
import Protheus.ConstitutionGuardian.Activations
import Protheus.Crdt
import Protheus.Decompose.GateSeverity
import Protheus.Decompose.Goal
import Protheus.Decompose.Rows
import Protheus.Directive.Forgery
import Protheus.Directive.Repair
import Protheus.Directive.Scanners
import Protheus.EgressUrls
import Protheus.GraphToolkit.Betweenness
import Protheus.GraphToolkit.Louvain
import Protheus.GraphToolkit.PageRank
import Protheus.Importers
import Protheus.Ipc
import Protheus.MemoryIndex.Loads
import Protheus.MemoryRuntime.Migration
import Protheus.MutationProvenance
import Protheus.Network.Consensus
import Protheus.Network.Emission
import Protheus.Network.Inclusion
import Protheus.Pinnacle
import Protheus.Rag.CausalRetrieve
import Protheus.Rag.ChunkWindows
import Protheus.Rag.MergeVault
import Protheus.RateLimits
import Protheus.Redaction
import Protheus.SecretBroker.RoundTrip
import Protheus.Security.GoalPreservation
import Protheus.Security.IntegritySeal
import Protheus.Security.LeaseRuns
import Protheus.Security.StartupRuns
import Protheus.Security.Switchboard
import Protheus.SeedProtocol.Gate
import Protheus.SessionIsolation
import Protheus.SpawnLimits
import Protheus.Storage
import Protheus.Swarm.Consensus
import Protheus.Swarm.Ends
import Protheus.Swarm.Handoffs
import Protheus.Swarm.Labels
import Protheus.Swarm.Lineage
import Protheus.Swarm.Releases
import Protheus.Swarm.Settlements
import Protheus.Swarm.Streams
import Protheus.SwarmRouter.Queue
import Protheus.SwarmRouter.Scaling
import Protheus.TextCuts
import Protheus.UidKernel
import Protheus.WorkflowFingerprint
