import Avalon.Core.Bytes
import Avalon.Core.Sha256
import Avalon.Core.Pow2Split
import Avalon.Core.Collision
import Avalon.Core.HashChain
import Avalon.Core.Segments
import Avalon.Core.Fallible
import Avalon.Core.Replay
import Avalon.Core.Wire
import Avalon.Core.DepthFirst
import Avalon.Core.SortedMap
import Avalon.Core.TopEntries
import Avalon.Core.KeySet
import Avalon.Core.TableView
import Avalon.Core.Interleaving
import Avalon.Core.Locks
import Avalon.Core.EventLog
import Avalon.Core.Json
import Avalon.Core.Base64
import Avalon.Chain.Merkle
import Avalon.Core.LayeredFold
import Avalon.Chain.LayeredTree
import Avalon.Chain.IncrementalMerkle
import Avalon.Protocol.CanonicalPayload
import Avalon.Protocol.CanonicalParser
import Avalon.Protocol.CanonicalRoundTrip
import Avalon.Protocol.SigningBytes
import Avalon.Protocol.SigningBytesReader
import Avalon.Protocol.LedgerEntry
import Avalon.Protocol.Events
import Avalon.Protocol.Sth
import Avalon.Protocol.Witness
import Avalon.Protocol.CosignedSth
import Avalon.Protocol.IdentityId
import Avalon.Protocol.IssuerKeys
import Avalon.Protocol.IdentityChain
import Avalon.Protocol.ChainHash
import Avalon.Protocol.IdentityChainWire
import Avalon.Protocol.SignedMessages
import Avalon.Protocol.IdentityChainLaws
import Avalon.Protocol.AcceptedChain
import Avalon.Chain.Ledger
import Avalon.Chain.LedgerHeads
import Avalon.Chain.LedgerReads
import Avalon.Chain.LedgerIntegrity
import Avalon.Chain.LedgerPrepare
import Avalon.Chain.WitnessStore
import Avalon.Chain.CosignatureOrder
import Avalon.Chain.Mirror
import Avalon.Chain.EnvelopeStorage
import Avalon.Chain.Observations
import Avalon.Chain.Promotion
import Avalon.Chain.Convergence
import Avalon.Chain.CrossShard
import Avalon.Chain.CrossShardProofs
import Avalon.Protocol.NodeRequest
import Avalon.Indexer.ChainStore
import Avalon.Indexer.Dispatch
import Avalon.Indexer.ProfileChain
import Avalon.Indexer.Rebuild
import Avalon.Indexer.LocalAssignment
import Avalon.Indexer.KeyEventHashes
import Avalon.Core.UniqueTable
import Avalon.Protocol.DisplayName
import Avalon.Indexer.IdentityKeys
import Avalon.Indexer.DisplayNames
import Avalon.Indexer.KeyAuthority
import Avalon.Indexer.AttestationRevocation
import Avalon.Indexer.FoldedCounts
import Avalon.Indexer.Friendships
import Avalon.Indexer.KeyFacts
import Avalon.Indexer.KeyConvergence
import Avalon.Indexer.KeyOrder
import Avalon.Server.OverlayRouting
import Avalon.Protocol.Shard
import Avalon.Protocol.ShardGrammar
import Avalon.Protocol.DomainProof
import Avalon.Protocol.NameContest
import Avalon.Server.NameClaims
import Avalon.Server.ShardRegistry
import Avalon.Server.PeerTable
import Avalon.Server.Retention
import Avalon.Server.KnownList
import Avalon.Server.KnownListRefill
import Avalon.Server.WitnessCosign
import Avalon.Server.Deferral
import Avalon.Server.DeferralBounds
import Avalon.Server.MirrorProjection
import Avalon.Server.MirrorBackfill
import Avalon.Server.MirrorOrder
import Avalon.Server.MirrorProofs
import Avalon.Server.NodeAuth
import Avalon.Server.NodeCredential
import Avalon.Server.NodeHttpWire
import Avalon.Server.ReplayQueue
import Avalon.Server.SignatureGate
import Avalon.Server.Guardians
import Avalon.Server.GuardianRaces
import Avalon.Server.GuildRoles
import Avalon.Server.GuildOwnership
import Avalon.Server.GuildRoleRefs
import Avalon.Server.GuildMembership
import Avalon.Server.GuildView
import Avalon.Server.RecoveryRequests
import Avalon.Server.RecoverySafety
import Avalon.Server.HeadGossip
import Avalon.Server.Equivocation
import Avalon.Server.CosignGather
import Avalon.Server.EvidenceGrowth
import Avalon.Server.Outbox
import Avalon.Server.OutboxSettlement
import Avalon.Server.OutboxOrder
import Avalon.Server.OutboxFairness
import Avalon.Server.SelfSigned
import Avalon.Server.Logins
import Avalon.Server.LoginApprovals
import Avalon.Server.LoginRevocation
import Avalon.Server.Connections
import Avalon.Server.Consent
import Avalon.Server.Rollback
import Avalon.Server.Reversals
