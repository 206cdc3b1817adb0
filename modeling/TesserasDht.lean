import TesserasDht.Lib.Runs
import TesserasDht.Lib.Streaks
import TesserasDht.Lib.Tasks
import TesserasDht.Lib.Bytes
import TesserasDht.Lib.Lists
import TesserasDht.Lib.Slots
import TesserasDht.Lib.Tables
import TesserasDht.Lib.Nearest
import TesserasDht.Lib.Xor
import TesserasDht.Lib.TokenBucket
import TesserasDht.Lib.Slices
import TesserasDht.Lib.Files
import TesserasDht.Lib.Sha256
import TesserasDht.Lib.Formats
import TesserasDht.Lib.MessagePack
import TesserasDht.Code.Basic
import TesserasDht.Code.NodeId
import TesserasDht.Code.Routing
import TesserasDht.Code.Lookup
import TesserasDht.Code.ChunkStore
import TesserasDht.Code.Metadata
import TesserasDht.Code.Erasure
import TesserasDht.Code.Node
import TesserasDht.Code.Token
import TesserasDht.Code.Commands
import TesserasDht.Code.Serde
import TesserasDht.Code.Message
import TesserasDht.Code.Wire
import TesserasDht.Code.MessageSerde
import TesserasDht.Code.RateLimit
import TesserasDht.Code.Context
import TesserasDht.Code.Inbound
import TesserasDht.Code.Peers
import TesserasDht.Code.Network
import TesserasDht.Code.Operations
import TesserasDht.Code.Sqlite
import TesserasDht.Code.Maintenance
import TesserasDht.Code.Quic
import TesserasDht.Code.Frames
import TesserasDht.Code.SendAny
import TesserasDht.Code.Stun
import TesserasDht.Code.StoreRun
import TesserasDht.Routing
import TesserasDht.Distances
import TesserasDht.RefreshIds
import TesserasDht.TableRuns
import TesserasDht.LastSeen
import TesserasDht.Lookup
import TesserasDht.LookupRounds
import TesserasDht.Convergence
import TesserasDht.ClosestNodes
import TesserasDht.ExactLookups
import TesserasDht.Chunks
import TesserasDht.ChunkAccounting
import TesserasDht.ChunkQuota
import TesserasDht.ChunkReads
import TesserasDht.ChunkFailures
import TesserasDht.ChunkHistories
import TesserasDht.Erasure
import TesserasDht.Encoding
import TesserasDht.Store
import TesserasDht.Room
import TesserasDht.Providers
import TesserasDht.Retrieve
import TesserasDht.TokenSafety
import TesserasDht.Tokens
import TesserasDht.Configurations
import TesserasDht.Commands
import TesserasDht.Messages
import TesserasDht.Lengths
import TesserasDht.Admission
import TesserasDht.Eviction
import TesserasDht.Signatures
import TesserasDht.Routines
import TesserasDht.Conduct
import TesserasDht.Peers
import TesserasDht.Identities
import TesserasDht.Addresses
import TesserasDht.Relay
import TesserasDht.Persistence
import TesserasDht.PeerAddresses
import TesserasDht.AddressMerge
import TesserasDht.ProviderTable
import TesserasDht.OwnRecords
import TesserasDht.PeerQuota
import TesserasDht.FailureCounts
import TesserasDht.Resend
import TesserasDht.Streams
import TesserasDht.Frames
import TesserasDht.Race
import TesserasDht.Stun
import TesserasDht.RateLimit
import TesserasDht.DefaultedFields
import TesserasDht.ProviderLookups
import TesserasDht.StoreFailures
import TesserasDht.Connections
import TesserasDht.Requests
import TesserasDht.IdleConnections
import TesserasDht.Watched
import TesserasDht.GuardedWork
import TesserasDht.Lib.Channels
import TesserasDht.Code.Actor
import TesserasDht.Actor
import TesserasDht.CallProgress
import TesserasDht.Code.Identity
import TesserasDht.SpawnedIdentities
import TesserasDht.PendingResponses
import TesserasDht.ServedChunks
import TesserasDht.Lib.Simulation
import TesserasDht.Lib.Trees
import TesserasDht.Code.ChunkTree
import TesserasDht.ChunkTrees
import TesserasDht.Reach
import TesserasDht.Code.Upkeep
import TesserasDht.ProviderOrigins
import TesserasDht.Replies
