import DataApi.Lib.Interleave
import DataApi.Lib.ReadCommitted
import DataApi.Lib.Table
import DataApi.Ids
import DataApi.Schema
import DataApi.Error
import DataApi.Events
import DataApi.ObjectStore
import DataApi.Server
import DataApi.Db.Sessions
import DataApi.Db.Metadata
import DataApi.Db.Participants
import DataApi.Db.Uniform
import DataApi.Routes.Sessions
import DataApi.Routes.Consent
import DataApi.Routes.Service
import DataApi.Lib.Locking
import DataApi.Lib.Fetched
import DataApi.Lib.Statements
import DataApi.Rules
import DataApi.Speakers
import DataApi.RowRules
import DataApi.Db.Writes
import DataApi.Proofs.StatusHistory
import DataApi.Proofs.ChunkSeq
import DataApi.Proofs.MetadataMerge
import DataApi.Lib.Tags
import DataApi.Lib.Alone
import DataApi.Proofs.EtagHistory
import DataApi.Proofs.UploadRetry
import DataApi.Proofs.ChunkKeys
import DataApi.Proofs.ChunkLife
import DataApi.Proofs.ChunkRows
import DataApi.ServiceAuth
import DataApi.Proofs.TokenLife
import DataApi.Ws
import DataApi.Proofs.WsDelivery
import DataApi.Proofs.Transactional
import DataApi.Serial
import DataApi.Proofs.Lifecycle
import DataApi.Proofs.ChunkOnce
import DataApi.Lib.Blobs
import DataApi.Proofs.StoreAgreement
import DataApi.Proofs.StatusEvents
import DataApi.Lib.RowInvariant
import DataApi.Proofs.Pseudonyms
import DataApi.Lib.Solo
import DataApi.Outcomes
import DataApi.Proofs.ErrorsUnchanged
import DataApi.Metrics
import DataApi.Proofs.Histograms
import DataApi.Proofs.Sweeps
import DataApi.Proofs.Listing
import DataApi.Proofs.UsableTags
import DataApi.Proofs.FailsClosed
import DataApi.Proofs.UploadTrace
import DataApi.Proofs.BatchAdd
import DataApi.Proofs.BulkDedup
import DataApi.Proofs.BulkRace
import DataApi.Proofs.TimeRanges
import DataApi.Proofs.Subscribers
import DataApi.Proofs.Subscriptions
import DataApi.Proofs.Heartbeat
import DataApi.Proofs.ChunkLimit
import DataApi.Lib.Paging
import DataApi.Proofs.SessionPaging
import DataApi.Proofs.AdminUsers
import DataApi.Bodies
import DataApi.Proofs.RowPatches
import DataApi.Proofs.NullPatches
import DataApi.Proofs.Malformed
import DataApi.Lib.Bulk
import DataApi.Lib.Constraints
import DataApi.Proofs.WipeSteps
import DataApi.Proofs.WipePaths
import DataApi.Proofs.WipeRetries
import DataApi.Lib.Footprint
import DataApi.Footprint
import DataApi.Proofs.DropQueue
import DataApi.Proofs.DropBursts
import DataApi.Proofs.TokenBinding
import DataApi.Proofs.Tombstones
import DataApi.Lib.History
import DataApi.Gateway
import DataApi.Lib.Announce
import DataApi.Proofs.RowHistories
import DataApi.Telling
import DataApi.Proofs.EventTruth
import DataApi.Proofs.Attribution
import DataApi.Lib.Trail
import DataApi.Auditing
import DataApi.Proofs.AuditTrail
import DataApi.Lib.Broadcast
import DataApi.Live
import DataApi.Proofs.Feed
import DataApi.Lib.Tally
import DataApi.Proofs.SeenCounts
import DataApi.Proofs.LateWrites
import DataApi.Proofs.LateGuilds
import DataApi.Proofs.LateBatches
import DataApi.Proofs.LateErrors
