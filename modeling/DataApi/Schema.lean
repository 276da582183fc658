/-
The tables of the migrations (`migrations/001_features_pass.sql`,
`002_consent_tokens.sql`) and their constraints. A database is the list of
the rows of all its tables.
-/
import DataApi.Ids
import DataApi.State
import DataApi.Lib.Table

namespace DataApi

open Relational

structure User where
  pseudoId : PseudoId
  isAdmin : Bool
  dataWipedAt : Option Timestamp
  createdAt : Timestamp

structure DisplayName where
  pseudoId : PseudoId
  displayName : String
  firstSeenAt : Timestamp
  lastSeenAt : Timestamp
  seenCount : Int
  source : String

structure Session where
  id : Uuid
  guildId : Int
  startedAt : Timestamp
  endedAt : Option Timestamp
  abandonedAt : Option Timestamp
  deletedAt : Option Timestamp
  gameSystem : Option String
  campaignName : Option String
  participantCount : Option Int
  s3Prefix : String
  status : SessionStatus
  createdAt : Timestamp

structure Participant where
  id : Uuid
  sessionId : Uuid
  pseudoId : PseudoId
  consentScope : Option String
  consentedAt : Option Timestamp
  midSessionJoin : Bool
  noLlmTraining : Bool
  noPublicRelease : Bool
  dataWipedAt : Option Timestamp
  createdAt : Timestamp

structure MetadataBlob where
  sessionId : Uuid
  blob : Json
  etag : ETag
  updatedAt : Timestamp

structure ChunkRow where
  sessionId : Uuid
  pseudoId : PseudoId
  seq : Int
  s3Key : String
  sizeBytes : Int
  captureStartedAt : Timestamp
  durationMs : Int
  clientChunkId : String
  createdAt : Timestamp

/-- The columns only segments, or only beats and scenes, have. -/
inductive TextColumns
  | segment (pseudoId : Option String) (text : String) (confidence : Option F64)
  | titleSummary (title summary : String)

/-- A raw row of `session_segments`, `session_beats` or `session_scenes`. -/
structure UniformPgRow where
  id : Uuid
  sessionId : Uuid
  clientId : String
  startMs : Int
  endMs : Int
  columns : TextColumns
  flags : Json
  original : Option Json
  etag : String
  authorService : String
  authorUserPseudoId : Option String
  createdAt : Timestamp
  updatedAt : Timestamp

structure MuteRange where
  id : Uuid
  sessionId : Uuid
  pseudoId : PseudoId
  startOffsetMs : Int
  endOffsetMs : Int
  reason : Option String
  createdAt : Timestamp

structure ConsentToken where
  token : Uuid
  sessionId : Uuid
  participantId : Uuid
  pseudoId : PseudoId
  createdAt : Timestamp
  expiresAt : Timestamp
  revokedAt : Option Timestamp

structure AuditRow where
  id : Uuid
  atTs : Timestamp
  actorService : String
  actorPseudo : Option String
  sessionId : Option Uuid
  resourceType : String
  resourceId : String
  action : String
  detail : Option Json

/-- The three tables of `db/uniform.rs`. -/
inductive ResourceTable
  | segments
  | beats
  | scenes
  deriving DecidableEq

/-- Natural-text columns: segments have `text`, beats and scenes `title` and
`summary`. -/
inductive TextShape
  | segment
  | titleSummary
  deriving DecidableEq

def ResourceTable.shape : ResourceTable → TextShape
  | .segments => .segment
  | .beats | .scenes => .titleSummary

def ResourceTable.resourceType : ResourceTable → String
  | .segments => "segment"
  | .beats => "beat"
  | .scenes => "scene"

inductive Row
  | user (u : User)
  | displayName (d : DisplayName)
  | session (s : Session)
  | participant (p : Participant)
  | metadata (m : MetadataBlob)
  | chunk (c : ChunkRow)
  | uniform (rt : ResourceTable) (r : UniformPgRow)
  | mute (m : MuteRange)
  | consentToken (t : ConsentToken)
  | audit (a : AuditRow)

/-- Primary keys. -/
inductive Key
  | user (pseudoId : PseudoId)
  | displayName (pseudoId : PseudoId) (displayName : String)
  | session (id : Uuid)
  | participant (id : Uuid)
  | metadata (sessionId : Uuid)
  | chunk (sessionId : Uuid) (pseudoId : PseudoId) (seq : Int)
  | uniform (rt : ResourceTable) (id : Uuid)
  | mute (id : Uuid)
  | consentToken (token : Uuid)
  | audit (id : Uuid)
  deriving DecidableEq

inductive TableName
  | users
  | displayNames
  | sessions
  | participants
  | metadata
  | chunks
  | uniform (rt : ResourceTable)
  | mutes
  | consentTokens
  | audit
  deriving DecidableEq

def Key.table : Key → TableName
  | .user _ => .users
  | .displayName _ _ => .displayNames
  | .session _ => .sessions
  | .participant _ => .participants
  | .metadata _ => .metadata
  | .chunk _ _ _ => .chunks
  | .uniform rt _ => .uniform rt
  | .mute _ => .mutes
  | .consentToken _ => .consentTokens
  | .audit _ => .audit

/-- The values of the other UNIQUE constraints. -/
inductive Uniq
  | participant (sessionId : Uuid) (pseudoId : PseudoId)
  | chunkClient (sessionId : Uuid) (pseudoId : PseudoId) (clientChunkId : String)
  | uniformClient (rt : ResourceTable) (sessionId : Uuid) (clientId : String)
  deriving DecidableEq

def Row.key : Row → Key
  | .user u => .user u.pseudoId
  | .displayName d => .displayName d.pseudoId d.displayName
  | .session s => .session s.id
  | .participant p => .participant p.id
  | .metadata m => .metadata m.sessionId
  | .chunk c => .chunk c.sessionId c.pseudoId c.seq
  | .uniform rt r => .uniform rt r.id
  | .mute m => .mute m.id
  | .consentToken t => .consentToken t.token
  | .audit a => .audit a.id

def Row.uniques : Row → List Uniq
  | .participant p => [.participant p.sessionId p.pseudoId]
  | .chunk c => [.chunkClient c.sessionId c.pseudoId c.clientChunkId]
  | .uniform rt r => [.uniformClient rt r.sessionId r.clientId]
  | _ => []

def Row.refs : Row → List Key
  | .displayName d => [.user d.pseudoId]
  | .participant p => [.session p.sessionId, .user p.pseudoId]
  | .metadata m => [.session m.sessionId]
  | .chunk c => [.session c.sessionId]
  | .uniform _ r => [.session r.sessionId]
  | .mute m => [.session m.sessionId]
  | .consentToken t => [.session t.sessionId, .participant t.participantId, .user t.pseudoId]
  | _ => []

/-- The CHECK constraints, and the range of the one INTEGER a statement
counts up. `session_segments.pseudo_id` and `audit_log.actor_pseudo` have no
CHECK. -/
def Row.check : Row → Bool
  | .user u => isValidPseudoId u.pseudoId.raw
  | .displayName d => (d.source = "bot" || d.source = "portal_override") && d.seenCount < 2 ^ 31
  | .participant p => isValidPseudoId p.pseudoId.raw &&
      p.consentScope.all fun s => s = "full" || s = "decline" || s = "timed_out"
  | .chunk c => c.pseudoId.raw = "mixed" || isValidPseudoId c.pseudoId.raw
  | .uniform _ r => r.authorUserPseudoId.all isValidPseudoId
  | .mute m => isValidPseudoId m.pseudoId.raw
  | _ => true

instance : Schema Row Key Uniq where
  key := Row.key
  uniques := Row.uniques
  refs := Row.refs
  check := Row.check

abbrev Db := List Row

/-! ## The tables -/

def usersT : Table Row User where
  get | .user u => some u | _ => none
  put := .user
  get_eq := by rintro ⟨⟩ t <;> simp

def displayNamesT : Table Row DisplayName where
  get | .displayName d => some d | _ => none
  put := .displayName
  get_eq := by rintro ⟨⟩ t <;> simp

def sessionsT : Table Row Session where
  get | .session s => some s | _ => none
  put := .session
  get_eq := by rintro ⟨⟩ t <;> simp

def participantsT : Table Row Participant where
  get | .participant p => some p | _ => none
  put := .participant
  get_eq := by rintro ⟨⟩ t <;> simp

def metadataT : Table Row MetadataBlob where
  get | .metadata m => some m | _ => none
  put := .metadata
  get_eq := by rintro ⟨⟩ t <;> simp

def chunksT : Table Row ChunkRow where
  get | .chunk c => some c | _ => none
  put := .chunk
  get_eq := by rintro ⟨⟩ t <;> simp

def uniformT (rt : ResourceTable) : Table Row UniformPgRow where
  get | .uniform rt' r => if rt' = rt then some r else none | _ => none
  put := .uniform rt
  get_eq := by rintro ⟨⟩ t <;> simp

def mutesT : Table Row MuteRange where
  get | .mute m => some m | _ => none
  put := .mute
  get_eq := by rintro ⟨⟩ t <;> simp

def consentTokensT : Table Row ConsentToken where
  get | .consentToken t => some t | _ => none
  put := .consentToken
  get_eq := by rintro ⟨⟩ t <;> simp

def auditT : Table Row AuditRow where
  get | .audit a => some a | _ => none
  put := .audit
  get_eq := by rintro ⟨⟩ t <;> simp

end DataApi
