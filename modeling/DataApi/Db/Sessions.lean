/-
`db::sessions` and `db::chunks`: the session row and its chunk rows.
-/
import DataApi.Server

namespace DataApi

open Relational ReadCommitted Handler

namespace Sessions

structure CreateSession where
  id : Uuid
  guildId : Int
  startedAt : Timestamp
  gameSystem : Option String
  campaignName : Option String
  s3Prefix : String

def createRow (input : CreateSession) (env : Env) : Session :=
  { id := input.id, guildId := input.guildId, startedAt := input.startedAt, endedAt := none
    abandonedAt := none, deletedAt := none, gameSystem := input.gameSystem
    campaignName := input.campaignName, participantCount := none, s3Prefix := input.s3Prefix
    status := .recording, createdAt := env.now }

def createSql (input : CreateSession) : Sql := sessionsT.insert fun env _ => .ok (createRow input env)

def create (input : CreateSession) : Handler Session := fetchOne .pool sessionsT (createSql input)

def byId (id : Uuid) (s : Session) : Bool := s.id = id

def getSql (id : Uuid) : Sql := sessionsT.select (byId id)

def getInTxSql (id : Uuid) : Sql := sessionsT.forUpdate (byId id)

/-- `SELECT * … FOR UPDATE`. -/
def getInTx (id : Uuid) : Handler Session := do
  match ← fetchOptional .tx sessionsT (getInTxSql id) with
  | some s => return s
  | none => throw (.notFound s!"session {id.text} not found")

/-- `SELECT guild_id FROM sessions WHERE id = $1`, and the `guild_id_for_session` of the routes. -/
def guildIdForSession (id : Uuid) : Handler Int := do
  match ← fetchOptional .pool sessionsT (getSql id) with
  | some s => return s.guildId
  | none => throw (.notFound s!"session {id.text} not found")

structure ListFilter where
  status : Option String
  guildId : Option Int
  limit : Option Int
  offset : Option Int

/-- An absent filter is a NULL test. -/
def filtered (status : Option SessionStatus) (guildId : Option Int) (s : Session) : Bool :=
  status.all (fun st => s.status = st) && guildId.all fun g => s.guildId = g

def listSql (status : Option SessionStatus) (guildId : Option Int) : Sql := sessionsT.select (filtered status guildId)

/-- `LIMIT COALESCE($3, 100) OFFSET COALESCE($4, 0)`: the server refuses a
negative one. -/
def window (limit offset : Option Int) (rows : List Session) : Except (DbError Key Uniq) (List Session) :=
  if limit.getD 100 < 0 || offset.getD 0 < 0 then .error .failure
  else .ok ((rows.drop (offset.getD 0).toNat).take (limit.getD 100).toNat)

/-- `order` is how the server reads `ORDER BY started_at DESC` this time: it
may take rows that tie in any order. -/
def list (order : List Session → List Session) (f : ListFilter) : Handler (List Session) := do
  let statusParsed ← ofResult ((f.status.mapM SessionStatus.fromStr).mapError UnknownStatus.toAppError)
  let rows ← fetchAll .pool sessionsT (listSql statusParsed f.guildId)
  ofDb (window f.limit f.offset (order rows))

def setStatus (status : SessionStatus) (env : Env) (s : Session) : Session :=
  { s with
    status := status
    abandonedAt := if status = .abandoned then some env.now else s.abandonedAt
    deletedAt := if status = .deleted then some env.now else s.deletedAt }

def updateStatusSql (id : Uuid) (status : SessionStatus) : Sql :=
  sessionsT.update (byId id) (setStatus status)

/-- Writes the status without verifying legality. -/
def updateStatus (id : Uuid) (status : SessionStatus) : Handler Session :=
  fetchOne .tx sessionsT (updateStatusSql id status)

def setFields (endedAt : Option (Option Timestamp)) (participantCount : Option (Option Int)) (_ : Env)
    (s : Session) : Session :=
  { s with endedAt := endedAt.getD s.endedAt, participantCount := participantCount.getD s.participantCount }

def patchFieldsSql (id : Uuid) (endedAt : Option (Option Timestamp))
    (participantCount : Option (Option Int)) : Sql :=
  sessionsT.update (byId id) (setFields endedAt participantCount)

def patchFields (id : Uuid) (endedAt : Option (Option Timestamp))
    (participantCount : Option (Option Int)) : Handler Session :=
  fetchOne .tx sessionsT (patchFieldsSql id endedAt participantCount)

def setResumed (_ : Env) (s : Session) : Session := { s with status := .recording, abandonedAt := none }

def resumeFromAbandonedSql (id : Uuid) : Sql := sessionsT.update (byId id) setResumed

def resumeFromAbandoned (id : Uuid) : Handler Session :=
  fetchOne .tx sessionsT (resumeFromAbandonedSql id)

end Sessions

namespace Chunks

def ofPair (sid : Uuid) (pid : PseudoId) (c : ChunkRow) : Bool := c.sessionId = sid && c.pseudoId = pid

def lookupByClientIdSql (sid : Uuid) (pid : PseudoId) (clientChunkId : String) : Sql :=
  chunksT.select fun c => ofPair sid pid c && c.clientChunkId = clientChunkId

def lookupByClientId (sid : Uuid) (pid : PseudoId) (clientChunkId : String) : Handler (Option ChunkRow) :=
  fetchOptional .tx chunksT (lookupByClientIdSql sid pid clientChunkId)

/-- `COALESCE((SELECT MAX(seq) …), -1) + 1`. -/
def nextSeq (sid : Uuid) (pid : PseudoId) (db : Db) : Int :=
  ((((chunksT.rows db).filter (ofPair sid pid)).map (·.seq)).max?.getD (-1)) + 1

/-- What `insert` binds. -/
structure Insert where
  sessionId : Uuid
  pseudoId : PseudoId
  s3Key : String
  sizeBytes : Int
  captureStartedAt : Timestamp
  durationMs : Int
  clientChunkId : String

def insertRow (x : Insert) (seq : Int) (env : Env) : ChunkRow :=
  { sessionId := x.sessionId, pseudoId := x.pseudoId, seq := seq, s3Key := x.s3Key
    sizeBytes := x.sizeBytes, captureStartedAt := x.captureStartedAt, durationMs := x.durationMs
    clientChunkId := x.clientChunkId, createdAt := env.now }

/-- `seq` is an `INTEGER`: past its range the statement fails. -/
def nextRow (x : Insert) (env : Env) (snap : Db) : Except (DbError Key Uniq) ChunkRow :=
  if nextSeq x.sessionId x.pseudoId snap < 2 ^ 31 then .ok (insertRow x (nextSeq x.sessionId x.pseudoId snap) env)
  else .error .outOfRange

def insertSql (x : Insert) : Sql := chunksT.insert (nextRow x)

def insert (x : Insert) : Handler ChunkRow := fetchOne .tx chunksT (insertSql x)

def at' (sid : Uuid) (pid : PseudoId) (seq : Int) (c : ChunkRow) : Bool := ofPair sid pid c && c.seq = seq

/-- The `UPDATE … SET s3_key` of `routes/chunks.rs`. -/
def setKeySql (sid : Uuid) (pid : PseudoId) (seq : Int) (key : String) : Sql :=
  chunksT.update (at' sid pid seq) fun _ c => { c with s3Key := key }

def getSql (sid : Uuid) (pid : PseudoId) (seq : Int) : Sql := chunksT.select (at' sid pid seq)

def get (sid : Uuid) (pid : PseudoId) (seq : Int) : Handler ChunkRow := do
  match ← fetchOptional .pool chunksT (getSql sid pid seq) with
  | some c => return c
  | none => throw (.notFound s!"chunk {seq} not found for session {sid.text} / {pid}")

def deleteForSessionSql (sid : Uuid) : Sql := chunksT.delete fun c => c.sessionId = sid

/-- The keys of the deleted rows. -/
def deleteForSession (sid : Uuid) : Handler (List String) := do
  return (← fetchAll .tx chunksT (deleteForSessionSql sid)).map (·.s3Key)

def deleteForParticipantSql (sid : Uuid) (pid : PseudoId) : Sql := chunksT.delete (ofPair sid pid)

def deleteForParticipant (sid : Uuid) (pid : PseudoId) : Handler (List String) := do
  return (← fetchAll .tx chunksT (deleteForParticipantSql sid pid)).map (·.s3Key)

end Chunks
end DataApi
