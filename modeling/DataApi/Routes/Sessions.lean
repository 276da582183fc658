/-
`routes/sessions.rs` and `routes/chunks.rs`: the session lifecycle and the
chunk upload.
-/
import DataApi.Db.Metadata
import DataApi.Db.Participants
import DataApi.Db.Uniform

namespace DataApi

open Relational ReadCommitted Handler

/-- What the handlers share besides the pool, the store and the bus. Parsing
an RFC 3339 instant is the date library's. -/
structure AppState where
  resumeTtl : Nat
  sharedSecret : String
  parseRfc3339 : String → Except String Timestamp

namespace Json

def optStr : Option String → Json
  | some s => .str s
  | none => .null

def optBool : Option Bool → Json
  | some b => .bool b
  | none => .null

/-- An instant stands as its number. -/
def optTime : Option Timestamp → Json
  | some t => .int t
  | none => .null

end Json

/-- A pseudonym in a path. -/
def Handler.pseudoId (raw : String) : Handler PseudoId :=
  ofResult ((PseudoId.new raw).mapError PseudoIdError.toAppError)

/-! ## Headers -/

/-- Header names are lower-case; a value is any bytes. -/
abbrev HeaderMap := List (String × Bytes)

def HeaderMap.get (h : HeaderMap) (name : String) : Option Bytes := List.lookup name h

/-- `HeaderValue::to_str`: visible ASCII and tabs only. -/
def headerStr (v : Bytes) : Option String :=
  if v.all fun b => (32 ≤ b && b < 127) || b = 9 then some (String.ofList (v.map fun b => Char.ofNat b.toNat))
  else none

/-- The digits of `str::parse::<i32>`, after the sign. -/
def parseDigits (sign : Int) : List Char → Int → Except String Int
  | [], acc => .ok acc
  | c :: cs, acc =>
    let overflow := if sign = 1 then "number too large to fit in target type"
      else "number too small to fit in target type"
    if !c.isDigit then .error "invalid digit found in string"
    else
      let acc' := acc * 10 + sign * (c.toNat - '0'.toNat : Nat)
      if acc' < -2 ^ 31 || 2 ^ 31 ≤ acc' then .error overflow else parseDigits sign cs acc'

def parseI32 (s : String) : Except String Int :=
  match s.toList with
  | [] => .error "cannot parse integer from empty string"
  | ['+'] | ['-'] => .error "invalid digit found in string"
  | '+' :: cs => parseDigits 1 cs 0
  | '-' :: cs => parseDigits (-1) cs 0
  | cs => parseDigits 1 cs 0

namespace SessionRoutes

open Sessions (CreateSession)

def entry (svc : String) (id : Uuid) (action : String) (detail : Json) : AuditLog.Entry :=
  { actorService := svc, actorPseudo := none, sessionId := some id, resourceType := "session"
    resourceId := id.text, action := action, detail := some detail }

def create (svc : String) (input : CreateSession) : Handler Session := do
  let session ← Sessions.create input
  AuditLog.append (entry svc session.id "created" (.obj [("status", .str session.status.asStr)]))
  incCounter "chronicle_sessions_created_total" 1
  return session

def list (order : List Session → List Session) (filter : Sessions.ListFilter) : Handler (List Session) :=
  Sessions.list order filter

structure PatchSession where
  status : Option SessionStatus := none
  endedAt : Option (Option Timestamp) := none
  participantCount : Option (Option Int) := none

/-- The status part of `patch`: the row after it, and the change to announce. -/
def patchStatus (id : Uuid) (existing : Session) :
    Option SessionStatus → Handler (Session × Option (SessionStatus × SessionStatus))
  | none => return (existing, none)
  | some newStatus => do
    refuseIf (!canTransition existing.status newStatus)
      (.illegalTransition existing.status.asStr newStatus.asStr)
    let updated ← Sessions.updateStatus id newStatus
    return (updated, if existing.status ≠ newStatus then some (existing.status, newStatus) else none)

/-- The other columns. -/
def patchFields (id : Uuid) (body : PatchSession) (updated : Session) : Handler Session :=
  if body.endedAt.isSome || body.participantCount.isSome then
    Sessions.patchFields id body.endedAt body.participantCount
  else pure updated

def stateChanged (id : Uuid) (guildId : Int) (old new : SessionStatus) : Handler Unit := do
  let atTs ← utcNow
  send (.sessionStateChanged atTs { sessionId := id, guildId := guildId, old := old, new := new })

/-- `if let Some((old, new)) = emit_event`. -/
def announceChange (id : Uuid) (guildId : Int) : Option (SessionStatus × SessionStatus) → Handler Unit
  | none => pure ()
  | some (old, new) => do
    stateChanged id guildId old new
    incCounter s!"chronicle_session_state_{new.asStr}_total" 1

def patch (svc : String) (id : Uuid) (body : PatchSession) : Handler Session := do
  begin
  let existing ← Sessions.getInTx id
  let (updated, emitEvent) ← patchStatus id existing body.status
  let updated ← patchFields id body updated
  AuditLog.appendTx (entry svc id "patched"
    (.obj [("status", .str updated.status.asStr), ("ended_at", Json.optTime updated.endedAt)]))
  commit
  announceChange id updated.guildId emitEvent
  return updated

structure ResumeBody where
  resumedByServiceName : String
  reason : Option String

/-- `(now - anchor).num_seconds().max(0)`. -/
def age (now anchor : Timestamp) : Nat := ((now - anchor).tdiv 1000000).toNat

def resume (st : AppState) (svc : String) (id : Uuid) (body : ResumeBody) : Handler Session := do
  begin
  let existing ← Sessions.getInTx id
  refuseIf (existing.status ≠ .abandoned)
    (.illegalTransition existing.status.asStr SessionStatus.recording.asStr)
  let anchor := existing.abandonedAt.getD existing.startedAt
  let now ← utcNow
  refuseIf (st.resumeTtl < age now anchor)
    (.gone s!"resume window expired: abandoned {age now anchor}s ago, limit {st.resumeTtl}s")
  let updated ← Sessions.resumeFromAbandoned id
  AuditLog.appendTx (entry svc id "resumed"
    (.obj [("by", .str body.resumedByServiceName), ("reason", Json.optStr body.reason)]))
  commit
  stateChanged id updated.guildId .abandoned .recording
  return updated

/-- The rows under a session, all but the session row. -/
def deleteChildren (id : Uuid) : Handler (List String) := do
  let keys ← Chunks.deleteForSession id
  let _ ← Uniform.deleteAllForSession .segments id
  let _ ← Uniform.deleteAllForSession .beats id
  let _ ← Uniform.deleteAllForSession .scenes id
  let _ ← MuteRanges.deleteForSession id
  let _ ← execute .tx (Metadata.deleteSql id)
  let _ ← execute .tx (Participants.deleteForSessionSql id)
  return keys

/-- `if !keys.is_empty()`: the answer of the store is only logged. -/
def sweep (keys : List String) : Handler Unit :=
  if keys.isEmpty then pure ()
  else do
    let _ ← deleteMany keys

structure Deleted where
  tombstoneStatus : SessionStatus
  s3KeysDeleted : Nat

def deleteCascade (svc : String) (id : Uuid) : Handler Deleted := do
  begin
  let existing ← Sessions.getInTx id
  let keys ← deleteChildren id
  let updated ← Sessions.updateStatus id .deleted
  AuditLog.appendTx (entry svc id "deleted" (.obj [("chunk_count", .int keys.length)]))
  commit
  sweep keys
  stateChanged id existing.guildId existing.status .deleted
  return { tombstoneStatus := updated.status, s3KeysDeleted := keys.length }

end SessionRoutes

/-! ## Chunks -/

namespace ChunkRoutes

/-- Hard max chunk body: 3 MB. -/
def MAX_CHUNK_BYTES : Nat := 3 * 1024 * 1024

structure UploadResponse where
  seq : Int
  s3Key : String
  deduplicated : Bool
  deriving DecidableEq

structure ChunkHeaders where
  captureStartedAt : Timestamp
  durationMs : Int
  clientChunkId : String

/-- A header that must be there, as text. -/
def required (h : HeaderMap) (key name : String) : Except AppError String :=
  match h.get key with
  | none => .error (.missingHeader name)
  | some v => match headerStr v with
    | some s => .ok s
    | none => .error (.badRequest s!"{name}: non-ASCII")

def parseChunkHeaders (st : AppState) (h : HeaderMap) : Except AppError ChunkHeaders := do
  let capture ← required h "x-capture-started-at" "X-Capture-Started-At"
  let captureStartedAt ← (st.parseRfc3339 capture).mapError fun e => .badRequest s!"X-Capture-Started-At: {e}"
  let durationRaw ← required h "x-duration-ms" "X-Duration-Ms"
  let durationMs ← (parseI32 durationRaw).mapError fun e => .badRequest s!"X-Duration-Ms: {e}"
  if durationMs < 0 then throw (.badRequest "X-Duration-Ms: must be >= 0")
  let clientChunkId ← required h "x-client-chunk-id" "X-Client-Chunk-Id"
  if clientChunkId.isEmpty then throw (.badRequest "X-Client-Chunk-Id: must be non-empty")
  return { captureStartedAt := captureStartedAt, durationMs := durationMs, clientChunkId := clientChunkId }

/-- `{:06}`: zeros after the sign, up to six characters. -/
def pad6 (n : Int) : String :=
  let digits := toString n.natAbs
  let sign := if n < 0 then "-" else ""
  sign ++ String.ofList (List.replicate (6 - sign.length - digits.length) '0') ++ digits

def chunkKey (s3Prefix : String) (pseudoId : PseudoId) (seq : Int) : String :=
  s3Prefix ++ "/audio/" ++ pseudoId.raw ++ "/chunk_" ++ pad6 seq ++ ".pcm"

structure UploadRequest where
  sessionId : Uuid
  pseudoRaw : String
  headers : HeaderMap
  body : Bytes

def entry (svc : String) (sessionId : Uuid) (pseudoId : PseudoId) (seq size : Int) : AuditLog.Entry :=
  { actorService := svc, actorPseudo := none, sessionId := some sessionId, resourceType := "chunk"
    resourceId := s!"{sessionId.text}/{pseudoId}/{seq}", action := "uploaded"
    detail := some (.obj [("size_bytes", .int size)]) }

/-- Read the body with the hard cap. -/
def readBody (body : Bytes) : Handler Bytes := do
  let bytes ← toBytes body (MAX_CHUNK_BYTES + 1)
  refuseIf (MAX_CHUNK_BYTES < bytes.length) (.payloadTooLarge s!"chunk exceeds {MAX_CHUNK_BYTES} bytes")
  return bytes

/-- `bytes.len() as i32`. -/
def sizeBytes (bytes : Bytes) : Int := (bytes.length : Int).bmod (2 ^ 32)

/-- No body that is read is cut short by the cast. -/
theorem sizeBytes_eq {bytes : Bytes} (h : bytes.length ≤ MAX_CHUNK_BYTES) : sizeBytes bytes = bytes.length := by
  unfold sizeBytes MAX_CHUNK_BYTES at *
  rw [Int.bmod_eq_of_le] <;> omega

/-- What `insert` binds; the key is a placeholder until the object is put. -/
def reserve (sessionId : Uuid) (pseudoId : PseudoId) (h : ChunkHeaders) (size : Int) : Chunks.Insert :=
  { sessionId := sessionId, pseudoId := pseudoId, s3Key := "", sizeBytes := size
    captureStartedAt := h.captureStartedAt, durationMs := h.durationMs, clientChunkId := h.clientChunkId }

/-- The part of `upload` after the duplicate lookup found nothing. -/
def store (svc : String) (sessionId : Uuid) (pseudoId : PseudoId) (h : ChunkHeaders) (body : Bytes) :
    Handler UploadResponse := do
  let session ← Sessions.getInTx sessionId
  let bytes ← readBody body
  let row ← Chunks.insert (reserve sessionId pseudoId h (sizeBytes bytes))
  let s3Key := chunkKey session.s3Prefix pseudoId row.seq
  put s3Key bytes "audio/pcm"
  incCounter "chronicle_chunks_uploaded_total" 1
  let _ ← execute .tx (Chunks.setKeySql sessionId pseudoId row.seq s3Key)
  AuditLog.appendTx (entry svc sessionId pseudoId row.seq (sizeBytes bytes))
  commit
  let atTs ← utcNow
  send (.chunkUploaded atTs { sessionId := sessionId, guildId := session.guildId, pseudoId := pseudoId
                              seq := row.seq, sizeBytes := sizeBytes bytes })
  return { seq := row.seq, s3Key := s3Key, deduplicated := false }

def upload (st : AppState) (svc : String) (r : UploadRequest) : Handler UploadResponse := do
  let pseudoId ← ofResult ((PseudoId.newOrMixed r.pseudoRaw).mapError PseudoIdError.toAppError)
  let h ← ofResult (parseChunkHeaders st r.headers)
  begin
  match ← Chunks.lookupByClientId r.sessionId pseudoId h.clientChunkId with
  | some existing =>
    rollback
    return { seq := existing.seq, s3Key := existing.s3Key, deduplicated := true }
  | none => store svc r.sessionId pseudoId h r.body

def download (sessionId : Uuid) (pseudoRaw : String) (seq : Int) : Handler Bytes := do
  let pseudoId ← ofResult ((PseudoId.newOrMixed pseudoRaw).mapError PseudoIdError.toAppError)
  let row ← Chunks.get sessionId pseudoId seq
  storeGet row.s3Key

end ChunkRoutes
end DataApi
