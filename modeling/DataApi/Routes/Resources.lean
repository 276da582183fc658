/-
`routes/participants.rs`, `users.rs`, `admin.rs`, `metadata.rs`,
`uniform_crud.rs` and `mute.rs`. Each writing handler is its database
function followed by what comes after: the audit row, and where clients are
told, the guild lookup and the event.
-/
import DataApi.Db.Users
import DataApi.Routes.Sessions

namespace DataApi

open Relational ReadCommitted Handler

/-! ## Participants -/

namespace ParticipantRoutes

open Participants (AddParticipant UpdateConsent UpdateLicense)

def entry (svc : String) (actorPseudo : Option String) (sessionId : Uuid) (resourceId action : String)
    (detail : Option Json) : AuditLog.Entry :=
  { actorService := svc, actorPseudo := actorPseudo, sessionId := some sessionId
    resourceType := "participant", resourceId := resourceId, action := action, detail := detail }

def addOne (svc : String) (sessionId : Uuid) (input : AddParticipant) : Handler Participant := do
  let row ← Participants.add sessionId input
  AuditLog.append (entry svc (some row.pseudoId.raw) sessionId row.id.text "added" none)
  return row

def addBatch (svc : String) (sessionId : Uuid) (participants : List AddParticipant) :
    Handler (List Participant) := do
  let rows ← Participants.addMany sessionId participants
  AuditLog.append (entry svc none sessionId sessionId.text "batch_added"
    (some (.obj [("count", .int rows.length)])))
  return rows

def patchConsent (svc : String) (id : Uuid) (input : UpdateConsent) : Handler Participant := do
  let row ← Participants.updateConsent id input
  AuditLog.append (entry svc (some row.pseudoId.raw) row.sessionId id.text "consent_patched"
    (some (.obj [("consent_scope", Json.optStr row.consentScope)])))
  return row

def patchLicense (svc : String) (id : Uuid) (input : UpdateLicense) : Handler Participant := do
  let row ← Participants.updateLicense id input
  AuditLog.append (entry svc (some row.pseudoId.raw) row.sessionId id.text "license_patched"
    (some (.obj [("no_llm_training", .bool row.noLlmTraining), ("no_public_release", .bool row.noPublicRelease)])))
  return row

end ParticipantRoutes

/-! ## Users -/

namespace UserRoutes

open DisplayNames (UpsertDisplayName)

def entry (svc : String) (pid : PseudoId) (resourceType resourceId action : String) (detail : Option Json) :
    AuditLog.Entry :=
  { actorService := svc, actorPseudo := some pid.raw, sessionId := none, resourceType := resourceType
    resourceId := resourceId, action := action, detail := detail }

def upsertUser (svc : String) (pseudoId : PseudoId) : Handler User := do
  let user ← Users.upsert pseudoId
  AuditLog.append (entry svc pseudoId "user" pseudoId.raw "upserted" none)
  return user

structure UserDetail where
  user : User
  latestDisplayName : Option String

def fetchUser (order : List DisplayName → List DisplayName) (pidRaw : String) : Handler UserDetail := do
  let pid ← pseudoId pidRaw
  let user ← Users.get pid
  let aliases ← DisplayNames.list order pid
  return { user := user, latestDisplayName := aliases.head?.map (·.displayName) }

def listDisplay (order : List DisplayName → List DisplayName) (pidRaw : String) : Handler (List DisplayName) := do
  let pid ← pseudoId pidRaw
  DisplayNames.list order pid

def listAdminUsers (names : List DisplayName → List DisplayName)
    (order : List Users.AdminUserListItem → List Users.AdminUserListItem) : Handler (List Users.AdminUserListItem) :=
  Users.listAllWithDetails names order

structure AdminUserDetail where
  user : User
  latestDisplayName : Option String
  displayNames : List DisplayName
  sessions : List Users.ParticipatedSession

def fetchAdminUserDetail (names : List DisplayName → List DisplayName)
    (order : List Users.ParticipatedSession → List Users.ParticipatedSession) (pidRaw : String) :
    Handler AdminUserDetail := do
  let pid ← pseudoId pidRaw
  let user ← Users.get pid
  let aliases ← DisplayNames.list names pid
  let sessions ← Users.listSessionsForUser order pid
  return { user := user, latestDisplayName := aliases.head?.map (·.displayName), displayNames := aliases
           sessions := sessions }

def postDisplay (svc : String) (pidRaw : String) (input : UpsertDisplayName) : Handler DisplayName := do
  let pid ← pseudoId pidRaw
  -- ensure user exists (FK)
  let _ ← Users.upsert pid
  let row ← DisplayNames.upsert pid input
  AuditLog.append (entry svc pid "display_name" s!"{pid}/{row.displayName}" "seen"
    (some (.obj [("source", .str row.source), ("seen_count", .int row.seenCount)])))
  return row

def patchUser (svc : String) (pidRaw : String) (isAdmin : Bool) : Handler User := do
  let pid ← pseudoId pidRaw
  begin
  let user ← Users.setAdmin pid isAdmin
  AuditLog.appendTx (entry svc pid "user" pid.raw (if isAdmin then "admin_granted" else "admin_revoked")
    (some (.obj [("is_admin", .bool isAdmin)])))
  commit
  return user

structure GrantRequest where
  sharedSecret : String
  pseudoId : PseudoId
  isAdmin : Bool := true

def grant (st : AppState) (req : GrantRequest) : Handler User := do
  refuseIf (req.sharedSecret ≠ st.sharedSecret) (.unauthorized "invalid shared secret")
  begin
  let user ← Users.setAdmin req.pseudoId req.isAdmin
  AuditLog.appendTx (entry "admin_bootstrap" req.pseudoId "admin" req.pseudoId.raw
    (if req.isAdmin then "granted" else "revoked") none)
  commit
  return user

end UserRoutes

/-! ## Metadata -/

/-- `s.trim_matches('"')`. -/
def trimQuotes (s : String) : String :=
  let q := fun c => c = '"'
  String.ofList ((s.toList.dropWhile q).reverse.dropWhile q).reverse

/-- A missing header, or one that is not text, asks for nothing. -/
def ifMatch (h : HeaderMap) : Option ETag :=
  ((h.get "if-match").bind headerStr).map fun s => ⟨trimQuotes s⟩

namespace MetadataRoutes

def entry (svc : String) (id : Uuid) (action : String) (etag : ETag) : AuditLog.Entry :=
  { actorService := svc, actorPseudo := none, sessionId := some id, resourceType := "metadata"
    resourceId := id.text, action := action, detail := some (.obj [("etag", .str etag.raw)]) }

def replace (svc : String) (id : Uuid) (body : Json) : Handler MetadataBlob := do
  let row ← Metadata.replace id body
  AuditLog.append (entry svc id "replaced" row.etag)
  return row

def shallowPatch (svc : String) (id : Uuid) (headers : HeaderMap) (body : Json) : Handler MetadataBlob := do
  let row ← Metadata.shallowMerge id (ifMatch headers) body
  AuditLog.append (entry svc id "merged" row.etag)
  return row

end MetadataRoutes

/-! ## Segments, beats, scenes -/

namespace UniformRoutes

open DataApi.Uniform (CreateInput PatchInput UniformRow BulkResult)

structure BulkRequest where
  segments : Option (List CreateInput) := none
  beats : Option (List CreateInput) := none
  scenes : Option (List CreateInput) := none

def BulkRequest.take (req : BulkRequest) : ResourceTable → List CreateInput
  | .segments => req.segments.getD []
  | .beats => req.beats.getD []
  | .scenes => req.scenes.getD []

def entry (rt : ResourceTable) (svc : String) (actorPseudo : Option PseudoId) (sessionId id : Uuid)
    (action : String) (detail : Option Json) : AuditLog.Entry :=
  { actorService := svc, actorPseudo := actorPseudo.map (·.raw), sessionId := some sessionId
    resourceType := rt.resourceType, resourceId := id.text, action := action, detail := detail }

def created (atTs : Timestamp) (data : ResourceRef) : ResourceTable → Event
  | .segments => .segmentCreated atTs data
  | .beats => .beatCreated atTs data
  | .scenes => .sceneCreated atTs data

def updated (atTs : Timestamp) (data : ResourceRef) : ResourceTable → Event
  | .segments => .segmentUpdated atTs data
  | .beats => .beatUpdated atTs data
  | .scenes => .sceneUpdated atTs data

def deleted (atTs : Timestamp) (data : ResourceRef) : ResourceTable → Event
  | .segments => .segmentDeleted atTs data
  | .beats => .beatDeleted atTs data
  | .scenes => .sceneDeleted atTs data

/-- The loop over the inserted rows: an audit row and an event for each. -/
def announce (rt : ResourceTable) (svc : String) (sessionId : Uuid) (guildId : Int) :
    List UniformRow → Handler Unit
  | [] => pure ()
  | row :: rest => do
    AuditLog.append (entry rt svc row.authorUserPseudoId sessionId row.id "created"
      (some (.obj [("client_id", .str row.clientId)])))
    let atTs ← utcNow
    send (created atTs { sessionId := sessionId, guildId := guildId, id := row.id } rt)
    announce rt svc sessionId guildId rest

def bulkCreate (rt : ResourceTable) (svc : String) (sessionId : Uuid) (req : BulkRequest) :
    Handler BulkResult := do
  let guildId ← Sessions.guildIdForSession sessionId
  let result ← Uniform.bulkInsert rt sessionId svc (req.take rt)
  announce rt svc sessionId guildId result.inserted
  return result

def patchRow (rt : ResourceTable) (svc : String) (id : Uuid) (headers : HeaderMap) (body : PatchInput) :
    Handler UniformRow := do
  let row ← Uniform.patch rt id (ifMatch headers) body
  AuditLog.append (entry rt svc row.authorUserPseudoId row.sessionId id "patched" none)
  let guildId ← Sessions.guildIdForSession row.sessionId
  let atTs ← utcNow
  send (updated atTs { sessionId := row.sessionId, guildId := guildId, id := id } rt)
  return row

def deleteRow (rt : ResourceTable) (svc : String) (id : Uuid) : Handler Unit := do
  let row ← Uniform.delete rt id
  AuditLog.append (entry rt svc none row.sessionId id "deleted" none)
  let guildId ← Sessions.guildIdForSession row.sessionId
  let atTs ← utcNow
  send (deleted atTs { sessionId := row.sessionId, guildId := guildId, id := id } rt)

end UniformRoutes

/-! ## Mute ranges and the participant wipe -/

namespace MuteRoutes

open MuteRanges (CreateMuteRange)

def entry (svc : String) (pid : PseudoId) (sessionId : Uuid) (resourceType resourceId action : String)
    (detail : Option Json) : AuditLog.Entry :=
  { actorService := svc, actorPseudo := some pid.raw, sessionId := some sessionId
    resourceType := resourceType, resourceId := resourceId, action := action, detail := detail }

def createMute (svc : String) (sessionId : Uuid) (pidRaw : String) (input : CreateMuteRange) :
    Handler MuteRange := do
  let pid ← pseudoId pidRaw
  let row ← MuteRanges.create sessionId pid input
  AuditLog.append (entry svc pid sessionId "mute_range" row.id.text "created"
    (some (.obj [("start_offset_ms", .int row.startOffsetMs), ("end_offset_ms", .int row.endOffsetMs)])))
  let guildId ← Sessions.guildIdForSession sessionId
  let atTs ← utcNow
  send (.muteRangeCreated atTs { sessionId := sessionId, guildId := guildId, pseudoId := pid, rangeId := row.id })
  return row

def listMutes (order : List MuteRange → List MuteRange) (sessionId : Uuid) (pidRaw : String) : Handler (List MuteRange) := do
  let pid ← pseudoId pidRaw
  MuteRanges.list order sessionId pid

def deleteMute (svc : String) (sessionId : Uuid) (pidRaw : String) (rangeId : Uuid) : Handler Unit := do
  let pid ← pseudoId pidRaw
  let row ← MuteRanges.deleteOne sessionId pid rangeId
  AuditLog.append (entry svc pid sessionId "mute_range" rangeId.text "deleted" none)
  let guildId ← Sessions.guildIdForSession sessionId
  let atTs ← utcNow
  send (.muteRangeDeleted atTs { sessionId := sessionId, guildId := guildId, pseudoId := pid, rangeId := row.id })

structure Wiped where
  chunkCount : Nat
  segmentCount : Nat
  muteCount : Nat

/-- The rows of one participant's audio, and the counts for the audit row. -/
def deleteAudioRows (sessionId : Uuid) (pid : PseudoId) : Handler (List String × Nat × Nat) := do
  let keys ← Chunks.deleteForParticipant sessionId pid
  let segs ← Uniform.deleteForParticipantSegments sessionId pid
  let mutes ← MuteRanges.deleteForParticipant sessionId pid
  return (keys, segs, mutes)

def wipedEntry (svc : String) (sessionId : Uuid) (pid : PseudoId) (keys segs mutes : Nat) : AuditLog.Entry :=
  entry svc pid sessionId "participant_audio" s!"{sessionId.text}/{pid}" "wiped"
    (some (.obj [("chunk_count", .int keys), ("segment_count", .int segs), ("mute_count", .int mutes)]))

def wipeParticipantAudio (svc : String) (sessionId : Uuid) (pidRaw : String) : Handler Wiped := do
  let pid ← pseudoId pidRaw
  begin
  let (keys, segs, mutes) ← deleteAudioRows sessionId pid
  AuditLog.appendTx (wipedEntry svc sessionId pid keys.length segs mutes)
  commit
  -- mark participant wiped (outside tx is fine; it's just a flag)
  Participants.markWiped sessionId pid
  SessionRoutes.sweep keys
  let guildId ← Sessions.guildIdForSession sessionId
  let atTs ← utcNow
  send (.audioDeleted atTs { sessionId := sessionId, guildId := guildId, pseudoId := pid })
  return { chunkCount := keys.length, segmentCount := segs, muteCount := mutes }

end MuteRoutes
end DataApi
