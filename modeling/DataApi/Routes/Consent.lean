/-
`routes/consent.rs`: token creation behind the service auth, and the public
routes, whose only credential is the token in the path.
-/
import DataApi.Routes.Resources

namespace DataApi.ConsentRoutes

open Relational ReadCommitted Handler

structure CreateTokenRequest where
  sessionId : Uuid
  participantId : Uuid
  pseudoId : PseudoId

def createdEntry (svc : String) (input : CreateTokenRequest) (token : Uuid) : AuditLog.Entry :=
  { actorService := svc, actorPseudo := some input.pseudoId.raw, sessionId := some input.sessionId
    resourceType := "consent_token", resourceId := token.text, action := "created", detail := none }

/-- The answer holds the token and its end. -/
def createToken (svc : String) (input : CreateTokenRequest) : Handler (Uuid × Timestamp) := do
  let ct ← ConsentTokens.create input.sessionId input.participantId input.pseudoId
  AuditLog.append (createdEntry svc input ct.token)
  return (ct.token, ct.expiresAt)

/-- `validate(…)?.ok_or_else(…)?`. -/
def validated (token : Uuid) : Handler ConsentTokens.WithContext := do
  match ← ConsentTokens.validate token with
  | some ctx => return ctx
  | none => throw (.notFound "consent token not found or expired")

def getConsent (token : Uuid) : Handler ConsentTokens.WithContext := validated token

structure PatchConsent where
  consentScope : Option String := none
  noLlmTraining : Option Bool := none
  noPublicRelease : Option Bool := none

def patchedEntry (sessionId participantId : Uuid) (updated : Participant) (input : PatchConsent) :
    AuditLog.Entry :=
  { actorService := "consent_token", actorPseudo := some updated.pseudoId.raw, sessionId := some sessionId
    resourceType := "participant", resourceId := participantId.text, action := "consent_patched_via_token"
    detail := some (.obj [("consent_scope", Json.optStr input.consentScope),
      ("no_llm_training", Json.optBool input.noLlmTraining),
      ("no_public_release", Json.optBool input.noPublicRelease)]) }

/-- Apply `consent_scope` if provided. -/
def patchScope (p : Participant) : Option String → Handler Participant
  | some scope => Participants.updateConsent p.id { consentScope := scope, consentedAt := none }
  | none => pure p

/-- Apply license flags if provided. -/
def patchFlags (id : Uuid) (p : Participant) (input : PatchConsent) : Handler Participant :=
  if input.noLlmTraining.isSome || input.noPublicRelease.isSome then
    Participants.updateLicense id { noLlmTraining := input.noLlmTraining, noPublicRelease := input.noPublicRelease }
  else pure p

def patchConsent (token : Uuid) (input : PatchConsent) : Handler Participant := do
  let ctx ← validated token
  let updated ← patchScope ctx.participant input.consentScope
  let updated ← patchFlags ctx.participant.id updated input
  AuditLog.append (patchedEntry ctx.session.id ctx.participant.id updated input)
  return updated

def wipedEntry (sessionId : Uuid) (pid : PseudoId) (keys : Nat) : AuditLog.Entry :=
  { actorService := "consent_token", actorPseudo := some pid.raw, sessionId := some sessionId
    resourceType := "participant_audio", resourceId := s!"{sessionId.text}/{pid}", action := "wiped_via_token"
    detail := some (.obj [("chunk_count", .int keys)]) }

/-- `fetch_one`: a missing session is a database error here. -/
def guildId (sessionId : Uuid) : Handler Int := do
  return (← fetchOne .pool sessionsT (Sessions.getSql sessionId)).guildId

def deleteAudio (token : Uuid) : Handler Unit := do
  let ctx ← validated token
  let sessionId := ctx.session.id
  let pid := ctx.participant.pseudoId
  begin
  let (keys, _, _) ← MuteRoutes.deleteAudioRows sessionId pid
  AuditLog.appendTx (wipedEntry sessionId pid keys.length)
  commit
  Participants.markWiped sessionId pid
  SessionRoutes.sweep keys
  let guildId ← guildId sessionId
  let atTs ← utcNow
  send (.audioDeleted atTs { sessionId := sessionId, guildId := guildId, pseudoId := pid })

end DataApi.ConsentRoutes
