/-
`db::users`, `db::display_names`, `db::participants` and
`db::consent_tokens`.
-/
import DataApi.Db.Sessions

namespace DataApi

open Relational ReadCommitted Handler

/-- The arbiter of `ON CONFLICT` on the primary key. -/
def onPk : Lockable Key Uniq → Bool
  | .pk _ => true
  | _ => false

/-- The arbiter of `ON CONFLICT` on the other UNIQUE constraint. -/
def onUnique : Lockable Key Uniq → Bool
  | .uniq _ => true
  | _ => false

/-! ## `db::users` -/

namespace Users

def freshRow (pseudoId : PseudoId) (isAdmin : Bool) (env : Env) : User :=
  { pseudoId := pseudoId, isAdmin := isAdmin, dataWipedAt := none, createdAt := env.now }

/-- `DO UPDATE SET pseudo_id = EXCLUDED.pseudo_id`: the row stays as it is. -/
def upsertConflict : OnConflict Row := .doUpdate onPk (usersT.setter id)

def upsertSql (pseudoId : PseudoId) : Sql :=
  usersT.insert (fun env _ => .ok (freshRow pseudoId false env)) upsertConflict

def upsert (pseudoId : PseudoId) : Handler User := fetchOne .pool usersT (upsertSql pseudoId)

def setAdminSql (pseudoId : PseudoId) (isAdmin : Bool) : Sql :=
  usersT.insert (fun env _ => .ok (freshRow pseudoId isAdmin env))
    (.doUpdate onPk (usersT.setter fun u => { u with isAdmin := isAdmin }))

def setAdmin (pseudoId : PseudoId) (isAdmin : Bool) : Handler User :=
  fetchOne .tx usersT (setAdminSql pseudoId isAdmin)

end Users

/-! ## `db::display_names` -/

namespace DisplayNames

structure UpsertDisplayName where
  displayName : String
  source : String

def validSource (source : String) : Bool := source = "bot" || source = "portal_override"

def freshRow (pseudoId : PseudoId) (input : UpsertDisplayName) (env : Env) : DisplayName :=
  { pseudoId := pseudoId, displayName := input.displayName, firstSeenAt := env.now
    lastSeenAt := env.now, seenCount := 1, source := input.source }

def seeAgain (env : Env) (d : DisplayName) : DisplayName :=
  { d with lastSeenAt := env.now, seenCount := d.seenCount + 1 }

def upsertSql (pseudoId : PseudoId) (input : UpsertDisplayName) : Sql := .insert fun env _ =>
  .ok [(.displayName (freshRow pseudoId input env), .doUpdate onPk (displayNamesT.setter (seeAgain env)))]

def upsert (pseudoId : PseudoId) (input : UpsertDisplayName) : Handler DisplayName := do
  refuseIf (!validSource input.source)
    (.badRequest s!"invalid source: {input.source} (expected 'bot' or 'portal_override')")
  fetchOne .pool displayNamesT (upsertSql pseudoId input)

end DisplayNames

/-! ## `db::participants` -/

namespace Participants

structure AddParticipant where
  pseudoId : PseudoId
  midSessionJoin : Bool := false

def freshRow (sessionId : Uuid) (input : AddParticipant) (id : Uuid) (env : Env) : Participant :=
  { id := id, sessionId := sessionId, pseudoId := input.pseudoId, consentScope := none
    consentedAt := none, midSessionJoin := input.midSessionJoin, noLlmTraining := false
    noPublicRelease := false, dataWipedAt := none, createdAt := env.now }

/-- `DO UPDATE SET mid_session_join = EXCLUDED.mid_session_join`. -/
def rejoin (input : AddParticipant) : OnConflict Row :=
  .doUpdate onUnique (participantsT.setter fun p => { p with midSessionJoin := input.midSessionJoin })

/-- One statement: the user row by the CTE, then the participant row. -/
def addSql (sessionId : Uuid) (input : AddParticipant) : Sql := .insert fun env _ =>
  .ok [(.user (Users.freshRow input.pseudoId false env), Users.upsertConflict),
    (.participant (freshRow sessionId input (env.uuid 0) env), rejoin input)]

def add (sessionId : Uuid) (input : AddParticipant) : Handler Participant :=
  fetchOne .pool participantsT (addSql sessionId input)

def seedUsersSql (inputs : List AddParticipant) : Sql := .insert fun env _ =>
  .ok (inputs.map fun input => (.user (Users.freshRow input.pseudoId false env), .doNothing onPk))

def addManySql (sessionId : Uuid) (inputs : List AddParticipant) : Sql := .insert fun env _ =>
  .ok (inputs.mapIdx fun n input =>
    (.participant (freshRow sessionId input (env.uuid n) env), rejoin input))

def addMany (sessionId : Uuid) (inputs : List AddParticipant) : Handler (List Participant) :=
  if inputs.isEmpty then pure []
  else do
    begin
    let _ ← execute .tx (seedUsersSql inputs)
    let rows ← fetchAll .tx participantsT (addManySql sessionId inputs)
    commit
    return rows

def byId (id : Uuid) (p : Participant) : Bool := p.id = id

def notFound (id : Uuid) : AppError := .notFound s!"participant {id.text} not found"

/-- `fetch_optional` and `ok_or_else`. -/
def found (id : Uuid) (s : Sql) : Handler Participant := do
  match ← fetchOptional .pool participantsT s with
  | some p => return p
  | none => throw (notFound id)

structure UpdateConsent where
  consentScope : String
  consentedAt : Option Timestamp

def validScope (scope : String) : Bool := scope = "full" || scope = "decline" || scope = "timed_out"

def setConsent (input : UpdateConsent) (env : Env) (p : Participant) : Participant :=
  { p with consentScope := some input.consentScope, consentedAt := some (input.consentedAt.getD env.now) }

def updateConsentSql (id : Uuid) (input : UpdateConsent) : Sql :=
  participantsT.update (byId id) (setConsent input)

def updateConsent (id : Uuid) (input : UpdateConsent) : Handler Participant := do
  refuseIf (!validScope input.consentScope) (.badRequest s!"invalid consent_scope: {input.consentScope}")
  found id (updateConsentSql id input)

structure UpdateLicense where
  noLlmTraining : Option Bool
  noPublicRelease : Option Bool

def setLicense (input : UpdateLicense) (_ : Env) (p : Participant) : Participant :=
  { p with
    noLlmTraining := input.noLlmTraining.getD p.noLlmTraining
    noPublicRelease := input.noPublicRelease.getD p.noPublicRelease }

def updateLicenseSql (id : Uuid) (input : UpdateLicense) : Sql :=
  participantsT.update (byId id) (setLicense input)

def updateLicense (id : Uuid) (input : UpdateLicense) : Handler Participant :=
  found id (updateLicenseSql id input)

def ofPair (sessionId : Uuid) (pseudoId : PseudoId) (p : Participant) : Bool :=
  p.sessionId = sessionId && p.pseudoId = pseudoId

def markWipedSql (sessionId : Uuid) (pseudoId : PseudoId) : Sql :=
  participantsT.update (ofPair sessionId pseudoId) fun env p => { p with dataWipedAt := some env.now }

def markWiped (sessionId : Uuid) (pseudoId : PseudoId) : Handler Unit := do
  let _ ← execute .pool (markWipedSql sessionId pseudoId)

/-- The DELETE of `delete_cascade`. -/
def deleteForSessionSql (sessionId : Uuid) : Sql := participantsT.delete fun p => p.sessionId = sessionId

end Participants

/-! ## `db::consent_tokens` -/

namespace ConsentTokens

/-- A token joined with its session and participant rows. -/
structure WithContext where
  token : ConsentToken
  session : Session
  participant : Participant

/-- `NOW() + INTERVAL '30 days'`. -/
def lifetime : Int := 30 * 24 * 3600 * 1000000

def freshRow (sessionId participantId : Uuid) (pseudoId : PseudoId) (env : Env) : ConsentToken :=
  { token := env.uuid 0, sessionId := sessionId, participantId := participantId, pseudoId := pseudoId
    createdAt := env.now, expiresAt := env.now + lifetime, revokedAt := none }

def createSql (sessionId participantId : Uuid) (pseudoId : PseudoId) : Sql :=
  consentTokensT.insert fun env _ => .ok (freshRow sessionId participantId pseudoId env)

def create (sessionId participantId : Uuid) (pseudoId : PseudoId) : Handler ConsentToken :=
  fetchOne .pool consentTokensT (createSql sessionId participantId pseudoId)

/-- `token = $1 AND revoked_at IS NULL AND expires_at > NOW()`. -/
def live (token : Uuid) (now : Timestamp) (t : ConsentToken) : Bool :=
  t.token = token && t.revokedAt.isNone && now < t.expiresAt

def liveSql (token : Uuid) : Sql := consentTokensT.selectAt fun env => live token env.now

def participantSql (id : Uuid) : Sql := participantsT.select (Participants.byId id)

/-- `None` unless the token exists, is not expired and is not revoked. -/
def validate (token : Uuid) : Handler (Option WithContext) := do
  match ← fetchOptional .pool consentTokensT (liveSql token) with
  | none => return none
  | some ct =>
    let session ← fetchOne .pool sessionsT (Sessions.getSql ct.sessionId)
    let participant ← fetchOne .pool participantsT (participantSql ct.participantId)
    return some { token := ct, session := session, participant := participant }

end ConsentTokens
end DataApi
