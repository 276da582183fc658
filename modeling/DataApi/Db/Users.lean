/-
The lists of `db::users` and `db::display_names`, for the admin pages. Where a
statement orders by a column that need not be unique, `order` is how the server
reads the clause this time.
-/
import DataApi.Db.Participants
import DataApi.Lib.Query

namespace DataApi

open Relational ReadCommitted Handler

/-- A row of one of these tables. -/
def ofTables (tables : List TableName) (r : Row) : Bool := r.key.table ∈ tables

namespace DisplayNames

def listSql (pseudoId : PseudoId) : Sql := displayNamesT.select fun d => d.pseudoId = pseudoId

/-- `ORDER BY last_seen_at DESC`. -/
def list (order : List DisplayName → List DisplayName) (pseudoId : PseudoId) : Handler (List DisplayName) := do
  return order (← fetchAll .pool displayNamesT (listSql pseudoId))

end DisplayNames

namespace Users

def getSql (pseudoId : PseudoId) : Sql := usersT.select fun u => u.pseudoId = pseudoId

def get (pseudoId : PseudoId) : Handler User := do
  match ← fetchOptional .pool usersT (getSql pseudoId) with
  | some u => return u
  | none => throw (.notFound s!"user {pseudoId} not found")

/-- `session_participants sp JOIN sessions s ON s.id = sp.session_id WHERE sp.pseudo_id = …`. -/
def joined (rows : Db) (pseudoId : PseudoId) : List (Participant × Session) :=
  Query.join (fun sp s => s.id = sp.sessionId) ((participantsT.rows rows).filter fun sp => sp.pseudoId = pseudoId)
    (sessionsT.rows rows)

/-! ## The list -/

structure AdminUserListItem where
  pseudoId : PseudoId
  isAdmin : Bool
  dataWipedAt : Option Timestamp
  createdAt : Timestamp
  latestDisplayName : Option String
  sessionCount : Nat
  lastActiveAt : Option Timestamp
  hasConsentOnFile : Bool

/-- The first lateral: `ORDER BY last_seen_at DESC LIMIT 1`. -/
def latest (order : List DisplayName → List DisplayName) (rows : Db) (u : User) : List String :=
  ((order ((displayNamesT.rows rows).filter fun d => d.pseudoId = u.pseudoId)).take 1).map (·.displayName)

structure Aggregates where
  sessionCount : Nat
  lastActiveAt : Option Timestamp
  hasConsentOnFile : Option Bool

/-- The second lateral: without a GROUP BY there is one row, also over no
participations. -/
def aggregates (rows : Db) (u : User) : List Aggregates :=
  [{ sessionCount := Query.countDistinct (·.1.sessionId) (joined rows u.pseudoId)
     lastActiveAt := Query.maximum (·.2.startedAt) (joined rows u.pseudoId)
     hasConsentOnFile := Query.boolOr (·.1.consentScope.isSome) (joined rows u.pseudoId) }]

def listItem (u : User) (d : Option String) (sp : Option Aggregates) : AdminUserListItem :=
  { pseudoId := u.pseudoId, isAdmin := u.isAdmin, dataWipedAt := u.dataWipedAt, createdAt := u.createdAt
    latestDisplayName := d, sessionCount := (sp.map (·.sessionCount)).getD 0
    lastActiveAt := sp.bind (·.lastActiveAt), hasConsentOnFile := (sp.bind (·.hasConsentOnFile)).getD false }

/-- `users u LEFT JOIN LATERAL … d ON TRUE LEFT JOIN LATERAL … sp ON TRUE`. -/
def details (names : List DisplayName → List DisplayName) (rows : Db) : List AdminUserListItem :=
  (Query.lateral (fun ud => aggregates rows ud.1) (Query.lateral (latest names rows) (usersT.rows rows))).map fun x =>
    listItem x.1.1 x.1.2 x.2

/-- The one statement reads four tables; what it answers is computed from
their rows. -/
def detailsSql : Sql := .select fun _ => ofTables [.users, .displayNames, .participants, .sessions]

/-- `ORDER BY sp.last_active_at DESC NULLS LAST, u.created_at DESC`. -/
def listAllWithDetails (names : List DisplayName → List DisplayName)
    (order : List AdminUserListItem → List AdminUserListItem) : Handler (List AdminUserListItem) := do
  return order (details names (← query .pool detailsSql))

/-! ## The sessions of one user -/

structure ParticipatedSession where
  sessionId : Uuid
  campaignName : Option String
  title : Option String
  startedAt : Timestamp
  endedAt : Option Timestamp
  status : String
  consentScope : Option String
  dataWipedAt : Option Timestamp

def participated (x : Participant × Session) : ParticipatedSession :=
  { sessionId := x.2.id, campaignName := x.2.campaignName, title := none, startedAt := x.2.startedAt
    endedAt := x.2.endedAt, status := x.2.status.asStr, consentScope := x.1.consentScope
    dataWipedAt := x.1.dataWipedAt }

def sessionsForUserSql : Sql := .select fun _ => ofTables [.participants, .sessions]

/-- `ORDER BY s.started_at DESC`. -/
def listSessionsForUser (order : List ParticipatedSession → List ParticipatedSession) (pseudoId : PseudoId) :
    Handler (List ParticipatedSession) := do
  return order ((joined (← query .pool sessionsForUserSql) pseudoId).map participated)

end Users
end DataApi
