/-
Service-to-service session tokens: the rows of `service_sessions`
(`src/db/service_sessions.rs`), the handlers that issue and refresh a token
(`src/routes/auth.rs`), the middleware that asks for one and the reaper
(`src/auth/`). Each is one statement on its own.
-/
import DataApi.Routes.Sessions

namespace DataApi

structure ServiceSession where
  id : Uuid
  serviceName : String
  tokenHash : String
  createdAt : Timestamp
  lastSeenAt : Timestamp

/-- The table; `token_hash` is UNIQUE. -/
abbrev ServiceSessions := List ServiceSession

namespace ServiceSessions

/-- `($2::bigint || ' seconds')::interval`. -/
def interval (secs : Nat) : Int := secs * 1000000

def freshRow (now : Timestamp) (id : Uuid) (serviceName tokenHash : String) : ServiceSession :=
  { id := id, serviceName := serviceName, tokenHash := tokenHash, createdAt := now, lastSeenAt := now }

/-- `SET last_seen_at = NOW()`. -/
def seenAt (now : Timestamp) (r : ServiceSession) : ServiceSession := { r with lastSeenAt := now }

/-- `SET last_seen_at = NOW() WHERE token_hash = $1`. -/
def refresh (t : ServiceSessions) (now : Timestamp) (tokenHash : String) : ServiceSessions :=
  t.map fun r => if r.tokenHash = tokenHash then seenAt now r else r

/-- A token hash that is there already is refreshed (`ON CONFLICT`). -/
def insert (t : ServiceSessions) (now : Timestamp) (id : Uuid) (serviceName tokenHash : String) :
    ServiceSession × ServiceSessions :=
  match t.find? fun r => r.tokenHash = tokenHash with
  | some r => (seenAt now r, t.refresh now tokenHash)
  | none => (freshRow now id serviceName tokenHash, t ++ [freshRow now id serviceName tokenHash])

/-- The service of a token that isn't past the heartbeat reap window. -/
def lookupAlive (t : ServiceSessions) (now : Timestamp) (tokenHash : String) (reap : Nat) : Option String :=
  (t.find? fun r => r.tokenHash = tokenHash && now - interval reap < r.lastSeenAt).map (·.serviceName)

/-- Whether there was a row to touch. -/
def touch (t : ServiceSessions) (now : Timestamp) (tokenHash : String) : Bool × ServiceSessions :=
  (t.any fun r => r.tokenHash = tokenHash, t.refresh now tokenHash)

def stale (now : Timestamp) (window : Nat) (r : ServiceSession) : Bool := r.lastSeenAt < now - interval window

/-- How many rows went. -/
def reapStale (t : ServiceSessions) (now : Timestamp) (window : Nat) : Nat × ServiceSessions :=
  ((t.filter (stale now window)).length, t.filter fun r => !stale now window r)

end ServiceSessions

/-! ## Requests -/

/-- `heartbeat_reap` in whole seconds, as the configuration gives it. The
digest of `hash_token` is the hash library's. -/
structure AuthState where
  sharedSecret : String
  heartbeatReap : Nat
  hashToken : String → String

structure AuthRequest where
  sharedSecret : String
  serviceName : String

/-- What a call meets: the clock, the draws of `gen_random_uuid()` and of
`generate_token`, and whether its statement fails. -/
structure AuthEnv where
  now : Timestamp
  id : Uuid
  token : String
  fails : Bool

namespace Auth

/-- `strip_prefix("Bearer ")`. -/
def stripBearer (v : String) : Option String :=
  let scheme := "Bearer ".toList
  if scheme.isPrefixOf v.toList then some (String.ofList (v.toList.drop scheme.length)) else none

/-- The bearer token of a request, where there is one. -/
def bearer (h : HeaderMap) : Option String := ((h.get "authorization").bind headerStr).bind stripBearer

/-- `?` on a statement. -/
def statement {α : Type} (env : AuthEnv) (t : ServiceSessions) (run : α × ServiceSessions) :
    Except AppError α × ServiceSessions :=
  if env.fails then (.error (.database .failure), t) else (.ok run.1, run.2)

/-- The token goes to the caller, its hash to the table. -/
def authenticate (st : AuthState) (env : AuthEnv) (req : AuthRequest) (t : ServiceSessions) :
    Except AppError String × ServiceSessions :=
  if req.sharedSecret ≠ st.sharedSecret then (.error (.unauthorized "invalid shared secret"), t)
  else
    let (r, t) := statement env t (t.insert env.now env.id req.serviceName (st.hashToken env.token))
    (r.map fun _ => env.token, t)

def heartbeat (st : AuthState) (env : AuthEnv) (h : HeaderMap) (t : ServiceSessions) :
    Except AppError Unit × ServiceSessions :=
  match bearer h with
  | none => (.error (.unauthorized "missing bearer token"), t)
  | some token =>
    let (r, t) := statement env t (t.touch env.now (st.hashToken token))
    (r.bind fun found => if found then .ok () else .error (.unauthorized "invalid session token"), t)

/-- A response of the middleware: status and error text. -/
structure Refusal where
  status : Nat
  error : String
  deriving DecidableEq

def extractBearer (h : HeaderMap) : Except Refusal String :=
  match (h.get "authorization").bind headerStr with
  | none => .error ⟨401, "missing authorization header"⟩
  | some v => match stripBearer v with
    | none => .error ⟨401, "invalid authorization format"⟩
    | some token => .ok token

/-- The service a request is let in as. -/
def requireServiceAuth (st : AuthState) (env : AuthEnv) (h : HeaderMap) (t : ServiceSessions) :
    Except Refusal String :=
  match extractBearer h with
  | .error e => .error e
  | .ok token =>
    if env.fails then .error ⟨500, "auth lookup failed"⟩
    else match t.lookupAlive env.now (st.hashToken token) st.heartbeatReap with
    | some name => .ok name
    | none => .error ⟨401, "invalid or expired session token"⟩

/-- One round of the reaper's loop: a failure is only logged. -/
def reaperPass (st : AuthState) (env : AuthEnv) (t : ServiceSessions) : ServiceSessions :=
  (statement env t (t.reapStale env.now st.heartbeatReap)).2

end Auth
end DataApi
