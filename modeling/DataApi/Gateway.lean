/-
`build_router` (`src/routes/mod.rs`): which routes stand behind
`require_service_auth`, and the whole service: requests arrive, are let in or
refused and run among each other, while services authenticate, send heartbeats
and are reaped.
-/
import DataApi.Routes.Service
import DataApi.ServiceAuth

namespace DataApi

open ReadCommitted Resumption

/-- The routes the middleware does not stand before: `admin::routes()` and
`consent::public_routes()`. -/
def Request.isPublic : Request → Bool
  | .grant _ | .getConsent _ | .patchConsent .. | .deleteAudio _ => true
  | _ => false

/-- `extensions_mut().insert(ServiceSession { service_name })`: the name the
handler reads. -/
def Request.calledBy (name : String) : Request → Request
  | .createSession _ input => .createSession name input
  | .patchSession _ id body => .patchSession name id body
  | .resume _ id body => .resume name id body
  | .deleteCascade _ id => .deleteCascade name id
  | .upload _ r => .upload name r
  | .addOne _ sid input => .addOne name sid input
  | .addBatch _ sid ps => .addBatch name sid ps
  | .patchParticipantConsent _ id input => .patchParticipantConsent name id input
  | .patchLicense _ id input => .patchLicense name id input
  | .upsertUser _ pid => .upsertUser name pid
  | .postDisplay _ pid input => .postDisplay name pid input
  | .patchUser _ pid isAdmin => .patchUser name pid isAdmin
  | .replaceMetadata _ id body => .replaceMetadata name id body
  | .shallowPatch _ id headers body => .shallowPatch name id headers body
  | .bulkCreate rt _ sid req => .bulkCreate rt name sid req
  | .patchRow rt _ id headers body => .patchRow rt name id headers body
  | .deleteRow rt _ id => .deleteRow rt name id
  | .createMute _ sid pid input => .createMute name sid pid input
  | .deleteMute _ sid pid rangeId => .deleteMute name sid pid rangeId
  | .wipeParticipantAudio _ sid pid => .wipeParticipantAudio name sid pid
  | .createToken _ input => .createToken name input
  | .grant req => .grant req
  | .getConsent token => .getConsent token
  | .patchConsent token input => .patchConsent token input
  | .deleteAudio token => .deleteAudio token

/-- A request with its headers, before any handler sees it. -/
structure Arrival where
  headers : HeaderMap
  request : Request

/-- The request as its handler sees it. -/
def Arrival.letIn (st : AuthState) (env : AuthEnv) (a : Arrival) (t : ServiceSessions) : Except Auth.Refusal Request :=
  if a.request.isPublic then .ok a.request
  else (Auth.requireServiceAuth st env a.headers t).map fun name => a.request.calledBy name

inductive Admission
  | waiting
  | refused (r : Auth.Refusal)
  | handled (req : Request)

structure Gateway (ι : Type) where
  tokens : ServiceSessions
  admission : ι → Admission
  clients : Clients ι Row Env Io Outcome

namespace Gateway

variable {ι : Type}

/-- What the service is configured with. -/
structure Settings where
  app : AppState
  auth : AuthState

inductive Move (ι : Type)
  | authenticate (env : AuthEnv) (req : AuthRequest)
  | heartbeat (env : AuthEnv) (headers : HeaderMap)
  | reap (env : AuthEnv)
  | arrive (i : ι) (env : AuthEnv)
  | run (i : ι) (e : Env)

/-- Nothing has arrived yet. -/
def start (st : Settings) (arrivals : ι → Arrival) (t : ServiceSessions) (sv : Sv ι) : Gateway ι where
  tokens := t
  admission _ := .waiting
  clients := Service.start st.app (fun i => (arrivals i).request) sv

variable [DecidableEq ι]

/-- The handler of an arrival begins. -/
def admitted (st : Settings) (g : Gateway ι) (i : ι) (req : Request) : Gateway ι :=
  { g with
    admission := Function.update g.admission i (.handled req)
    clients := g.clients.put i { prog := (handle st.app req).run, loc := {} } g.clients.shared }

def step (st : Settings) (arrivals : ι → Arrival) (g : Gateway ι) : Move ι → Option (Gateway ι)
  | .authenticate env req => some { g with tokens := (Auth.authenticate st.auth env req g.tokens).2 }
  | .heartbeat env headers => some { g with tokens := (Auth.heartbeat st.auth env headers g.tokens).2 }
  | .reap env => some { g with tokens := Auth.reaperPass st.auth env g.tokens }
  | .arrive i env =>
    match g.admission i with
    | .waiting =>
      match (arrivals i).letIn st.auth env g.tokens with
      | .ok req => some (g.admitted st i req)
      | .error r => some { g with admission := Function.update g.admission i (.refused r) }
    | _ => none
  | .run i e =>
    match g.admission i with
    | .handled _ => (g.clients.step machine i e).map fun c => { g with clients := c }
    | _ => none

/-- The moves of a run, one after another. -/
def play (st : Settings) (arrivals : ι → Arrival) : Gateway ι → List (Move ι) → Option (Gateway ι)
  | g, [] => some g
  | g, m :: ms => (g.step st arrivals m).bind fun g' => play st arrivals g' ms

end Gateway
end DataApi
