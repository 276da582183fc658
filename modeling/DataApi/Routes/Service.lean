/-
The service: a request, the handler it reaches, and what a run of requests
does, one after another or each in a thread of its own.
-/
import DataApi.Lib.Locking
import DataApi.Routes.Consent

namespace DataApi

open Relational ReadCommitted Resumption

/-- The modelled endpoints with their path, headers and body. `svc` is the
name the auth middleware found; the public routes have none. -/
inductive Request
  | createSession (svc : String) (input : Sessions.CreateSession)
  | patchSession (svc : String) (id : Uuid) (body : SessionRoutes.PatchSession)
  | resume (svc : String) (id : Uuid) (body : SessionRoutes.ResumeBody)
  | deleteCascade (svc : String) (id : Uuid)
  | upload (svc : String) (r : ChunkRoutes.UploadRequest)
  | addOne (svc : String) (sessionId : Uuid) (input : Participants.AddParticipant)
  | addBatch (svc : String) (sessionId : Uuid) (participants : List Participants.AddParticipant)
  | patchParticipantConsent (svc : String) (id : Uuid) (input : Participants.UpdateConsent)
  | patchLicense (svc : String) (id : Uuid) (input : Participants.UpdateLicense)
  | upsertUser (svc : String) (pseudoId : PseudoId)
  | postDisplay (svc : String) (pid : String) (input : DisplayNames.UpsertDisplayName)
  | patchUser (svc : String) (pid : String) (isAdmin : Bool)
  | grant (req : UserRoutes.GrantRequest)
  | replaceMetadata (svc : String) (id : Uuid) (body : Json)
  | shallowPatch (svc : String) (id : Uuid) (headers : HeaderMap) (body : Json)
  | bulkCreate (rt : ResourceTable) (svc : String) (sessionId : Uuid) (req : UniformRoutes.BulkRequest)
  | patchRow (rt : ResourceTable) (svc : String) (id : Uuid) (headers : HeaderMap) (body : Uniform.PatchInput)
  | deleteRow (rt : ResourceTable) (svc : String) (id : Uuid)
  | createMute (svc : String) (sessionId : Uuid) (pid : String) (input : MuteRanges.CreateMuteRange)
  | deleteMute (svc : String) (sessionId : Uuid) (pid : String) (rangeId : Uuid)
  | wipeParticipantAudio (svc : String) (sessionId : Uuid) (pid : String)
  | createToken (svc : String) (input : ConsentRoutes.CreateTokenRequest)
  | getConsent (token : Uuid)
  | patchConsent (token : Uuid) (input : ConsentRoutes.PatchConsent)
  | deleteAudio (token : Uuid)

inductive Reply
  | session (s : Session)
  | deleted (d : SessionRoutes.Deleted)
  | uploaded (r : ChunkRoutes.UploadResponse)
  | participant (p : Participant)
  | participants (ps : List Participant)
  | user (u : User)
  | displayName (d : DisplayName)
  | metadata (m : MetadataBlob)
  | bulk (r : Uniform.BulkResult)
  | row (r : Uniform.UniformRow)
  | mute (m : MuteRange)
  | wiped (w : MuteRoutes.Wiped)
  | token (token : Uuid) (expiresAt : Timestamp)
  | consent (ctx : ConsentTokens.WithContext)
  | noContent

def handle (st : AppState) : Request → Handler Reply
  | .createSession svc input => .session <$> SessionRoutes.create svc input
  | .patchSession svc id body => .session <$> SessionRoutes.patch svc id body
  | .resume svc id body => .session <$> SessionRoutes.resume st svc id body
  | .deleteCascade svc id => .deleted <$> SessionRoutes.deleteCascade svc id
  | .upload svc r => .uploaded <$> ChunkRoutes.upload st svc r
  | .addOne svc sid input => .participant <$> ParticipantRoutes.addOne svc sid input
  | .addBatch svc sid ps => .participants <$> ParticipantRoutes.addBatch svc sid ps
  | .patchParticipantConsent svc id input => .participant <$> ParticipantRoutes.patchConsent svc id input
  | .patchLicense svc id input => .participant <$> ParticipantRoutes.patchLicense svc id input
  | .upsertUser svc pid => .user <$> UserRoutes.upsertUser svc pid
  | .postDisplay svc pid input => .displayName <$> UserRoutes.postDisplay svc pid input
  | .patchUser svc pid isAdmin => .user <$> UserRoutes.patchUser svc pid isAdmin
  | .grant req => .user <$> UserRoutes.grant st req
  | .replaceMetadata svc id body => .metadata <$> MetadataRoutes.replace svc id body
  | .shallowPatch svc id headers body => .metadata <$> MetadataRoutes.shallowPatch svc id headers body
  | .bulkCreate rt svc sid req => .bulk <$> UniformRoutes.bulkCreate rt svc sid req
  | .patchRow rt svc id headers body => .row <$> UniformRoutes.patchRow rt svc id headers body
  | .deleteRow rt svc id => (fun _ => .noContent) <$> UniformRoutes.deleteRow rt svc id
  | .createMute svc sid pid input => .mute <$> MuteRoutes.createMute svc sid pid input
  | .deleteMute svc sid pid rangeId => (fun _ => .noContent) <$> MuteRoutes.deleteMute svc sid pid rangeId
  | .wipeParticipantAudio svc sid pid => .wiped <$> MuteRoutes.wipeParticipantAudio svc sid pid
  | .createToken svc input => (fun t => .token t.1 t.2) <$> ConsentRoutes.createToken svc input
  | .getConsent token => .consent <$> ConsentRoutes.getConsent token
  | .patchConsent token input => .participant <$> ConsentRoutes.patchConsent token input
  | .deleteAudio token => (fun _ => .noContent) <$> ConsentRoutes.deleteAudio token

/-- The service an audit row of the request names. -/
def Request.actor : Request → String
  | .createSession svc _ | .patchSession svc _ _ | .resume svc _ _ | .deleteCascade svc _ | .upload svc _
  | .addOne svc _ _ | .addBatch svc _ _ | .patchParticipantConsent svc _ _ | .patchLicense svc _ _ | .upsertUser svc _
  | .postDisplay svc _ _ | .patchUser svc _ _ | .replaceMetadata svc _ _ | .shallowPatch svc _ _ _
  | .bulkCreate _ svc _ _ | .patchRow _ svc _ _ _ | .deleteRow _ svc _ | .createMute svc _ _ _ | .deleteMute svc _ _ _
  | .wipeParticipantAudio svc _ _ | .createToken svc _ => svc
  | .grant _ => "admin_bootstrap"
  | .getConsent _ | .patchConsent .. | .deleteAudio _ => "consent_token"

abbrev Outcome := Except AppError Reply

/-- All requests arrived, none begun: each has a client of its own. -/
def Service.start {ι : Type} (st : AppState) (reqs : ι → Request) (sv : Sv ι) : Clients ι Row Env Io Outcome where
  threads i := { prog := (handle st (reqs i)).run, loc := {} }
  shared := sv

/-- The error a client returned. -/
def errorOf {α : Type} : Option (Except AppError α) → Option AppError
  | some (.error e) => some e
  | _ => none

theorem errorOf_eq {α : Type} {x : Option (Except AppError α)} {e : AppError} (h : errorOf x = some e) :
    x = some (.error e) := by
  match x, h with
  | some (.error _), rfl => rfl

def uploadedOf : Option Outcome → Option ChunkRoutes.UploadResponse
  | some (.ok (.uploaded r)) => some r
  | _ => none

theorem uploadedOf_eq {x : Option Outcome} {r : ChunkRoutes.UploadResponse} (h : uploadedOf x = some r) :
    x = some (.ok (.uploaded r)) := by
  unfold uploadedOf at h
  split at h
  · rw [Option.some.inj h]
  · cases h

/-- The others have not begun or have returned. -/
def Service.Turn {ι : Type} (c : Clients ι Row Env Io Outcome) (i : ι) : Prop :=
  ∀ j, j ≠ i → ((c.threads j).loc.hist.isEmpty ∧ (c.threads j).loc.snap.isNone) ∨ (c.returned j).isSome

instance {n : Nat} (c : Clients (Fin n) Row Env Io Outcome) (i : Fin n) : Decidable (Service.Turn c i) :=
  inferInstanceAs (Decidable (∀ _, _))

/-- One client after another, and nothing fails. -/
structure Service.Sequential {ι : Type} (c : Clients ι Row Env Io Outcome) (i : ι) (e : Env) : Prop where
  turn : Service.Turn c i
  database : e.fails = false
  store : ∀ key, e.storeFails key = false

/-! ## Sample inputs, for runs that are evaluated -/

namespace Sample

/-- Operation `n` of a run: a clock that ticks, fresh draws, no failure. -/
def env (n : Nat) : Env :=
  { now := n, uuid := fun k => BitVec.ofNat 128 (1000 * n + k + 1000), etag := ⟨s!"etag-{n}"⟩
    fails := false, storeFails := fun _ => false }

def state : AppState := { resumeTtl := 3600, sharedSecret := "secret", parseRfc3339 := fun _ => .ok 0 }

def world : World := { store := [], bus := [], counters := fun _ => 0 }

def server {ι : Type} (db : Db) : Sv ι := { db := db, world := world }

/-- `n` moves of client `i`, then the rest. -/
def moves {ι : Type} (from_ : Nat) : List (ι × Nat) → List (ι × Env)
  | [] => []
  | (i, n) :: rest => (List.range n).map (fun k => (i, env (from_ + k))) ++ moves (from_ + n) rest

theorem moves_env {ι : Type} {l : List (ι × Nat)} {m : ι × Env} : ∀ {n : Nat}, m ∈ moves n l → ∃ k, m.2 = env k := by
  induction l with
  | nil => intro n h; cases h
  | cons x rest ih =>
    intro n h
    rcases List.mem_append.1 h with h | h
    · obtain ⟨k, -, rfl⟩ := List.mem_map.1 h
      exact ⟨n + k, rfl⟩
    · exact ih h

/-- A schedule of these moves in which clients take turns. -/
theorem sequential {ι : Type} [DecidableEq ι] {c : Clients ι Row Env Io Outcome} {n : Nat} {l : List (ι × Nat)}
    (h : c.Guarded machine (fun c i _ => Service.Turn c i) (moves n l)) :
    c.Guarded machine Service.Sequential (moves n l) := by
  refine h.mono fun c m hm hturn => ?_
  obtain ⟨k, hk⟩ := moves_env hm
  rw [hk]
  exact ⟨hturn, rfl, fun _ => rfl⟩

def sessionId : Uuid := 1

def createInput : Sessions.CreateSession :=
  { id := sessionId, guildId := 7, startedAt := 0, gameSystem := none, campaignName := none, s3Prefix := "s1" }

def session : Session := Sessions.createRow createInput (env 0)

/-- A chunk of the mixed audio, its client id one letter. -/
def chunk (clientId : Char) (body : Bytes) : ChunkRoutes.UploadRequest :=
  { sessionId := sessionId, pseudoRaw := "mixed", body := body
    headers := [("x-capture-started-at", [48]), ("x-duration-ms", [48]), ("x-client-chunk-id", [clientId.toUInt8])] }

def speaker : String := "0123456789abcdef01234567"

/-- A chunk of one speaker's audio. -/
def speakerChunk (clientId : Char) (body : Bytes) : ChunkRoutes.UploadRequest :=
  { chunk clientId body with pseudoRaw := speaker }

end Sample
end DataApi
