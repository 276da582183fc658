/-
Which statements a request sends to the database (`Issues`), and the rule for
a fact of the stored rows: what every such statement keeps, the request keeps,
whether it succeeds or fails.
-/
import DataApi.Lib.Constraints
import DataApi.Lib.Footprint
import DataApi.Outcomes
import DataApi.Rules

namespace DataApi

open Relational ReadCommitted Resumption Handler

/-- The requests that delete rows. -/
def Request.deletes : Request → Bool
  | .deleteCascade .. | .deleteRow .. | .deleteMute .. | .wipeParticipantAudio .. | .deleteAudio .. => true
  | _ => false

/-- The tables in which a request enters rows. -/
def Request.enters : Request → List TableName
  | .createSession .. => [.audit, .sessions]
  | .upload .. => [.audit, .chunks]
  | .addOne .. | .addBatch .. => [.audit, .users, .participants]
  | .upsertUser .. | .patchUser .. | .grant .. => [.audit, .users]
  | .postDisplay .. => [.audit, .users, .displayNames]
  | .replaceMetadata .. | .shallowPatch .. => [.audit, .metadata]
  | .bulkCreate rt .. => [.audit, .uniform rt]
  | .createMute .. => [.audit, .mutes]
  | .createToken .. => [.audit, .consentTokens]
  | .getConsent _ => []
  | .patchSession .. | .resume .. | .deleteCascade .. | .patchParticipantConsent .. | .patchLicense .. | .patchRow ..
  | .deleteRow .. | .deleteMute .. | .wipeParticipantAudio .. | .patchConsent .. | .deleteAudio _ => [.audit]

/-- Every request reads and locks what it likes, and logs in its own name. No
session row is deleted. -/
inductive Issues : Request → Sql → Prop
  | select {req : Request} (p : Env → Row → Bool) : Issues req (.select p)
  | forUpdate {req : Request} (p : Row → Bool) : Issues req (.forUpdate p)
  | audit {req : Request} (e : AuditLog.Entry) (hreq : .audit ∈ req.enters) (he : e.actorService = req.actor) :
      Issues req (AuditLog.appendSql e)
  | delete {req : Request} (h : req.deletes = true) {τ : Type} {T : Table Row τ}
      (hT : ∀ t, (key (T.put t)).table ≠ .sessions) (p : τ → Bool) : Issues req (T.delete p)
  | created (svc : String) (input : Sessions.CreateSession) :
      Issues (.createSession svc input) (Sessions.createSql input)
  | status {svc : String} {id : Uuid} {body : SessionRoutes.PatchSession} {new : SessionStatus}
      (h : body.status = some new) : Issues (.patchSession svc id body) (Sessions.updateStatusSql id new)
  | fields (svc : String) (id : Uuid) (body : SessionRoutes.PatchSession) :
      Issues (.patchSession svc id body) (Sessions.patchFieldsSql id body.endedAt body.participantCount)
  | resumed (svc : String) (id : Uuid) (body : SessionRoutes.ResumeBody) :
      Issues (.resume svc id body) (Sessions.resumeFromAbandonedSql id)
  | tombstone (svc : String) (id : Uuid) : Issues (.deleteCascade svc id) (Sessions.updateStatusSql id .deleted)
  | chunk (svc : String) (r : ChunkRoutes.UploadRequest) (pid : PseudoId) (h : ChunkRoutes.ChunkHeaders) (size : Int) :
      Issues (.upload svc r) (Chunks.insertSql (ChunkRoutes.reserve r.sessionId pid h size))
  | chunkKey (svc : String) (r : ChunkRoutes.UploadRequest) (pid : PseudoId) (seq : Int) (key : String) :
      Issues (.upload svc r) (Chunks.setKeySql r.sessionId pid seq key)
  | added (svc : String) (sid : Uuid) (input : Participants.AddParticipant) :
      Issues (.addOne svc sid input) (Participants.addSql sid input)
  | seeded (svc : String) (sid : Uuid) (ps : List Participants.AddParticipant) :
      Issues (.addBatch svc sid ps) (Participants.seedUsersSql ps)
  | addedAll (svc : String) (sid : Uuid) (ps : List Participants.AddParticipant) :
      Issues (.addBatch svc sid ps) (Participants.addManySql sid ps)
  | consent (svc : String) (id : Uuid) (input : Participants.UpdateConsent) :
      Issues (.patchParticipantConsent svc id input) (Participants.updateConsentSql id input)
  | license (svc : String) (id : Uuid) (input : Participants.UpdateLicense) :
      Issues (.patchLicense svc id input) (Participants.updateLicenseSql id input)
  | user (svc : String) (pid : PseudoId) : Issues (.upsertUser svc pid) (Users.upsertSql pid)
  | named (svc raw : String) (pid : PseudoId) (input : DisplayNames.UpsertDisplayName) :
      Issues (.postDisplay svc raw input) (Users.upsertSql pid)
  | displayName (svc raw : String) (pid : PseudoId) (input : DisplayNames.UpsertDisplayName) :
      Issues (.postDisplay svc raw input) (DisplayNames.upsertSql pid input)
  | admin (svc raw : String) (pid : PseudoId) (isAdmin : Bool) :
      Issues (.patchUser svc raw isAdmin) (Users.setAdminSql pid isAdmin)
  | granted (req : UserRoutes.GrantRequest) : Issues (.grant req) (Users.setAdminSql req.pseudoId req.isAdmin)
  | replaced (svc : String) (id : Uuid) (body : Json) (etag : ETag) :
      Issues (.replaceMetadata svc id body) (Metadata.upsertSql id body etag)
  | merged (svc : String) (id : Uuid) (headers : HeaderMap) (body merged : Json) (etag : ETag) :
      Issues (.shallowPatch svc id headers body) (Metadata.upsertSql id merged etag)
  | bulk (rt : ResourceTable) (svc : String) (sid : Uuid) (req : UniformRoutes.BulkRequest) (inp : Uniform.CreateInput)
      (etag : ETag) : Issues (.bulkCreate rt svc sid req) (Uniform.insertRowSql rt sid svc inp etag)
  | row (rt : ResourceTable) (svc : String) (id : Uuid) (headers : HeaderMap) (body : Uniform.PatchInput)
      (patched : Uniform.UniformRow) (author : Option PseudoId) (etag : ETag) :
      Issues (.patchRow rt svc id headers body) (Uniform.updateSql rt id patched author etag)
  | mute (svc : String) (sid : Uuid) (raw : String) (pid : PseudoId) (input : MuteRanges.CreateMuteRange) :
      Issues (.createMute svc sid raw input) (MuteRanges.createSql sid pid input)
  | wiped (svc : String) (sid : Uuid) (raw : String) (pid : PseudoId) :
      Issues (.wipeParticipantAudio svc sid raw) (Participants.markWipedSql sid pid)
  | token (svc : String) (input : ConsentRoutes.CreateTokenRequest) :
      Issues (.createToken svc input) (ConsentTokens.createSql input.sessionId input.participantId input.pseudoId)
  | consentByToken (token id : Uuid) (input : ConsentRoutes.PatchConsent) (scope : String) :
      Issues (.patchConsent token input) (Participants.updateConsentSql id { consentScope := scope, consentedAt := none })
  | licenseByToken (token id : Uuid) (input : ConsentRoutes.PatchConsent) (flags : Participants.UpdateLicense) :
      Issues (.patchConsent token input) (Participants.updateLicenseSql id flags)
  | wipedByToken (token sid : Uuid) (pid : PseudoId) : Issues (.deleteAudio token) (Participants.markWipedSql sid pid)

/-- The session a row lies under: of the tables that reference sessions, all
but the consent tokens. -/
def childOf : Row → Option Uuid
  | .participant p => some p.sessionId
  | .metadata m => some m.sessionId
  | .chunk c => some c.sessionId
  | .uniform _ r => some r.sessionId
  | .mute m => some m.sessionId
  | _ => none

/-- The session under which a request enters rows. -/
def under : Request → Option Uuid
  | .upload _ r => some r.sessionId
  | .addOne _ sid _ | .addBatch _ sid _ | .replaceMetadata _ sid _ | .shallowPatch _ sid _ _ | .bulkCreate _ _ sid _
  | .createMute _ sid _ _ => some sid
  | _ => none

/-- What a row that a request enters says of the request. -/
structure Enters (req : Request) (r : Row) : Prop where
  kind : (key r).table ∈ req.enters
  child : ∀ id, childOf r = some id → under req = some id
  signed : ∀ a, r = .audit a → a.actorService = req.actor

/-- Only `create_token` enters consent tokens. -/
theorem Enters.token {req : Request} {r : Row} (h : Enters req r) (ht : (key r).table = .consentTokens) :
    ∃ svc input, req = .createToken svc input := by
  have hkind := h.kind
  rw [ht] at hkind
  cases req with
  | createToken svc input => exact ⟨svc, input, rfl⟩
  | _ => simp [Request.enters] at hkind

section
variable {req : Request} {q : Sql} {env : Env} {snap alive cur rows : Db} {ws : List (Write Row Key)} {r : Row}

/-- A row of a table that is no child of sessions. -/
theorem Enters.plain (hkind : (key r).table ∈ req.enters) (haudit : (key r).table ≠ .audit) (hchild : childOf r = none) :
    Enters req r where
  kind := hkind
  child id h := by rw [hchild] at h; cases h
  signed a h := by rw [h] at haudit; exact absurd rfl haudit

/-- A child of the session of the request. -/
theorem Enters.under {sid : Uuid} (hkind : (key r).table ∈ req.enters) (hchild : childOf r = some sid)
    (hreq : under req = some sid) : Enters req r where
  kind := hkind
  child id h := by rw [hreq, ← hchild, h]
  signed a h := by rw [h] at hchild; cases hchild

theorem Issues.entered (h : Issues req q) (hrun : (q.run env snap alive cur).result = .ok (rows, ws)) (hr : .insert r ∈ ws) :
    Enters req r := by
  cases h with
  | select p | forUpdate p =>
    simp only [Stmt.run, Except.ok.injEq, Prod.mk.injEq] at hrun
    rw [← hrun.2] at hr
    cases hr
  | delete _ _ p =>
    obtain ⟨-, rfl⟩ := delete_ok hrun
    simp at hr
  | status | fields | resumed | tombstone | chunkKey | consent | license | row | wiped | consentByToken | licenseByToken
  | wipedByToken => exact absurd hr (update_entered hrun)
  | audit e hreq he =>
    obtain ⟨t, ht, rfl⟩ := tableInsert_entered hrun hr
    obtain rfl := Except.ok.inj ht
    refine ⟨hreq, (fun id h => by cases h), fun a ha => ?_⟩
    cases ha
    exact he
  | created | user | named | admin | granted | token =>
    obtain ⟨t, -, rfl⟩ := tableInsert_entered hrun hr
    exact .plain (.tail _ (.head _)) (fun h => by cases h) rfl
  | chunk =>
    obtain ⟨t, ht, rfl⟩ := tableInsert_entered hrun hr
    unfold Chunks.nextRow at ht
    split at ht
    · obtain rfl := Except.ok.inj ht
      exact .under (.tail _ (.head _)) rfl rfl
    · cases ht
  | bulk | mute =>
    obtain ⟨t, ht, rfl⟩ := tableInsert_entered hrun hr
    obtain rfl := Except.ok.inj ht
    exact .under (.tail _ (.head _)) rfl rfl
  | displayName =>
    obtain ⟨xs, hxs, x, hx, rfl⟩ := insert_entered hrun hr
    obtain rfl := Except.ok.inj hxs
    rw [List.mem_singleton.1 hx]
    exact .plain (.tail _ (.tail _ (.head _))) (fun h => by cases h) rfl
  | replaced | merged =>
    obtain ⟨xs, hxs, x, hx, rfl⟩ := insert_entered hrun hr
    obtain rfl := Except.ok.inj hxs
    rw [List.mem_singleton.1 hx]
    exact .under (.tail _ (.head _)) rfl rfl
  | added =>
    obtain ⟨xs, hxs, x, hx, rfl⟩ := insert_entered hrun hr
    obtain rfl := Except.ok.inj hxs
    rcases List.mem_cons.1 hx with rfl | hx
    · exact .plain (.tail _ (.head _)) (fun h => by cases h) rfl
    · rw [List.mem_singleton.1 hx]
      exact .under (.tail _ (.tail _ (.head _))) rfl rfl
  | seeded =>
    obtain ⟨xs, hxs, x, hx, rfl⟩ := insert_entered hrun hr
    obtain rfl := Except.ok.inj hxs
    obtain ⟨input, -, rfl⟩ := List.mem_map.1 hx
    exact .plain (.tail _ (.head _)) (fun h => by cases h) rfl
  | addedAll =>
    obtain ⟨xs, hxs, x, hx, rfl⟩ := insert_entered hrun hr
    obtain rfl := Except.ok.inj hxs
    obtain ⟨n, hn, rfl⟩ := List.mem_mapIdx.1 hx
    exact .under (.tail _ (.tail _ (.head _))) rfl rfl

end

/-! ## The rules -/

/-- The handler sends statements of `S` only; `opened` says whether it may
have a transaction open. -/
abbrev Sends (S : Sql → Prop) (opened : Bool) {β : Type} (p : Handler β) : Prop :=
  Prog.Follows (sending S) (fun _ _ => True) opened p.run

section
variable {α β τ : Type} {S : Sql → Prop} {opened : Bool} {via : Via} {q : Sql} {T : Table Row τ}

theorem sends_pure {b : β} : Sends S opened (pure b : Handler β) := trivial

theorem sends_throw {e : AppError} : Sends S opened (throw e : Handler β) := trivial

theorem sends_query (hq : S q) (hvia : via = if opened then .tx else .pool) {f : List Row → Handler β}
    (hf : ∀ rows, Sends S opened (f rows)) : Sends S opened (query via q >>= f) := by
  refine Handler.follows_query ?_ (fun _ _ _ => trivial) fun rows t ht => ?_
  · cases opened <;> cases hvia
    · exact ⟨rfl, hq⟩
    · exact hq
  · obtain rfl : t = opened := by cases via <;> exact ht
    exact hf rows

theorem sends_fetchAll (hq : S q) (hvia : via = if opened then .tx else .pool) {f : List τ → Handler β}
    (hf : ∀ xs, Sends S opened (f xs)) : Sends S opened (fetchAll via T q >>= f) := by
  rw [fetchAll, bind_assoc]
  exact sends_query hq hvia fun rows => hf _

theorem sends_fetchOptional (hq : S q) (hvia : via = if opened then .tx else .pool) {f : Option τ → Handler β}
    (hnone : Sends S opened (f none)) (hf : ∀ x, Sends S opened (f (some x))) :
    Sends S opened (fetchOptional via T q >>= f) := by
  rw [fetchOptional, bind_assoc]
  refine sends_query hq hvia fun rows => ?_
  show Sends S opened (f (T.rows rows).head?)
  cases (T.rows rows).head? with
  | none => exact hnone
  | some x => exact hf x

theorem sends_fetchOne (hq : S q) (hvia : via = if opened then .tx else .pool) {f : τ → Handler β}
    (hf : ∀ x, Sends S opened (f x)) : Sends S opened (fetchOne via T q >>= f) := by
  rw [fetchOne, bind_assoc]
  refine sends_query hq hvia fun rows => ?_
  cases (T.rows rows).head? with
  | none => exact sends_throw
  | some x => exact hf x

theorem sends_execute (hq : S q) (hvia : via = if opened then .tx else .pool) {f : Nat → Handler β}
    (hf : ∀ n, Sends S opened (f n)) : Sends S opened (execute via q >>= f) := by
  rw [execute, bind_assoc]
  exact sends_query hq hvia fun rows => hf _

theorem sends_append {e : AuditLog.Entry} (hq : S (AuditLog.appendSql e)) {f : Unit → Handler β}
    (hf : Sends S false (f ())) : Sends S false (AuditLog.append e >>= f) := by
  rw [AuditLog.append, bind_assoc]
  exact sends_execute hq rfl fun _ => hf

theorem sends_appendTx {e : AuditLog.Entry} (hq : S (AuditLog.appendSql e)) {f : Unit → Handler β}
    (hf : Sends S true (f ())) : Sends S true (AuditLog.appendTx e >>= f) := by
  rw [AuditLog.appendTx, bind_assoc]
  exact sends_execute hq rfl fun _ => hf

theorem sends_begin {f : Unit → Handler β} (hf : Sends S true (f ())) : Sends S opened (begin >>= f) := by
  refine Handler.follows_begin trivial (fun _ _ _ => trivial) fun t ht => ?_
  obtain rfl : t = true := ht
  exact hf

theorem sends_commit {f : Unit → Handler β} (hf : Sends S false (f ())) : Sends S opened (commit >>= f) := by
  refine Handler.follows_commit trivial (fun _ _ _ => trivial) fun t ht => ?_
  obtain rfl : t = false := ht
  exact hf

theorem sends_rollback {f : Unit → Handler β} (hf : Sends S false (f ())) : Sends S opened (rollback >>= f) := by
  refine Handler.follows_rollback trivial (fun _ _ _ => trivial) fun t ht => ?_
  obtain rfl : t = false := ht
  exact hf

theorem sends_outer {x : Io} {f : x.Ans → Handler β} (hf : ∀ r, Sends S opened (f r)) :
    Sends S opened (perform (.outer x) >>= f) := by
  refine Handler.follows_perform trivial fun r t ht => ?_
  obtain rfl : t = opened := ht
  exact hf r

theorem sends_send {ev : Event} : Sends S opened (send ev) := by
  rw [← bind_pure (send ev)]
  exact sends_outer fun _ => sends_pure

theorem sends_ofResult {x : Except AppError α} {f : α → Handler β} (hf : ∀ a, Sends S opened (f a)) :
    Sends S opened (ofResult x >>= f) := Handler.follows_ofResult (fun _ _ => trivial) fun a _ => hf a

theorem sends_refuseIf {b : Bool} {e : AppError} {f : Unit → Handler β} (hf : Sends S opened (f ())) :
    Sends S opened (refuseIf b e >>= f) := Handler.follows_refuseIf (fun _ => trivial) fun _ => hf

theorem sends_map {f : α → β} {p : Handler α} (h : Sends S opened p) : Sends S opened (f <$> p) := Handler.follows_map h

theorem sends_put {key : String} {body : Bytes} {ct : String} {f : Unit → Handler β} (hf : Sends S opened (f ())) :
    Sends S opened (put key body ct >>= f) := by
  rw [put, bind_assoc]
  exact sends_outer fun _ => sends_ofResult fun _ => hf

theorem sends_toBytes {body : Bytes} {limit : Nat} {f : Bytes → Handler β} (hf : ∀ bytes, Sends S opened (f bytes)) :
    Sends S opened (toBytes body limit >>= f) := by
  rw [toBytes, bind_assoc]
  refine sends_outer fun r => ?_
  cases r with
  | ok bytes => exact hf bytes
  | error e => exact sends_throw

theorem sends_sweep {keys : List String} {f : Unit → Handler β} (hf : Sends S opened (f ())) :
    Sends S opened (SessionRoutes.sweep keys >>= f) := by
  rw [SessionRoutes.sweep]
  split
  · exact hf
  · rw [bind_assoc]
    exact sends_outer fun _ => hf

theorem sends_stateChanged {id : Uuid} {g : Int} {old new : SessionStatus} {f : Unit → Handler β}
    (hf : Sends S opened (f ())) : Sends S opened (SessionRoutes.stateChanged id g old new >>= f) := by
  rw [SessionRoutes.stateChanged, bind_assoc]
  exact sends_outer fun _ => sends_outer fun _ => hf

end

/-- What every statement of the handler keeps, the handler keeps. -/
theorem Ends.sent {β : Type} {S : Sql → Prop} {I : Db → Prop} {env : Nat → Env} {n : Nat} {s : Moment} {opened : Bool}
    {p : Handler β} (hS : ∀ q, S q → q.Maintains I) (hp : Sends S opened p) (hopen : s.tx.isSome → opened = true)
    (h : s.Holds I) : Ends env n s p fun _ s => I s.db := solo_maintains hS hp hopen h

/-! ## The handlers -/

section
variable {β : Type}

theorem sends_getInTx {req : Request} {id : Uuid} {f : Session → Handler β} (h : ∀ s, Sends (Issues req) true (f s)) :
    Sends (Issues req) true (Sessions.getInTx id >>= f) := by
  rw [Sessions.getInTx, bind_assoc]
  exact sends_fetchOptional (.forUpdate _) rfl sends_throw h

theorem sends_guildId {req : Request} {id : Uuid} {f : Int → Handler β} (h : ∀ g, Sends (Issues req) false (f g)) :
    Sends (Issues req) false (Sessions.guildIdForSession id >>= f) := by
  rw [Sessions.guildIdForSession, bind_assoc]
  exact sends_fetchOptional (.select _) rfl sends_throw fun s => h s.guildId

/-! ### Sessions and chunks -/

theorem create_sends (svc : String) (input : Sessions.CreateSession) :
    Sends (Issues (.createSession svc input)) false (SessionRoutes.create svc input) := by
  rw [SessionRoutes.create, Sessions.create]
  refine sends_fetchOne (.created svc input) rfl fun x => sends_append (.audit _ List.mem_cons_self rfl) ?_
  exact sends_outer fun _ => sends_pure

/-- The other columns of a session, and what follows. -/
theorem sends_patched {svc : String} {id : Uuid} {body : SessionRoutes.PatchSession} (updated : Session)
    (change : Option (SessionStatus × SessionStatus)) : Sends (Issues (.patchSession svc id body)) true
      (SessionRoutes.patchFields id body updated >>= fun updated =>
        AuditLog.appendTx (SessionRoutes.entry svc id "patched" (.obj
          [("status", .str updated.status.asStr), ("ended_at", Json.optTime updated.endedAt)])) >>= fun _ =>
        commit >>= fun _ => SessionRoutes.announceChange id updated.guildId change >>= fun _ => pure updated) := by
  have rest : ∀ y : Session, Sends (Issues (.patchSession svc id body)) true
      (AuditLog.appendTx (SessionRoutes.entry svc id "patched" (.obj
        [("status", .str y.status.asStr), ("ended_at", Json.optTime y.endedAt)])) >>= fun _ =>
      commit >>= fun _ => SessionRoutes.announceChange id y.guildId change >>= fun _ => pure y) := by
    intro y
    refine sends_appendTx (.audit _ List.mem_cons_self rfl) (sends_commit ?_)
    cases change with
    | none => exact sends_pure
    | some c =>
      rw [SessionRoutes.announceChange, bind_assoc]
      exact sends_stateChanged (sends_outer fun _ => sends_pure)
  rw [SessionRoutes.patchFields]
  split
  · exact sends_fetchOne (.fields svc id body) rfl rest
  · exact rest updated

theorem patch_sends (svc : String) (id : Uuid) (body : SessionRoutes.PatchSession) :
    Sends (Issues (.patchSession svc id body)) false (SessionRoutes.patch svc id body) := by
  rw [SessionRoutes.patch]
  refine sends_begin (sends_getInTx fun existing => ?_)
  cases hs : body.status with
  | none => exact sends_patched existing none
  | some new =>
    simp only [SessionRoutes.patchStatus, Sessions.updateStatus, bind_assoc, pure_bind]
    exact sends_refuseIf (sends_fetchOne (.status hs) rfl fun y => sends_patched y _)

theorem resume_sends (st : AppState) (svc : String) (id : Uuid) (body : SessionRoutes.ResumeBody) :
    Sends (Issues (.resume svc id body)) false (SessionRoutes.resume st svc id body) := by
  rw [SessionRoutes.resume, Sessions.resumeFromAbandoned]
  refine sends_begin (sends_getInTx fun existing => sends_refuseIf ?_)
  refine sends_outer fun now => sends_refuseIf ?_
  refine sends_fetchOne (.resumed svc id body) rfl fun y => ?_
  exact sends_appendTx (.audit _ List.mem_cons_self rfl) (sends_commit (sends_stateChanged sends_pure))

/-- The end of a cascade, once the rows under the session are gone. -/
theorem sends_tombstone {svc : String} {id : Uuid} (existing : Session) (keys : List String) :
    Sends (Issues (.deleteCascade svc id)) true (Sessions.updateStatus id .deleted >>= fun updated =>
      AuditLog.appendTx (SessionRoutes.entry svc id "deleted" (.obj [("chunk_count", .int keys.length)])) >>= fun _ =>
      commit >>= fun _ => SessionRoutes.sweep keys >>= fun _ =>
      SessionRoutes.stateChanged id existing.guildId existing.status .deleted >>= fun _ =>
      pure ({ tombstoneStatus := updated.status, s3KeysDeleted := keys.length } : SessionRoutes.Deleted)) := by
  rw [Sessions.updateStatus]
  refine sends_fetchOne (.tombstone svc id) rfl fun y => ?_
  exact sends_appendTx (.audit _ List.mem_cons_self rfl) (sends_commit (sends_sweep (sends_stateChanged sends_pure)))

theorem deleteCascade_sends (svc : String) (id : Uuid) :
    Sends (Issues (.deleteCascade svc id)) false (SessionRoutes.deleteCascade svc id) := by
  rw [SessionRoutes.deleteCascade]
  refine sends_begin (sends_getInTx fun existing => ?_)
  simp only [SessionRoutes.deleteChildren, Chunks.deleteForSession, Uniform.deleteAllForSession,
    MuteRanges.deleteForSession, bind_assoc, pure_bind]
  refine sends_fetchAll (.delete rfl (fun _ h => by cases h) _) rfl fun rows => ?_
  refine sends_execute (.delete rfl (fun _ h => by cases h) _) rfl fun _ => ?_
  refine sends_execute (.delete rfl (fun _ h => by cases h) _) rfl fun _ => ?_
  refine sends_execute (.delete rfl (fun _ h => by cases h) _) rfl fun _ => ?_
  refine sends_execute (.delete rfl (fun _ h => by cases h) _) rfl fun _ => ?_
  refine sends_execute (.delete rfl (fun _ h => by cases h) _) rfl fun _ => ?_
  refine sends_execute (.delete rfl (fun _ h => by cases h) _) rfl fun _ => ?_
  exact sends_tombstone existing _

theorem upload_sends (st : AppState) (svc : String) (r : ChunkRoutes.UploadRequest) :
    Sends (Issues (.upload svc r)) false (ChunkRoutes.upload st svc r) := by
  rw [ChunkRoutes.upload]
  refine sends_ofResult fun pid => sends_ofResult fun h => sends_begin ?_
  rw [Chunks.lookupByClientId]
  refine sends_fetchOptional (.select _) rfl ?_ fun existing => sends_rollback sends_pure
  rw [ChunkRoutes.store, ChunkRoutes.readBody]
  simp only [Chunks.insert, bind_assoc, pure_bind]
  refine sends_getInTx fun session => sends_toBytes fun bytes => sends_refuseIf ?_
  refine sends_fetchOne (.chunk svc r pid h _) rfl fun row => sends_put ?_
  refine sends_outer fun _ => sends_execute (.chunkKey svc r pid _ _) rfl fun _ => ?_
  refine sends_appendTx (.audit _ List.mem_cons_self rfl) (sends_commit ?_)
  exact sends_outer fun _ => sends_outer fun _ => sends_pure

/-! ### Participants and users -/

theorem addOne_sends (svc : String) (sid : Uuid) (input : Participants.AddParticipant) :
    Sends (Issues (.addOne svc sid input)) false (ParticipantRoutes.addOne svc sid input) := by
  rw [ParticipantRoutes.addOne, Participants.add]
  exact sends_fetchOne (.added svc sid input) rfl fun row => sends_append (.audit _ List.mem_cons_self rfl) sends_pure

theorem addBatch_sends (svc : String) (sid : Uuid) (ps : List Participants.AddParticipant) :
    Sends (Issues (.addBatch svc sid ps)) false (ParticipantRoutes.addBatch svc sid ps) := by
  rw [ParticipantRoutes.addBatch, Participants.addMany]
  split
  · exact sends_append (.audit _ List.mem_cons_self rfl) sends_pure
  · simp only [bind_assoc, pure_bind]
    refine sends_begin (sends_execute (.seeded svc sid ps) rfl fun _ => ?_)
    refine sends_fetchAll (.addedAll svc sid ps) rfl fun rows => sends_commit ?_
    exact sends_append (.audit _ List.mem_cons_self rfl) sends_pure

theorem sends_found {req : Request} {id : Uuid} {q : Sql} (hq : Issues req q) {f : Participant → Handler β}
    (h : ∀ p, Sends (Issues req) false (f p)) : Sends (Issues req) false (Participants.found id q >>= f) := by
  rw [Participants.found, bind_assoc]
  exact sends_fetchOptional hq rfl sends_throw h

theorem patchParticipantConsent_sends (svc : String) (id : Uuid) (input : Participants.UpdateConsent) :
    Sends (Issues (.patchParticipantConsent svc id input)) false (ParticipantRoutes.patchConsent svc id input) := by
  rw [ParticipantRoutes.patchConsent, Participants.updateConsent, bind_assoc]
  refine sends_refuseIf (sends_found (.consent svc id input) fun p => ?_)
  exact sends_append (.audit _ List.mem_cons_self rfl) sends_pure

theorem patchLicense_sends (svc : String) (id : Uuid) (input : Participants.UpdateLicense) :
    Sends (Issues (.patchLicense svc id input)) false (ParticipantRoutes.patchLicense svc id input) := by
  rw [ParticipantRoutes.patchLicense, Participants.updateLicense]
  exact sends_found (.license svc id input) fun p => sends_append (.audit _ List.mem_cons_self rfl) sends_pure

theorem upsertUser_sends (svc : String) (pid : PseudoId) :
    Sends (Issues (.upsertUser svc pid)) false (UserRoutes.upsertUser svc pid) := by
  rw [UserRoutes.upsertUser, Users.upsert]
  exact sends_fetchOne (.user svc pid) rfl fun u => sends_append (.audit _ List.mem_cons_self rfl) sends_pure

theorem postDisplay_sends (svc raw : String) (input : DisplayNames.UpsertDisplayName) :
    Sends (Issues (.postDisplay svc raw input)) false (UserRoutes.postDisplay svc raw input) := by
  rw [UserRoutes.postDisplay, Handler.pseudoId]
  refine sends_ofResult fun pid => ?_
  rw [Users.upsert]
  refine sends_fetchOne (.named svc raw pid input) rfl fun _ => ?_
  rw [DisplayNames.upsert, bind_assoc]
  refine sends_refuseIf (sends_fetchOne (.displayName svc raw pid input) rfl fun row => ?_)
  exact sends_append (.audit _ List.mem_cons_self rfl) sends_pure

theorem patchUser_sends (svc raw : String) (isAdmin : Bool) :
    Sends (Issues (.patchUser svc raw isAdmin)) false (UserRoutes.patchUser svc raw isAdmin) := by
  rw [UserRoutes.patchUser, Handler.pseudoId]
  refine sends_ofResult fun pid => sends_begin ?_
  rw [Users.setAdmin]
  refine sends_fetchOne (.admin svc raw pid isAdmin) rfl fun u => ?_
  exact sends_appendTx (.audit _ List.mem_cons_self rfl) (sends_commit sends_pure)

theorem grant_sends (st : AppState) (req : UserRoutes.GrantRequest) :
    Sends (Issues (.grant req)) false (UserRoutes.grant st req) := by
  rw [UserRoutes.grant, Users.setAdmin]
  refine sends_refuseIf (sends_begin (sends_fetchOne (.granted req) rfl fun u => ?_))
  exact sends_appendTx (.audit _ List.mem_cons_self rfl) (sends_commit sends_pure)

/-! ### Metadata -/

theorem replaceMetadata_sends (svc : String) (id : Uuid) (body : Json) :
    Sends (Issues (.replaceMetadata svc id body)) false (MetadataRoutes.replace svc id body) := by
  rw [MetadataRoutes.replace, Metadata.replace, bind_assoc]
  refine sends_outer fun etag => sends_fetchOne (.replaced svc id body etag) rfl fun row => ?_
  exact sends_append (.audit _ List.mem_cons_self rfl) sends_pure

theorem shallowPatch_sends (svc : String) (id : Uuid) (headers : HeaderMap) (body : Json) :
    Sends (Issues (.shallowPatch svc id headers body)) false (MetadataRoutes.shallowPatch svc id headers body) := by
  rw [MetadataRoutes.shallowPatch, Metadata.shallowMerge]
  simp only [bind_assoc, pure_bind]
  have merge : ∀ x : Json × ETag, Sends (Issues (.shallowPatch svc id headers body)) true
      (refuseIf ((ifMatch headers).any (· ≠ x.2)) (.preconditionFailed x.2) >>= fun _ =>
      ofResult (Metadata.mergeShallow x.1 body) >>= fun merged => newEtag >>= fun etag =>
      fetchOne .tx metadataT (Metadata.upsertSql id merged etag) >>= fun row => commit >>= fun _ =>
      AuditLog.append (MetadataRoutes.entry svc id "merged" row.etag) >>= fun _ => pure row) := by
    intro x
    refine sends_refuseIf (sends_ofResult fun merged => sends_outer fun etag => ?_)
    refine sends_fetchOne (.merged svc id headers body merged etag) rfl fun row => sends_commit ?_
    exact sends_append (.audit _ List.mem_cons_self rfl) sends_pure
  refine sends_begin (sends_fetchOptional (.forUpdate _) rfl ?_ fun row => ?_)
  · rw [Metadata.current, bind_assoc]
    exact sends_outer fun etag => merge _
  · exact merge (row.blob, row.etag)

/-! ### Segments, beats and scenes -/

theorem sends_insertRows {rt : ResourceTable} {svc : String} {sid : Uuid} {req : UniformRoutes.BulkRequest}
    {inputs : List Uniform.CreateInput} : ∀ {f : List Uniform.UniformRow → Handler β},
    (∀ us, Sends (Issues (.bulkCreate rt svc sid req)) true (f us)) →
    Sends (Issues (.bulkCreate rt svc sid req)) true (Uniform.insertRows rt sid svc inputs >>= f) := by
  induction inputs with
  | nil => exact fun h => h []
  | cons inp rest ih =>
    intro f h
    simp only [Uniform.insertRows, Uniform.insertRowInTx, bind_assoc, pure_bind]
    refine sends_outer fun etag => sends_fetchOne (.bulk rt svc sid req inp etag) rfl fun r => ?_
    exact sends_ofResult fun u => ih fun us => h (u :: us)

theorem sends_announce {rt : ResourceTable} {svc : String} {sid : Uuid} {req : UniformRoutes.BulkRequest} {g : Int}
    {rows : List Uniform.UniformRow} {k : Handler β} (h : Sends (Issues (.bulkCreate rt svc sid req)) false k) :
    Sends (Issues (.bulkCreate rt svc sid req)) false (UniformRoutes.announce rt svc sid g rows >>= fun _ => k) := by
  induction rows with
  | nil => exact h
  | cons u rest ih =>
    simp only [UniformRoutes.announce, bind_assoc]
    exact sends_append (.audit _ List.mem_cons_self rfl) (sends_outer fun _ => sends_outer fun _ => ih)

theorem bulkCreate_sends (rt : ResourceTable) (svc : String) (sid : Uuid) (req : UniformRoutes.BulkRequest) :
    Sends (Issues (.bulkCreate rt svc sid req)) false (UniformRoutes.bulkCreate rt svc sid req) := by
  rw [UniformRoutes.bulkCreate]
  refine sends_guildId fun g => ?_
  rw [Uniform.bulkInsert]
  split
  · exact sends_announce sends_pure
  · simp only [bind_assoc, pure_bind]
    refine sends_ofResult fun _ => sends_begin (sends_fetchAll (.select _) rfl fun existing => ?_)
    exact sends_insertRows fun us => sends_commit (sends_announce sends_pure)

theorem patchRow_sends (rt : ResourceTable) (svc : String) (id : Uuid) (headers : HeaderMap) (body : Uniform.PatchInput) :
    Sends (Issues (.patchRow rt svc id headers body)) false (UniformRoutes.patchRow rt svc id headers body) := by
  rw [UniformRoutes.patchRow, Uniform.patch, Uniform.found]
  simp only [bind_assoc, pure_bind]
  refine sends_begin (sends_fetchOptional (.forUpdate _) rfl sends_throw fun existing => ?_)
  refine sends_ofResult fun row => sends_refuseIf (sends_outer fun etag => ?_)
  refine sends_fetchOne (.row rt svc id headers body _ _ etag) rfl fun r => ?_
  refine sends_ofResult fun out => sends_commit (sends_append (.audit _ List.mem_cons_self rfl) ?_)
  exact sends_guildId fun g => sends_outer fun _ => sends_outer fun _ => sends_pure

theorem deleteRow_sends (rt : ResourceTable) (svc : String) (id : Uuid) :
    Sends (Issues (.deleteRow rt svc id)) false (UniformRoutes.deleteRow rt svc id) := by
  rw [UniformRoutes.deleteRow, Uniform.delete, Uniform.found]
  simp only [bind_assoc]
  refine sends_fetchOptional (.delete rfl (fun _ h => by cases h) _) rfl sends_throw fun r => sends_ofResult fun row => ?_
  exact sends_append (.audit _ List.mem_cons_self rfl) (sends_guildId fun g => sends_outer fun _ => sends_send)

/-! ### Mute ranges and the wipes -/

theorem createMute_sends (svc : String) (sid : Uuid) (raw : String) (input : MuteRanges.CreateMuteRange) :
    Sends (Issues (.createMute svc sid raw input)) false (MuteRoutes.createMute svc sid raw input) := by
  rw [MuteRoutes.createMute, Handler.pseudoId]
  refine sends_ofResult fun pid => ?_
  rw [MuteRanges.create, bind_assoc]
  refine sends_refuseIf (sends_fetchOne (.mute svc sid raw pid input) rfl fun row => ?_)
  exact sends_append (.audit _ List.mem_cons_self rfl) (sends_guildId fun g => sends_outer fun _ => sends_outer fun _ => sends_pure)

theorem deleteMute_sends (svc : String) (sid : Uuid) (raw : String) (rangeId : Uuid) :
    Sends (Issues (.deleteMute svc sid raw rangeId)) false (MuteRoutes.deleteMute svc sid raw rangeId) := by
  rw [MuteRoutes.deleteMute, Handler.pseudoId]
  refine sends_ofResult fun pid => ?_
  rw [MuteRanges.deleteOne, bind_assoc]
  refine sends_fetchOptional (.delete rfl (fun _ h => by cases h) _) rfl sends_throw fun row => ?_
  exact sends_append (.audit _ List.mem_cons_self rfl) (sends_guildId fun g => sends_outer fun _ => sends_send)

theorem sends_deleteAudioRows {req : Request} (hreq : req.deletes = true) {sid : Uuid} {pid : PseudoId}
    {f : List String × Nat × Nat → Handler β} (h : ∀ x, Sends (Issues req) true (f x)) :
    Sends (Issues req) true (MuteRoutes.deleteAudioRows sid pid >>= f) := by
  simp only [MuteRoutes.deleteAudioRows, Chunks.deleteForParticipant, Uniform.deleteForParticipantSegments,
    MuteRanges.deleteForParticipant, bind_assoc, pure_bind]
  refine sends_fetchAll (.delete hreq (fun _ h => by cases h) _) rfl fun _ => ?_
  refine sends_execute (.delete hreq (fun _ h => by cases h) _) rfl fun _ => ?_
  exact sends_execute (.delete hreq (fun _ h => by cases h) _) rfl fun _ => h _

theorem wipe_sends (svc : String) (sid : Uuid) (raw : String) :
    Sends (Issues (.wipeParticipantAudio svc sid raw)) false (MuteRoutes.wipeParticipantAudio svc sid raw) := by
  rw [MuteRoutes.wipeParticipantAudio, Handler.pseudoId]
  refine sends_ofResult fun pid => sends_begin (sends_deleteAudioRows rfl fun x => ?_)
  refine sends_appendTx (.audit _ List.mem_cons_self rfl) (sends_commit ?_)
  rw [Participants.markWiped, bind_assoc]
  refine sends_execute (.wiped svc sid raw pid) rfl fun _ => sends_sweep ?_
  exact sends_guildId fun g => sends_outer fun _ => sends_outer fun _ => sends_pure

/-! ### Consent tokens -/

theorem createToken_sends (svc : String) (input : ConsentRoutes.CreateTokenRequest) :
    Sends (Issues (.createToken svc input)) false (ConsentRoutes.createToken svc input) := by
  rw [ConsentRoutes.createToken, ConsentTokens.create]
  exact sends_fetchOne (.token svc input) rfl fun ct => sends_append (.audit _ List.mem_cons_self rfl) sends_pure

theorem sends_validated {req : Request} {token : Uuid} {f : ConsentTokens.WithContext → Handler β}
    (h : ∀ ctx, Sends (Issues req) false (f ctx)) : Sends (Issues req) false (ConsentRoutes.validated token >>= f) := by
  rw [ConsentRoutes.validated, ConsentTokens.validate]
  simp only [bind_assoc]
  refine sends_fetchOptional (.select _) rfl sends_throw fun ct => ?_
  simp only [bind_assoc, pure_bind]
  exact sends_fetchOne (.select _) rfl fun s => sends_fetchOne (.select _) rfl fun p => h ⟨ct, s, p⟩

theorem getConsent_sends (token : Uuid) : Sends (Issues (.getConsent token)) false (ConsentRoutes.getConsent token) := by
  rw [ConsentRoutes.getConsent, ← bind_pure (ConsentRoutes.validated token)]
  exact sends_validated fun _ => sends_pure

theorem patchConsent_sends (token : Uuid) (input : ConsentRoutes.PatchConsent) :
    Sends (Issues (.patchConsent token input)) false (ConsentRoutes.patchConsent token input) := by
  rw [ConsentRoutes.patchConsent]
  refine sends_validated fun ctx => ?_
  have flags : ∀ p : Participant, Sends (Issues (.patchConsent token input)) false
      (ConsentRoutes.patchFlags ctx.participant.id p input >>= fun updated =>
        AuditLog.append (ConsentRoutes.patchedEntry ctx.session.id ctx.participant.id updated input) >>= fun _ =>
          pure updated) := by
    intro p
    rw [ConsentRoutes.patchFlags]
    split
    · exact sends_found (.licenseByToken token _ input _) fun p => sends_append (.audit _ List.mem_cons_self rfl) sends_pure
    · exact sends_append (.audit _ List.mem_cons_self rfl) sends_pure
  cases hs : input.consentScope with
  | none => exact flags ctx.participant
  | some scope =>
    rw [ConsentRoutes.patchScope, Participants.updateConsent, bind_assoc]
    exact sends_refuseIf (sends_found (.consentByToken token _ input scope) flags)

theorem deleteAudio_sends (token : Uuid) : Sends (Issues (.deleteAudio token)) false (ConsentRoutes.deleteAudio token) := by
  rw [ConsentRoutes.deleteAudio]
  refine sends_validated fun ctx => sends_begin (sends_deleteAudioRows rfl fun x => ?_)
  refine sends_appendTx (.audit _ List.mem_cons_self rfl) (sends_commit ?_)
  rw [Participants.markWiped, bind_assoc]
  refine sends_execute (.wipedByToken token _ _) rfl fun _ => sends_sweep ?_
  rw [ConsentRoutes.guildId, bind_assoc]
  exact sends_fetchOne (.select _) rfl fun s => sends_outer fun _ => sends_send

end

theorem handle_sends (st : AppState) (req : Request) : Sends (Issues req) false (handle st req) := by
  cases req with
  | createSession svc input => exact sends_map (create_sends svc input)
  | patchSession svc id body => exact sends_map (patch_sends svc id body)
  | resume svc id body => exact sends_map (resume_sends st svc id body)
  | deleteCascade svc id => exact sends_map (deleteCascade_sends svc id)
  | upload svc r => exact sends_map (upload_sends st svc r)
  | addOne svc sid input => exact sends_map (addOne_sends svc sid input)
  | addBatch svc sid ps => exact sends_map (addBatch_sends svc sid ps)
  | patchParticipantConsent svc id input => exact sends_map (patchParticipantConsent_sends svc id input)
  | patchLicense svc id input => exact sends_map (patchLicense_sends svc id input)
  | upsertUser svc pid => exact sends_map (upsertUser_sends svc pid)
  | postDisplay svc pid input => exact sends_map (postDisplay_sends svc pid input)
  | patchUser svc pid isAdmin => exact sends_map (patchUser_sends svc pid isAdmin)
  | grant req => exact sends_map (grant_sends st req)
  | replaceMetadata svc id body => exact sends_map (replaceMetadata_sends svc id body)
  | shallowPatch svc id headers body => exact sends_map (shallowPatch_sends svc id headers body)
  | bulkCreate rt svc sid req => exact sends_map (bulkCreate_sends rt svc sid req)
  | patchRow rt svc id headers body => exact sends_map (patchRow_sends rt svc id headers body)
  | deleteRow rt svc id => exact sends_map (deleteRow_sends rt svc id)
  | createMute svc sid pid input => exact sends_map (createMute_sends svc sid pid input)
  | deleteMute svc sid pid rangeId => exact sends_map (deleteMute_sends svc sid pid rangeId)
  | wipeParticipantAudio svc sid pid => exact sends_map (wipe_sends svc sid pid)
  | createToken svc input => exact sends_map (createToken_sends svc input)
  | getConsent token => exact sends_map (getConsent_sends token)
  | patchConsent token input => exact sends_map (patchConsent_sends token input)
  | deleteAudio token => exact sends_map (deleteAudio_sends token)

/-- The rank of a table: references lead from participants to sessions and
users, and from any other table to these three. -/
def rank : Key → Nat
  | .user _ | .session _ => 0
  | .participant _ => 1
  | _ => 2

theorem ranks : Ranks Row rank := by
  intro r k hk
  cases r <;> simp only [refs, Row.refs, List.mem_cons, List.not_mem_nil, or_false] at hk
  all_goals first | exact hk.elim | (rcases hk with rfl | rfl | rfl <;> simp [rank, key, Row.key])

/-- A call keeps what every statement it may send keeps. -/
theorem serve_maintains {I : Db → Prop} {st : AppState} {x : Call} {sv : Sv Unit}
    (hI : ∀ q, Issues x.request q → q.Maintains I) (h : I sv.db) : I (serve st x sv).2.db := by
  refine serve_ends (Q := fun _ db _ => I db) |>.2 ?_
  exact Ends.sent hI (handle_sends st x.request) (fun hs => by cases hs) (.closed h rfl)

/-- What the table definitions promise, every call keeps. -/
theorem serve_intact {st : AppState} {x : Call} {sv : Sv Unit} (h : Intact sv.db) : Intact (serve st x sv).2.db :=
  serve_maintains (fun _ _ _ _ _ _ hdb hrun => hdb.run ranks hrun) h

end DataApi
