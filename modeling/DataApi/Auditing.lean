/-
What a handler leaves in the audit log. A request that answers leaves exactly
the audit rows its answer calls for (`Request.trail`), and where its changes and
their audit row share a transaction, nothing else is committed (`handle_trails`).
-/
import DataApi.Db.Writes
import DataApi.Lib.Trail
import DataApi.Speakers

namespace DataApi

open Relational ReadCommitted Resumption Handler

/-- What an audit row says was done, and to what. -/
structure AuditLog.Mark where
  resourceType : String
  resourceId : String
  action : String
  deriving DecidableEq

def AuditLog.Entry.mark (e : Entry) : Mark := ⟨e.resourceType, e.resourceId, e.action⟩

def auditMark : Write Row Key → Option AuditLog.Mark
  | .insert (.audit a) => some ⟨a.resourceType, a.resourceId, a.action⟩
  | _ => none

/-- The audit row in the transaction of a request: its resource type and its
action. The other requests write theirs through the pool, afterwards. -/
def Request.stamp : Request → Option (String × String)
  | .patchSession .. => some ("session", "patched")
  | .resume .. => some ("session", "resumed")
  | .deleteCascade .. => some ("session", "deleted")
  | .upload .. => some ("chunk", "uploaded")
  | .patchUser _ _ isAdmin => some ("user", if isAdmin then "admin_granted" else "admin_revoked")
  | .grant req => some ("admin", if req.isAdmin then "granted" else "revoked")
  | .wipeParticipantAudio .. => some ("participant_audio", "wiped")
  | .deleteAudio _ => some ("participant_audio", "wiped_via_token")
  | _ => none

/-- What a request leaves that answers `reply`. -/
def Request.Leaves (stored : Row → Prop) : Request → Reply → List AuditLog.Mark → Prop
  | .createSession .., .session s, ms => ms = [⟨"session", s.id.text, "created"⟩]
  | .patchSession _ id _, _, ms => ms = [⟨"session", id.text, "patched"⟩]
  | .resume _ id _, _, ms => ms = [⟨"session", id.text, "resumed"⟩]
  | .deleteCascade _ id, _, ms => ms = [⟨"session", id.text, "deleted"⟩]
  | .upload _ r, .uploaded u, ms =>
    ms = if u.deduplicated then [] else [⟨"chunk", s!"{r.sessionId.text}/{r.pseudoRaw}/{u.seq}", "uploaded"⟩]
  | .addOne .., .participant p, ms => ms = [⟨"participant", p.id.text, "added"⟩]
  | .addBatch _ sid _, _, ms => ms = [⟨"participant", sid.text, "batch_added"⟩]
  | .patchParticipantConsent _ id _, _, ms => ms = [⟨"participant", id.text, "consent_patched"⟩]
  | .patchLicense _ id _, _, ms => ms = [⟨"participant", id.text, "license_patched"⟩]
  | .upsertUser _ pid, _, ms => ms = [⟨"user", pid.raw, "upserted"⟩]
  | .postDisplay _ raw _, .displayName d, ms => ms = [⟨"display_name", s!"{raw}/{d.displayName}", "seen"⟩]
  | .patchUser _ raw isAdmin, _, ms => ms = [⟨"user", raw, if isAdmin then "admin_granted" else "admin_revoked"⟩]
  | .grant req, _, ms => ms = [⟨"admin", req.pseudoId.raw, if req.isAdmin then "granted" else "revoked"⟩]
  | .replaceMetadata _ id _, _, ms => ms = [⟨"metadata", id.text, "replaced"⟩]
  | .shallowPatch _ id _ _, _, ms => ms = [⟨"metadata", id.text, "merged"⟩]
  | .bulkCreate rt _ _ _, .bulk r, ms => ms = r.inserted.map fun u => ⟨rt.resourceType, u.id.text, "created"⟩
  | .patchRow rt _ id _ _, _, ms => ms = [⟨rt.resourceType, id.text, "patched"⟩]
  | .deleteRow rt _ id, _, ms => ms = [⟨rt.resourceType, id.text, "deleted"⟩]
  | .createMute .., .mute m, ms => ms = [⟨"mute_range", m.id.text, "created"⟩]
  | .deleteMute _ _ _ id, _, ms => ms = [⟨"mute_range", id.text, "deleted"⟩]
  | .wipeParticipantAudio _ sid raw, _, ms => ms = [⟨"participant_audio", s!"{sid.text}/{raw}", "wiped"⟩]
  | .createToken .., .token t _, ms => ms = [⟨"consent_token", t.text, "created"⟩]
  | .getConsent _, _, ms => ms = []
  | .patchConsent .., .participant p, ms => ms = [⟨"participant", p.id.text, "consent_patched_via_token"⟩]
  | .deleteAudio token, _, ms => ∃ sid raw, SpeaksFor stored token sid raw ∧
    ms = [⟨"participant_audio", s!"{sid.text}/{raw}", "wiped_via_token"⟩]
  | _, _, _ => False

/-- Where the audit row is in the transaction, the pool is for reading, and for
the flag of a participant that the request wipes. -/
def MaySend (stamp : Option (String × String)) (wipes : Uuid → String → Prop) : Via → Sql → Prop
  | .tx, _ => True
  | .pool, q => stamp = none ∨ (∃ p, q = .select p) ∨
      ∃ (sid : Uuid) (pid : PseudoId), wipes sid pid.raw ∧ q = Participants.markWipedSql sid pid

/-- The audit rows of a transaction. -/
def MayCommit (stamp : Option (String × String)) (ms : List AuditLog.Mark) : Prop :=
  ms.map (fun m => (m.resourceType, m.action)) = stamp.toList

section
variable {via : Via} {q : Sql} {τ : Type} {T : Table Row τ} {stamp : Option (String × String)} {wipes : Uuid → String → Prop}

theorem maySend_tx : MaySend stamp wipes .tx q := trivial

theorem maySend_any (h : stamp = none) : MaySend stamp wipes via q := by
  cases via with
  | tx => trivial
  | pool => exact .inl h

theorem maySend_select {p : Env → Row → Bool} : MaySend stamp wipes via (.select p) := by
  cases via with
  | tx => trivial
  | pool => exact .inr (.inl ⟨p, rfl⟩)

theorem maySend_markWiped {sid : Uuid} {pid : PseudoId} (h : wipes sid pid.raw) :
    MaySend stamp wipes .pool (Participants.markWipedSql sid pid) := .inr (.inr ⟨sid, pid, h, rfl⟩)

/-! ## The statements -/

/-- A statement that writes no audit row. -/
abbrev Plain (q : Sql) : Prop := ReadCommitted.Leaves auditMark q []

theorem plain_of (h : ∀ rows ws, Ran q rows ws → ∀ w ∈ ws, auditMark w = none) : Plain q :=
  fun rows ws hran => List.filterMap_eq_nil_iff.2 (h rows ws hran)

theorem plain_writes {D : TableName → Prop} (h : Writes D q) (hD : ¬D .audit) : Plain q := by
  refine plain_of fun rows ws ⟨env, snap, alive, cur, hrun⟩ w hw => ?_
  have hkey := h env snap alive cur rows ws hrun w hw
  unfold auditMark
  split
  · exact absurd hkey hD
  · rfl

theorem plain_select (p : Env → Row → Bool) : Plain (.select p) :=
  plain_writes (D := fun _ => False) (select_writesIn p) (fun h => h)

theorem plain_forUpdate (p : Row → Bool) : Plain (.forUpdate p) :=
  plain_writes (D := fun _ => False) (forUpdate_writesIn p) (fun h => h)

theorem plain_delete (p : τ → Bool) : Plain (T.delete p) := by
  refine plain_of fun rows ws ⟨env, snap, alive, cur, hrun⟩ w hw => ?_
  obtain ⟨-, rfl⟩ := delete_ok hrun
  obtain ⟨r, -, rfl⟩ := List.mem_map.1 hw
  rfl

theorem plain_update {p : τ → Bool} {set : Env → τ → τ} {hk : ∀ e, T.Keeps (set e)} : Plain (T.update p set hk) := by
  refine plain_of fun rows ws ⟨env, snap, alive, cur, hrun⟩ w hw => ?_
  obtain ⟨t, -, -, rfl, -⟩ := update_ok_write hrun hw
  rfl

theorem append_leaves (e : AuditLog.Entry) : ReadCommitted.Leaves auditMark (AuditLog.appendSql e) [e.mark] := by
  rintro rows ws ⟨env, snap, alive, cur, hrun⟩
  obtain ⟨t, ht, -, -, -, -, rfl⟩ := insert_ok hrun
  obtain rfl := Except.ok.inj ht
  rfl

end

/-! ## The rules -/

/-- The handler leaves `post` of what it returns, and commits what `stamp` says. -/
abbrev Trails (stamp : Option (String × String)) (wipes : Uuid → String → Prop) {β : Type}
    (post : β → List AuditLog.Mark → Prop) (s : Trail AuditLog.Mark) (p : Handler β) : Prop :=
  Prog.Follows (trailing auditMark (MaySend stamp wipes) (MayCommit stamp)) (fun t a => ∀ b, a = .ok b → post b t.left) s p.run

section
variable {α β τ : Type} {stamp : Option (String × String)} {wipes : Uuid → String → Prop}
  {post : β → List AuditLog.Mark → Prop} {s : Trail AuditLog.Mark} {via : Via} {q : Sql} {T : Table Row τ}

/-- Reading leaves nothing. -/
theorem reading_trails : Reading (trailing auditMark (MaySend stamp wipes) (MayCommit stamp))
    (fun t a => ∀ b : β, a = .ok b → post b t.left) s where
  may p := .inr (.inl ⟨p, rfl⟩)
  next p r t ht := by
    cases r with
    | error e => exact ht
    | ok rows =>
      obtain ⟨ws, hran, rfl⟩ := ht
      rw [plain_select p rows ws hran]
      simp [Trail.add]
  fails _ _ hb := by cases hb

theorem trails_pure {b : β} (h : post b s.left) : Trails stamp wipes post s (pure b : Handler β) :=
  fun _ hb => Except.ok.inj hb ▸ h

theorem trails_throw {e : AppError} : Trails stamp wipes post s (throw e : Handler β) := fun _ hb => by cases hb

theorem trails_send_marks {ms : List AuditLog.Mark} (hs : MaySend stamp wipes via q) (hq : ReadCommitted.Leaves auditMark q ms)
    {f : List Row → Handler β} (hf : ∀ rows ws, Ran q rows ws → Trails stamp wipes post (s.add ms via) (f rows)) :
    Trails stamp wipes post s (query via q >>= f) := by
  refine Handler.follows_query hs (fun _ _ _ _ hb => by cases hb) fun rows t ht => ?_
  obtain ⟨ws, hran, rfl⟩ : ∃ ws, Ran q rows ws ∧ t = s.add (ws.filterMap auditMark) via := ht
  rw [hq rows ws hran]
  exact hf rows ws hran

theorem trails_query (hs : MaySend stamp wipes via q) (hq : Plain q) {f : List Row → Handler β}
    (hf : ∀ rows ws, Ran q rows ws → Trails stamp wipes post s (f rows)) : Trails stamp wipes post s (query via q >>= f) := by
  refine trails_send_marks hs hq fun rows ws hran => ?_
  have hsame : s.add [] via = s := by cases via <;> simp [Trail.add]
  rw [hsame]
  exact hf rows ws hran

theorem trails_fetchAll (hs : MaySend stamp wipes via q) (hq : Plain q) {f : List τ → Handler β}
    (hf : ∀ rows, Trails stamp wipes post s (f (T.rows rows))) : Trails stamp wipes post s (fetchAll via T q >>= f) := by
  rw [fetchAll, bind_assoc]
  exact trails_query hs hq fun rows _ _ => hf rows

theorem trails_fetchOptional (hs : MaySend stamp wipes via q) (hq : Plain q) {f : Option τ → Handler β}
    (hnone : Trails stamp wipes post s (f none))
    (hsome : ∀ rows ws x, Ran q rows ws → T.put x ∈ rows → Trails stamp wipes post s (f (some x))) :
    Trails stamp wipes post s (fetchOptional via T q >>= f) := by
  rw [fetchOptional, bind_assoc]
  refine trails_query hs hq fun rows ws hran => ?_
  show Trails stamp wipes post s (f (T.rows rows).head?)
  cases hx : (T.rows rows).head? with
  | none => exact hnone
  | some x => exact hsome rows ws x hran (T.mem_rows.1 (List.mem_of_mem_head? hx))

theorem trails_fetchOne (hs : MaySend stamp wipes via q) (hq : Plain q) {f : τ → Handler β}
    (hf : ∀ rows ws x, Ran q rows ws → T.put x ∈ rows → Trails stamp wipes post s (f x)) :
    Trails stamp wipes post s (fetchOne via T q >>= f) := by
  rw [fetchOne, bind_assoc]
  refine trails_query hs hq fun rows ws hran => ?_
  cases hx : (T.rows rows).head? with
  | none => exact trails_throw
  | some x => exact hf rows ws x hran (T.mem_rows.1 (List.mem_of_mem_head? hx))

theorem trails_execute (hs : MaySend stamp wipes via q) (hq : Plain q) {f : Nat → Handler β}
    (hf : ∀ n, Trails stamp wipes post s (f n)) : Trails stamp wipes post s (execute via q >>= f) := by
  rw [execute, bind_assoc]
  exact trails_query hs hq fun rows _ _ => hf rows.length

/-- An audit row by itself. -/
theorem trails_append {e : AuditLog.Entry} (hk : stamp = none) {f : Unit → Handler β}
    (hf : Trails stamp wipes post { s with left := s.left ++ [e.mark] } (f ())) :
    Trails stamp wipes post s (AuditLog.append e >>= f) := by
  rw [AuditLog.append, execute]
  simp only [bind_assoc, pure_bind]
  exact trails_send_marks (maySend_any hk) (append_leaves e) fun _ _ _ => hf

theorem trails_appendTx {e : AuditLog.Entry} {f : Unit → Handler β}
    (hf : Trails stamp wipes post { s with opened := s.opened ++ [e.mark] } (f ())) :
    Trails stamp wipes post s (AuditLog.appendTx e >>= f) := by
  rw [AuditLog.appendTx, execute]
  simp only [bind_assoc, pure_bind]
  exact trails_send_marks maySend_tx (append_leaves e) fun _ _ _ => hf

theorem trails_begin {f : Unit → Handler β} (hf : Trails stamp wipes post { s with opened := [] } (f ())) :
    Trails stamp wipes post s (begin >>= f) := by
  refine Handler.follows_begin trivial (fun _ _ _ _ hb => by cases hb) fun t ht => ?_
  obtain rfl : t = { s with opened := [] } := ht
  exact hf

theorem trails_commit (hc : MayCommit stamp s.opened) {f : Unit → Handler β}
    (hf : Trails stamp wipes post { opened := [], left := s.left ++ s.opened } (f ())) :
    Trails stamp wipes post s (commit >>= f) := by
  refine Handler.follows_commit hc (fun _ _ _ _ hb => by cases hb) fun t ht => ?_
  obtain rfl : t = { opened := [], left := s.left ++ s.opened } := ht
  exact hf

theorem trails_rollback {f : Unit → Handler β} (hf : Trails stamp wipes post { s with opened := [] } (f ())) :
    Trails stamp wipes post s (rollback >>= f) := by
  refine Handler.follows_rollback trivial (fun _ _ _ _ hb => by cases hb) fun t ht => ?_
  obtain rfl : t = { s with opened := [] } := ht
  exact hf

theorem trails_outer {x : Io} {f : x.Ans → Handler β} (hf : ∀ r, Trails stamp wipes post s (f r)) :
    Trails stamp wipes post s (perform (.outer x) >>= f) := by
  refine Handler.follows_perform trivial fun r t ht => ?_
  obtain rfl : t = s := ht
  exact hf r

theorem trails_send {ev : Event} {f : Unit → Handler β} (hf : Trails stamp wipes post s (f ())) :
    Trails stamp wipes post s (send ev >>= f) := trails_outer fun _ => hf

theorem trails_ofResult {x : Except AppError α} {f : α → Handler β} (hf : ∀ a, x = .ok a → Trails stamp wipes post s (f a)) :
    Trails stamp wipes post s (ofResult x >>= f) := Handler.follows_ofResult (fun _ _ _ hb => by cases hb) hf

theorem trails_pseudoId {raw : String} {f : PseudoId → Handler β}
    (hf : ∀ pid, pid.raw = raw → Trails stamp wipes post s (f pid)) : Trails stamp wipes post s (Handler.pseudoId raw >>= f) := by
  exact trails_ofResult fun pid hpid => hf pid (PseudoId.new_raw (mapError_ok hpid))

theorem trails_refuseIf {b : Bool} {e : AppError} {f : Unit → Handler β} (hf : Trails stamp wipes post s (f ())) :
    Trails stamp wipes post s (refuseIf b e >>= f) := Handler.follows_refuseIf (fun _ _ hb => by cases hb) fun _ => hf

theorem trails_map {P : Protocol (@Answer Row Key Uniq Env Io World _ _) (Trail AuditLog.Mark)} {f : α → β} {p : Handler α}
    (h : p.run.Follows P (fun t a => ∀ b, a = .ok b → post (f b) t.left) s) :
    (f <$> p).run.Follows P (fun t a => ∀ b, a = .ok b → post b t.left) s := by
  refine Handler.follows_map (h.mono fun t r hp b hb => ?_)
  cases r with
  | error e => cases hb
  | ok a => exact Except.ok.inj hb ▸ hp a rfl

theorem trails_put {key : String} {body : Bytes} {ct : String} {f : Unit → Handler β} (hf : Trails stamp wipes post s (f ())) :
    Trails stamp wipes post s (put key body ct >>= f) := by
  rw [put, bind_assoc]
  exact trails_outer fun _ => trails_ofResult fun _ _ => hf

theorem trails_toBytes {body : Bytes} {limit : Nat} {f : Bytes → Handler β} (hf : ∀ bytes, Trails stamp wipes post s (f bytes)) :
    Trails stamp wipes post s (toBytes body limit >>= f) := by
  rw [toBytes, bind_assoc]
  refine trails_outer fun r => ?_
  cases r with
  | ok bytes => exact hf bytes
  | error e => exact trails_throw

theorem trails_sweep {keys : List String} {f : Unit → Handler β} (hf : Trails stamp wipes post s (f ())) :
    Trails stamp wipes post s (SessionRoutes.sweep keys >>= f) := by
  rw [SessionRoutes.sweep]
  split
  · exact hf
  · rw [bind_assoc]
    exact trails_outer fun _ => hf

theorem trails_getInTx {id : Uuid} {f : Session → Handler β} (hf : ∀ x, Trails stamp wipes post s (f x)) :
    Trails stamp wipes post s (Sessions.getInTx id >>= f) := by
  rw [Sessions.getInTx, bind_assoc]
  exact trails_fetchOptional maySend_tx (plain_forUpdate _) trails_throw fun _ _ x _ _ => hf x

theorem trails_guildId {id : Uuid} {f : Int → Handler β} (hf : ∀ g, Trails stamp wipes post s (f g)) :
    Trails stamp wipes post s (Sessions.guildIdForSession id >>= f) := by
  rw [Sessions.guildIdForSession, bind_assoc]
  exact trails_fetchOptional maySend_select (plain_select _) trails_throw fun _ _ x _ _ => hf x.guildId

theorem trails_stateChanged {id : Uuid} {g : Int} {old new : SessionStatus} {f : Unit → Handler β}
    (hf : Trails stamp wipes post s (f ())) : Trails stamp wipes post s (SessionRoutes.stateChanged id g old new >>= f) := by
  rw [SessionRoutes.stateChanged, bind_assoc]
  exact trails_outer fun _ => trails_outer fun _ => hf

end

/-! ## The handlers -/

/-- The handler of `req` leaves what `req` leaves that answers so. -/
abbrev Request.Audits (req : Request) (stored : Row → Prop) {β : Type} (answer : β → Reply) (p : Handler β) : Prop :=
  Trails req.stamp (req.Wipes stored) (fun b ms => req.Leaves stored (answer b) ms) {} p

/-- The same, of a handler that is told what its SELECTs answer. -/
abbrev Request.AuditsTold (req : Request) (stored : Row → Prop) {β : Type} (answer : β → Reply) (p : Handler β) : Prop :=
  Prog.Follows ((trailing auditMark (MaySend req.stamp (req.Wipes stored)) (MayCommit req.stamp)).told (Fetched stored))
    (fun s a => ∀ b, a = .ok b → req.Leaves stored (answer b) s.left) {} p.run

section
variable {β : Type} {stamp : Option (String × String)} {wipes : Uuid → String → Prop}
  {post : β → List AuditLog.Mark → Prop} {s : Trail AuditLog.Mark} {stored : Row → Prop}

/-- A statement with a row, through the pool, and the audit row after it. -/
theorem trails_logged {τ : Type} {T : Table Row τ} {q : Sql} {post : τ → List AuditLog.Mark → Prop} (hq : Plain q)
    {e : τ → AuditLog.Entry} (hf : ∀ rows ws x, Ran q rows ws → T.put x ∈ rows → post x [(e x).mark]) :
    Trails none wipes post {} (fetchOne .pool T q >>= fun x => AuditLog.append (e x) >>= fun _ => pure x) :=
  trails_fetchOne (maySend_any rfl) hq fun rows ws x hran hx => trails_append rfl (trails_pure (hf rows ws x hran hx))

/-! ### Sessions -/

theorem create_trails (svc : String) (input : Sessions.CreateSession) :
    (Request.createSession svc input).Audits stored .session (SessionRoutes.create svc input) := by
  rw [SessionRoutes.create, Sessions.create]
  refine trails_fetchOne (maySend_any rfl) (plain_writes (Sessions.createSql_writes input) (by simp)) ?_
  exact fun _ _ x _ _ => trails_append rfl (trails_outer fun _ => trails_pure rfl)

theorem patch_trails (svc : String) (id : Uuid) (body : SessionRoutes.PatchSession) :
    (Request.patchSession svc id body).Audits stored .session (SessionRoutes.patch svc id body) := by
  have rest : ∀ (y : Session) (change : Option (SessionStatus × SessionStatus)),
      (Request.patchSession svc id body).Audits stored .session (SessionRoutes.patchFields id body y >>= fun y =>
        AuditLog.appendTx (SessionRoutes.entry svc id "patched" (.obj
          [("status", .str y.status.asStr), ("ended_at", Json.optTime y.endedAt)])) >>= fun _ =>
        commit >>= fun _ => SessionRoutes.announceChange id y.guildId change >>= fun _ => pure y) := by
    intro y change
    have logged : ∀ y : Session, (Request.patchSession svc id body).Audits stored .session
        (AuditLog.appendTx (SessionRoutes.entry svc id "patched" (.obj
          [("status", .str y.status.asStr), ("ended_at", Json.optTime y.endedAt)])) >>= fun _ =>
        commit >>= fun _ => SessionRoutes.announceChange id y.guildId change >>= fun _ => pure y) := by
      intro y
      refine trails_appendTx (trails_commit (by rfl) ?_)
      cases change with
      | none => exact trails_pure rfl
      | some c =>
        rw [SessionRoutes.announceChange, bind_assoc]
        exact trails_stateChanged (trails_outer fun _ => trails_pure rfl)
    rw [SessionRoutes.patchFields]
    split
    · exact trails_fetchOne maySend_tx plain_update fun _ _ y _ _ => logged y
    · exact logged y
  rw [SessionRoutes.patch]
  refine trails_begin (trails_getInTx fun existing => ?_)
  cases body.status with
  | none => exact rest _ _
  | some new =>
    simp only [SessionRoutes.patchStatus, Sessions.updateStatus, bind_assoc, pure_bind]
    exact trails_refuseIf (trails_fetchOne maySend_tx plain_update fun _ _ y _ _ => rest _ _)

theorem resume_trails (st : AppState) (svc : String) (id : Uuid) (body : SessionRoutes.ResumeBody) :
    (Request.resume svc id body).Audits stored .session (SessionRoutes.resume st svc id body) := by
  rw [SessionRoutes.resume, Sessions.resumeFromAbandoned]
  refine trails_begin (trails_getInTx fun existing => trails_refuseIf (trails_outer fun now => trails_refuseIf ?_))
  refine trails_fetchOne maySend_tx plain_update fun _ _ y _ _ => trails_appendTx (trails_commit (by rfl) ?_)
  exact trails_stateChanged (trails_pure rfl)

theorem deleteCascade_trails (svc : String) (id : Uuid) :
    (Request.deleteCascade svc id).Audits stored .deleted (SessionRoutes.deleteCascade svc id) := by
  rw [SessionRoutes.deleteCascade]
  refine trails_begin (trails_getInTx fun existing => ?_)
  simp only [SessionRoutes.deleteChildren, Chunks.deleteForSession, Uniform.deleteAllForSession,
    MuteRanges.deleteForSession, bind_assoc, pure_bind]
  refine trails_fetchAll maySend_tx (plain_delete _) fun _ => ?_
  refine trails_execute maySend_tx (plain_delete _) fun _ => ?_
  refine trails_execute maySend_tx (plain_delete _) fun _ => ?_
  refine trails_execute maySend_tx (plain_delete _) fun _ => ?_
  refine trails_execute maySend_tx (plain_delete _) fun _ => ?_
  refine trails_execute maySend_tx (plain_delete _) fun _ => ?_
  refine trails_execute maySend_tx (plain_delete _) fun _ => ?_
  rw [Sessions.updateStatus]
  refine trails_fetchOne maySend_tx plain_update fun _ _ y _ _ => trails_appendTx (trails_commit (by rfl) (trails_sweep ?_))
  exact trails_stateChanged (trails_pure rfl)

/-! ### Chunks -/

theorem upload_trails (st : AppState) (svc : String) (r : ChunkRoutes.UploadRequest) :
    (Request.upload svc r).Audits stored .uploaded (ChunkRoutes.upload st svc r) := by
  obtain ⟨sid, raw, headers, body⟩ := r
  rw [ChunkRoutes.upload]
  refine trails_ofResult fun pid hpid => trails_ofResult fun h _ => trails_begin ?_
  obtain rfl : pid.raw = raw := PseudoId.newOrMixed_raw (mapError_ok hpid)
  rw [Chunks.lookupByClientId]
  refine trails_fetchOptional maySend_select (plain_select _) ?_ fun _ _ x _ _ => trails_rollback (trails_pure rfl)
  rw [ChunkRoutes.store, ChunkRoutes.readBody]
  simp only [Chunks.insert, bind_assoc, pure_bind]
  refine trails_getInTx fun session => trails_toBytes fun bytes => trails_refuseIf ?_
  refine trails_fetchOne maySend_tx (plain_writes (Chunks.insertSql_writes _) (by simp)) fun _ _ row _ _ => ?_
  refine trails_put (trails_outer fun _ => trails_execute maySend_tx plain_update fun _ => ?_)
  exact trails_appendTx (trails_commit (by rfl) (trails_outer fun _ => trails_outer fun _ => trails_pure rfl))

/-! ### Participants and users -/

theorem addOne_trails (svc : String) (sid : Uuid) (input : Participants.AddParticipant) :
    (Request.addOne svc sid input).Audits stored .participant (ParticipantRoutes.addOne svc sid input) := by
  rw [ParticipantRoutes.addOne, Participants.add]
  exact trails_logged (plain_writes (Participants.addSql_writes sid input) (by simp)) fun _ _ _ _ _ => rfl

theorem addBatch_trails (svc : String) (sid : Uuid) (ps : List Participants.AddParticipant) :
    (Request.addBatch svc sid ps).Audits stored .participants (ParticipantRoutes.addBatch svc sid ps) := by
  rw [ParticipantRoutes.addBatch, Participants.addMany]
  split
  · exact trails_append rfl (trails_pure rfl)
  · simp only [bind_assoc, pure_bind]
    refine trails_begin (trails_execute maySend_tx (plain_writes (Participants.seedUsersSql_writes ps) (by simp)) ?_)
    intro _
    refine trails_fetchAll maySend_tx (plain_writes (Participants.addManySql_writes sid ps) (by simp)) fun _ => ?_
    exact trails_commit (by rfl) (trails_append rfl (trails_pure rfl))

/-- The UPDATE of one participant. -/
theorem trails_found {id : Uuid} {q : Sql} (hs : MaySend stamp wipes .pool q) (hq : Plain q) {f : Participant → Handler β}
    (h : ∀ rows ws p, Ran q rows ws → participantsT.put p ∈ rows → Trails stamp wipes post s (f p)) :
    Trails stamp wipes post s (Participants.found id q >>= f) := by
  rw [Participants.found, bind_assoc]
  exact trails_fetchOptional hs hq trails_throw h

theorem patchParticipantConsent_trails (svc : String) (id : Uuid) (input : Participants.UpdateConsent) :
    (Request.patchParticipantConsent svc id input).Audits stored .participant
      (ParticipantRoutes.patchConsent svc id input) := by
  rw [ParticipantRoutes.patchConsent, Participants.updateConsent, bind_assoc]
  exact trails_refuseIf (trails_found (maySend_any rfl) plain_update fun _ _ _ _ _ =>
    trails_append rfl (trails_pure rfl))

theorem patchLicense_trails (svc : String) (id : Uuid) (input : Participants.UpdateLicense) :
    (Request.patchLicense svc id input).Audits stored .participant (ParticipantRoutes.patchLicense svc id input) := by
  rw [ParticipantRoutes.patchLicense, Participants.updateLicense]
  exact trails_found (maySend_any rfl) plain_update fun _ _ _ _ _ => trails_append rfl (trails_pure rfl)

theorem upsertUser_trails (svc : String) (pid : PseudoId) :
    (Request.upsertUser svc pid).Audits stored .user (UserRoutes.upsertUser svc pid) := by
  rw [UserRoutes.upsertUser, Users.upsert]
  exact trails_logged (plain_writes (Users.upsertSql_writes pid) (by simp)) fun _ _ _ _ _ => rfl

theorem postDisplay_trails (svc raw : String) (input : DisplayNames.UpsertDisplayName) :
    (Request.postDisplay svc raw input).Audits stored .displayName (UserRoutes.postDisplay svc raw input) := by
  rw [UserRoutes.postDisplay]
  refine trails_pseudoId fun pid hpid => ?_
  subst hpid
  rw [Users.upsert]
  refine trails_fetchOne (maySend_any rfl) (plain_writes (Users.upsertSql_writes pid) (by simp)) fun _ _ _ _ _ => ?_
  rw [DisplayNames.upsert, bind_assoc]
  refine trails_refuseIf (trails_logged (plain_writes (DisplayNames.upsertSql_writes pid input) (by simp)) ?_)
  exact fun _ _ _ _ _ => rfl

theorem patchUser_trails (svc raw : String) (isAdmin : Bool) :
    (Request.patchUser svc raw isAdmin).Audits stored .user (UserRoutes.patchUser svc raw isAdmin) := by
  rw [UserRoutes.patchUser]
  refine trails_pseudoId fun pid hpid => trails_begin ?_
  subst hpid
  rw [Users.setAdmin]
  refine trails_fetchOne maySend_tx (plain_writes (Users.setAdminSql_writes pid isAdmin) (by simp)) ?_
  exact fun _ _ _ _ _ => trails_appendTx (trails_commit (by rfl) (trails_pure rfl))

theorem grant_trails (st : AppState) (req : UserRoutes.GrantRequest) :
    (Request.grant req).Audits stored .user (UserRoutes.grant st req) := by
  rw [UserRoutes.grant, Users.setAdmin]
  refine trails_refuseIf (trails_begin ?_)
  refine trails_fetchOne maySend_tx (plain_writes (Users.setAdminSql_writes _ _) (by simp)) ?_
  exact fun _ _ _ _ _ => trails_appendTx (trails_commit (by rfl) (trails_pure rfl))

/-! ### Metadata -/

theorem replaceMetadata_trails (svc : String) (id : Uuid) (body : Json) :
    (Request.replaceMetadata svc id body).Audits stored .metadata (MetadataRoutes.replace svc id body) := by
  rw [MetadataRoutes.replace, Metadata.replace, bind_assoc]
  refine trails_outer fun etag => trails_logged (plain_writes (Metadata.upsertSql_writes id body etag) (by simp)) ?_
  exact fun _ _ _ _ _ => rfl

theorem shallowPatch_trails (svc : String) (id : Uuid) (headers : HeaderMap) (body : Json) :
    (Request.shallowPatch svc id headers body).Audits stored .metadata
      (MetadataRoutes.shallowPatch svc id headers body) := by
  rw [MetadataRoutes.shallowPatch, Metadata.shallowMerge]
  simp only [bind_assoc, pure_bind]
  have merge : ∀ x : Json × ETag, (Request.shallowPatch svc id headers body).Audits stored .metadata
      (refuseIf ((ifMatch headers).any (· ≠ x.2)) (.preconditionFailed x.2) >>= fun _ =>
      ofResult (Metadata.mergeShallow x.1 body) >>= fun merged => newEtag >>= fun etag =>
      fetchOne .tx metadataT (Metadata.upsertSql id merged etag) >>= fun row => commit >>= fun _ =>
      AuditLog.append (MetadataRoutes.entry svc id "merged" row.etag) >>= fun _ => pure row) := by
    intro x
    refine trails_refuseIf (trails_ofResult fun merged _ => trails_outer fun etag => ?_)
    refine trails_fetchOne maySend_tx (plain_writes (Metadata.upsertSql_writes id merged etag) (by simp)) ?_
    exact fun _ _ _ _ _ => trails_commit (by rfl) (trails_append rfl (trails_pure rfl))
  refine trails_begin (trails_fetchOptional maySend_tx (plain_forUpdate _) ?_ fun _ _ row _ _ => ?_)
  · rw [Metadata.current, bind_assoc]
    exact trails_outer fun etag => merge _
  · exact merge (row.blob, row.etag)

/-! ### Segments, beats and scenes -/

theorem trails_insertRows {rt : ResourceTable} {sid : Uuid} {svc : String} {inputs : List Uniform.CreateInput} :
    ∀ {f : List Uniform.UniformRow → Handler β}, (∀ us, Trails stamp wipes post s (f us)) →
      Trails stamp wipes post s (Uniform.insertRows rt sid svc inputs >>= f) := by
  induction inputs with
  | nil => exact fun h => h []
  | cons inp rest ih =>
    intro f h
    simp only [Uniform.insertRows, Uniform.insertRowInTx, bind_assoc, pure_bind]
    refine trails_outer fun etag => trails_fetchOne maySend_tx ?_ fun _ _ r _ _ => trails_ofResult fun u _ => ih fun us => ?_
    · exact plain_writes (D := (· = .uniform rt)) (tableInsert_writesIn (fun _ => rfl) _) (by simp)
    · exact h (u :: us)

/-- The audit row of a new row. -/
def createdMark (rt : ResourceTable) (u : Uniform.UniformRow) : AuditLog.Mark := ⟨rt.resourceType, u.id.text, "created"⟩

/-- The loop of `announce`: an audit row for each. -/
theorem trails_announce {rt : ResourceTable} {svc : String} {sid : Uuid} {g : Int} {us : List Uniform.UniformRow} :
    ∀ {s : Trail AuditLog.Mark} {f : Unit → Handler β},
      Trails none wipes post { s with left := s.left ++ us.map (createdMark rt) } (f ()) →
      Trails none wipes post s (UniformRoutes.announce rt svc sid g us >>= f) := by
  induction us with
  | nil =>
    intro s f h
    simpa [UniformRoutes.announce] using h
  | cons u rest ih =>
    intro s f h
    simp only [UniformRoutes.announce, bind_assoc]
    refine trails_append rfl (trails_outer fun _ => trails_outer fun _ => ih ?_)
    simpa [createdMark, AuditLog.Entry.mark, UniformRoutes.entry] using h

theorem bulkCreate_trails (rt : ResourceTable) (svc : String) (sid : Uuid) (req : UniformRoutes.BulkRequest) :
    (Request.bulkCreate rt svc sid req).Audits stored .bulk (UniformRoutes.bulkCreate rt svc sid req) := by
  rw [UniformRoutes.bulkCreate]
  refine trails_guildId fun g => ?_
  rw [Uniform.bulkInsert]
  split
  · simp only [pure_bind]
    exact trails_announce (trails_pure rfl)
  · simp only [bind_assoc, pure_bind]
    refine trails_ofResult fun _ _ => trails_begin (trails_fetchAll maySend_tx (plain_select _) fun _ => ?_)
    exact trails_insertRows fun us => trails_commit (by rfl) (trails_announce (trails_pure rfl))

theorem trails_rowFound {rt : ResourceTable} {id : Uuid} {via : Via} {q : Sql} (hs : MaySend stamp wipes via q) (hq : Plain q)
    {f : UniformPgRow → Handler β} (h : ∀ r, Trails stamp wipes post s (f r)) :
    Trails stamp wipes post s (Uniform.found via rt id q >>= f) := by
  rw [Uniform.found, bind_assoc]
  exact trails_fetchOptional hs hq trails_throw fun _ _ r _ _ => h r

theorem patchRow_trails (rt : ResourceTable) (svc : String) (id : Uuid) (headers : HeaderMap) (body : Uniform.PatchInput) :
    (Request.patchRow rt svc id headers body).Audits stored .row (UniformRoutes.patchRow rt svc id headers body) := by
  rw [UniformRoutes.patchRow, Uniform.patch]
  simp only [bind_assoc, pure_bind]
  refine trails_begin (trails_rowFound maySend_tx (plain_forUpdate _) fun existing => trails_ofResult fun row _ => ?_)
  refine trails_refuseIf (trails_outer fun etag => trails_fetchOne maySend_tx plain_update fun _ _ r _ _ => ?_)
  refine trails_ofResult fun u _ => trails_commit (by rfl) (trails_append rfl (trails_guildId fun g => ?_))
  exact trails_outer fun _ => trails_outer fun _ => trails_pure rfl

theorem deleteRow_trails (rt : ResourceTable) (svc : String) (id : Uuid) :
    (Request.deleteRow rt svc id).Audits stored (fun _ => .noContent) (UniformRoutes.deleteRow rt svc id) := by
  rw [UniformRoutes.deleteRow, Uniform.delete]
  simp only [bind_assoc]
  refine trails_rowFound (maySend_any rfl) (plain_delete _) fun r => trails_ofResult fun u _ => trails_append rfl ?_
  refine trails_guildId fun g => trails_outer fun _ => ?_
  rw [← bind_pure (send _)]
  exact trails_send (trails_pure rfl)

/-! ### Mute ranges -/

theorem createMute_trails (svc : String) (sid : Uuid) (raw : String) (input : MuteRanges.CreateMuteRange) :
    (Request.createMute svc sid raw input).Audits stored .mute (MuteRoutes.createMute svc sid raw input) := by
  rw [MuteRoutes.createMute]
  refine trails_pseudoId fun pid _ => ?_
  rw [MuteRanges.create, bind_assoc]
  have hplain : Plain (MuteRanges.createSql sid pid input) := plain_writes (MuteRanges.createSql_writes sid pid input) (by simp)
  refine trails_refuseIf (trails_fetchOne (maySend_any rfl) hplain ?_)
  refine fun _ _ m _ _ => trails_append rfl (trails_guildId fun g => ?_)
  exact trails_outer fun _ => trails_outer fun _ => trails_pure rfl

theorem deleteMute_trails (svc : String) (sid : Uuid) (raw : String) (id : Uuid) :
    (Request.deleteMute svc sid raw id).Audits stored (fun _ => .noContent)
      (MuteRoutes.deleteMute svc sid raw id) := by
  rw [MuteRoutes.deleteMute]
  refine trails_pseudoId fun pid _ => ?_
  rw [MuteRanges.deleteOne, bind_assoc]
  refine trails_fetchOptional (maySend_any rfl) (plain_delete _) trails_throw fun _ _ m _ _ => trails_append rfl ?_
  refine trails_guildId fun g => trails_outer fun _ => ?_
  rw [← bind_pure (send _)]
  exact trails_send (trails_pure rfl)

/-! ### The wipe and the consent tokens -/

theorem trails_deleteAudioRows {sid : Uuid} {pid : PseudoId} {f : List String × Nat × Nat → Handler β}
    (h : ∀ x, Trails stamp wipes post s (f x)) : Trails stamp wipes post s (MuteRoutes.deleteAudioRows sid pid >>= f) := by
  rw [MuteRoutes.deleteAudioRows, Chunks.deleteForParticipant, Uniform.deleteForParticipantSegments,
    MuteRanges.deleteForParticipant]
  simp only [bind_assoc, pure_bind]
  refine trails_fetchAll maySend_tx (plain_delete _) fun _ => ?_
  refine trails_execute maySend_tx (plain_delete _) fun _ => ?_
  exact trails_execute maySend_tx (plain_delete _) fun _ => h _

theorem trails_markWiped {sid : Uuid} {pid : PseudoId} (hwipes : wipes sid pid.raw) {f : Unit → Handler β}
    (h : Trails stamp wipes post s (f ())) : Trails stamp wipes post s (Participants.markWiped sid pid >>= f) := by
  rw [Participants.markWiped, bind_assoc]
  exact trails_execute (maySend_markWiped hwipes) plain_update fun _ => h

theorem wipeParticipantAudio_trails (svc : String) (sid : Uuid) (raw : String) :
    (Request.wipeParticipantAudio svc sid raw).Audits stored .wiped (MuteRoutes.wipeParticipantAudio svc sid raw) := by
  rw [MuteRoutes.wipeParticipantAudio]
  refine trails_pseudoId fun pid hpid => trails_begin (trails_deleteAudioRows fun x => ?_)
  subst hpid
  refine trails_appendTx (trails_commit (by rfl) (trails_markWiped ⟨rfl, rfl⟩ (trails_sweep (trails_guildId fun g => ?_))))
  exact trails_outer fun _ => trails_outer fun _ => trails_pure rfl

theorem trails_validated {token : Uuid} {f : ConsentTokens.WithContext → Handler β} (h : ∀ ctx, Trails stamp wipes post s (f ctx)) :
    Trails stamp wipes post s (ConsentRoutes.validated token >>= f) := by
  rw [ConsentRoutes.validated, ConsentTokens.validate]
  simp only [bind_assoc]
  refine trails_fetchOptional maySend_select (plain_select _) trails_throw fun _ _ ct _ _ => ?_
  simp only [bind_assoc, pure_bind]
  refine trails_fetchOne maySend_select (plain_select _) fun _ _ x _ _ => ?_
  exact trails_fetchOne maySend_select (plain_select _) fun _ _ p _ _ => h _

theorem createToken_trails (svc : String) (input : ConsentRoutes.CreateTokenRequest) :
    (Request.createToken svc input).Audits stored (fun t => .token t.1 t.2)
      (ConsentRoutes.createToken svc input) := by
  rw [ConsentRoutes.createToken, ConsentTokens.create]
  refine trails_fetchOne (maySend_any rfl) ?_ ?_
  · exact plain_writes (D := (· = .consentTokens)) (tableInsert_writesIn (fun _ => rfl) _) (by simp)
  exact fun _ _ _ _ _ => trails_append rfl (trails_pure rfl)

theorem getConsent_trails (token : Uuid) :
    (Request.getConsent token).Audits stored .consent (ConsentRoutes.getConsent token) := by
  rw [ConsentRoutes.getConsent, ← bind_pure (ConsentRoutes.validated token)]
  exact trails_validated fun _ => trails_pure rfl

/-- The participant an UPDATE returns. -/
theorem updated_participant {id : Uuid} {set : Env → Participant → Participant} {hk : ∀ e, participantsT.Keeps (set e)}
    {rows : Db} {ws : List (Write Row Key)} {p : Participant}
    (hran : Ran (participantsT.update (Participants.byId id) set hk) rows ws) (hp : participantsT.put p ∈ rows)
    (hset : ∀ e p, (set e p).id = p.id) : p.id = id := by
  obtain ⟨env, snap, alive, cur, hrun⟩ := hran
  obtain ⟨hrows, -, -⟩ := update_ok hrun
  rw [hrows] at hp
  obtain ⟨t, ht, heq⟩ := List.mem_map.1 hp
  obtain ⟨t', hput, -, hid, -⟩ := (mem_hits participantsT).1 (participantsT.mem_rows.1 ht)
  obtain rfl := participantsT.put_inj hput
  obtain rfl := participantsT.put_inj heq
  rw [hset]
  simpa [Participants.byId] using hid

theorem patchConsent_trails (token : Uuid) (input : ConsentRoutes.PatchConsent) :
    (Request.patchConsent token input).Audits stored .participant (ConsentRoutes.patchConsent token input) := by
  rw [ConsentRoutes.patchConsent]
  refine trails_validated fun ctx => ?_
  have finish : ∀ p : Participant, p.id = ctx.participant.id → (Request.patchConsent token input).Audits stored .participant
      (AuditLog.append (ConsentRoutes.patchedEntry ctx.session.id ctx.participant.id p input) >>= fun _ => pure p) := by
    intro p hp
    rw [← hp]
    exact trails_append rfl (trails_pure rfl)
  have flags : ∀ p : Participant, p.id = ctx.participant.id → (Request.patchConsent token input).Audits stored .participant
      (ConsentRoutes.patchFlags ctx.participant.id p input >>= fun p =>
        AuditLog.append (ConsentRoutes.patchedEntry ctx.session.id ctx.participant.id p input) >>= fun _ => pure p) := by
    intro p hp
    rw [ConsentRoutes.patchFlags]
    split
    · refine trails_found (maySend_any rfl) plain_update fun _ _ p' hran hp' => finish p' ?_
      exact updated_participant hran hp' fun _ _ => rfl
    · exact finish p hp
  rw [ConsentRoutes.patchScope.eq_def]
  cases input.consentScope with
  | none => exact flags _ rfl
  | some scope =>
    simp only [Participants.updateConsent, bind_assoc]
    refine trails_refuseIf (trails_found (maySend_any rfl) plain_update fun _ _ p' hran hp' => flags p' ?_)
    exact updated_participant hran hp' fun _ _ => rfl

theorem deleteAudio_trails (token : Uuid) :
    (Request.deleteAudio token).AuditsTold stored (fun _ => .noContent) (ConsentRoutes.deleteAudio token) := by
  rw [ConsentRoutes.deleteAudio]
  refine follows_validated reading_trails fun ctx hctx => Prog.Follows.told ?_
  refine trails_begin (trails_deleteAudioRows fun x => trails_appendTx (trails_commit (by rfl) ?_))
  refine trails_markWiped hctx (trails_sweep ?_)
  rw [ConsentRoutes.guildId, bind_assoc]
  refine trails_fetchOne maySend_select (plain_select _) fun _ _ _ _ _ => trails_outer fun _ => ?_
  rw [← bind_pure (send _)]
  exact trails_send (trails_pure ⟨_, _, hctx, rfl⟩)

/-- Every handler. -/
theorem handle_trails (st : AppState) (req : Request) : req.AuditsTold stored id (handle st req) := by
  cases req with
  | createSession svc input => exact (trails_map (create_trails svc input)).told
  | patchSession svc id body => exact (trails_map (patch_trails svc id body)).told
  | resume svc id body => exact (trails_map (resume_trails st svc id body)).told
  | deleteCascade svc id => exact (trails_map (deleteCascade_trails svc id)).told
  | upload svc r => exact (trails_map (upload_trails st svc r)).told
  | addOne svc sid input => exact (trails_map (addOne_trails svc sid input)).told
  | addBatch svc sid ps => exact (trails_map (addBatch_trails svc sid ps)).told
  | patchParticipantConsent svc id input => exact (trails_map (patchParticipantConsent_trails svc id input)).told
  | patchLicense svc id input => exact (trails_map (patchLicense_trails svc id input)).told
  | upsertUser svc pid => exact (trails_map (upsertUser_trails svc pid)).told
  | postDisplay svc raw input => exact (trails_map (postDisplay_trails svc raw input)).told
  | patchUser svc raw isAdmin => exact (trails_map (patchUser_trails svc raw isAdmin)).told
  | grant req => exact (trails_map (grant_trails st req)).told
  | replaceMetadata svc id body => exact (trails_map (replaceMetadata_trails svc id body)).told
  | shallowPatch svc id headers body => exact (trails_map (shallowPatch_trails svc id headers body)).told
  | bulkCreate rt svc sid body => exact (trails_map (bulkCreate_trails rt svc sid body)).told
  | patchRow rt svc id headers body => exact (trails_map (patchRow_trails rt svc id headers body)).told
  | deleteRow rt svc id => exact (trails_map (deleteRow_trails rt svc id)).told
  | createMute svc sid raw input => exact (trails_map (createMute_trails svc sid raw input)).told
  | deleteMute svc sid raw id => exact (trails_map (deleteMute_trails svc sid raw id)).told
  | wipeParticipantAudio svc sid raw => exact (trails_map (wipeParticipantAudio_trails svc sid raw)).told
  | createToken svc input => exact (trails_map (createToken_trails svc input)).told
  | getConsent token => exact (trails_map (getConsent_trails token)).told
  | patchConsent token input => exact (trails_map (patchConsent_trails token input)).told
  | deleteAudio token => exact trails_map (deleteAudio_trails token)

end
end DataApi
