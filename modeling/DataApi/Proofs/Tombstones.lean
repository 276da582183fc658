/-
A deleted session is meant to be a tombstone: no row lies under it, and the
date of its deletion stays. The cascade clears the rows under a session, but
a PATCH sets the same status alone, no request that writes under a session
asks for its status, and a second cascade dates the session anew. Where no
request of a run does one of these, every deleted session is a tombstone.
-/
import DataApi.Db.Writes
import DataApi.Footprint
import DataApi.Proofs.Sweeps

namespace DataApi.Tombstones

open Relational ReadCommitted Resumption Handler

/-- No row lies under the session. -/
def Childless (id : Uuid) (db : Db) : Prop := ∀ r ∈ db, childOf r ≠ some id

/-- The session is deleted. -/
def Gone (id : Uuid) (db : Db) : Prop := ∃ s ∈ sessionsT.rows db, s.id = id ∧ s.status = .deleted

/-- No row lies under a deleted session, and a date of deletion is that of a
deleted session. -/
structure Tombs (db : Db) : Prop where
  childless : ∀ id, Gone id db → Childless id db
  dated : ∀ s ∈ sessionsT.rows db, s.deletedAt.isSome = true → s.status = .deleted

/-- A request writes under no deleted session, sets the status of a session
with rows under it only by the cascade, and deletes no session twice. -/
structure Spares (req : Request) (db : Db) : Prop where
  children : ∀ id, under req = some id → ¬Gone id db
  patched : ∀ svc id body, req = .patchSession svc id body → body.status = some .deleted → Gone id db ∨ Childless id db
  cascade : ∀ svc id, req = .deleteCascade svc id → ¬Gone id db

/-! ## The rows under a session -/

section
variable {db db' : Db} {req : Request} {q : Sql} {id : Uuid}

/-- The columns that no UPDATE sets say under which session a row lies. -/
theorem childOf_eq {r x : Row} (hkey : (key r : Key) = key x) (hrefs : (refs r : List Key) = refs x) : childOf r = childOf x := by
  cases r <;> cases x <;> simp [key, Row.key, refs, Row.refs] at hkey hrefs <;> simp [childOf, hkey, hrefs]

/-- Rows come under the request's own session only. -/
theorem childless_maintained (hq : Issues req q) (hid : under req ≠ some id) :
    q.Maintains fun db => Intact db ∧ Childless id db := by
  rintro env db rows ws ⟨hdb, h⟩ hrun
  refine ⟨hdb.run ranks hrun, fun r hr hchild => ?_⟩
  obtain ⟨x, hx | hx, hkey, -, hrefs⟩ := origin hdb.keys hrun hr
  · exact h x hx (childOf_eq hkey hrefs ▸ hchild)
  · exact hid ((hq.entered hrun hx).child id (childOf_eq hkey hrefs ▸ hchild))

theorem serve_childless {st : AppState} {x : Call} {sv : Sv Unit} (hdb : Intact sv.db) (h : Childless id sv.db)
    (hid : under x.request ≠ some id) : Childless id (serve st x sv).2.db :=
  (serve_maintains (fun _ hq => childless_maintained hq hid) ⟨hdb, h⟩).2

end

/-! ## The session rows -/

/-- The session whose status the request sets to `deleted`. -/
def buries : Request → Option Uuid
  | .patchSession _ id body => if body.status = some .deleted then some id else none
  | .deleteCascade _ id => some id
  | _ => none

/-- The session whose status the request sets to another. -/
def revives : Request → Option Uuid
  | .patchSession _ id body => if body.status.any (· ≠ .deleted) then some id else none
  | .resume _ id _ => some id
  | _ => none

/-- What becomes of a session row: it is as deleted as it was, or the request
deletes it. -/
def Turned (req : Request) (s s' : Session) : Prop :=
  s'.id = s.id ∧ ((s'.status = .deleted ↔ s.status = .deleted) ∧ s'.deletedAt = s.deletedAt ∨
    buries req = some s.id ∧ s'.status = .deleted)

/-- A new row. -/
def Fresh (req : Request) (s : Session) : Prop := s.status ≠ .deleted ∧ s.deletedAt = none ∧ buries req ≠ some s.id

/-- What becomes of the session rows of `db`. -/
structure Held (req : Request) (db db' : Db) : Prop where
  kept : ∀ s ∈ sessionsT.rows db, ∃ s' ∈ sessionsT.rows db', Turned req s s'
  came : ∀ s' ∈ sessionsT.rows db', (∃ s ∈ sessionsT.rows db, Turned req s s') ∨ Fresh req s'

section
variable {db₀ db : Db} {req : Request} {q : Sql} {id : Uuid}

theorem Turned.refl (s : Session) : Turned req s s := ⟨rfl, .inl ⟨Iff.rfl, rfl⟩⟩

theorem Held.refl (db : Db) : Held req db db where
  kept s hs := ⟨s, hs, .refl s⟩
  came s hs := .inl ⟨s, hs, .refl s⟩

/-- A statement on other tables. -/
theorem Held.same {db' : Db} (h : Held req db₀ db) (hrows : sessionsT.rows db' = sessionsT.rows db) : Held req db₀ db' := by
  refine ⟨?_, ?_⟩
  · rw [hrows]
    exact h.kept
  · rw [hrows]
    exact h.came

/-- An UPDATE of one session. -/
theorem Held.update {db' : Db} {set : Session → Session} (h : Held req db₀ db)
    (hrows : sessionsT.rows db' = (sessionsT.rows db).map fun s => if Sessions.byId id s then set s else s)
    (hold : ∀ s ∈ sessionsT.rows db₀, ∀ s', s'.id = id → Turned req s s' → Turned req s (set s'))
    (hnew : ∀ s', s'.id = id → Fresh req s' → Fresh req (set s')) : Held req db₀ db' := by
  have hid : ∀ s, Sessions.byId id s = true → s.id = id := fun s hs => by simpa [Sessions.byId] using hs
  have hturned : ∀ s ∈ sessionsT.rows db₀, ∀ s', Turned req s s' → Turned req s (if Sessions.byId id s' then set s' else s') := by
    intro s hs s' hturn
    split
    · next hp => exact hold s hs s' (hid s' hp) hturn
    · exact hturn
  refine ⟨fun s hs => ?_, fun s' hs' => ?_⟩
  · obtain ⟨s', hs', hturn⟩ := h.kept s hs
    refine ⟨_, ?_, hturned s hs s' hturn⟩
    rw [hrows]
    exact List.mem_map_of_mem hs'
  · rw [hrows] at hs'
    obtain ⟨y, hy, rfl⟩ := List.mem_map.1 hs'
    rcases h.came y hy with ⟨s, hs, hturn⟩ | hfresh
    · exact .inl ⟨s, hs, hturned s hs y hturn⟩
    · refine .inr ?_
      split
      · next hp => exact hnew y (hid y hp) hfresh
      · exact hfresh

/-- A new status for a session that is not deleted. -/
theorem Held.revived {db' : Db} {set : Session → Session} (h : Held req db₀ db) (hdb₀ : ¬Gone id db₀) (hno : buries req = none)
    (hrows : sessionsT.rows db' = (sessionsT.rows db).map fun s => if Sessions.byId id s then set s else s)
    (hset : ∀ s, (set s).id = s.id ∧ (set s).status ≠ .deleted ∧ (set s).deletedAt = s.deletedAt) : Held req db₀ db' := by
  refine h.update hrows (fun s hs s' hid hturn => ?_) fun s' _ hfresh => ?_
  · obtain ⟨hsid, ⟨-, hdate⟩ | ⟨hbury, -⟩⟩ := hturn
    · obtain ⟨hset_id, hlive, hset_date⟩ := hset s'
      have hs_live : s.status ≠ .deleted := fun hdel => hdb₀ ⟨s, hs, hsid.symm.trans hid, hdel⟩
      exact ⟨hset_id.trans hsid, .inl ⟨iff_of_false hlive hs_live, hset_date.trans hdate⟩⟩
    · rw [hno] at hbury
      cases hbury
  · obtain ⟨hset_id, hlive, hset_date⟩ := hset s'
    obtain ⟨-, hdate, -⟩ := hfresh
    exact ⟨hlive, hset_date.trans hdate, by simp [hno]⟩

/-- The status that a request sets to `deleted`. -/
theorem Held.buried {db' : Db} {set : Session → Session} (h : Held req db₀ db) (hbury : buries req = some id)
    (hrows : sessionsT.rows db' = (sessionsT.rows db).map fun s => if Sessions.byId id s then set s else s)
    (hset : ∀ s, (set s).id = s.id ∧ (set s).status = .deleted) : Held req db₀ db' := by
  refine h.update hrows (fun s hs s' hid hturn => ?_) fun s' hid hfresh => ?_
  · obtain ⟨hset_id, hdel⟩ := hset s'
    refine ⟨hset_id.trans hturn.1, .inr ⟨?_, hdel⟩⟩
    rw [hbury, ← hid, hturn.1]
  · obtain ⟨-, -, hno⟩ := hfresh
    rw [hid] at hno
    exact absurd hbury hno

theorem held_maintained (hq : Issues req q) (hlive : ∀ id, revives req = some id → ¬Gone id db₀) :
    q.Maintains fun db => Intact db ∧ Held req db₀ db := by
  rintro env db rows ws ⟨hdb, h⟩ hrun
  refine ⟨hdb.run ranks hrun, ?_⟩
  have elsewhere : Writes (· ≠ .sessions) q → Held req db₀ (applyAll ws db) := by
    intro hw
    refine h.same (sessionsT.rows_applyAll_other (fun w hmem t hk => ?_) db)
    exact hw env db db db rows ws hrun w hmem (hk ▸ rfl)
  have table : ∀ {n : TableName}, n ≠ .sessions → Writes (· = n) q → Held req db₀ (applyAll ws db) :=
    fun hn hw => elsewhere (hw.mono fun m hm hs => hn (hm.symm.trans hs))
  cases hq with
  | select p => exact elsewhere (select_writesIn p)
  | forUpdate p => exact elsewhere (forUpdate_writesIn p)
  | audit e => exact table (by decide) (AuditLog.appendSql_writes e)
  | delete _ hT p =>
    refine elsewhere (delete_writesIn hT (fun r k hk _ hs => ?_) p)
    cases r with
    | session s => cases hk
    | _ => cases hs
  | created svc input =>
    obtain ⟨s, hs, -, -, -, -, rfl⟩ := insert_ok hrun
    obtain rfl := Except.ok.inj hs
    have hrows : sessionsT.rows (applyAll [.insert (sessionsT.put (Sessions.createRow input env))] db) =
        sessionsT.rows db ++ [Sessions.createRow input env] := sessionsT.rows_insert _ db
    refine ⟨fun s hs => ?_, fun s' hs' => ?_⟩
    · obtain ⟨s', hs', hturn⟩ := h.kept s hs
      exact ⟨s', by rw [hrows]; exact List.mem_append_left _ hs', hturn⟩
    · rw [hrows] at hs'
      rcases List.mem_append.1 hs' with hs' | hs'
      · exact h.came s' hs'
      · rw [List.mem_singleton.1 hs']
        exact .inr ⟨(fun hd => by cases hd), rfl, fun hb => by cases hb⟩
  | @status svc id body new hnew =>
    have hrows := (congrArg sessionsT.rows (update_applied hdb.keys hrun).1).trans (sessionsT.rows_updated _ _ db)
    by_cases hdel : new = .deleted
    · subst hdel
      exact h.buried (by simp [buries, hnew]) hrows fun s => ⟨rfl, rfl⟩
    · refine h.revived (hlive id ?_) ?_ hrows fun s => ⟨rfl, hdel, if_neg hdel⟩
      · simp [revives, hnew, hdel]
      · simp [buries, hnew, hdel]
  | fields svc id body =>
    have hrows := (congrArg sessionsT.rows (update_applied hdb.keys hrun).1).trans (sessionsT.rows_updated _ _ db)
    exact h.update hrows (fun s hs s' hid hturn => hturn) fun s' hid hfresh => hfresh
  | resumed svc id body =>
    have hrows := (congrArg sessionsT.rows (update_applied hdb.keys hrun).1).trans (sessionsT.rows_updated _ _ db)
    exact h.revived (hlive id rfl) rfl hrows fun s => ⟨rfl, (fun hd => by cases hd), rfl⟩
  | tombstone svc id =>
    have hrows := (congrArg sessionsT.rows (update_applied hdb.keys hrun).1).trans (sessionsT.rows_updated _ _ db)
    exact h.buried rfl hrows fun s => ⟨rfl, rfl⟩
  | chunk svc r pid hd size => exact table (by decide) (Chunks.insertSql_writes _)
  | chunkKey svc r pid seq key => exact table (by decide) (Chunks.setKeySql_writes _ _ _ _)
  | added svc sid input =>
    refine elsewhere ((Participants.addSql_writes sid input).mono fun n hn hs => ?_)
    rw [hs] at hn
    rcases hn with hn | hn <;> cases hn
  | seeded svc sid ps => exact table (by decide) (Participants.seedUsersSql_writes ps)
  | addedAll svc sid ps => exact table (by decide) (Participants.addManySql_writes sid ps)
  | user | named => exact table (by decide) (Users.upsertSql_writes _)
  | displayName => exact table (by decide) (DisplayNames.upsertSql_writes _ _)
  | admin | granted => exact table (by decide) (Users.setAdminSql_writes _ _)
  | replaced | merged => exact table (by decide) (Metadata.upsertSql_writes _ _ _)
  | bulk | mute | token => exact elsewhere (tableInsert_writesIn (fun _ hs => by cases hs) _)
  | row | consent | license | wiped | consentByToken | licenseByToken | wipedByToken =>
    exact elsewhere (update_writesIn (fun _ hs => by cases hs) _ _ _)

end

/-! ## A deleted session is left alone -/

section
variable {db : Db} {w : World} {env : Nat → Env} {id : Uuid}

theorem Gone.found (hdb : Intact db) (h : Gone id db) :
    ∃ s, (sessionsT.rows db).find? (Sessions.byId id) = some s ∧ s.status = .deleted := by
  obtain ⟨s, hs, hid, hdel⟩ := h
  cases hfind : (sessionsT.rows db).find? (Sessions.byId id) with
  | none =>
    have hno := List.find?_eq_none.1 hfind s hs
    simp [Sessions.byId, hid] at hno
  | some x =>
    have hxid : x.id = id := by simpa [Sessions.byId] using List.find?_some hfind
    have heq : Row.session x = .session s := hdb.slot_eq (sessionsT.mem_rows.1 (List.mem_of_find?_eq_some hfind))
      (sessionsT.mem_rows.1 hs) (pk_mem_slots.2 rfl) (pk_mem_slots.2 (congrArg Key.session (hid.trans hxid.symm)))
    exact ⟨x, rfl, by rw [Row.session.inj heq, hdel]⟩

/-- No status follows `deleted`. -/
theorem patch_gone (hdb : Intact db) (h : Gone id db) (svc : String) {body : SessionRoutes.PatchSession} {new : SessionStatus}
    (hnew : body.status = some new) : Ends env 0 ⟨none, db, w⟩ (SessionRoutes.patch svc id body) fun _ s => s.db = db := by
  obtain ⟨s, hs, hdel⟩ := h.found hdb
  rw [SessionRoutes.patch, Sessions.getInTx, Sessions.getInTxSql]
  simp only [bind_assoc]
  refine Ends.begin (fun _ => rfl) fun _ => ?_
  refine Ends.lock_tx (fun _ => rfl) fun _ => ?_
  rw [applyAll_nil, hs, hnew]
  simp only [SessionRoutes.patchStatus, pure_bind, bind_assoc, hdel, canTransition_from_deleted]
  exact rfl

theorem resume_gone (hdb : Intact db) (h : Gone id db) (st : AppState) (svc : String) (body : SessionRoutes.ResumeBody) :
    Ends env 0 ⟨none, db, w⟩ (SessionRoutes.resume st svc id body) fun _ s => s.db = db := by
  obtain ⟨s, hs, hdel⟩ := h.found hdb
  rw [SessionRoutes.resume, Sessions.getInTx, Sessions.getInTxSql]
  simp only [bind_assoc]
  refine Ends.begin (fun _ => rfl) fun _ => ?_
  refine Ends.lock_tx (fun _ => rfl) fun _ => ?_
  rw [applyAll_nil, hs]
  simp only [pure_bind, hdel]
  exact rfl

end

/-! ## The cascade -/

section
variable {β τ : Type} {db : Db} {w : World} {env : Nat → Env} {n : Nat} {b : Env} {vs : List (Write Row Key)} {T : Table Row τ}
  {p : τ → Bool} {Q : Except AppError β → Moment → Prop}

/-- A DELETE leaves rows that were there and that it does not name. -/
theorem delete_leaves {e : Env} {rows : Db} {ws : List (Write Row Key)} (h : answer (T.delete p) b e db = .ok (rows, ws)) {r : Row}
    (hr : r ∈ applyAll ws db) : r ∈ db ∧ T.is p r = false := by
  obtain ⟨-, hws⟩ := delete_ok (answer_ok h).2
  rw [hits_all] at hws
  have hkeys : ws = ((cascade (db.length + 1) db (db.filter (T.is p))).map key).map fun k => .delete k := by
    rw [hws, List.map_map]
    rfl
  rw [hkeys, applyAll_deleteKeys] at hr
  obtain ⟨hr, hkept⟩ := List.mem_filter.1 hr
  refine ⟨hr, Bool.eq_false_iff.2 fun hp => ?_⟩
  have hdead : r ∈ cascade (db.length + 1) db (db.filter (T.is p)) :=
    mem_cascade_level.2 ⟨0, by omega, List.mem_filter.2 ⟨hr, hp⟩⟩
  simp only [decide_eq_true_eq] at hkept
  exact hkept (List.mem_map_of_mem hdead)

theorem Ends.drop {f : List Row → Handler β} (herr : ∀ err, Q (.error err) ⟨some ⟨b, vs⟩, db, w⟩)
    (hok : ∀ rows ws, (∀ r ∈ applyAll ws db, r ∈ applyAll vs db ∧ T.is p r = false) →
      Ends env (n + 1) ⟨some ⟨b, ws⟩, db, w⟩ (f rows) Q) :
    Ends env n ⟨some ⟨b, vs⟩, db, w⟩ (Handler.query .tx (T.delete p) >>= f) Q := by
  refine Ends.query_tx (fun _ _ => herr _) fun rows ws h => hok rows (vs ++ ws) fun r hr => ?_
  rw [applyAll_append] at hr
  exact delete_leaves h hr

/-- Writes of rows that lie under no session. -/
theorem Childless.writes {id : Uuid} {ws : List (Write Row Key)} (h : Childless id db)
    (hws : ∀ r, .insert r ∈ ws ∨ .update r ∈ ws → childOf r = none) : Childless id (applyAll ws db) := by
  intro r hr hchild
  rcases mem_applyAll hr with hr | hr
  · exact h r hr hchild
  · rw [hws r hr] at hchild
    cases hchild

theorem deleteCascade_childless (svc : String) (id : Uuid) : Ends env 0 ⟨none, db, w⟩ (SessionRoutes.deleteCascade svc id)
    fun _ s => s.db = db ∨ Childless id s.db := by
  rw [SessionRoutes.deleteCascade, Sessions.getInTx, Sessions.getInTxSql]
  simp only [bind_assoc]
  refine Ends.begin (fun _ => .inl rfl) fun _ => ?_
  refine Ends.lock_tx (fun _ => .inl rfl) fun _ => ?_
  cases (sessionsT.rows (applyAll [] db)).find? (Sessions.byId id) with
  | none => exact .inl rfl
  | some existing =>
    simp only [pure_bind, SessionRoutes.deleteChildren, Chunks.deleteForSession, Uniform.deleteAllForSession,
      MuteRanges.deleteForSession, fetchAll, execute, bind_assoc]
    refine Ends.drop (fun _ => .inl rfl) fun rows ws₁ h₁ => ?_
    refine Ends.drop (fun _ => .inl rfl) fun _ ws₂ h₂ => ?_
    refine Ends.drop (fun _ => .inl rfl) fun _ ws₃ h₃ => ?_
    refine Ends.drop (fun _ => .inl rfl) fun _ ws₄ h₄ => ?_
    refine Ends.drop (fun _ => .inl rfl) fun _ ws₅ h₅ => ?_
    refine Ends.drop (fun _ => .inl rfl) fun _ ws₆ h₆ => ?_
    refine Ends.drop (fun _ => .inl rfl) fun _ ws₇ h₇ => ?_
    have hview : Childless id (applyAll ws₇ db) := by
      intro r hr hchild
      obtain ⟨hr, hparticipant⟩ := h₇ r hr
      obtain ⟨hr, hmetadata⟩ := h₆ r hr
      obtain ⟨hr, hmute⟩ := h₅ r hr
      obtain ⟨hr, hscene⟩ := h₄ r hr
      obtain ⟨hr, hbeat⟩ := h₃ r hr
      obtain ⟨hr, hsegment⟩ := h₂ r hr
      obtain ⟨-, hchunk⟩ := h₁ r hr
      cases r with
      | participant p => simp_all [childOf, Table.is, participantsT]
      | metadata m => simp_all [childOf, Table.is, metadataT, Metadata.byId]
      | mute m => simp_all [childOf, Table.is, mutesT]
      | chunk c => simp_all [childOf, Table.is, chunksT]
      | uniform rt x => cases rt <;> simp_all [childOf, Table.is, uniformT]
      | _ => cases hchild
    rw [Sessions.updateStatus]
    refine Ends.fetchOne_tx (fun _ _ => .inl rfl) (fun _ _ _ _ => .inl rfl) fun rows ws updated hupdate _ => ?_
    have hstatus : Childless id (applyAll ws (applyAll ws₇ db)) := by
      refine hview.writes fun r hr => ?_
      rcases hr with hr | hr
      · exact absurd hr (update_entered (answer_ok hupdate).2)
      · obtain ⟨s, -, -, heq, -⟩ := update_ok_write (answer_ok hupdate).2 hr
        rw [Write.update.inj heq]
        rfl
    rw [AuditLog.appendTx]
    simp only [bind_assoc]
    refine Ends.execute_tx (fun _ _ => .inl rfl) fun rows ws' happend => ?_
    rw [applyAll_append] at happend
    have haudit : Childless id (applyAll ws' (applyAll ws (applyAll ws₇ db))) := by
      obtain ⟨a, -, -, -, -, -, rfl⟩ := insert_ok (answer_ok happend).2
      refine hstatus.writes fun r hr => ?_
      obtain rfl : r = auditT.put a := by simpa using hr
      rfl
    refine Ends.commit (fun _ => .inl rfl) fun _ => ?_
    rw [applyAll_append, applyAll_append]
    exact Sweeps.Ends.sweep fun _ => .inr haudit

end

/-! ## One call -/

section
variable {st : AppState} {x : Call} {sv : Sv Unit} {id : Uuid}

/-- A request that sets the status of a deleted session changes nothing. -/
theorem serve_gone (hdb : Intact sv.db) (hreq : revives x.request = some id ∨
    ∃ svc body, x.request = .patchSession svc id body ∧ body.status = some .deleted) (h : Gone id sv.db) :
    (serve st x sv).2.db = sv.db := by
  refine serve_ends (Q := fun _ db _ => db = sv.db) |>.2 ?_
  rcases hreq with hrevives | ⟨svc, body, hreq, hnew⟩
  · cases hreq : x.request with
    | patchSession svc id' body =>
      rw [hreq, revives] at hrevives
      split at hrevives
      · next hany =>
        obtain rfl := Option.some.inj hrevives
        obtain ⟨new, hnew, -⟩ := (Option.any_eq_true _ _).1 hany
        exact ends_map.2 (patch_gone hdb h svc hnew)
      · cases hrevives
    | resume svc id' body =>
      rw [hreq] at hrevives
      obtain rfl := Option.some.inj hrevives
      exact ends_map.2 (resume_gone hdb h st svc body)
    | _ =>
      rw [hreq] at hrevives
      cases hrevives
  · rw [hreq]
    exact ends_map.2 (patch_gone hdb h svc hnew)

/-- A session that a request deletes was not deleted, and no row is left under
it. -/
theorem serve_buries (hdb : Intact sv.db) (hx : Spares x.request sv.db) (hchanged : (serve st x sv).2.db ≠ sv.db)
    (hbury : buries x.request = some id) : ¬Gone id sv.db ∧ Childless id (serve st x sv).2.db := by
  cases hreq : x.request with
  | patchSession svc id' body =>
    rw [hreq, buries] at hbury
    split at hbury
    · next hnew =>
      obtain rfl := Option.some.inj hbury
      have hgone : ¬Gone id' sv.db := fun h => hchanged (serve_gone hdb (.inr ⟨svc, body, hreq, hnew⟩) h)
      refine ⟨hgone, serve_childless hdb ((hx.patched svc id' body hreq hnew).resolve_left hgone) ?_⟩
      rw [hreq]
      exact fun h => by cases h
    · cases hbury
  | deleteCascade svc id' =>
    rw [hreq] at hbury
    obtain rfl := Option.some.inj hbury
    refine ⟨hx.cascade svc id' hreq, ?_⟩
    have hends : (serve st x sv).2.db = sv.db ∨ Childless id' (serve st x sv).2.db := by
      refine serve_ends (Q := fun _ db _ => db = sv.db ∨ Childless id' db) |>.2 ?_
      rw [hreq]
      exact ends_map.2 (deleteCascade_childless svc id')
    exact hends.resolve_left hchanged
  | _ =>
    rw [hreq] at hbury
    cases hbury

/-- The date of deletion stays. -/
def Dated (id : Uuid) (t : Timestamp) (db : Db) : Prop := ∃ s ∈ sessionsT.rows db, s.id = id ∧ s.deletedAt = some t

theorem serve_tombs (hdb : Intact sv.db) (h : Tombs sv.db) (hx : Spares x.request sv.db) :
    Tombs (serve st x sv).2.db ∧ ∀ id t, Dated id t sv.db → Dated id t (serve st x sv).2.db := by
  by_cases hchanged : (serve st x sv).2.db = sv.db
  · rw [hchanged]
    exact ⟨h, fun _ _ hd => hd⟩
  have hlive : ∀ id, revives x.request = some id → ¬Gone id sv.db :=
    fun id hid hgone => hchanged (serve_gone hdb (.inl hid) hgone)
  have hheld : Held x.request sv.db (serve st x sv).2.db :=
    (serve_maintains (fun _ hq => held_maintained hq hlive) ⟨hdb, .refl sv.db⟩).2
  refine ⟨⟨fun id hgone => ?_, fun s' hs' hdate => ?_⟩, fun id t hd => ?_⟩
  · obtain ⟨s', hs', hid, hdel⟩ := hgone
    rcases hheld.came s' hs' with ⟨s, hs, hsid, ⟨hstatus, -⟩ | ⟨hbury, -⟩⟩ | ⟨hno, -, -⟩
    · have hwas : Gone id sv.db := ⟨s, hs, hsid.symm.trans hid, hstatus.1 hdel⟩
      exact serve_childless hdb (h.childless id hwas) fun hunder => hx.children id hunder hwas
    · rw [hsid.symm.trans hid] at hbury
      exact (serve_buries hdb hx hchanged hbury).2
    · exact absurd hdel hno
  · rcases hheld.came s' hs' with ⟨s, hs, -, ⟨hstatus, hsame⟩ | ⟨-, hdel⟩⟩ | ⟨-, hnone, -⟩
    · exact hstatus.2 (h.dated s hs (hsame ▸ hdate))
    · exact hdel
    · rw [hnone] at hdate
      cases hdate
  · obtain ⟨s, hs, hid, hdate⟩ := hd
    obtain ⟨s', hs', hsid, ⟨-, hsame⟩ | ⟨hbury, -⟩⟩ := hheld.kept s hs
    · exact ⟨s', hs', hsid.trans hid, hsame.trans hdate⟩
    · have hdel : s.status = .deleted := h.dated s hs (by rw [hdate]; rfl)
      exact absurd ⟨s, hs, rfl, hdel⟩ (serve_buries hdb hx hchanged hbury).1

end

/-! ## Runs -/

/-- In a run whose requests spare the deleted sessions, no row ever lies under
a deleted session, and a date of deletion never changes. -/
theorem tombstones_last (st : AppState) (sv₀ : Sv Unit) (hdb : Intact sv₀.db) (htombs : Tombs sv₀.db) (calls : List Call)
    (hcalls : Steps st sv₀ calls fun x sv => Spares x.request sv.db) (done later rest : List Call)
    (hsplit : calls = done ++ (later ++ rest)) :
    (∀ id, Gone id (after st sv₀ done).db → Childless id (after st sv₀ done).db) ∧
      ∀ id t, Dated id t (after st sv₀ done).db → Dated id t (after st sv₀ (done ++ later)).db := by
  have hdone := hcalls.reached (I := fun sv => Intact sv.db ∧ Tombs sv.db) ⟨hdb, htombs⟩
    (fun sv x hsv hx => ⟨serve_intact hsv.1, (serve_tombs hsv.1 hsv.2 hx).1⟩) done _ hsplit
  refine ⟨hdone.2.childless, fun id t hd => ?_⟩
  have hlater : Steps st (after st sv₀ done) (later ++ rest) fun x sv => Spares x.request sv.db := (hsplit ▸ hcalls).later
  have hlast := hlater.reached (I := fun sv => Intact sv.db ∧ Tombs sv.db ∧ Dated id t sv.db) ⟨hdone.1, hdone.2, hd⟩
    (fun sv x hsv hx => ?_) later rest rfl
  · rw [after_append]
    exact hlast.2.2
  · obtain ⟨hintact, htomb, hdated⟩ := hsv
    have hserve : Tombs (serve st x sv).2.db ∧ _ := serve_tombs hintact htomb hx
    exact ⟨serve_intact hintact, hserve.1, hserve.2 id t hdated⟩

instance (id : Uuid) (db : Db) : Decidable (Gone id db) :=
  inferInstanceAs (Decidable (∃ s ∈ sessionsT.rows db, s.id = id ∧ s.status = .deleted))

instance (id : Uuid) (db : Db) : Decidable (Childless id db) :=
  inferInstanceAs (Decidable (∀ r ∈ db, childOf r ≠ some id))

instance (id : Uuid) (t : Timestamp) (db : Db) : Decidable (Dated id t db) :=
  inferInstanceAs (Decidable (∃ s ∈ sessionsT.rows db, s.id = id ∧ s.deletedAt = some t))

/-- A call whose operations draw from `n` on. -/
def sampleCall (request : Request) (n : Nat) : Call := { request := request, env := fun k => Sample.env (n + k) }

/-- A session with a participant. -/
def sampleCalls : List Call :=
  [sampleCall (.createSession "bot" Sample.createInput) 0,
    sampleCall (.addOne "bot" Sample.sessionId { pseudoId := ⟨Sample.speaker⟩ }) 20]

def sampleDelete (n : Nat) : Call := sampleCall (.deleteCascade "bot" Sample.sessionId) n

theorem sample_spares : Steps Sample.state (Sample.server []) (sampleCalls ++ [sampleDelete 40]) fun x sv =>
    Spares x.request sv.db := by
  intro done x rest h
  rcases done with - | ⟨a, - | ⟨b, - | ⟨c, done⟩⟩⟩ <;>
    simp only [sampleCalls, List.cons_append, List.nil_append, List.cons.injEq] at h
  · obtain ⟨rfl, -⟩ := h
    exact ⟨(fun _ h => by cases h), (fun _ _ _ h => by cases h), fun _ _ h => by cases h⟩
  · obtain ⟨rfl, rfl, -⟩ := h
    refine ⟨fun id h => ?_, (fun _ _ _ h => by cases h), fun _ _ h => by cases h⟩
    obtain rfl : Sample.sessionId = id := Option.some.inj h
    decide +kernel
  · obtain ⟨rfl, rfl, rfl, -⟩ := h
    refine ⟨(fun _ h => by cases h), (fun _ _ _ h => by cases h), fun svc id h => ?_⟩
    obtain rfl : Sample.sessionId = id := (Request.deleteCascade.inj h).2
    decide +kernel
  · simp at h

theorem tombstones_sample :
    (∀ id, Gone id (after Sample.state (Sample.server []) (sampleCalls ++ [sampleDelete 40])).db →
      Childless id (after Sample.state (Sample.server []) (sampleCalls ++ [sampleDelete 40])).db) ∧
      ∀ id t, Dated id t (after Sample.state (Sample.server []) (sampleCalls ++ [sampleDelete 40])).db →
        Dated id t (after Sample.state (Sample.server []) (sampleCalls ++ [sampleDelete 40] ++ [])).db :=
  tombstones_last Sample.state (Sample.server []) (by decide) ⟨fun _ h => absurd h (by simp [Gone, Sample.server]), fun s hs => by cases hs⟩
    (sampleCalls ++ [sampleDelete 40]) sample_spares (sampleCalls ++ [sampleDelete 40]) [] [] (by simp)

/-- Three ways to a deleted session that is no tombstone: the PATCH leaves the
participant, a participant joins after the cascade, and a second cascade moves
the date. -/
theorem deleted_no_tombstone :
    (Gone Sample.sessionId (after Sample.state (Sample.server []) (sampleCalls ++
        [sampleCall (.patchSession "bot" Sample.sessionId { status := some .deleted }) 40])).db ∧
      ¬Childless Sample.sessionId (after Sample.state (Sample.server []) (sampleCalls ++
        [sampleCall (.patchSession "bot" Sample.sessionId { status := some .deleted }) 40])).db) ∧
    (Gone Sample.sessionId (after Sample.state (Sample.server []) (sampleCalls ++ [sampleDelete 40,
        sampleCall (.addOne "bot" Sample.sessionId { pseudoId := ⟨Sample.speaker⟩ }) 60])).db ∧
      ¬Childless Sample.sessionId (after Sample.state (Sample.server []) (sampleCalls ++ [sampleDelete 40,
        sampleCall (.addOne "bot" Sample.sessionId { pseudoId := ⟨Sample.speaker⟩ }) 60])).db) ∧
    Dated Sample.sessionId 40 (after Sample.state (Sample.server []) (sampleCalls ++ [sampleDelete 40])).db ∧
      ¬Dated Sample.sessionId 40 (after Sample.state (Sample.server []) (sampleCalls ++ [sampleDelete 40, sampleDelete 60])).db := by
  decide +kernel

end DataApi.Tombstones
