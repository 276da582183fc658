/-
What a handler tells the world. Every handler sends only events of changes it
has committed, each with the guild of a session row it has read, and writes
audit rows in the name of its caller (`handle_tells`).
-/
import DataApi.Db.Writes
import DataApi.Lib.Announce
import DataApi.Rules

namespace DataApi

open Relational ReadCommitted Resumption Handler

/-- The session ids of these rows, each with its guild. -/
def guilds (db : Db) : List (Uuid × Int) := (sessionsT.rows db).map fun s => (s.id, s.guildId)

/-- The change an event is about, among the rows stored before. A wipe leaves
no row to tell of: its audit row does. -/
def Announces (db : Db) : Write Row Key → Event → Prop
  | .update (.session s), .sessionStateChanged _ d =>
    s.id = d.sessionId ∧ s.status = d.new ∧ ∃ x, .session x ∈ db ∧ x.id = d.sessionId ∧ x.status = d.old
  | .insert (.chunk c), .chunkUploaded _ d =>
    c.sessionId = d.sessionId ∧ c.pseudoId = d.pseudoId ∧ c.seq = d.seq ∧ c.sizeBytes = d.sizeBytes
  | .insert (.uniform .segments r), .segmentCreated _ d | .insert (.uniform .beats r), .beatCreated _ d
  | .insert (.uniform .scenes r), .sceneCreated _ d | .update (.uniform .segments r), .segmentUpdated _ d
  | .update (.uniform .beats r), .beatUpdated _ d | .update (.uniform .scenes r), .sceneUpdated _ d =>
    r.id = d.id ∧ r.sessionId = d.sessionId
  | .delete (.uniform .segments id), .segmentDeleted _ d =>
    id = d.id ∧ ∃ r, .uniform .segments r ∈ db ∧ r.id = d.id ∧ r.sessionId = d.sessionId
  | .delete (.uniform .beats id), .beatDeleted _ d =>
    id = d.id ∧ ∃ r, .uniform .beats r ∈ db ∧ r.id = d.id ∧ r.sessionId = d.sessionId
  | .delete (.uniform .scenes id), .sceneDeleted _ d =>
    id = d.id ∧ ∃ r, .uniform .scenes r ∈ db ∧ r.id = d.id ∧ r.sessionId = d.sessionId
  | .insert (.mute m), .muteRangeCreated _ d =>
    m.id = d.rangeId ∧ m.sessionId = d.sessionId ∧ m.pseudoId = d.pseudoId
  | .delete (.mute id), .muteRangeDeleted _ d =>
    id = d.rangeId ∧ ∃ m, .mute m ∈ db ∧ m.id = d.rangeId ∧ m.sessionId = d.sessionId ∧ m.pseudoId = d.pseudoId
  | .insert (.audit a), .audioDeleted _ d =>
    a.resourceType = "participant_audio" ∧ a.sessionId = some d.sessionId ∧ a.actorPseudo = some d.pseudoId.raw
  | _, _ => False

/-- The client has committed what the event is about, and read the session. -/
def Truthful (s : Told Row Key) : Io → Prop
  | .send ev => (∃ d ∈ s.done, ∃ w ∈ d.2, Announces d.1 w ev) ∧ (ev.sessionId, ev.guildId) ∈ guilds s.seen
  | _ => True

def Signed (actor : String) (w : Write Row Key) : Prop := ∀ a, w = .insert (.audit a) → a.actorService = actor

/-- What a client may take a row for: the guild of a session, or a consent
token that was granted. -/
def Known (guild : Uuid × Int → Prop) (granted : Uuid → Prop) : Row → Prop
  | .session s => guild (s.id, s.guildId)
  | .consentToken t => granted t.token
  | _ => True

/-- A statement of a handler: its audit rows name the actor, and the sessions
and tokens it returns are there already, or it has just stored them. -/
structure Stated (actor : String) (via : Via) (q : Sql) : Prop where
  signed : ∀ rows ws, Ran q rows ws → ∀ w ∈ ws, Signed actor w
  known : (∀ guild granted, q.Preserves (Known guild granted)) ∨ via = .pool ∧ ∀ env snap alive db rows ws,
    (q.run env snap alive db).result = .ok (rows, ws) → ∀ r ∈ rows, r ∈ applyAll ws db

section
variable {actor : String} {via : Via} {q : Sql} {db : Db} {r : Row} {τ : Type} {T : Table Row τ}
  {guild : Uuid × Int → Prop} {granted : Uuid → Prop}

theorem mem_guilds {p : Uuid × Int} : p ∈ guilds db ↔ ∃ s, .session s ∈ db ∧ (s.id, s.guildId) = p := by
  simp only [guilds, List.mem_map, sessionsT.mem_rows]
  rfl

@[simp] theorem guilds_append (db db' : Db) : guilds (db ++ db') = guilds db ++ guilds db' := by
  rw [guilds, guilds, guilds, sessionsT.rows_append, List.map_append]

theorem known_other (hsession : (key r).table ≠ .sessions) (htoken : (key r).table ≠ .consentTokens) :
    Known guild granted r := by
  cases r with
  | session s => exact absurd rfl hsession
  | consentToken t => exact absurd rfl htoken
  | _ => trivial

/-! ## The statements -/

theorem stated_writes {D : TableName → Prop} (h : Writes D q) (hD : ¬D .audit ∧ ¬D .sessions ∧ ¬D .consentTokens) :
    Stated actor via q where
  signed rows ws hran w hw a hwa := by
    obtain ⟨env, snap, alive, cur, hrun⟩ := hran
    have hw' := h env snap alive cur rows ws hrun w hw
    rw [hwa] at hw'
    exact absurd hw' hD.1
  known := by
    refine .inl fun guild granted => preserves_of_written fun env snap alive cur rows ws _ hrun r hw => ?_
    have hw' : D (key r).table := by
      rcases hw with hw | hw <;> exact h env snap alive cur rows ws hrun _ hw
    exact known_other (fun ht => hD.2.1 (ht ▸ hw')) fun ht => hD.2.2 (ht ▸ hw')

theorem stated_select (p : Env → Row → Bool) : Stated actor via (.select p) :=
  stated_writes (D := fun _ => False) (select_writesIn p) (by simp)

theorem stated_forUpdate (p : Row → Bool) : Stated actor via (.forUpdate p) :=
  stated_writes (D := fun _ => False) (forUpdate_writesIn p) (by simp)

theorem stated_delete (p : τ → Bool) : Stated actor via (T.delete p) where
  signed rows ws hran w hw a hwa := by
    obtain ⟨env, snap, alive, cur, hrun⟩ := hran
    obtain ⟨-, rfl⟩ := delete_ok hrun
    obtain ⟨r, -, rfl⟩ := List.mem_map.1 hw
    cases hwa
  known := by
    refine .inl fun guild granted => preserves_of_written fun env snap alive cur rows ws _ hrun r hw => ?_
    obtain ⟨-, rfl⟩ := delete_ok hrun
    rcases hw with hw | hw <;> simp at hw

theorem stated_audit (e : AuditLog.Entry) (h : e.actorService = actor) : Stated actor via (AuditLog.appendSql e) where
  signed rows ws hran w hw a hwa := by
    obtain ⟨env, snap, alive, cur, hrun⟩ := hran
    obtain ⟨t, ht, -, -, -, -, rfl⟩ := insert_ok hrun
    obtain rfl := Except.ok.inj ht
    rw [List.mem_singleton.1 hw] at hwa
    cases hwa
    exact h
  known := .inl fun guild granted => tableInsert_preserves fun _ _ _ _ _ _ _ _ =>
    known_other (fun h => by cases h) fun h => by cases h

/-- A row that is stored at once. -/
theorem stated_insert {mk : Env → List Row → Except (DbError Key Uniq) τ} (h : ∀ t, (key (T.put t) : Key).table ≠ .audit) :
    Stated actor .pool (T.insert mk) where
  signed rows ws hran w hw a hwa := by
    obtain ⟨env, snap, alive, cur, hrun⟩ := hran
    obtain ⟨t, -, -, -, -, -, rfl⟩ := insert_ok hrun
    rw [List.mem_singleton.1 hw] at hwa
    refine absurd ?_ (h t)
    rw [Write.insert.inj hwa]
    rfl
  known := by
    refine .inr ⟨rfl, fun env snap alive db rows ws hrun r hr => ?_⟩
    obtain ⟨t, -, -, -, -, rfl, rfl⟩ := insert_ok hrun
    obtain rfl := List.mem_singleton.1 hr
    simp [applyAll, Write.apply]

/-- An UPDATE of a session row, which stays in its guild. -/
theorem stated_session {p : Session → Bool} {set : Env → Session → Session} {hk : ∀ e, sessionsT.Keeps (set e)}
    (hset : ∀ e s, (set e s).id = s.id ∧ (set e s).guildId = s.guildId) :
    Stated actor via (sessionsT.update p set hk) where
  signed rows ws hran w hw a hwa := by
    obtain ⟨env, snap, alive, cur, hrun⟩ := hran
    obtain ⟨t, -, -, rfl, -⟩ := update_ok_write hrun hw
    cases hwa
  known := by
    refine .inl fun guild granted => update_preserves fun e t h _ => ?_
    obtain ⟨hid, hguild⟩ := hset e t
    show guild ((set e t).id, (set e t).guildId)
    rw [hid, hguild]
    exact h

theorem stated_status (id : Uuid) (new : SessionStatus) : Stated actor via (Sessions.updateStatusSql id new) :=
  stated_session fun _ _ => ⟨rfl, rfl⟩

theorem stated_fields (id : Uuid) (endedAt : Option (Option Timestamp)) (count : Option (Option Int)) :
    Stated actor via (Sessions.patchFieldsSql id endedAt count) := stated_session fun _ _ => ⟨rfl, rfl⟩

theorem stated_resumed (id : Uuid) : Stated actor via (Sessions.resumeFromAbandonedSql id) :=
  stated_session fun _ _ => ⟨rfl, rfl⟩

end

/-! ## The rules -/

/-- The handler, knowing `s`, sends only statements in the actor's name and
only events it knows to be true. -/
abbrev Tells (actor : String) (s : Told Row Key) {β : Type} (p : Handler β) : Prop :=
  Prog.Follows (telling (fun _ => Stated actor) Truthful) (fun _ _ => True) s p.run

section
variable {α β τ : Type} {actor : String} {s : Told Row Key} {via : Via} {q : Sql} {T : Table Row τ}

theorem tells_pure {b : β} : Tells actor s (pure b : Handler β) := trivial

theorem tells_throw {e : AppError} : Tells actor s (throw e : Handler β) := trivial

theorem tells_query (hq : Stated actor via q) {f : List Row → Handler β}
    (hf : ∀ rows ws, Ran q rows ws → Tells actor (s.wrote (q.found rows) rows ws via) (f rows)) :
    Tells actor s (query via q >>= f) := by
  refine Handler.follows_query hq (fun _ _ _ => trivial) fun rows t ht => ?_
  obtain ⟨ws, hran, rfl⟩ : ∃ ws, Ran q rows ws ∧ t = s.wrote (q.found rows) rows ws via := ht
  exact hf rows ws hran

theorem tells_fetchAll (hq : Stated actor via q) {f : List τ → Handler β}
    (hf : ∀ rows ws, Ran q rows ws → Tells actor (s.wrote (q.found rows) rows ws via) (f (T.rows rows))) :
    Tells actor s (fetchAll via T q >>= f) := by
  rw [fetchAll, bind_assoc]
  exact tells_query hq fun rows ws h => hf rows ws h

theorem tells_fetchOptional (hq : Stated actor via q) {f : Option τ → Handler β}
    (hnone : ∀ rows ws, Ran q rows ws → Tells actor (s.wrote (q.found rows) rows ws via) (f none))
    (hsome : ∀ rows ws x, Ran q rows ws → T.put x ∈ rows → Tells actor (s.wrote (q.found rows) rows ws via) (f (some x))) :
    Tells actor s (fetchOptional via T q >>= f) := by
  rw [fetchOptional, bind_assoc]
  refine tells_query hq fun rows ws hran => ?_
  show Tells actor (s.wrote (q.found rows) rows ws via) (f (T.rows rows).head?)
  cases hx : (T.rows rows).head? with
  | none => exact hnone rows ws hran
  | some x => exact hsome rows ws x hran (T.mem_rows.1 (List.mem_of_mem_head? hx))

theorem tells_fetchOne (hq : Stated actor via q) {f : τ → Handler β}
    (hf : ∀ rows ws x, Ran q rows ws → T.put x ∈ rows → Tells actor (s.wrote (q.found rows) rows ws via) (f x)) :
    Tells actor s (fetchOne via T q >>= f) := by
  rw [fetchOne, bind_assoc]
  refine tells_query hq fun rows ws hran => ?_
  cases hx : (T.rows rows).head? with
  | none => exact tells_throw
  | some x => exact hf rows ws x hran (T.mem_rows.1 (List.mem_of_mem_head? hx))

theorem tells_execute (hq : Stated actor via q) {f : Nat → Handler β}
    (hf : ∀ rows ws, Ran q rows ws → Tells actor (s.wrote (q.found rows) rows ws via) (f rows.length)) :
    Tells actor s (execute via q >>= f) := by
  rw [execute, bind_assoc]
  exact tells_query hq fun rows ws h => hf rows ws h

theorem tells_append {e : AuditLog.Entry} {f : Unit → Handler β} (he : e.actorService = actor)
    (hf : ∀ rows ws, Ran (AuditLog.appendSql e) rows ws → Tells actor (s.wrote [] rows ws .pool) (f ())) :
    Tells actor s (AuditLog.append e >>= f) := by
  rw [AuditLog.append, bind_assoc]
  exact tells_execute (stated_audit e he) fun rows ws h => hf rows ws h

theorem tells_appendTx {e : AuditLog.Entry} {f : Unit → Handler β} (he : e.actorService = actor)
    (hf : ∀ rows ws, Ran (AuditLog.appendSql e) rows ws → Tells actor (s.wrote [] rows ws .tx) (f ())) :
    Tells actor s (AuditLog.appendTx e >>= f) := by
  rw [AuditLog.appendTx, bind_assoc]
  exact tells_execute (stated_audit e he) fun rows ws h => hf rows ws h

theorem tells_begin {f : Unit → Handler β} (hf : Tells actor s.reset (f ())) : Tells actor s (begin >>= f) := by
  refine Handler.follows_begin trivial (fun _ _ _ => trivial) fun t ht => ?_
  obtain rfl : t = s.reset := ht
  exact hf

theorem tells_commit {f : Unit → Handler β} (hf : Tells actor s.committed (f ())) : Tells actor s (commit >>= f) := by
  refine Handler.follows_commit trivial (fun _ _ _ => trivial) fun t ht => ?_
  obtain rfl : t = s.committed := ht
  exact hf

theorem tells_rollback {f : Unit → Handler β} (hf : Tells actor s.reset (f ())) : Tells actor s (rollback >>= f) := by
  refine Handler.follows_rollback trivial (fun _ _ _ => trivial) fun t ht => ?_
  obtain rfl : t = s.reset := ht
  exact hf

theorem tells_outer {x : Io} (hx : Truthful s x) {f : x.Ans → Handler β} (hf : ∀ r, Tells actor s (f r)) :
    Tells actor s (perform (.outer x) >>= f) := by
  refine Handler.follows_perform hx fun r t ht => ?_
  obtain rfl : t = s := ht
  exact hf r

theorem tells_ofResult {x : Except AppError α} {f : α → Handler β} (hf : ∀ a, x = .ok a → Tells actor s (f a)) :
    Tells actor s (ofResult x >>= f) := Handler.follows_ofResult (fun _ _ => trivial) hf

theorem tells_refuseIf {b : Bool} {e : AppError} {f : Unit → Handler β} (hf : Tells actor s (f ())) :
    Tells actor s (refuseIf b e >>= f) := Handler.follows_refuseIf (fun _ => trivial) fun _ => hf

theorem tells_map {f : α → β} {p : Handler α} (h : Tells actor s p) : Tells actor s (f <$> p) := Handler.follows_map h

theorem tells_put {key : String} {body : Bytes} {ct : String} {f : Unit → Handler β} (hf : Tells actor s (f ())) :
    Tells actor s (put key body ct >>= f) := by
  rw [put, bind_assoc]
  exact tells_outer (by trivial) fun _ => tells_ofResult fun _ _ => hf

theorem tells_toBytes {body : Bytes} {limit : Nat} {f : Bytes → Handler β} (hf : ∀ bytes, Tells actor s (f bytes)) :
    Tells actor s (toBytes body limit >>= f) := by
  rw [toBytes, bind_assoc]
  refine tells_outer (by trivial) fun r => ?_
  cases r with
  | ok bytes => exact hf bytes
  | error e => exact tells_throw

theorem tells_sweep {keys : List String} {f : Unit → Handler β} (hf : Tells actor s (f ())) :
    Tells actor s (SessionRoutes.sweep keys >>= f) := by
  rw [SessionRoutes.sweep]
  split
  · exact hf
  · rw [bind_assoc]
    exact tells_outer (by trivial) fun _ => hf

/-- A session row that was read, and its id. -/
theorem seen_guild {db : Db} {x : Session} {id : Uuid} {g : Int} (hx : sessionsT.put x ∈ db) (hid : x.id = id)
    (hg : x.guildId = g) : (id, g) ∈ guilds db := mem_guilds.2 ⟨x, hx, by rw [hid, hg]⟩

theorem guilds_mono {db db' : Db} {p : Uuid × Int} (h : p ∈ guilds db) (hsub : ∀ r ∈ db, r ∈ db') : p ∈ guilds db' := by
  obtain ⟨x, hx, hp⟩ := mem_guilds.1 h
  exact mem_guilds.2 ⟨x, hsub _ hx, hp⟩

/-- What a query for one session reads. -/
theorem read_session {id : Uuid} {rows : Db} {ws : List (Write Row Key)} {x : Session}
    (hran : Ran (Sessions.getSql id) rows ws) (hx : sessionsT.put x ∈ rows) : x.id = id := by
  obtain ⟨env, snap, alive, cur, hrun⟩ := hran
  have hmem : x ∈ sessionsT.rows rows := sessionsT.mem_rows.2 hx
  rw [(select_ok hrun).1] at hmem
  simpa [Sessions.byId] using (List.mem_filter.1 hmem).2

theorem locked_session {id : Uuid} {rows : Db} {ws : List (Write Row Key)} {x : Session}
    (hran : Ran (Sessions.getInTxSql id) rows ws) (hx : sessionsT.put x ∈ rows) : x.id = id := by
  obtain ⟨env, snap, alive, cur, hrun⟩ := hran
  simp only [Sessions.getInTxSql, Table.forUpdate, Stmt.run, Except.ok.injEq, Prod.mk.injEq] at hrun
  rw [← hrun.1] at hx
  obtain ⟨t, heq, -, ht, -⟩ := (mem_hits sessionsT).1 hx
  obtain rfl := sessionsT.put_inj heq
  simpa [Sessions.byId] using ht

/-- `SELECT … FOR UPDATE`, or an early return: the session is seen. -/
theorem tells_getInTx {id : Uuid} {f : Session → Handler β}
    (h : ∀ rows x, .session x ∈ rows → x.id = id → Tells actor (s.wrote rows rows [] .tx) (f x)) :
    Tells actor s (Sessions.getInTx id >>= f) := by
  rw [Sessions.getInTx, bind_assoc]
  refine tells_fetchOptional (stated_forUpdate _) (fun _ _ _ => tells_throw) fun rows ws x hran hx => ?_
  have hid : x.id = id := locked_session hran hx
  obtain ⟨env, snap, alive, cur, hrun⟩ := hran
  simp only [Stmt.run, Except.ok.injEq, Prod.mk.injEq] at hrun
  rw [← hrun.2]
  exact h rows x hx hid

theorem tells_guildId {id : Uuid} {f : Int → Handler β}
    (h : ∀ rows g, (id, g) ∈ guilds rows → Tells actor (s.wrote [] rows [] .pool) (f g)) :
    Tells actor s (Sessions.guildIdForSession id >>= f) := by
  rw [Sessions.guildIdForSession, bind_assoc]
  refine tells_fetchOptional (stated_select _) (fun _ _ _ => tells_throw) fun rows ws x hran hx => ?_
  have hguild : (id, x.guildId) ∈ guilds rows := seen_guild hx (read_session hran hx) rfl
  obtain ⟨env, snap, alive, cur, hrun⟩ := hran
  rw [(select_ok hrun).2]
  exact h rows x.guildId hguild

end

/-! ## The handlers -/

section
variable {β : Type} {svc actor : String} {s : Told Row Key}

/-! ### Sessions -/

theorem create_tells (svc : String) (input : Sessions.CreateSession) :
    Tells svc s (SessionRoutes.create svc input) := by
  rw [SessionRoutes.create, Sessions.create]
  refine tells_fetchOne (stated_insert fun _ h => by cases h) fun _ _ _ _ _ => tells_append rfl fun _ _ _ => ?_
  exact tells_outer (by trivial) fun _ => tells_pure

/-- What an UPDATE of one session returns. -/
theorem updated_session {id : Uuid} {set : Env → Session → Session} {hk : ∀ e, sessionsT.Keeps (set e)} {rows : Db}
    {ws : List (Write Row Key)} {x : Session} (hran : Ran (sessionsT.update (Sessions.byId id) set hk) rows ws)
    (hx : sessionsT.put x ∈ rows) : .update (.session x) ∈ ws ∧ ∃ e t, t.id = id ∧ x = set e t := by
  obtain ⟨env, snap, alive, cur, hrun⟩ := hran
  obtain ⟨hrows, rfl, -⟩ := update_ok hrun
  refine ⟨List.mem_map.2 ⟨_, hx, rfl⟩, ?_⟩
  rw [hrows] at hx
  obtain ⟨t, ht, heq⟩ := List.mem_map.1 hx
  obtain ⟨t', hput, -, hp, -⟩ := (mem_hits sessionsT).1 (sessionsT.mem_rows.1 ht)
  obtain rfl := sessionsT.put_inj hput
  exact ⟨env, t, by simpa [Sessions.byId] using hp, (sessionsT.put_inj heq).symm⟩

/-- The status of a session stored as `old` is written as `new`. -/
structure StatusSet (id : Uuid) (old new : SessionStatus) (rows : Db) (ws : List (Write Row Key)) : Prop where
  written : ∃ x, .update (.session x) ∈ ws ∧ x.id = id ∧ x.status = new
  stored : ∃ x, .session x ∈ rows ∧ x.id = id ∧ x.status = old

theorem StatusSet.mono {id : Uuid} {old new : SessionStatus} {rows rows' : Db} {ws ws' : List (Write Row Key)}
    (h : StatusSet id old new rows ws) (hrows : ∀ r ∈ rows, r ∈ rows') (hws : ∀ w ∈ ws, w ∈ ws') :
    StatusSet id old new rows' ws' where
  written := h.written.imp fun _ hx => ⟨hws _ hx.1, hx.2⟩
  stored := h.stored.imp fun _ hx => ⟨hrows _ hx.1, hx.2⟩

theorem tells_stateChanged {id : Uuid} {g : Int} {old new : SessionStatus} {f : Unit → Handler β}
    (h : ∃ d ∈ s.done, StatusSet id old new d.1 d.2) (hguild : (id, g) ∈ guilds s.seen) (hf : Tells actor s (f ())) :
    Tells actor s (SessionRoutes.stateChanged id g old new >>= f) := by
  obtain ⟨d, hd, ⟨x, hx, hid, hnew⟩, hstored⟩ := h
  rw [SessionRoutes.stateChanged, bind_assoc]
  refine tells_outer (by trivial) fun now => tells_outer ?_ fun _ => hf
  exact ⟨⟨d, hd, _, hx, hid, hnew, hstored⟩, hguild⟩

/-- The other columns of a session, and what follows. -/
theorem tells_patched {id : Uuid} {body : SessionRoutes.PatchSession} {updated : Session}
    {change : Option (SessionStatus × SessionStatus)} (hguild : (id, updated.guildId) ∈ guilds s.seen)
    (hchange : ∀ old new, change = some (old, new) → StatusSet id old new s.held s.pending) :
    Tells svc s (SessionRoutes.patchFields id body updated >>= fun updated =>
        AuditLog.appendTx (SessionRoutes.entry svc id "patched" (.obj
          [("status", .str updated.status.asStr), ("ended_at", Json.optTime updated.endedAt)])) >>= fun _ =>
        commit >>= fun _ => SessionRoutes.announceChange id updated.guildId change >>= fun _ => pure updated) := by
  have rest : ∀ (s : Told Row Key) (y : Session), (id, y.guildId) ∈ guilds s.seen →
      (∀ old new, change = some (old, new) → StatusSet id old new s.held s.pending) →
      Tells svc s (AuditLog.appendTx (SessionRoutes.entry svc id "patched" (.obj
        [("status", .str y.status.asStr), ("ended_at", Json.optTime y.endedAt)])) >>= fun _ =>
      commit >>= fun _ => SessionRoutes.announceChange id y.guildId change >>= fun _ => pure y) := by
    intro s y hguild hchange
    refine tells_appendTx rfl fun rows ws _ => tells_commit ?_
    cases change with
    | none => exact tells_pure
    | some c =>
      rw [SessionRoutes.announceChange, bind_assoc]
      refine tells_stateChanged ⟨_, Told.committed_last, ?_⟩ (by simp [hguild]) ?_
      · exact (hchange c.1 c.2 rfl).mono (fun r hr => Told.mem_wrote_held hr) fun w hw => by simp [hw]
      · exact tells_outer (by trivial) fun _ => tells_pure
  rw [SessionRoutes.patchFields]
  split
  · refine tells_fetchOne (stated_fields id body.endedAt body.participantCount) fun rows ws y hran hy => rest _ y ?_ ?_
    · obtain ⟨-, e, t, hid, rfl⟩ := updated_session hran hy
      have hseen : (id, (Sessions.setFields body.endedAt body.participantCount e t).guildId) ∈ guilds rows :=
        seen_guild hy hid rfl
      simp [hseen]
    · exact fun old new hc => (hchange old new hc).mono (fun r hr => Told.mem_wrote_held hr) fun w hw => by simp [hw]
  · exact rest s updated hguild hchange

/-- What an UPDATE of the status makes known. -/
theorem status_written {id : Uuid} {new : SessionStatus} {rows : Db} {ws : List (Write Row Key)} {x : Session}
    (hran : Ran (Sessions.updateStatusSql id new) rows ws) (hx : sessionsT.put x ∈ rows) :
    (∃ x, .update (.session x) ∈ ws ∧ x.id = id ∧ x.status = new) ∧ (id, x.guildId) ∈ guilds rows := by
  obtain ⟨hw, e, t, hid, rfl⟩ := updated_session hran hx
  exact ⟨⟨_, hw, hid, rfl⟩, seen_guild hx hid rfl⟩

theorem patch_tells (svc : String) (id : Uuid) (body : SessionRoutes.PatchSession) :
    Tells svc s (SessionRoutes.patch svc id body) := by
  rw [SessionRoutes.patch]
  refine tells_begin (tells_getInTx fun rows existing hmem hid => ?_)
  have hguild : (id, existing.guildId) ∈ guilds rows := seen_guild hmem hid rfl
  cases hs : body.status with
  | none => exact tells_patched (by simp [hguild]) (fun old new hc => by cases hc)
  | some new =>
    simp only [SessionRoutes.patchStatus, Sessions.updateStatus, bind_assoc, pure_bind]
    refine tells_refuseIf (tells_fetchOne (stated_status id new) fun rows' ws y hran hy => ?_)
    obtain ⟨⟨x, hx, hxid, hnew⟩, hguild'⟩ := status_written hran hy
    refine tells_patched (by simp [hguild']) fun old new' hc => ⟨⟨x, by simp [hx], hxid, ?_⟩, existing, ?_, hid, ?_⟩
    all_goals split at hc <;> cases hc
    · exact hnew
    · exact Told.mem_wrote_held (by simp [hmem])
    · rfl

theorem resume_tells (st : AppState) (svc : String) (id : Uuid) (body : SessionRoutes.ResumeBody) :
    Tells svc s (SessionRoutes.resume st svc id body) := by
  rw [SessionRoutes.resume, Sessions.resumeFromAbandoned]
  refine tells_begin (tells_getInTx fun rows existing hmem hsid => ?_)
  refine Handler.follows_refuseIf (fun _ => trivial) fun habandoned => ?_
  refine tells_outer (by trivial) fun now => tells_refuseIf ?_
  refine tells_fetchOne (stated_resumed id) fun rows' ws y hran hy => ?_
  obtain ⟨hw, e, t, hid, rfl⟩ := updated_session hran hy
  have hseen : (id, (Sessions.setResumed e t).guildId) ∈ guilds rows' := seen_guild hy hid rfl
  refine tells_appendTx rfl fun _ _ _ => tells_commit (tells_stateChanged
    ⟨_, Told.committed_last, ?_⟩ ?_ ?_)
  · refine ⟨⟨Sessions.setResumed e t, by simp [hw], hid, rfl⟩, existing, ?_, hsid, ?_⟩
    · exact Told.mem_wrote_held (Told.mem_wrote_held (by simp [hmem]))
    · simpa using habandoned
  · simp [hseen]
  · exact tells_pure

theorem deleteCascade_tells (svc : String) (id : Uuid) : Tells svc s (SessionRoutes.deleteCascade svc id) := by
  rw [SessionRoutes.deleteCascade]
  refine tells_begin (tells_getInTx fun rows existing hmem hid => ?_)
  have hguild : (id, existing.guildId) ∈ guilds rows := seen_guild hmem hid rfl
  simp only [SessionRoutes.deleteChildren, Chunks.deleteForSession, Uniform.deleteAllForSession,
    MuteRanges.deleteForSession, bind_assoc, pure_bind]
  refine tells_fetchAll (stated_delete _) fun _ _ _ => ?_
  refine tells_execute (stated_delete _) fun _ _ _ => ?_
  refine tells_execute (stated_delete _) fun _ _ _ => ?_
  refine tells_execute (stated_delete _) fun _ _ _ => ?_
  refine tells_execute (stated_delete _) fun _ _ _ => ?_
  refine tells_execute (stated_delete _) fun _ _ _ => ?_
  refine tells_execute (stated_delete _) fun _ _ _ => ?_
  rw [Sessions.updateStatus]
  refine tells_fetchOne (stated_status id .deleted) fun rows' ws y hran hy => ?_
  obtain ⟨⟨x, hx, hxid, hnew⟩, -⟩ := status_written hran hy
  refine tells_appendTx rfl fun _ _ _ => tells_commit (tells_sweep (tells_stateChanged
    ⟨_, Told.committed_last, ⟨x, by simp [hx], hxid, hnew⟩, existing, ?_, hid, rfl⟩ ?_ tells_pure))
  · iterate 9 refine Told.mem_wrote_held ?_
    simp [hmem]
  · simp [hguild]

/-! ### Chunks -/

/-- What the INSERT of a chunk writes. -/
theorem inserted_chunk {x : Chunks.Insert} {rows : Db} {ws : List (Write Row Key)} {c : ChunkRow}
    (hran : Ran (Chunks.insertSql x) rows ws) (hc : chunksT.put c ∈ rows) :
    .insert (.chunk c) ∈ ws ∧ c.sessionId = x.sessionId ∧ c.pseudoId = x.pseudoId ∧ c.sizeBytes = x.sizeBytes := by
  obtain ⟨env, snap, alive, cur, hrun⟩ := hran
  obtain ⟨t, ht, -, -, -, rfl, rfl⟩ := insert_ok hrun
  obtain rfl := chunksT.put_inj (List.mem_singleton.1 hc)
  unfold Chunks.nextRow at ht
  split at ht
  · obtain rfl := Except.ok.inj ht
    exact ⟨by simp [chunksT], rfl, rfl, rfl⟩
  · cases ht

theorem upload_tells (st : AppState) (svc : String) (r : ChunkRoutes.UploadRequest) :
    Tells svc s (ChunkRoutes.upload st svc r) := by
  rw [ChunkRoutes.upload]
  refine tells_ofResult fun pid _ => tells_ofResult fun h _ => tells_begin ?_
  rw [Chunks.lookupByClientId]
  refine tells_fetchOptional (stated_select _) (fun _ _ _ => ?_) fun _ _ _ _ _ => tells_rollback tells_pure
  rw [ChunkRoutes.store, ChunkRoutes.readBody]
  simp only [Chunks.insert, bind_assoc, pure_bind]
  refine tells_getInTx fun rows session hmem hid => tells_toBytes fun bytes => tells_refuseIf ?_
  have hguild : (r.sessionId, session.guildId) ∈ guilds rows := seen_guild hmem hid rfl
  refine tells_fetchOne (stated_writes (Chunks.insertSql_writes _) (by simp)) fun rows' ws c hran hc => ?_
  obtain ⟨hw, hsid, hpid, hsize⟩ := inserted_chunk hran hc
  refine tells_put (tells_outer (by trivial) fun _ => ?_)
  refine tells_execute (stated_writes (Chunks.setKeySql_writes _ _ _ _) (by simp)) fun _ _ _ => ?_
  refine tells_appendTx rfl fun _ _ _ => tells_commit (tells_outer (by trivial) fun now => tells_outer ?_ fun _ => tells_pure)
  refine ⟨⟨_, Told.committed_last, .insert (.chunk c), ?_, hsid, hpid, rfl, hsize⟩, ?_⟩
  · simp [hw]
  · simp [Event.sessionId, Event.guildId, hguild]

/-! ### Participants and users -/

theorem addOne_tells (svc : String) (sid : Uuid) (input : Participants.AddParticipant) :
    Tells svc s (ParticipantRoutes.addOne svc sid input) := by
  rw [ParticipantRoutes.addOne, Participants.add]
  refine tells_fetchOne (stated_writes (Participants.addSql_writes sid input) (by simp)) fun _ _ _ _ _ => ?_
  exact tells_append rfl fun _ _ _ => tells_pure

theorem addBatch_tells (svc : String) (sid : Uuid) (ps : List Participants.AddParticipant) :
    Tells svc s (ParticipantRoutes.addBatch svc sid ps) := by
  rw [ParticipantRoutes.addBatch, Participants.addMany]
  split
  · exact tells_append rfl fun _ _ _ => tells_pure
  · simp only [bind_assoc, pure_bind]
    refine tells_begin (tells_execute (stated_writes (Participants.seedUsersSql_writes ps) (by simp)) ?_)
    intro _ _ _
    refine tells_fetchAll (stated_writes (Participants.addManySql_writes sid ps) (by simp)) fun _ _ _ => ?_
    exact tells_commit (tells_append rfl fun _ _ _ => tells_pure)

theorem tells_found {id : Uuid} {q : Sql} (hq : Stated actor .pool q) {f : Participant → Handler β}
    (h : ∀ s p, Tells actor s (f p)) : Tells actor s (Participants.found id q >>= f) := by
  rw [Participants.found, bind_assoc]
  exact tells_fetchOptional hq (fun _ _ _ => tells_throw) fun _ _ p _ _ => h _ p

theorem stated_consent (id : Uuid) (input : Participants.UpdateConsent) :
    Stated actor via (Participants.updateConsentSql id input) :=
  stated_writes (D := (· = .participants)) (update_writesIn (fun _ => rfl) _ _ _) (by simp)

theorem stated_license (id : Uuid) (input : Participants.UpdateLicense) :
    Stated actor via (Participants.updateLicenseSql id input) :=
  stated_writes (D := (· = .participants)) (update_writesIn (fun _ => rfl) _ _ _) (by simp)

theorem patchParticipantConsent_tells (svc : String) (id : Uuid) (input : Participants.UpdateConsent) :
    Tells svc s (ParticipantRoutes.patchConsent svc id input) := by
  rw [ParticipantRoutes.patchConsent, Participants.updateConsent, bind_assoc]
  refine tells_refuseIf (tells_found (stated_consent id input) fun s p => ?_)
  exact tells_append rfl fun _ _ _ => tells_pure

theorem patchLicense_tells (svc : String) (id : Uuid) (input : Participants.UpdateLicense) :
    Tells svc s (ParticipantRoutes.patchLicense svc id input) := by
  rw [ParticipantRoutes.patchLicense, Participants.updateLicense]
  exact tells_found (stated_license id input) fun s p => tells_append rfl fun _ _ _ => tells_pure

theorem upsertUser_tells (svc : String) (pid : PseudoId) : Tells svc s (UserRoutes.upsertUser svc pid) := by
  rw [UserRoutes.upsertUser, Users.upsert]
  refine tells_fetchOne (stated_writes (Users.upsertSql_writes pid) (by simp)) fun _ _ _ _ _ => ?_
  exact tells_append rfl fun _ _ _ => tells_pure

theorem postDisplay_tells (svc raw : String) (input : DisplayNames.UpsertDisplayName) :
    Tells svc s (UserRoutes.postDisplay svc raw input) := by
  rw [UserRoutes.postDisplay, Handler.pseudoId]
  refine tells_ofResult fun pid _ => ?_
  rw [Users.upsert]
  refine tells_fetchOne (stated_writes (Users.upsertSql_writes pid) (by simp)) fun _ _ _ _ _ => ?_
  rw [DisplayNames.upsert, bind_assoc]
  refine tells_refuseIf ?_
  refine tells_fetchOne (stated_writes (DisplayNames.upsertSql_writes pid input) (by simp)) fun _ _ _ _ _ => ?_
  exact tells_append rfl fun _ _ _ => tells_pure

theorem patchUser_tells (svc raw : String) (isAdmin : Bool) : Tells svc s (UserRoutes.patchUser svc raw isAdmin) := by
  rw [UserRoutes.patchUser, Handler.pseudoId]
  refine tells_ofResult fun pid _ => tells_begin ?_
  rw [Users.setAdmin]
  refine tells_fetchOne (stated_writes (Users.setAdminSql_writes pid isAdmin) (by simp)) fun _ _ _ _ _ => ?_
  exact tells_appendTx rfl fun _ _ _ => tells_commit tells_pure

theorem grant_tells (st : AppState) (req : UserRoutes.GrantRequest) :
    Tells "admin_bootstrap" s (UserRoutes.grant st req) := by
  rw [UserRoutes.grant, Users.setAdmin]
  refine tells_refuseIf (tells_begin ?_)
  refine tells_fetchOne (stated_writes (Users.setAdminSql_writes _ _) (by simp)) fun _ _ _ _ _ => ?_
  exact tells_appendTx rfl fun _ _ _ => tells_commit tells_pure

/-! ### Metadata -/

theorem replaceMetadata_tells (svc : String) (id : Uuid) (body : Json) :
    Tells svc s (MetadataRoutes.replace svc id body) := by
  rw [MetadataRoutes.replace, Metadata.replace, bind_assoc]
  refine tells_outer (by trivial) fun etag => ?_
  refine tells_fetchOne (stated_writes (Metadata.upsertSql_writes id body etag) (by simp)) fun _ _ _ _ _ => ?_
  exact tells_append rfl fun _ _ _ => tells_pure

theorem shallowPatch_tells (svc : String) (id : Uuid) (headers : HeaderMap) (body : Json) :
    Tells svc s (MetadataRoutes.shallowPatch svc id headers body) := by
  rw [MetadataRoutes.shallowPatch, Metadata.shallowMerge]
  simp only [bind_assoc, pure_bind]
  have merge : ∀ (s : Told Row Key) (x : Json × ETag), Tells svc s
      (refuseIf ((ifMatch headers).any (· ≠ x.2)) (.preconditionFailed x.2) >>= fun _ =>
      ofResult (Metadata.mergeShallow x.1 body) >>= fun merged => newEtag >>= fun etag =>
      fetchOne .tx metadataT (Metadata.upsertSql id merged etag) >>= fun row => commit >>= fun _ =>
      AuditLog.append (MetadataRoutes.entry svc id "merged" row.etag) >>= fun _ => pure row) := by
    intro s x
    refine tells_refuseIf (tells_ofResult fun merged _ => tells_outer (by trivial) fun etag => ?_)
    refine tells_fetchOne (stated_writes (Metadata.upsertSql_writes id merged etag) (by simp)) ?_
    intro _ _ _ _ _
    exact tells_commit (tells_append rfl fun _ _ _ => tells_pure)
  refine tells_begin (tells_fetchOptional (stated_forUpdate _) (fun _ _ _ => ?_) fun _ _ row _ _ => ?_)
  · rw [Metadata.current, bind_assoc]
    exact tells_outer (by trivial) fun etag => merge _ _
  · exact merge _ (row.blob, row.etag)

/-! ### Segments, beats and scenes -/

/-- A row is written as this one of the session. -/
def Inserted (rt : ResourceTable) (sid : Uuid) (ws : List (Write Row Key)) (u : Uniform.UniformRow) : Prop :=
  ∃ r, .insert (.uniform rt r) ∈ ws ∧ r.id = u.id ∧ r.sessionId = sid

theorem Inserted.mono {rt : ResourceTable} {sid : Uuid} {ws ws' : List (Write Row Key)} {u : Uniform.UniformRow}
    (h : Inserted rt sid ws u) (hsub : ∀ w ∈ ws, w ∈ ws') : Inserted rt sid ws' u := by
  obtain ⟨r, hr, hids⟩ := h
  exact ⟨r, hsub _ hr, hids⟩

theorem inserted_row {rt : ResourceTable} {sid : Uuid} {inp : Uniform.CreateInput} {etag : ETag} {rows : Db}
    {ws : List (Write Row Key)} {r : UniformPgRow} {u : Uniform.UniformRow}
    (hran : Ran (Uniform.insertRowSql rt sid svc inp etag) rows ws) (hr : (uniformT rt).put r ∈ rows)
    (hu : Uniform.rowFromPg r = .ok u) : Inserted rt sid ws u := by
  obtain ⟨env, snap, alive, cur, hrun⟩ := hran
  obtain ⟨t, ht, -, -, -, rfl, rfl⟩ := insert_ok hrun
  obtain rfl := (uniformT rt).put_inj (List.mem_singleton.1 hr)
  obtain rfl := Except.ok.inj ht
  exact ⟨_, by simp [uniformT], (rowFromPg_ids hu).1, rfl⟩

/-- The loop of `bulk_insert`: what it has written grows, and holds every row
it returns. -/
theorem tells_insertRows {rt : ResourceTable} {sid : Uuid} {inputs : List Uniform.CreateInput} :
    ∀ {s : Told Row Key} {f : List Uniform.UniformRow → Handler β},
      (∀ s' us, (∀ u ∈ us, Inserted rt sid s'.pending u) → (∀ w ∈ s.pending, w ∈ s'.pending) →
        (∀ r ∈ s.seen, r ∈ s'.seen) → Tells svc s' (f us)) →
      Tells svc s (Uniform.insertRows rt sid svc inputs >>= f) := by
  induction inputs with
  | nil => exact fun h => h _ [] (by simp) (fun _ hw => hw) fun _ hr => hr
  | cons inp rest ih =>
    intro s f h
    simp only [Uniform.insertRows, Uniform.insertRowInTx, bind_assoc, pure_bind]
    refine tells_outer (by trivial) fun etag => ?_
    refine tells_fetchOne (stated_writes (D := (· = .uniform rt)) (tableInsert_writesIn (fun _ => rfl) _) (by simp)) ?_
    refine fun rows ws r hran hr => tells_ofResult fun u hu => ih fun s' us hus hpending hseen => ?_
    refine h s' (u :: us) (fun u' hu' => ?_) (fun w hw => hpending w (by simp [hw])) fun r hr => hseen r (by simp [hr])
    rcases List.mem_cons.1 hu' with rfl | hu'
    · exact (inserted_row hran hr hu).mono fun w hw => hpending w (by simp [hw])
    · exact hus u' hu'

theorem created_truthful {rt : ResourceTable} {sid : Uuid} {g : Int} {u : Uniform.UniformRow} {now : Timestamp}
    (hu : ∃ d ∈ s.done, Inserted rt sid d.2 u) (hguild : (sid, g) ∈ guilds s.seen) :
    Truthful s (.send (UniformRoutes.created now { sessionId := sid, guildId := g, id := u.id } rt)) := by
  obtain ⟨d, hd, r, hr, hid, hsid⟩ := hu
  cases rt <;> exact ⟨⟨d, hd, _, hr, hid, hsid⟩, hguild⟩

theorem updated_truthful {rt : ResourceTable} {r : UniformPgRow} {id sid : Uuid} {g : Int} {now : Timestamp}
    (hr : ∃ d ∈ s.done, .update (.uniform rt r) ∈ d.2) (hid : r.id = id) (hsid : r.sessionId = sid)
    (hguild : (sid, g) ∈ guilds s.seen) :
    Truthful s (.send (UniformRoutes.updated now { sessionId := sid, guildId := g, id := id } rt)) := by
  obtain ⟨d, hd, hr⟩ := hr
  cases rt <;> exact ⟨⟨d, hd, _, hr, hid, hsid⟩, hguild⟩

theorem deleted_truthful {rt : ResourceTable} {r : UniformPgRow} {sid : Uuid} {g : Int} {now : Timestamp}
    (hr : ∃ d ∈ s.done, .uniform rt r ∈ d.1 ∧ .delete (.uniform rt r.id) ∈ d.2) (hsid : r.sessionId = sid)
    (hguild : (sid, g) ∈ guilds s.seen) :
    Truthful s (.send (UniformRoutes.deleted now { sessionId := sid, guildId := g, id := r.id } rt)) := by
  obtain ⟨d, hd, hmem, hw⟩ := hr
  cases rt <;> exact ⟨⟨d, hd, _, hw, rfl, r, hmem, rfl, hsid⟩, hguild⟩

theorem tells_announce {rt : ResourceTable} {sid : Uuid} {g : Int} {us : List Uniform.UniformRow} :
    ∀ {s : Told Row Key} {f : Unit → Handler β}, (∀ u ∈ us, ∃ d ∈ s.done, Inserted rt sid d.2 u) → (sid, g) ∈ guilds s.seen →
      (∀ s', Tells svc s' (f ())) → Tells svc s (UniformRoutes.announce rt svc sid g us >>= f) := by
  induction us with
  | nil => exact fun _ _ h => h _
  | cons u rest ih =>
    intro s f hus hguild h
    simp only [UniformRoutes.announce, bind_assoc]
    have hdone : ∀ u' ∈ u :: rest, ∀ more, ∃ d ∈ s.done ++ more, Inserted rt sid d.2 u' :=
      fun u' hu' more => (hus u' hu').imp fun d hd => ⟨List.mem_append_left _ hd.1, hd.2⟩
    refine tells_append rfl fun _ _ _ => tells_outer (by trivial) fun now => tells_outer ?_ fun _ => ih ?_ ?_ h
    · exact created_truthful (hdone u List.mem_cons_self _) (by simp [hguild])
    · exact fun u' hu' => hdone u' (List.mem_cons_of_mem _ hu') _
    · simp [hguild]

theorem bulkCreate_tells (rt : ResourceTable) (svc : String) (sid : Uuid) (req : UniformRoutes.BulkRequest) :
    Tells svc s (UniformRoutes.bulkCreate rt svc sid req) := by
  rw [UniformRoutes.bulkCreate]
  refine tells_guildId fun rows g hguild => ?_
  rw [Uniform.bulkInsert]
  split
  · simp only [pure_bind]
    exact tells_announce (by simp) (by simp [hguild]) fun _ => tells_pure
  · simp only [bind_assoc, pure_bind]
    refine tells_ofResult fun _ _ => tells_begin (tells_fetchAll (stated_select _) fun rows' ws _ => ?_)
    refine tells_insertRows fun s' us hus _ hseen => tells_commit (tells_announce (fun u hu => ?_) ?_ fun _ => tells_pure)
    · exact ⟨_, Told.committed_last, hus u hu⟩
    · exact guilds_mono hguild fun r hr => hseen r (by simp [hr])

/-- What the UPDATE of a row writes. -/
theorem updated_row {rt : ResourceTable} {id : Uuid} {patched : Uniform.UniformRow} {author : Option PseudoId}
    {etag : ETag} {rows : Db} {ws : List (Write Row Key)} {r : UniformPgRow}
    (hran : Ran (Uniform.updateSql rt id patched author etag) rows ws) (hr : (uniformT rt).put r ∈ rows) :
    .update (.uniform rt r) ∈ ws ∧ r.id = id := by
  obtain ⟨env, snap, alive, cur, hrun⟩ := hran
  obtain ⟨hrows, rfl, -⟩ := update_ok hrun
  refine ⟨List.mem_map.2 ⟨_, hr, rfl⟩, ?_⟩
  rw [hrows] at hr
  obtain ⟨t, ht, heq⟩ := List.mem_map.1 hr
  obtain ⟨t', hput, -, hp, -⟩ := (mem_hits (uniformT rt)).1 ((uniformT rt).mem_rows.1 ht)
  obtain rfl := (uniformT rt).put_inj hput
  obtain rfl := (uniformT rt).put_inj heq
  have hid : t.id = id := by simpa [Uniform.byId] using hp
  exact hid

theorem tells_rowFound {rt : ResourceTable} {id : Uuid} {via : Via} {q : Sql} (hq : Stated actor via q)
    {f : UniformPgRow → Handler β}
    (h : ∀ rows ws r, Ran q rows ws → (uniformT rt).put r ∈ rows →
      Tells actor (s.wrote (q.found rows) rows ws via) (f r)) :
    Tells actor s (Uniform.found via rt id q >>= f) := by
  rw [Uniform.found, bind_assoc]
  exact tells_fetchOptional hq (fun _ _ _ => tells_throw) h

theorem patchRow_tells (rt : ResourceTable) (svc : String) (id : Uuid) (headers : HeaderMap) (body : Uniform.PatchInput) :
    Tells svc s (UniformRoutes.patchRow rt svc id headers body) := by
  rw [UniformRoutes.patchRow, Uniform.patch]
  simp only [bind_assoc, pure_bind]
  refine tells_begin (tells_rowFound (stated_forUpdate _) fun _ _ existing _ _ => tells_ofResult fun row _ => ?_)
  refine tells_refuseIf (tells_outer (by trivial) fun etag => ?_)
  refine tells_fetchOne (stated_writes (D := (· = .uniform rt)) (update_writesIn (fun _ => rfl) _ _ _) (by simp)) ?_
  refine fun rows ws r hran hr => tells_ofResult fun u hu => tells_commit (tells_append rfl fun _ _ _ => ?_)
  refine tells_guildId fun rows' g hguild => tells_outer (by trivial) fun now => tells_outer ?_ fun _ => tells_pure
  obtain ⟨hw, hid⟩ := updated_row hran hr
  refine updated_truthful ⟨_, Told.mem_wrote_done (Told.mem_wrote_done Told.committed_last), ?_⟩ hid (rowFromPg_ids hu).2 ?_
  · simp [hw]
  · simp [hguild]

/-- What the DELETE of a row writes. -/
theorem deleted_row {τ : Type} {T : Table Row τ} {p : τ → Bool} {rows : Db} {ws : List (Write Row Key)} {t : τ}
    (hran : Ran (T.delete p : Sql) rows ws) (ht : T.put t ∈ rows) : p t = true ∧ .delete (key (T.put t)) ∈ ws := by
  obtain ⟨env, snap, alive, cur, hrun⟩ := hran
  obtain ⟨rfl, rfl⟩ := delete_ok hrun
  obtain ⟨t', heq, -, hp, -⟩ := (mem_hits T).1 ht
  obtain rfl := T.put_inj heq
  exact ⟨hp, List.mem_map.2 ⟨_, dead_subset_cascade ht, rfl⟩⟩

theorem deleteRow_tells (rt : ResourceTable) (svc : String) (id : Uuid) :
    Tells svc s (UniformRoutes.deleteRow rt svc id) := by
  rw [UniformRoutes.deleteRow, Uniform.delete]
  simp only [bind_assoc]
  refine tells_rowFound (stated_delete _) ?_
  refine fun rows ws r hran hr => tells_ofResult fun u hu => tells_append rfl fun _ _ _ => ?_
  refine tells_guildId fun rows' g hguild => tells_outer (by trivial) fun now => tells_outer ?_ fun _ => tells_pure
  obtain ⟨hp, hw⟩ := deleted_row hran hr
  obtain rfl : r.id = id := by simpa [Uniform.byId] using hp
  refine deleted_truthful ⟨_, Told.mem_wrote_done (Told.mem_wrote_done Told.wrote_last), hr, hw⟩ (rowFromPg_ids hu).2 ?_
  simp [hguild]

/-! ### Mute ranges -/

theorem createMute_tells (svc : String) (sid : Uuid) (raw : String) (input : MuteRanges.CreateMuteRange) :
    Tells svc s (MuteRoutes.createMute svc sid raw input) := by
  rw [MuteRoutes.createMute, Handler.pseudoId]
  refine tells_ofResult fun pid _ => ?_
  rw [MuteRanges.create, bind_assoc]
  refine tells_refuseIf (tells_fetchOne (stated_writes (MuteRanges.createSql_writes sid pid input) (by simp)) ?_)
  refine fun rows ws m hran hm => tells_append rfl fun _ _ _ => ?_
  refine tells_guildId fun rows' g hguild => tells_outer (by trivial) fun now => tells_outer ?_ fun _ => tells_pure
  obtain ⟨env, snap, alive, cur, hrun⟩ := hran
  obtain ⟨t, ht, -, -, -, rfl, rfl⟩ := insert_ok hrun
  obtain rfl := mutesT.put_inj (List.mem_singleton.1 hm)
  obtain rfl := Except.ok.inj ht
  refine ⟨⟨_, Told.mem_wrote_done (Told.mem_wrote_done Told.wrote_last),
    .insert (.mute (MuteRanges.freshRow sid pid input env)), by simp [mutesT], rfl, rfl, rfl⟩, ?_⟩
  exact guilds_mono hguild fun r hr => by simp [hr]

theorem deleteMute_tells (svc : String) (sid : Uuid) (raw : String) (id : Uuid) :
    Tells svc s (MuteRoutes.deleteMute svc sid raw id) := by
  rw [MuteRoutes.deleteMute, Handler.pseudoId]
  refine tells_ofResult fun pid _ => ?_
  rw [MuteRanges.deleteOne, bind_assoc]
  refine tells_fetchOptional (stated_delete _)
    (fun _ _ _ => tells_throw) fun rows ws m hran hm => tells_append rfl fun _ _ _ => ?_
  refine tells_guildId fun rows' g hguild => tells_outer (by trivial) fun now => tells_outer ?_ fun _ => tells_pure
  obtain ⟨hp, hw⟩ := deleted_row hran hm
  obtain ⟨⟨-, hsid⟩, hpid⟩ : (m.id = id ∧ m.sessionId = sid) ∧ m.pseudoId = pid := by simpa using hp
  exact ⟨⟨_, Told.mem_wrote_done (Told.mem_wrote_done Told.wrote_last), _, hw, rfl, m, hm, rfl, hsid, hpid⟩,
    by simp [Event.sessionId, Event.guildId, hguild]⟩

/-! ### The wipe and the consent tokens -/

/-- Three statements of the wipe, in a transaction. -/
theorem tells_deleteAudioRows {sid : Uuid} {pid : PseudoId} {f : List String × Nat × Nat → Handler β}
    (h : ∀ s' x, Tells actor s' (f x)) : Tells actor s (MuteRoutes.deleteAudioRows sid pid >>= f) := by
  rw [MuteRoutes.deleteAudioRows, Chunks.deleteForParticipant, Uniform.deleteForParticipantSegments,
    MuteRanges.deleteForParticipant]
  simp only [bind_assoc, pure_bind]
  refine tells_fetchAll (stated_delete _) ?_
  intro _ _ _
  refine tells_execute (stated_delete _) ?_
  intro _ _ _
  refine tells_execute (stated_delete _) ?_
  exact fun _ _ _ => h _ _

theorem tells_markWiped {sid : Uuid} {pid : PseudoId} {f : Unit → Handler β}
    (h : ∀ rows ws, Tells actor (s.wrote [] rows ws .pool) (f ())) :
    Tells actor s (Participants.markWiped sid pid >>= f) := by
  rw [Participants.markWiped, bind_assoc]
  exact tells_execute (stated_writes (Participants.markWipedSql_writes sid pid) (by simp))
    fun rows ws _ => h rows ws

/-- The audit row of a wipe is the change its event is about. -/
theorem wiped_truthful {e : AuditLog.Entry} {rows : Db} {ws : List (Write Row Key)} {sid : Uuid} {pid : PseudoId}
    {g : Int} {now : Timestamp} (hran : Ran (AuditLog.appendSql e) rows ws) (hdone : ∃ d ∈ s.done, ∀ w ∈ ws, w ∈ d.2)
    (hguild : (sid, g) ∈ guilds s.seen) (htype : e.resourceType = "participant_audio") (hsid : e.sessionId = some sid)
    (hpid : e.actorPseudo = some pid.raw) :
    Truthful s (.send (.audioDeleted now { sessionId := sid, guildId := g, pseudoId := pid })) := by
  obtain ⟨env, snap, alive, cur, hrun⟩ := hran
  obtain ⟨t, ht, -, -, -, -, rfl⟩ := insert_ok hrun
  obtain rfl := Except.ok.inj ht
  obtain ⟨d, hd, hsub⟩ := hdone
  exact ⟨⟨d, hd, _, hsub _ List.mem_cons_self, htype, hsid, hpid⟩, hguild⟩

theorem wipeParticipantAudio_tells (svc : String) (sid : Uuid) (raw : String) :
    Tells svc s (MuteRoutes.wipeParticipantAudio svc sid raw) := by
  rw [MuteRoutes.wipeParticipantAudio, Handler.pseudoId]
  refine tells_ofResult fun pid _ => tells_begin (tells_deleteAudioRows fun s' x => ?_)
  refine tells_appendTx rfl fun rows ws hran => tells_commit (tells_markWiped fun _ _ => tells_sweep ?_)
  refine tells_guildId fun rows' g hguild => tells_outer (by trivial) fun now => tells_outer ?_ fun _ => tells_pure
  refine wiped_truthful hran ⟨_, Told.mem_wrote_done (Told.mem_wrote_done Told.committed_last), fun w hw => ?_⟩ ?_ rfl rfl rfl
  · simp [hw]
  · simp [hguild]

theorem tells_validated {token : Uuid} {f : ConsentTokens.WithContext → Handler β}
    (h : ∀ s' ctx, Tells actor s' (f ctx)) : Tells actor s (ConsentRoutes.validated token >>= f) := by
  rw [ConsentRoutes.validated, ConsentTokens.validate]
  simp only [bind_assoc]
  refine tells_fetchOptional (stated_select _) (fun _ _ _ => tells_throw) fun _ _ ct _ _ => ?_
  simp only [bind_assoc, pure_bind]
  refine tells_fetchOne (stated_select _) fun _ _ x _ _ => tells_fetchOne (stated_select _) fun _ _ p _ _ => ?_
  exact h _ _

theorem createToken_tells (svc : String) (input : ConsentRoutes.CreateTokenRequest) :
    Tells svc s (ConsentRoutes.createToken svc input) := by
  rw [ConsentRoutes.createToken, ConsentTokens.create]
  refine tells_fetchOne (stated_insert fun _ h => by cases h) ?_
  exact fun _ _ _ _ _ => tells_append rfl fun _ _ _ => tells_pure

theorem getConsent_tells (token : Uuid) : Tells "consent_token" s (ConsentRoutes.getConsent token) := by
  rw [ConsentRoutes.getConsent, ← bind_pure (ConsentRoutes.validated token)]
  exact tells_validated fun _ _ => tells_pure

theorem patchConsent_tells (token : Uuid) (input : ConsentRoutes.PatchConsent) :
    Tells "consent_token" s (ConsentRoutes.patchConsent token input) := by
  rw [ConsentRoutes.patchConsent]
  refine tells_validated fun s ctx => ?_
  have finish : ∀ (s : Told Row Key) (p : Participant), Tells "consent_token" s
      (AuditLog.append (ConsentRoutes.patchedEntry ctx.session.id ctx.participant.id p input) >>= fun _ => pure p) :=
    fun s p => tells_append rfl fun _ _ _ => tells_pure
  have flags : ∀ (s : Told Row Key) (p : Participant), Tells "consent_token" s
      (ConsentRoutes.patchFlags ctx.participant.id p input >>= fun p =>
        AuditLog.append (ConsentRoutes.patchedEntry ctx.session.id ctx.participant.id p input) >>= fun _ => pure p) := by
    intro s p
    rw [ConsentRoutes.patchFlags]
    split
    · exact tells_found (stated_license _ _) finish
    · exact finish s p
  rw [ConsentRoutes.patchScope.eq_def]
  cases input.consentScope with
  | none => exact flags s _
  | some scope =>
    simp only [Participants.updateConsent, bind_assoc]
    exact tells_refuseIf (tells_found (stated_consent _ _) flags)

theorem deleteAudio_tells (token : Uuid) : Tells "consent_token" s (ConsentRoutes.deleteAudio token) := by
  rw [ConsentRoutes.deleteAudio]
  refine tells_validated fun s ctx => tells_begin (tells_deleteAudioRows fun s' x => ?_)
  refine tells_appendTx rfl fun rows ws hran => tells_commit (tells_markWiped fun _ _ => tells_sweep ?_)
  rw [ConsentRoutes.guildId, bind_assoc]
  refine tells_fetchOne (stated_select _) fun rows' ws' x hx hmem => ?_
  refine tells_outer (by trivial) fun now => tells_outer ?_ fun _ => tells_pure
  have hguild : (ctx.session.id, x.guildId) ∈ guilds rows' := seen_guild hmem (read_session hx hmem) rfl
  refine wiped_truthful hran ⟨_, Told.mem_wrote_done (Told.mem_wrote_done Told.committed_last), fun w hw => ?_⟩ ?_ rfl rfl rfl
  · simp [hw]
  · simp [hguild]

/-- Every handler. -/
theorem handle_tells (st : AppState) (req : Request) : Tells req.actor {} (handle st req) := by
  cases req with
  | createSession svc input => exact tells_map (create_tells svc input)
  | patchSession svc id body => exact tells_map (patch_tells svc id body)
  | resume svc id body => exact tells_map (resume_tells st svc id body)
  | deleteCascade svc id => exact tells_map (deleteCascade_tells svc id)
  | upload svc r => exact tells_map (upload_tells st svc r)
  | addOne svc sid input => exact tells_map (addOne_tells svc sid input)
  | addBatch svc sid ps => exact tells_map (addBatch_tells svc sid ps)
  | patchParticipantConsent svc id input => exact tells_map (patchParticipantConsent_tells svc id input)
  | patchLicense svc id input => exact tells_map (patchLicense_tells svc id input)
  | upsertUser svc pid => exact tells_map (upsertUser_tells svc pid)
  | postDisplay svc raw input => exact tells_map (postDisplay_tells svc raw input)
  | patchUser svc raw isAdmin => exact tells_map (patchUser_tells svc raw isAdmin)
  | grant req => exact tells_map (grant_tells st req)
  | replaceMetadata svc id body => exact tells_map (replaceMetadata_tells svc id body)
  | shallowPatch svc id headers body => exact tells_map (shallowPatch_tells svc id headers body)
  | bulkCreate rt svc sid body => exact tells_map (bulkCreate_tells rt svc sid body)
  | patchRow rt svc id headers body => exact tells_map (patchRow_tells rt svc id headers body)
  | deleteRow rt svc id => exact tells_map (deleteRow_tells rt svc id)
  | createMute svc sid raw input => exact tells_map (createMute_tells svc sid raw input)
  | deleteMute svc sid raw id => exact tells_map (deleteMute_tells svc sid raw id)
  | wipeParticipantAudio svc sid raw => exact tells_map (wipeParticipantAudio_tells svc sid raw)
  | createToken svc input => exact tells_map (createToken_tells svc input)
  | getConsent token => exact tells_map (getConsent_tells token)
  | patchConsent token input => exact tells_map (patchConsent_tells token input)
  | deleteAudio token => exact tells_map (deleteAudio_tells token)

/-! ## What a request may write on -/

/-- Nobody gets past `grant` without the secret. -/
def Request.Trusted (st : AppState) (req : Request) : Prop := ∀ g, req = .grant g → g.sharedSecret = st.sharedSecret

/-- The token in the path of a public route. -/
def Request.consentToken : Request → Option Uuid
  | .getConsent token | .patchConsent token _ | .deleteAudio token => some token
  | _ => none

/-- The client has seen the row of the token. -/
def Holds (token : Uuid) (s : Told Row Key) : Prop := ∃ t, .consentToken t ∈ s.seen ∧ t.token = token

/-- Before it has seen the token a client only reads. -/
def Request.Entitled (req : Request) (s : Told Row Key) (q : Sql) : Prop :=
  ∀ token, req.consentToken = some token → (∃ p, q = .select p) ∨ Holds token s

theorem Holds.mono {token : Uuid} {s t : Told Row Key} (h : Holds token s) (hsub : ∀ r ∈ s.seen, r ∈ t.seen) : Holds token t := by
  obtain ⟨x, hx, htoken⟩ := h
  exact ⟨x, hsub _ hx, htoken⟩

/-- The programs that begin with `validated`. -/
theorem validated_entitled {req : Request} {token : Uuid} (h : req.consentToken = some token) {s : Told Row Key}
    {f : ConsentTokens.WithContext → Handler β} : Prog.Follows (telling (fun s _ q => req.Entitled s q) fun _ _ => True)
      (fun _ _ => True) s (ConsentRoutes.validated token >>= f).run := by
  rw [ConsentRoutes.validated, ConsentTokens.validate, fetchOptional]
  simp only [bind_assoc, pure_bind]
  refine Handler.follows_query (fun _ _ => .inl ⟨_, rfl⟩) (fun _ _ _ => trivial) fun rows t ht => ?_
  obtain ⟨ws, ⟨env, snap, alive, cur, hrun⟩, rfl⟩ := ht
  cases hx : (consentTokensT.rows rows).head? with
  | none => exact trivial
  | some ct =>
    have hmem : ct ∈ consentTokensT.rows rows := List.mem_of_mem_head? hx
    have hlive : ConsentTokens.live token env.now ct = true := by
      rw [(selectAt_ok hrun).1] at hmem
      exact (List.mem_filter.1 hmem).2
    have htoken : ct.token = token := by
      simp only [ConsentTokens.live, Bool.and_eq_true, decide_eq_true_eq] at hlive
      exact hlive.1.1
    refine telling_upheld (I := Holds token) (fun _ _ hs hsub => hs.mono hsub) (fun _ _ _ hs t ht => .inr ?_) ?_
    · rw [h] at ht
      exact Option.some.inj ht ▸ hs
    · exact ⟨ct, by simpa using .inr (consentTokensT.mem_rows.1 hmem), htoken⟩

theorem handle_entitled (st : AppState) (req : Request) : Prog.Follows (telling (fun s _ q => req.Entitled s q) fun _ _ => True)
    (fun _ _ => True) {} (handle st req).run := by
  cases req with
  | getConsent token =>
    refine Handler.follows_map ?_
    rw [ConsentRoutes.getConsent, ← bind_pure (ConsentRoutes.validated token)]
    exact validated_entitled rfl
  | patchConsent token input => exact Handler.follows_map (validated_entitled rfl)
  | deleteAudio token => exact Handler.follows_map (validated_entitled rfl)
  | _ => exact telling_upheld (I := fun _ => True) (fun _ _ _ _ => trivial) (fun _ _ _ _ _ ht => by cases ht) trivial

/-- What every statement of a handler stands on. -/
structure Founded (st : AppState) (req : Request) (s : Told Row Key) (via : Via) (q : Sql) : Prop where
  stated : Stated req.actor via q
  entitled : req.Entitled s q
  trusted : req.Trusted st

theorem handle_founded (st : AppState) (req : Request) :
    Prog.Follows (telling (Founded st req) Truthful) (fun _ _ => True) {} (handle st req).run := by
  by_cases h : req.Trusted st
  · exact telling_mono (fun _ _ _ hq => ⟨hq.1, hq.2, h⟩) (telling_both (handle_tells st req) (handle_entitled st req))
  · obtain ⟨g, rfl, hne⟩ : ∃ g, req = .grant g ∧ g.sharedSecret ≠ st.sharedSecret := by
      simpa only [Request.Trusted, not_forall, exists_prop] using h
    refine Handler.follows_map (Handler.follows_refuseIf (fun _ => trivial) fun hfalse => ?_)
    exact absurd hfalse (by simp [hne])

/-- Whoever knows the token of the request, if it bears one. -/
theorem founded_vouched (st : AppState) (req : Request) (guild : Uuid × Int → Prop) (granted : Uuid → Prop) :
    Vouched (Known guild granted)
      (fun w => Signed req.actor w ∧ req.Trusted st ∧ ∀ token, req.consentToken = some token → granted token) (Founded st req) where
  marks s via q hq hseen rows ws hran w hw := by
    refine ⟨hq.stated.signed rows ws hran w hw, hq.trusted, fun token ht => ?_⟩
    rcases hq.entitled token ht with ⟨p, rfl⟩ | ⟨t, hmem, rfl⟩
    · obtain ⟨env, snap, alive, cur, hrun⟩ := hran
      simp only [Stmt.run, Except.ok.injEq, Prod.mk.injEq] at hrun
      rw [← hrun.2] at hw
      cases hw
    · exact hseen _ hmem
  tx s q hq := by
    rcases hq.stated.known with h | ⟨h, -⟩
    · exact h guild granted
    · cases h
  pool s q hq := hq.stated.known.imp (fun h => h guild granted) fun h => h.2

end
end DataApi
