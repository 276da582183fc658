/-
Handlers that audit in their own transaction. Each does all its fallible
work between `BEGIN` and `COMMIT`, its one audit row last, and sends its
event after the commit (`Stage`); so an error finds the database as it was,
and a success is one commit with one audit row.
-/
import DataApi.Db.Writes
import DataApi.Lib.Alone
import DataApi.Rules
import DataApi.Serial

namespace DataApi.Transactional

open Relational ReadCommitted Resumption Handler

/-! ## The protocol -/

/-- The `resource_type` and `resource_id` of an audit row. -/
abbrev Resource := String × String

def isAudit (w : Write Row Key) : Bool := (Key.table w.key) = .audit

/-- The audit rows a transaction writes. -/
def audits (ws : List (Write Row Key)) : List (Write Row Key) := ws.filter isAudit

/-- One audit row is written, of this resource. -/
def AuditedOnce (res : Resource) (ws : List (Write Row Key)) : Prop :=
  ∃ row : AuditRow, audits ws = [.insert (.audit row)] ∧ (row.resourceType, row.resourceId) = res

inductive Stage
  | idle
  | begun
  | writing
  | audited
  | committed

def Stage.isOpen : Stage → Prop
  | .begun | .writing => True
  | _ => False

/-- The INSERT of the audit row. -/
def Audits (res : Resource) (q : Sql) : Prop :=
  ∃ e, q = AuditLog.appendSql e ∧ (e.resourceType, e.resourceId) = res

def Spares (q : Sql) : Prop := Writes (· ≠ .audit) q

/-- A statement that locks a row before anything is written reads it from
`db`. -/
def Reads (db : Db) (s : Stage) (q : Sql) (rows : List Row) : Prop :=
  s = .begun → ∀ p, q = .forUpdate p → ∀ x, (sessionsT.rows rows).head? = some x → Row.session x ∈ db ∧ p (.session x) = true

def protocol (res : Resource) (db : Db) : Protocol (@Answer Row Key Uniq Env Io World _ _) Stage where
  may s
    | .begin => s = .idle
    | .query .tx q => s.isOpen ∧ (Spares q ∨ Audits res q)
    | .query .pool _ => False
    | .commit => s = .audited
    | .rollback => False
    | .outer (.send _) => s = .committed
    | .outer (.put _ _ _) => False
    | .outer (.deleteMany _) => s = .committed
    | .outer _ => True
  next s
    | .begin, .ok _, t => t = .begun
    | .query .tx q, .ok rows, t => (Spares q → t = .writing ∧ Reads db s q rows) ∧ (Audits res q → t = .audited)
    | .commit, .ok _, t => t = .committed
    | .commit, .error _, t => t = .idle
    | _, _, t => t = s

/-- The database and the bus, as they were. -/
structure Same {ι : Type} (sv₀ sv : Sv ι) : Prop where
  db : sv.db = sv₀.db
  log : sv.log = sv₀.log
  bus : sv.world.bus = sv₀.world.bus

/-- Everything was committed at once. -/
def CommittedOnce {ι : Type} (res : Resource) (i : ι) (sv₀ sv : Sv ι) : Prop :=
  ∃ ws, sv.log = sv₀.log ++ [(i, ws)] ∧ sv.db = applyAll ws sv₀.db ∧ AuditedOnce res ws

def Holds {ι : Type} (res : Resource) (i : ι) (sv₀ : Sv ι) (s : Stage) (c : Conn) (sv : Sv ι) : Prop :=
  match s with
  | .idle => Same sv₀ sv
  | .begun => Same sv₀ sv ∧ ∃ t, c.tx = some t ∧ t.writes = []
  | .writing => Same sv₀ sv ∧ ∃ t, c.tx = some t ∧ audits t.writes = []
  | .audited => Same sv₀ sv ∧ ∃ t, c.tx = some t ∧ AuditedOnce res t.writes
  | .committed => CommittedOnce res i sv₀ sv

section
variable {ι : Type} [DecidableEq ι] {res : Resource} {i : ι} {sv₀ sv sv' : Sv ι} {s : Stage} {c c' : Conn} {e : Env}

/-- The audit INSERT does write an audit row. -/
theorem appendSql_not_spares (entry : AuditLog.Entry) (env : Env) : ¬Spares (AuditLog.appendSql entry) := by
  intro h
  have hrun : ((AuditLog.appendSql entry).run env [] [] []).result =
      .ok ([.audit (AuditLog.row entry env)], [.insert (.audit (AuditLog.row entry env))]) :=
    insert_run (T := auditT) (t := AuditLog.row entry env) rfl rfl (by simp) (by
      intro k hk
      cases hk)
  exact h _ _ _ _ _ _ hrun _ (List.mem_singleton.2 rfl) rfl

theorem audits_append (ws vs : List (Write Row Key)) : audits (ws ++ vs) = audits ws ++ audits vs :=
  List.filter_append ..

theorem audits_spared {ws : List (Write Row Key)} (h : ∀ w ∈ ws, (Key.table w.key) ≠ .audit) : audits ws = [] :=
  List.filter_eq_nil_iff.2 fun w hw => by simpa [isAudit] using h w hw

theorem Same.release (h : Same sv₀ sv) : Same sv₀ (sv.release i) := ⟨h.db, h.log, h.bus⟩

omit [DecidableEq ι] in
/-- An open transaction has written no audit row. -/
theorem Holds.unaudited (h : Holds res i sv₀ s c sv) (hs : s.isOpen) :
    Same sv₀ sv ∧ ∃ t, c.tx = some t ∧ audits t.writes = [] := by
  cases s with
  | begun =>
    obtain ⟨hsame, t, ht, hw⟩ := h
    exact ⟨hsame, t, ht, by rw [hw]; rfl⟩
  | writing => exact h
  | _ => exact hs.elim

theorem Holds.query_tx (h : Holds res i sv₀ s c sv) {q : Sql} {r : Answer (.query .tx q : Operation)}
    (hm : (protocol res sv₀.db).may s (.query .tx q)) (hx : perform i e sv.look c sv (.query .tx q) = (r, c', sv')) :
    ∃ t, (protocol res sv₀.db).next s (.query .tx q) r t ∧ Holds res i sv₀ t c' sv' := by
  obtain ⟨hopen, hq⟩ := hm
  obtain ⟨hsame, t, ht, hw⟩ := h.unaudited hopen
  rcases performed_query_tx hx with ⟨err, rfl, rfl, rfl⟩ | ⟨t', rows, ws, needs, ht', hres, rfl, rfl, rfl⟩
  · refine ⟨s, rfl, ?_⟩
    cases s with
    | begun => exact h
    | writing => exact h
    | _ => exact hopen.elim
  · obtain rfl := Option.some.inj (ht.symm.trans ht')
    rcases hq with hspare | ⟨entry, rfl, hres'⟩
    · have hnot : ∀ entry, q ≠ AuditLog.appendSql entry := fun entry he => appendSql_not_spares entry e (he ▸ hspare)
      refine ⟨.writing, ⟨fun _ => ⟨rfl, ?_⟩, fun ⟨entry, he, _⟩ => absurd he (hnot entry)⟩, ⟨hsame.db, hsame.log, hsame.bus⟩, _, rfl, ?_⟩
      · rintro rfl p rfl x hx
        obtain ⟨_, t₀, ht₀, hnil⟩ := h
        obtain rfl := Option.some.inj (ht.symm.trans ht₀)
        have hview : t.view sv = sv₀.db := by rw [Tx.view, hnil, hsame.db]; rfl
        rw [hview] at hres
        simp only [Stmt.run, Except.ok.injEq, Prod.mk.injEq] at hres
        obtain ⟨rfl, -⟩ := hres
        have hmem := sessionsT.mem_rows.1 (List.mem_of_mem_head? hx)
        obtain ⟨hcur, hp⟩ := List.mem_filter.1 hmem
        exact ⟨hcur, (Bool.and_eq_true _ _ ▸ hp).1⟩
      · rw [audits_append, hw, audits_spared fun w hw => hspare _ _ _ _ _ _ hres w hw]; rfl
    · refine ⟨.audited, ⟨fun hspare => absurd hspare (appendSql_not_spares entry e), fun _ => rfl⟩,
        ⟨hsame.db, hsame.log, hsame.bus⟩, _, rfl, ?_⟩
      obtain ⟨row, hrow, -, -, -, -, rfl⟩ := insert_ok hres
      obtain rfl := Except.ok.inj hrow
      refine ⟨AuditLog.row entry (StepEnv.within t.env e), ?_, hres'⟩
      rw [audits_append, hw]; rfl

/-- Every operation of a handler that follows the protocol. -/
theorem Holds.done (h : Holds res i sv₀ s c sv) {o : Operation} {r : Answer o} (hm : (protocol res sv₀.db).may s o)
    (hx : perform i e sv.look c sv o = (r, c', sv')) :
    ∃ t, (protocol res sv₀.db).next s o r t ∧ Holds res i sv₀ t c' sv' := by
  cases o with
  | query via q =>
    cases via with
    | tx => exact h.query_tx hm hx
    | pool => exact hm.elim
  | begin =>
    obtain rfl : s = .idle := hm
    rcases performed_begin hx with ⟨err, rfl, rfl, rfl⟩ | ⟨rfl, rfl, rfl⟩
    · exact ⟨.idle, rfl, h⟩
    · exact ⟨.begun, rfl, h, _, rfl, rfl⟩
  | commit =>
    obtain rfl : s = .audited := hm
    obtain ⟨hsame, t, ht, haud⟩ := h
    rcases performed_commit hx with ⟨err, rfl, rfl, rfl⟩ | ⟨rfl, rfl, rfl⟩
    · exact ⟨.idle, rfl, hsame.release⟩
    · have hwr : c.writes = t.writes := by simp [Client.writes, ht]
      refine ⟨.committed, rfl, t.writes, ?_, ?_, haud⟩
      · simp [Server.release, Server.apply, hwr, hsame.log]
      · simp [Server.release, Server.apply, hwr, hsame.db]
  | rollback => exact hm.elim
  | outer x =>
    obtain ⟨rfl, rfl, rfl⟩ := performed_outer hx
    refine ⟨s, by cases x <;> rfl, ?_⟩
    by_cases hs : s = .committed
    · subst hs; exact h
    · -- Before the commit nothing is sent.
      have hbus : (Outer.act x e sv.world).2.bus = sv.world.bus := by
        cases x with
        | send ev => exact absurd hm hs
        | deleteMany ks => exact absurd hm hs
        | put k b ct => exact hm.elim
        | _ => rfl
      have hsame : Same sv₀ sv → Same sv₀ { sv with world := (Outer.act x e sv.world).2 } :=
        fun h => ⟨h.db, h.log, hbus.trans h.bus⟩
      cases s with
      | idle => exact hsame h
      | committed => exact absurd rfl hs
      | _ => exact ⟨hsame h.1, h.2⟩

end

/-! ## The handlers follow it -/

/-- An error comes before the commit, a success after it. -/
def Ends {β : Type} (ok : β → Prop) (s : Stage) : Except AppError β → Prop
  | .error _ => s ≠ .committed
  | .ok b => s = .committed ∧ ok b

section
variable {res : Resource} {db : Db} {β τ : Type} {ok : β → Prop} {s : Stage}

abbrev Follows (res : Resource) (db : Db) (ok : β → Prop) (s : Stage) (h : Handler β) : Prop :=
  Prog.Follows (protocol res db) (Ends ok) s h.run

theorem open_not_committed (h : s.isOpen) : s ≠ .committed := by
  rintro rfl
  exact h

theorem spares_of {q : Sql} {n : TableName} (h : Writes (· = n) q) (hn : n ≠ .audit) : Spares q :=
  h.mono fun _ hm ha => hn (hm.symm.trans ha)

theorem follows_begin {f : Unit → Handler β} (h : Follows res db ok .begun (f ())) :
    Follows res db ok .idle (begin >>= f) := by
  refine Handler.follows_begin rfl (fun err t ht => ?_) fun t ht => ?_
  · obtain rfl : t = .idle := ht
    exact fun h => by cases h
  · obtain rfl : t = .begun := ht
    exact h

theorem follows_fetchOne {T : Table Row τ} {q : Sql} {f : τ → Handler β} (hs : s.isOpen) (hq : Spares q)
    (h : ∀ x, Follows res db ok .writing (f x)) : Follows res db ok s (fetchOne .tx T q >>= f) := by
  refine Handler.follows_fetchOne ⟨hs, .inl hq⟩ (fun err t ht => ?_) (fun rows t ht _ => ?_) fun rows t x ht _ => ?_
  · obtain rfl : t = s := ht
    exact open_not_committed hs
  · obtain ⟨rfl, -⟩ := ht.1 hq
    exact fun h => by cases h
  · obtain ⟨rfl, -⟩ := ht.1 hq
    exact h x

theorem follows_fetchAll {T : Table Row τ} {q : Sql} {f : List τ → Handler β} (hs : s.isOpen) (hq : Spares q)
    (h : ∀ xs, Follows res db ok .writing (f xs)) : Follows res db ok s (fetchAll .tx T q >>= f) := by
  refine Handler.follows_fetchAll ⟨hs, .inl hq⟩ (fun err t ht => ?_) fun rows t ht => ?_
  · obtain rfl : t = s := ht
    exact open_not_committed hs
  · obtain ⟨rfl, -⟩ := ht.1 hq
    exact h _

theorem follows_execute {q : Sql} {f : Nat → Handler β} (hs : s.isOpen) (hq : Spares q)
    (h : ∀ n, Follows res db ok .writing (f n)) : Follows res db ok s (execute .tx q >>= f) := by
  refine Handler.follows_execute ⟨hs, .inl hq⟩ (fun err t ht => ?_) fun rows t ht => ?_
  · obtain rfl : t = s := ht
    exact open_not_committed hs
  · obtain ⟨rfl, -⟩ := ht.1 hq
    exact h _

/-- The session row, as the database has it. -/
theorem follows_getInTx {id : Uuid} {f : Session → Handler β}
    (h : ∀ x, x ∈ sessionsT.rows db → x.id = id → Follows res db ok .writing (f x)) :
    Follows res db ok .begun (Sessions.getInTx id >>= f) := by
  have hq : Spares (Sessions.getInTxSql id) := by
    unfold Spares Writes
    exact forUpdate_writesIn _
  rw [Sessions.getInTx, bind_assoc]
  refine follows_fetchOptional ⟨trivial, .inl hq⟩ (fun err t ht => ?_) fun rows t ht => ?_
  · obtain rfl : t = .begun := ht
    exact fun h => by cases h
  · obtain ⟨rfl, hread⟩ := ht.1 hq
    cases hx : (sessionsT.rows rows).head? with
    | none =>
      refine follows_throw ?_
      exact fun h => by cases h
    | some x =>
      obtain ⟨hmem, hp⟩ := hread rfl _ rfl x hx
      have hid : Sessions.byId id x = true := (sessionsT.is_put _ x).symm.trans hp
      exact h x (sessionsT.mem_rows.2 hmem) (by simpa [Sessions.byId] using hid)

/-- The audit row, the commit, and what follows it. -/
theorem follows_announce {e : AuditLog.Entry} {k : Handler β} (hs : s.isOpen) (he : (e.resourceType, e.resourceId) = res)
    (h : Follows res db ok .committed k) : Follows res db ok s (AuditLog.appendTx e >>= fun _ => commit >>= fun _ => k) := by
  have hq : Audits res (AuditLog.appendSql e) := ⟨e, rfl, he⟩
  refine follows_appendTx ⟨hs, .inr hq⟩ (fun err t ht => ?_) fun rows t ht => ?_
  · obtain rfl : t = s := ht
    exact open_not_committed hs
  · obtain rfl := ht.2 hq
    refine follows_commit rfl (fun err t ht => ?_) fun t ht => ?_
    · obtain rfl : t = .idle := ht
      exact fun h => by cases h
    · obtain rfl : t = .committed := ht
      exact h

theorem follows_stateChanged {id : Uuid} {g : Int} {old new : SessionStatus} {k : Handler β}
    (h : Follows res db ok .committed k) :
    Follows res db ok .committed (SessionRoutes.stateChanged id g old new >>= fun _ => k) := by
  rw [SessionRoutes.stateChanged, bind_assoc]
  refine follows_utcNow trivial fun now t ht => ?_
  obtain rfl : t = .committed := ht
  refine follows_send rfl fun t ht => ?_
  obtain rfl : t = .committed := ht
  exact h

theorem follows_ok {b : β} (h : ok b) : Follows res db ok .committed (pure b) := follows_pure ⟨rfl, h⟩

end

section
variable {db : Db}

theorem update_spares {p : Session → Bool} {set : Env → Session → Session} {hk : ∀ e, sessionsT.Keeps (set e)} :
    Spares (sessionsT.update p set hk) :=
  spares_of (n := .sessions) (update_writesIn (fun _ => rfl) p set hk) (by decide)

/-- A status change asked for is one that `can_transition` allows. -/
def Allowed (db : Db) (id : Uuid) (status : Option SessionStatus) : Prop :=
  ∀ new, status = some new → ∃ x ∈ sessionsT.rows db, x.id = id ∧ canTransition x.status new = true

theorem patch_follows (svc : String) (id : Uuid) (body : SessionRoutes.PatchSession) :
    Follows ("session", id.text) db (fun _ => Allowed db id body.status) .idle (SessionRoutes.patch svc id body) := by
  rw [SessionRoutes.patch]
  refine follows_begin ?_
  refine follows_getInTx fun existing hmem hid => ?_
  generalize hallow : Allowed db id body.status = allowed
  have finish : ∀ (updated : Session) change, allowed → Follows ("session", id.text) db (fun _ => allowed) .writing
        (SessionRoutes.patchFields id body updated >>= fun updated =>
          AuditLog.appendTx (SessionRoutes.entry svc id "patched" (.obj
            [("status", .str updated.status.asStr), ("ended_at", Json.optTime updated.endedAt)])) >>= fun _ =>
          commit >>= fun _ => SessionRoutes.announceChange id updated.guildId change >>= fun _ => pure updated) := by
    intro updated change hallowed
    have last : ∀ updated : Session, Follows ("session", id.text) db (fun _ => allowed) .writing
        (AuditLog.appendTx (SessionRoutes.entry svc id "patched" (.obj
          [("status", .str updated.status.asStr), ("ended_at", Json.optTime updated.endedAt)])) >>= fun _ =>
          commit >>= fun _ => SessionRoutes.announceChange id updated.guildId change >>= fun _ => pure updated) := by
      intro updated
      refine follows_announce trivial rfl ?_
      cases change with
      | none => exact follows_ok hallowed
      | some p =>
        rw [SessionRoutes.announceChange, bind_assoc]
        refine follows_stateChanged ?_
        refine follows_incCounter trivial fun t ht => ?_
        obtain rfl : t = .committed := ht
        exact follows_ok hallowed
    rw [SessionRoutes.patchFields]
    split
    · exact follows_fetchOne trivial update_spares last
    · exact last updated
  cases hs : body.status with
  | none =>
    refine finish existing none (hallow ▸ fun new hnew => ?_)
    rw [hs] at hnew
    cases hnew
  | some new =>
    rw [SessionRoutes.patchStatus, bind_assoc]
    refine follows_refuseIf (fun _ h => by cases h) fun hc => ?_
    rw [bind_assoc, Sessions.updateStatus]
    refine follows_fetchOne trivial update_spares fun y => finish y _ (hallow ▸ fun new' hnew => ?_)
    rw [hs] at hnew
    obtain rfl := Option.some.inj hnew
    exact ⟨existing, hmem, hid, by simpa using hc⟩

theorem resume_follows (st : AppState) (svc : String) (id : Uuid) (body : SessionRoutes.ResumeBody) :
    Follows ("session", id.text) db (fun _ => True) .idle (SessionRoutes.resume st svc id body) := by
  rw [SessionRoutes.resume]
  refine follows_begin ?_
  refine follows_getInTx fun existing _ _ => ?_
  refine follows_refuseIf (fun _ h => by cases h) fun _ => ?_
  refine follows_utcNow trivial fun now t ht => ?_
  obtain rfl : t = .writing := ht
  refine follows_refuseIf (fun _ h => by cases h) fun _ => ?_
  rw [Sessions.resumeFromAbandoned]
  refine follows_fetchOne trivial update_spares fun updated => ?_
  refine follows_announce trivial rfl ?_
  exact follows_stateChanged (follows_ok trivial)

theorem deleteCascade_follows (svc : String) (id : Uuid) :
    Follows ("session", id.text) db (fun _ => True) .idle (SessionRoutes.deleteCascade svc id) := by
  rw [SessionRoutes.deleteCascade]
  refine follows_begin ?_
  refine follows_getInTx fun existing _ _ => ?_
  simp only [SessionRoutes.deleteChildren, Chunks.deleteForSession, Uniform.deleteAllForSession,
    MuteRanges.deleteForSession, bind_assoc]
  refine follows_fetchAll trivial (spares_of (Chunks.deleteForSessionSql_writes id) (by decide)) fun keys => ?_
  refine follows_execute trivial (spares_of (Uniform.deleteAllForSessionSql_writes _ id) (by decide)) fun _ => ?_
  refine follows_execute trivial (spares_of (Uniform.deleteAllForSessionSql_writes _ id) (by decide)) fun _ => ?_
  refine follows_execute trivial (spares_of (Uniform.deleteAllForSessionSql_writes _ id) (by decide)) fun _ => ?_
  refine follows_execute trivial (spares_of (MuteRanges.deleteForSessionSql_writes id) (by decide)) fun _ => ?_
  refine follows_execute trivial (spares_of (Metadata.deleteSql_writes id) (by decide)) fun _ => ?_
  have hparts : Spares (Participants.deleteForSessionSql id) :=
    (Participants.deleteForSessionSql_writes id).mono fun n hn => by rcases hn with rfl | rfl <;> decide
  refine follows_execute trivial hparts fun _ => ?_
  rw [Sessions.updateStatus]
  refine follows_fetchOne trivial update_spares fun updated => ?_
  refine follows_announce trivial rfl ?_
  rw [SessionRoutes.sweep]
  split
  · exact follows_stateChanged (follows_ok trivial)
  · rw [bind_assoc]
    refine follows_deleteMany rfl fun _ t ht => ?_
    obtain rfl : t = .committed := ht
    exact follows_stateChanged (follows_ok trivial)

theorem setAdminSql_spares (pid : PseudoId) (isAdmin : Bool) : Spares (Users.setAdminSql pid isAdmin) :=
  spares_of (Users.setAdminSql_writes pid isAdmin) (by decide)

theorem patchUser_follows (svc pidRaw : String) (isAdmin : Bool) :
    Follows ("user", pidRaw) db (fun _ => True) .idle (UserRoutes.patchUser svc pidRaw isAdmin) := by
  rw [UserRoutes.patchUser, Handler.pseudoId]
  refine follows_ofResult (fun _ _ h => by cases h) fun pid hpid => ?_
  have hraw : pid.raw = pidRaw := by
    unfold PseudoId.new at hpid
    split at hpid
    · simp only [Except.mapError, Except.ok.injEq] at hpid
      rw [← hpid]
    · cases hpid
  refine follows_begin ?_
  rw [Users.setAdmin]
  refine follows_fetchOne trivial (setAdminSql_spares pid isAdmin) fun user => ?_
  exact follows_announce trivial (by rw [← hraw]; rfl) (follows_ok trivial)

theorem grant_follows (st : AppState) (req : UserRoutes.GrantRequest) :
    Follows ("admin", req.pseudoId.raw) db (fun _ => True) .idle (UserRoutes.grant st req) := by
  rw [UserRoutes.grant]
  refine follows_refuseIf (fun _ h => by cases h) fun _ => ?_
  refine follows_begin ?_
  rw [Users.setAdmin]
  refine follows_fetchOne trivial (setAdminSql_spares _ _) fun user => ?_
  exact follows_announce trivial rfl (follows_ok trivial)

end

/-! ## Every request -/

/-- The handlers that audit in their own transaction, and what they audit. -/
def resourceOf : Request → Option Resource
  | .patchSession _ id _ | .resume _ id _ | .deleteCascade _ id => some ("session", id.text)
  | .patchUser _ pid _ => some ("user", pid)
  | .grant req => some ("admin", req.pseudoId.raw)
  | _ => none

/-- What a success says of the request: a status asked for was a legal one. -/
def Legal (db : Db) : Request → Prop
  | .patchSession _ id body => Allowed db id body.status
  | _ => True

theorem handle_follows (st : AppState) {req : Request} {res : Resource} (h : resourceOf req = some res) (db : Db) :
    Follows res db (fun _ => Legal db req) .idle (handle st req) := by
  have keep : ∀ {β γ : Type} {ok : Prop} {f : β → γ} {p : Handler β}, Follows res db (fun _ => ok) .idle p →
      Follows res db (fun _ => ok) .idle (f <$> p) := by
    intro β γ ok f p hp
    refine follows_map (hp.mono fun t r hr => ?_)
    cases r <;> exact hr
  cases req with
  | patchSession svc id body =>
    obtain rfl := Option.some.inj h
    exact keep (patch_follows svc id body)
  | resume svc id body =>
    obtain rfl := Option.some.inj h
    exact keep (resume_follows st svc id body)
  | deleteCascade svc id =>
    obtain rfl := Option.some.inj h
    exact keep (deleteCascade_follows svc id)
  | patchUser svc pid isAdmin =>
    obtain rfl := Option.some.inj h
    exact keep (patchUser_follows svc pid isAdmin)
  | grant req =>
    obtain rfl := Option.some.inj h
    exact keep (grant_follows st req)
  | _ => cases h

/-- How a request ends, alone on the server. -/
theorem exec_ends {ι : Type} [DecidableEq ι] (st : AppState) {req : Request} {res : Resource}
    (hreq : resourceOf req = some res) (i : ι) (env : Nat → Env) (sv : Sv ι) :
    ∃ t, Ends (fun _ => Legal sv.db req) t (exec i env 0 {} sv (handle st req).run).1 ∧
      Holds res i sv t (exec i env 0 {} sv (handle st req).run).2.2.1 (exec i env 0 {} sv (handle st req).run).2.2.2 :=
  exec_follows (H := fun s _ => Holds res i sv s) (i := i) (fun _ _ _ _ _ _ _ _ hm h hx => h.done hm hx)
    (handle_follows st hreq sv.db) (n := 0) (show Holds res i sv .idle {} sv from ⟨rfl, rfl, rfl⟩)

theorem Ends.same {β ι : Type} {ok : β → Prop} {res : Resource} {i : ι} {sv₀ sv : Sv ι} {t : Stage} {c : Conn}
    {e : AppError} (h : Ends ok t (.error e : Except AppError β)) (hh : Holds res i sv₀ t c sv) : Same sv₀ sv := by
  cases t with
  | committed => exact absurd rfl h
  | idle => exact hh
  | _ => exact hh.1

/-- A call that is refused leaves the server as it was. -/
theorem serve_error_same {st : AppState} {x : Call} {res : Resource} {sv : Sv Unit} {e : AppError}
    (hreq : resourceOf x.request = some res) (h : (serve st x sv).1 = .error e) : Same sv (serve st x sv).2 := by
  obtain ⟨t, hends, hholds⟩ := exec_ends st hreq () x.env sv
  have he : (exec () x.env 0 {} sv (handle st x.request).run).1 = .error e := h
  rw [he] at hends
  exact (hends.same hholds).release

/-- Whatever the database, the request and the failures: an error finds the
database and the bus as they were, and comes whenever a PATCH asks for a
status that is not a legal one; a success is one commit, with exactly one
audit row, of the resource the request is about. -/
theorem all_or_nothing {ι : Type} [DecidableEq ι] (st : AppState) (req : Request) (res : Resource)
    (hreq : resourceOf req = some res) (i : ι) (env : Nat → Env) (sv : Sv ι) :
    (∀ e, (exec i env 0 {} sv (handle st req).run).1 = .error e →
      Same sv (exec i env 0 {} sv (handle st req).run).2.2.2) ∧
    (∀ r, (exec i env 0 {} sv (handle st req).run).1 = .ok r →
      CommittedOnce res i sv (exec i env 0 {} sv (handle st req).run).2.2.2) ∧
    ∀ svc id body new, req = .patchSession svc id body → body.status = some new →
      (∀ x ∈ sessionsT.rows sv.db, x.id = id → canTransition x.status new = false) →
      ∃ e, (exec i env 0 {} sv (handle st req).run).1 = .error e := by
  obtain ⟨t, hends, hholds⟩ := exec_ends st hreq i env sv
  refine ⟨fun e he => ?_, fun r hr => ?_, fun svc id body new hpatch hnew hillegal => ?_⟩
  · rw [he] at hends
    exact hends.same hholds
  · rw [hr] at hends
    obtain ⟨rfl, -⟩ := hends
    exact hholds
  · subst hpatch
    cases ha : (exec i env 0 {} sv (handle st (.patchSession svc id body)).run).1 with
    | error e => exact ⟨e, rfl⟩
    | ok r =>
      rw [ha] at hends
      obtain ⟨x, hx, hid, hc⟩ := hends.2 new hnew
      rw [hillegal x hx hid] at hc
      cases hc

/-- A status that is not next, and a field that could be set. -/
def sampleRequest : Request :=
  .patchSession "bot" Sample.sessionId { status := some .transcribed, participantCount := some (some 3) }

theorem all_or_nothing_sample : Same (Sample.server [.session Sample.session] : Sv Unit)
    (exec () Sample.env 0 {} (Sample.server [.session Sample.session]) (handle Sample.state sampleRequest).run).2.2.2 := by
  obtain ⟨herr, -, hillegal⟩ := all_or_nothing Sample.state sampleRequest ("session", Sample.sessionId.text) rfl ()
    Sample.env (Sample.server [.session Sample.session])
  obtain ⟨e, he⟩ := hillegal _ _ _ .transcribed rfl rfl (by
    intro x hx _
    obtain rfl : x = Sample.session := by simpa [Sample.server, Table.rows, sessionsT] using hx
    rfl)
  exact herr e he

end DataApi.Transactional
