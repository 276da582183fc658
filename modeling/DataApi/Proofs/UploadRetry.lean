/-
Retries of one chunk. The duplicate lookup comes before the session row is
locked, so a retry whose lookup falls between the lookup of another upload
and its commit misses the row, waits for the lock, and fails on the UNIQUE
client chunk id (`retries_collide`). When no lookup falls there, one upload
enters the chunk alone (`Before`) and every other finds it (`After`).
-/
import DataApi.Db.Writes
import DataApi.Rules

namespace DataApi.UploadRetry

open Relational ReadCommitted Resumption Handler

/-! ## The requests -/

/-- Uploads of one chunk to a session: the same pseudonym and client chunk
id, and anything else. The chunk is not there yet, and its number will be an
`INTEGER`. -/
structure Retries (ι : Type) where
  st : AppState
  svc : ι → String
  ups : ι → ChunkRoutes.UploadRequest
  session : Session
  pseudoId : PseudoId
  clientChunkId : String
  headers : ι → ChunkRoutes.ChunkHeaders
  server : Sv ι
  toSession : ∀ i, (ups i).sessionId = session.id
  ofPseudo : ∀ i, PseudoId.newOrMixed (ups i).pseudoRaw = .ok pseudoId
  parsed : ∀ i, ChunkRoutes.parseChunkHeaders st (ups i).headers = .ok (headers i)
  ofClient : ∀ i, (headers i).clientChunkId = clientChunkId
  fits : ∀ i, (ups i).body.length ≤ ChunkRoutes.MAX_CHUNK_BYTES
  quiescent : server.Quiescent
  exists_ : Row.session session ∈ server.db
  absent : ∀ c ∈ chunksT.rows server.db, ¬(Chunks.ofPair session.id pseudoId c = true ∧ c.clientChunkId = clientChunkId)
  room : Chunks.nextSeq session.id pseudoId server.db < 2 ^ 31

namespace Retries

variable {ι : Type} (R : Retries ι)

def start : Clients ι Row Env Io Outcome := Service.start R.st (fun i => .upload (R.svc i) (R.ups i)) R.server

/-- The number and the key the chunk gets. -/
def seq : Int := Chunks.nextSeq R.session.id R.pseudoId R.server.db

def key : String := ChunkRoutes.chunkKey R.session.s3Prefix R.pseudoId R.seq

def size (i : ι) : Int := (R.ups i).body.length

/-- A row of the chunk. -/
def ofChunk (c : ChunkRow) : Bool := Chunks.ofPair R.session.id R.pseudoId c && c.clientChunkId = R.clientChunkId

/-- The row upload `i` enters, and the row it leaves. -/
def entered (i : ι) (env : Env) : ChunkRow :=
  Chunks.insertRow (ChunkRoutes.reserve R.session.id R.pseudoId (R.headers i) (R.size i)) R.seq env

def kept (i : ι) (env : Env) : ChunkRow := { R.entered i env with s3Key := R.key }

def event (i : ι) (atTs : Timestamp) : Event :=
  .chunkUploaded atTs { sessionId := R.session.id, guildId := R.session.guildId, pseudoId := R.pseudoId
                        seq := R.seq, sizeBytes := R.size i }

def answer (deduplicated : Bool) : Outcome :=
  .ok (.uploaded { seq := R.seq, s3Key := R.key, deduplicated := deduplicated })

end Retries

/-! ## The condition -/

/-- A client about to take the snapshot of its duplicate lookup. -/
def looks (c : Conn) : Bool := c.tx.isSome && c.hist.length == 1 && c.snap.isNone

/-- A client that has taken it and whose transaction is open. -/
def underway (c : Conn) : Bool := c.tx.isSome && (2 ≤ c.hist.length || c.snap.isSome)

/-- A lookup sees the chunk, or no other upload is past its own. -/
def Apart {ι : Type} (R : Retries ι) (c : Clients ι Row Env Io Outcome) (i : ι) : Prop :=
  looks (c.threads i).loc = true →
    (chunksT.rows c.shared.db).any R.ofChunk = true ∨ ∀ j, j ≠ i → underway (c.threads j).loc = false

/-- Nothing fails, and `gen_random_uuid()` draws no id the audit log has. -/
structure Calm {ι : Type} (sv : Sv ι) (e : Env) : Prop where
  database : e.fails = false
  store : ∀ k, e.storeFails k = false
  fresh : ∀ a ∈ auditT.rows sv.db, a.id ≠ e.uuid 0

def Guard {ι : Type} (R : Retries ι) (c : Clients ι Row Env Io Outcome) (i : ι) (e : Env) : Prop :=
  Calm c.shared e ∧ Apart R c i

/-! ## The protocol of an upload -/

inductive Stage
  | fresh
  | opened
  | missed
  | locked
  | inserted
  | stored
  | keyed
  | audited
  | committed
  | told
  | found
  | deduped

section
variable {ι : Type} (R : Retries ι) (i : ι)

/-- No answer is an error. -/
def protocol : Protocol (@Answer Row Key Uniq Env Io World _ _) Stage where
  may s
    | .begin => s = .fresh
    | .query .tx (.select p) => s = .opened ∧
        Stmt.select p = Chunks.lookupByClientIdSql R.session.id R.pseudoId R.clientChunkId
    | .query .tx (.forUpdate p) => s = .missed ∧ Stmt.forUpdate p = Sessions.getInTxSql R.session.id
    | .query .tx (.insert mk) =>
      (s = .locked ∧ .insert mk = Chunks.insertSql
        (ChunkRoutes.reserve R.session.id R.pseudoId (R.headers i) (R.size i))) ∨
      (s = .keyed ∧ ∃ entry, .insert mk = AuditLog.appendSql entry)
    | .query .tx (.update p set) => s = .stored ∧
        .update p set = Chunks.setKeySql R.session.id R.pseudoId R.seq R.key
    | .query .tx (.delete _) => False
    | .query .pool _ => False
    | .commit => s = .audited
    | .rollback => s = .found
    | .outer (.toBytes body limit) => s = .locked ∧ body = (R.ups i).body ∧ limit = ChunkRoutes.MAX_CHUNK_BYTES + 1
    | .outer (.put key body _) => s = .inserted ∧ key = R.key ∧ body = (R.ups i).body
    | .outer (.incCounter _ _) => s = .stored
    | .outer .utcNow => s = .committed
    | .outer (.send ev) => s = .committed ∧ ∃ atTs, ev = R.event i atTs
    | .outer _ => False
  next s
    | .begin, .ok _, t => t = .opened
    | .query .tx (.select _), .ok rows, t => ((chunksT.rows rows).head? = none ∧ t = .missed) ∨
        ∃ c, (chunksT.rows rows).head? = some c ∧ c.seq = R.seq ∧ c.s3Key = R.key ∧ t = .found
    | .query .tx (.forUpdate _), .ok rows, t => (sessionsT.rows rows).head? = some R.session ∧ t = .locked
    | .query .tx (.insert _), .ok rows, t =>
      (s = .locked → (∃ c, (chunksT.rows rows).head? = some c ∧ c.seq = R.seq) ∧ t = .inserted) ∧
      (s = .keyed → t = .audited)
    | .query .tx (.update _ _), .ok _, t => t = .keyed
    | .commit, .ok _, t => t = .committed
    | .rollback, .ok _, t => t = .deduped
    | .outer (.toBytes _ _), .ok bytes, t => bytes = (R.ups i).body ∧ t = .locked
    | .outer (.put _ _ _), .ok _, t => t = .stored
    | .outer (.incCounter _ _), _, t => t = s
    | .outer .utcNow, _, t => t = s
    | .outer (.send _), _, t => t = .told
    | _, _, _ => False

def Answers (s : Stage) (o : Outcome) : Prop :=
  (s = .told ∧ o = R.answer false) ∨ (s = .deduped ∧ o = R.answer true)

theorem store_follows {Q : Stage → Except AppError ChunkRoutes.UploadResponse → Prop}
    (hQ : Q .told (.ok { seq := R.seq, s3Key := R.key, deduplicated := false })) :
    Prog.Follows (protocol R i) Q .missed
      (ChunkRoutes.store (R.svc i) R.session.id R.pseudoId (R.headers i) (R.ups i).body).run := by
  rw [ChunkRoutes.store, Sessions.getInTx, bind_assoc]
  refine follows_fetchOptional ⟨rfl, rfl⟩ (fun e t ht => ht.elim) fun rows t ht => ?_
  obtain ⟨hs, rfl⟩ := ht
  rw [hs]
  simp only [pure_bind, ChunkRoutes.readBody, bind_assoc]
  refine follows_toBytes ⟨rfl, rfl, rfl⟩ (fun e t ht => ht.elim) fun bytes t ht => ?_
  obtain ⟨rfl, rfl⟩ := ht
  refine follows_refuseIf (fun hb => ?_) fun _ => ?_
  · have := R.fits i
    simp only [decide_eq_true_eq] at hb
    omega
  have hsize : ChunkRoutes.sizeBytes (R.ups i).body = R.size i := ChunkRoutes.sizeBytes_eq (R.fits i)
  rw [hsize, Chunks.insert]
  refine follows_fetchOne (.inl ⟨rfl, rfl⟩) (fun e t ht => ht.elim) (fun rows t ht hnone => ?_) fun rows t row ht hrow => ?_
  · obtain ⟨c, hc, -⟩ := (ht.1 rfl).1
    rw [hnone] at hc; cases hc
  obtain ⟨⟨c, hc, hseq⟩, rfl⟩ := ht.1 rfl
  obtain rfl := Option.some.inj (hc.symm.trans hrow)
  rw [hseq]
  refine follows_put ⟨rfl, rfl, rfl⟩ (fun e t ht => ht.elim) fun t ht => ?_
  obtain rfl : t = .stored := ht
  refine follows_incCounter rfl fun t ht => ?_
  obtain rfl : t = .stored := ht
  refine follows_execute ⟨rfl, rfl⟩ (fun e t ht => ht.elim) fun rows t ht => ?_
  obtain rfl : t = .keyed := ht
  refine follows_appendTx (.inr ⟨rfl, _, rfl⟩) (fun e t ht => ht.elim) fun rows t ht => ?_
  obtain rfl : t = .audited := ht.2 rfl
  refine follows_commit rfl (fun e t ht => ht.elim) fun t ht => ?_
  obtain rfl : t = .committed := ht
  refine follows_utcNow rfl fun now t ht => ?_
  obtain rfl : t = .committed := ht
  refine follows_send ⟨rfl, now, rfl⟩ fun t ht => ?_
  obtain rfl : t = .told := ht
  exact follows_pure hQ

theorem upload_follows : Prog.Follows (protocol R i) (fun s o => Answers R s (o.map .uploaded)) .fresh
    (ChunkRoutes.upload R.st (R.svc i) (R.ups i)).run := by
  rw [ChunkRoutes.upload]
  refine follows_ofResult (fun e he => ?_) fun pid hpid => ?_
  · rw [R.ofPseudo i] at he; cases he
  obtain rfl : R.pseudoId = pid := by
    rw [R.ofPseudo i] at hpid
    exact Except.ok.inj hpid
  refine follows_ofResult (fun e he => ?_) fun h hh => ?_
  · rw [R.parsed i] at he; cases he
  obtain rfl := Except.ok.inj ((R.parsed i).symm.trans hh)
  refine follows_begin rfl (fun e t ht => ht.elim) fun t ht => ?_
  obtain rfl : t = .opened := ht
  rw [Chunks.lookupByClientId, R.toSession i, R.ofClient i]
  refine follows_fetchOptional ⟨rfl, rfl⟩ (fun e t ht => ht.elim) fun rows t ht => ?_
  rcases ht with ⟨hnone, rfl⟩ | ⟨c, hc, hseq, hkey, rfl⟩
  · rw [hnone]
    exact store_follows R i (.inl ⟨rfl, rfl⟩)
  · rw [hc]
    refine follows_rollback rfl (fun e t ht => ht.elim) fun t ht => ?_
    obtain rfl : t = .deduped := ht
    exact follows_pure (.inr ⟨rfl, by simp [Except.map, Retries.answer, hseq, hkey]⟩)

theorem handle_follows : Prog.Follows (protocol R i) (Answers R) .fresh
    (handle R.st (.upload (R.svc i) (R.ups i))).run := follows_map (upload_follows R i)

end

def Stage.inside : Stage → Bool
  | .missed | .locked | .inserted | .stored | .keyed | .audited => true
  | _ => false

/-- What an upload may do outside the upload proper. -/
theorem may_cases {ι : Type} {R : Retries ι} {i : ι} {s : Stage} {o : Operation} (hm : (protocol R i).may s o) :
    s.inside = true ∨ (s = .fresh ∧ o = .begin) ∨
    (s = .opened ∧ o = .query .tx (Chunks.lookupByClientIdSql R.session.id R.pseudoId R.clientChunkId)) ∨
    (s = .found ∧ o = .rollback) ∨
    (s = .committed ∧ (o = .outer .utcNow ∨ ∃ atTs, o = .outer (.send (R.event i atTs)))) := by
  cases o with
  | begin => exact .inr (.inl ⟨hm, rfl⟩)
  | commit => exact .inl (by rw [show s = .audited from hm]; rfl)
  | rollback => exact .inr (.inr (.inr (.inl ⟨hm, rfl⟩)))
  | query via q =>
    cases via with
    | pool => exact hm.elim
    | tx =>
      cases q with
      | select q => exact .inr (.inr (.inl ⟨hm.1, by rw [hm.2]⟩))
      | forUpdate q => exact .inl (by rw [hm.1]; rfl)
      | insert mk => rcases hm with ⟨hs, -⟩ | ⟨hs, -⟩ <;> exact .inl (by rw [hs]; rfl)
      | update q set => exact .inl (by rw [hm.1]; rfl)
      | delete q => exact hm.elim
  | outer x =>
    cases x with
    | toBytes body limit => exact .inl (by rw [hm.1]; rfl)
    | put key body ct => exact .inl (by rw [hm.1]; rfl)
    | incCounter name n => exact .inl (by rw [show s = .stored from hm]; rfl)
    | utcNow => exact .inr (.inr (.inr (.inr ⟨hm, .inl rfl⟩)))
    | send ev =>
      obtain ⟨hs, atTs, rfl⟩ := hm
      exact .inr (.inr (.inr (.inr ⟨hs, .inr ⟨atTs, rfl⟩⟩)))
    | _ => exact hm.elim

/-! ## The statements, on the store as it was -/

theorem nextSeq_gt {sid : Uuid} {pid : PseudoId} {db : Db} {c : ChunkRow} (hc : c ∈ chunksT.rows db)
    (hp : Chunks.ofPair sid pid c = true) : c.seq < Chunks.nextSeq sid pid db := by
  have hmem : c.seq ∈ ((chunksT.rows db).filter (Chunks.ofPair sid pid)).map (·.seq) :=
    List.mem_map.2 ⟨c, List.mem_filter.2 ⟨hc, hp⟩, rfl⟩
  unfold Chunks.nextSeq
  cases hmax : (((chunksT.rows db).filter (Chunks.ofPair sid pid)).map (·.seq)).max? with
  | none => rw [List.max?_eq_none_iff.1 hmax] at hmem; cases hmem
  | some m =>
    have := (List.max?_eq_some_iff.1 hmax).2 _ hmem
    simp only [Option.getD_some]
    omega

section
variable {ι : Type} (R : Retries ι) (i : ι) (env : Env)

/-- No row has the key of the chunk. -/
theorem key_free : ∀ r ∈ R.server.db, key r ≠ .chunk R.session.id R.pseudoId R.seq := by
  intro r hr hk
  cases r <;> simp only [key, Row.key, reduceCtorEq, Key.chunk.injEq] at hk
  next c =>
    obtain ⟨hsid, hpid, hseq⟩ := hk
    have := @nextSeq_gt R.session.id R.pseudoId _ _ (chunksT.mem_rows.2 hr)
      (by simp [Chunks.ofPair, hsid, hpid])
    rw [hseq, Retries.seq] at this
    omega

theorem slots_free : ∀ l ∈ slots (chunksT.put (R.entered i env)), ∀ e ∈ R.server.db, l ∉ slots e := by
  intro l hl e he hle
  rcases List.mem_cons.1 hl with rfl | hl
  · exact key_free R e he (pk_mem_slots.1 hle)
  · have hu : l = .uniq (.chunkClient R.session.id R.pseudoId R.clientChunkId) := by
      rw [← R.ofClient i]
      simpa [uniques, Row.uniques, chunksT, Retries.entered, Chunks.insertRow, ChunkRoutes.reserve] using hl
    subst hu
    cases e <;> simp only [slots, uniques, Row.uniques, List.map_nil, List.map_cons, List.mem_cons, reduceCtorEq,
      Lockable.uniq.injEq, Uniq.chunkClient.injEq, List.not_mem_nil, or_false, false_or] at hle
    next c => exact R.absent c (chunksT.mem_rows.2 he) ⟨by simp [Chunks.ofPair, hle], hle.2.2.symm⟩

theorem check_entered : check (chunksT.put (R.entered i env)) = true := by
  have hp := R.ofPseudo i
  unfold PseudoId.newOrMixed at hp
  split at hp
  · next hraw =>
    show (decide (R.pseudoId.raw = MIXED_PSEUDO_ID) || isValidPseudoId R.pseudoId.raw) = true
    rw [← Except.ok.inj hp]; exact hraw
  · cases hp

theorem lookup_run (alive cur : Db) : ((Chunks.lookupByClientIdSql R.session.id R.pseudoId R.clientChunkId).run env
    R.server.db alive cur).result = .ok ([], []) := by
  simp only [Chunks.lookupByClientIdSql, Table.select, Stmt.run, Except.ok.injEq, Prod.mk.injEq, and_true]
  refine List.filter_eq_nil_iff.2 fun r hr his => ?_
  obtain ⟨c, rfl, hc⟩ := chunksT.is_iff.1 his
  simp only [Bool.and_eq_true, decide_eq_true_eq] at hc
  exact R.absent c (chunksT.mem_rows.2 hr) hc

theorem lock_run (snap : Db) : ((Sessions.getInTxSql R.session.id).run env snap R.server.db R.server.db).result =
    .ok ([Row.session R.session], []) := by
  have hh : hits (sessionsT.is (Sessions.byId R.session.id)) R.server.db R.server.db = [sessionsT.put R.session] :=
    hits_one (k := .session R.session.id) R.quiescent.keys
      (fun t ht => congrArg Key.session (by simpa [Sessions.byId] using ht)) (by simp [Sessions.byId]) R.exists_ R.exists_
  simp only [Sessions.getInTxSql, Table.forUpdate, Stmt.run, hh]
  rfl

theorem enter_run (alive : Db) : ((Chunks.insertSql (ChunkRoutes.reserve R.session.id R.pseudoId (R.headers i)
    (R.size i))).run env R.server.db alive R.server.db).result =
    .ok ([Row.chunk (R.entered i env)], [.insert (.chunk (R.entered i env))]) := by
  refine insert_run (T := chunksT) (t := R.entered i env) ?_ (check_entered R i env) (slots_free R i env) fun k hk => ?_
  · rw [Chunks.nextRow]
    exact if_pos R.room
  · obtain rfl : k = .session R.session.id := by
      simpa [refs, Row.refs, chunksT, Retries.entered, Chunks.insertRow, ChunkRoutes.reserve] using hk
    exact ⟨_, R.exists_, rfl⟩

/-- The store with the chunk entered. -/
theorem setKey_run (snap : Db) (env' : Env) : ((Chunks.setKeySql R.session.id R.pseudoId R.seq R.key).run env' snap
    (Write.apply R.server.db (.insert (.chunk (R.entered i env))))
    (Write.apply R.server.db (.insert (.chunk (R.entered i env))))).result =
    .ok ([Row.chunk (R.kept i env)], [.update (.chunk (R.kept i env))]) := by
  have hmem : chunksT.put (R.entered i env) ∈ Write.apply R.server.db (.insert (.chunk (R.entered i env))) :=
    List.mem_append_right _ (List.mem_singleton.2 rfl)
  refine update_run (T := chunksT) (t := R.entered i env)
    (hits_one (k := .chunk R.session.id R.pseudoId R.seq) ?_ (fun t ht => ?_) ?_ hmem hmem)
    (check_entered R i env)
  · exact R.quiescent.keys.insert fun x hx => key_free R x hx
  · simp only [Chunks.at', Chunks.ofPair, Bool.and_eq_true, decide_eq_true_eq] at ht
    show Key.chunk t.sessionId t.pseudoId t.seq = .chunk R.session.id R.pseudoId R.seq
    rw [ht.1.1, ht.1.2, ht.2]
  · simp [Chunks.at', Chunks.ofPair, Retries.entered, Chunks.insertRow, ChunkRoutes.reserve]

/-- The store with the chunk as it stays: an UPDATE of the only row of its key. -/
theorem entered_kept : applyAll [.insert (.chunk (R.entered i env)), .update (.chunk (R.kept i env))] R.server.db =
    R.server.db ++ [Row.chunk (R.kept i env)] := by
  have hmap : R.server.db.map (fun x => if key x = key (Row.chunk (R.kept i env)) then Row.chunk (R.kept i env) else x) =
      R.server.db := by
    refine (List.map_congr_left fun x hx => if_neg (key_free R x hx)).trans (List.map_id _)
  have hkey : key (Row.chunk (R.entered i env)) = key (Row.chunk (R.kept i env)) := rfl
  simp only [applyAll_cons, applyAll_nil, Write.apply, List.map_append, hmap, List.map_cons, List.map_nil, if_pos hkey]

theorem append_run {entry : AuditLog.Entry} {snap alive cur : Db}
    (h : ∀ a ∈ auditT.rows cur, a.id ≠ env.uuid 0) : ((AuditLog.appendSql entry).run env snap alive cur).result =
    .ok ([Row.audit (AuditLog.row entry env)], [.insert (.audit (AuditLog.row entry env))]) := by
  refine insert_run (T := auditT) (t := AuditLog.row entry env) rfl rfl (fun l hl e he hle => ?_) fun k hk => by cases hk
  obtain rfl : l = .pk (.audit (env.uuid 0)) := by
    simpa [slots, key, Row.key, uniques, Row.uniques, auditT, AuditLog.row] using hl
  have hk := pk_mem_slots.1 hle
  cases e <;> simp only [key, Row.key, reduceCtorEq, Key.audit.injEq] at hk
  next a => exact h a (auditT.mem_rows.2 he) hk

end

/-! ## What a stage means -/

/-- The object has been put. -/
def Stage.put : Stage → Bool
  | .stored | .keyed | .audited => true
  | _ => false

section
variable {ι : Type} (R : Retries ι)

/-- What the open transaction has written. -/
def Wrote (i : ι) (t : Tx Row Key Env) : Stage → Prop
  | .opened | .missed | .locked => t.writes = []
  | .inserted | .stored => t.writes = [.insert (.chunk (R.entered i t.env))]
  | .keyed => t.writes = [.insert (.chunk (R.entered i t.env)), .update (.chunk (R.kept i t.env))]
  | .audited => ∃ a, t.writes =
      [.insert (.chunk (R.entered i t.env)), .update (.chunk (R.kept i t.env)), .insert (.audit a)]
  | _ => False

/-- A stage of the lookup or of the upload proper, in an open transaction. -/
structure Open (i : ι) (c : Conn) (sv : Sv ι) (s : Stage) : Prop where
  tx : ∃ t, c.tx = some t ∧ Wrote R i t s
  object : s.put = true → sv.world.store.lookup R.key = some (R.ups i).body

def Holds (i : ι) (c : Conn) (sv : Sv ι) (s : Stage) : Prop :=
  match s with
  | .fresh => c.tx = none ∧ c.snap = none ∧ c.hist = []
  | .opened => c.hist.length = 1 ∧ Open R i c sv s
  | .committed | .told | .found | .deduped => True
  | _ => 2 ≤ c.hist.length ∧ Open R i c sv s

/-- The duplicate lookup has taken its snapshot, and the chunk was not there. -/
def Begun (s : Stage) (c : Conn) : Prop := s.inside = true ∨ (s = .opened ∧ c.snap.isSome = true)

def Stage.early (s : Stage) : Prop := s = .fresh ∨ s = .opened ∨ s.inside = true

/-- Snapshots are of the store as it is. -/
def Current (c : Clients ι Row Env Io Outcome) : Prop :=
  ∀ i s, (c.threads i).loc.snap = some s → s.rows = c.shared.db ∧ s.time = c.shared.log.length

/-- Nothing is committed, and one upload at most has begun. -/
structure Before (g : ι → Stage) (c : Clients ι Row Env Io Outcome) : Prop where
  db : c.shared.db = R.server.db
  log : c.shared.log = []
  bus : c.shared.world.bus = R.server.world.bus
  one : ∀ i j, Begun (g i) (c.threads i).loc → Begun (g j) (c.threads j).loc → i = j
  locks : ∀ l ∈ c.shared.locks, Begun (g l.1) (c.threads l.1).loc
  current : Current c
  early : ∀ i, (g i).early
  holds : ∀ i, Holds R i (c.threads i).loc c.shared (g i)

def Stage.late (s : Stage) : Prop := s = .fresh ∨ s = .opened ∨ s = .found ∨ s = .deduped

/-- Upload `w` has entered the chunk. -/
structure After (w : ι) (g : ι → Stage) (c : Clients ι Row Env Io Outcome) : Prop where
  rows : ∃ env, chunksT.rows c.shared.db = chunksT.rows R.server.db ++ [R.kept w env]
  object : c.shared.world.store.lookup R.key = some (R.ups w).body
  bus : (g w = .committed ∧ c.shared.world.bus = R.server.world.bus) ∨
    (g w = .told ∧ ∃ atTs, c.shared.world.bus = R.server.world.bus ++ [R.event w atTs])
  locks : c.shared.locks = []
  current : Current c
  late : ∀ i, i ≠ w → (g i).late
  holds : ∀ i, i ≠ w → Holds R i (c.threads i).loc c.shared (g i)

def Invariant (g : ι → Stage) (c : Clients ι Row Env Io Outcome) : Prop := Before R g c ∨ ∃ w, After R w g c

variable {R} {g : ι → Stage} {c : Clients ι Row Env Io Outcome} {i : ι} {t : Stage} {l : Conn} {sv : Sv ι}

/-- What a stage means depends on the store only once the object is put. -/
theorem Holds.server {j : ι} {conn : Conn} {s : Stage} {sv' : Sv ι} (h : Holds R j conn sv s)
    (hs : s.put = true → sv'.world.store = sv.world.store) : Holds R j conn sv' s := by
  cases s with
  | fresh => exact h
  | opened => exact ⟨h.1, h.2.tx, fun hp => by cases hp⟩
  | missed => exact ⟨h.1, h.2.tx, fun hp => by cases hp⟩
  | locked => exact ⟨h.1, h.2.tx, fun hp => by cases hp⟩
  | inserted => exact ⟨h.1, h.2.tx, fun hp => by cases hp⟩
  | stored => exact ⟨h.1, h.2.tx, fun hp => by rw [hs hp]; exact h.2.object hp⟩
  | keyed => exact ⟨h.1, h.2.tx, fun hp => by rw [hs hp]; exact h.2.object hp⟩
  | audited => exact ⟨h.1, h.2.tx, fun hp => by rw [hs hp]; exact h.2.object hp⟩
  | _ => trivial

theorem Stage.inside_of_put {s : Stage} (h : s.put = true) : s.inside = true := by
  revert h; cases s <;> decide

variable [DecidableEq ι]

/-- Upload `i` moved and committed nothing. -/
theorem Before.put {p} (h : Before R g c) (hdb : sv.db = c.shared.db) (hlog : sv.log = c.shared.log)
    (hbus : sv.world.bus = c.shared.world.bus)
    (hlocks : ∀ k ∈ sv.locks, k ∈ c.shared.locks ∨ (k.1 = i ∧ Begun t l))
    (hkeep : Begun (g i) (c.threads i).loc → Begun t l)
    (halone : Begun t l → ∀ j, j ≠ i → ¬Begun (g j) (c.threads j).loc)
    (hstore : Begun t l ∨ sv.world.store = c.shared.world.store)
    (hsnap : ∀ s, l.snap = some s → s.rows = sv.db ∧ s.time = sv.log.length) (hearly : t.early)
    (hholds : Holds R i l sv t) : Before R (Function.update g i t) (c.put i ⟨p, l⟩ sv) where
  db := hdb.trans h.db
  log := hlog.trans h.log
  bus := hbus.trans h.bus
  one := by
    intro j k hj hk
    by_cases hji : j = i <;> by_cases hki : k = i
    · rw [hji, hki]
    · subst hji
      simp only [Function.update_self, Config.put_self] at hj
      rw [Function.update_of_ne hki, Config.put_other _ _ _ hki] at hk
      exact absurd hk (halone hj k hki)
    · subst hki
      simp only [Function.update_self, Config.put_self] at hk
      rw [Function.update_of_ne hji, Config.put_other _ _ _ hji] at hj
      exact absurd hj (halone hk j hji)
    · rw [Function.update_of_ne hji, Config.put_other _ _ _ hji] at hj
      rw [Function.update_of_ne hki, Config.put_other _ _ _ hki] at hk
      exact h.one j k hj hk
  locks := by
    intro k hk
    by_cases hki : k.1 = i
    · rw [hki]
      simp only [Function.update_self, Config.put_self]
      rcases hlocks k hk with hk | ⟨-, hb⟩
      · exact hkeep (hki ▸ h.locks k hk)
      · exact hb
    · rw [Function.update_of_ne hki, Config.put_other _ _ _ hki]
      rcases hlocks k hk with hk | ⟨hk, -⟩
      · exact h.locks k hk
      · exact absurd hk hki
  current := by
    intro j s hs
    by_cases hj : j = i
    · subst hj
      rw [Config.put_self] at hs
      exact hsnap s hs
    · rw [Config.put_other _ _ _ hj] at hs
      rw [Config.put_shared, hdb, hlog]; exact h.current j s hs
  early := by
    intro j
    by_cases hj : j = i
    · subst hj; simpa using hearly
    · rw [Function.update_of_ne hj]; exact h.early j
  holds := by
    intro j
    by_cases hj : j = i
    · subst hj; simpa using hholds
    · rw [Function.update_of_ne hj, Config.put_other _ _ _ hj]
      refine (h.holds j).server fun hp => ?_
      rcases hstore with hb | hs
      · exact absurd (.inl (Stage.inside_of_put hp)) (halone hb j hj)
      · exact hs

omit [DecidableEq ι] in
theorem Before.alone (h : Before R g c) (hb : Begun (g i) (c.threads i).loc) :
    ∀ j, j ≠ i → ¬Begun (g j) (c.threads j).loc := fun j hj hbj => hj (h.one j i hbj hb)

/-- An upload that has begun took a step inside its transaction. -/
theorem Before.inside {p} (h : Before R g c) (hb : Begun (g i) (c.threads i).loc) (hdb : sv.db = c.shared.db)
    (hlog : sv.log = c.shared.log) (hbus : sv.world.bus = c.shared.world.bus)
    (hlocks : ∀ k ∈ sv.locks, k ∈ c.shared.locks ∨ k.1 = i) (hsnap : l.snap = none) (ht : t.inside = true)
    (hholds : Holds R i l sv t) : Before R (Function.update g i t) (c.put i ⟨p, l⟩ sv) := by
  refine h.put hdb hlog hbus (fun k hk => (hlocks k hk).imp_right fun hk => ⟨hk, .inl ht⟩) (fun _ => .inl ht)
    (fun _ => h.alone hb) (.inl (.inl ht)) (fun s hs => ?_) (.inr (.inr ht)) hholds
  rw [hsnap] at hs; cases hs

/-- Upload `i`, not the one that entered the chunk, moved. -/
theorem After.put {w : ι} {p} (h : After R w g c) (hi : i ≠ w) (hdb : sv.db = c.shared.db) (hlog : sv.log = c.shared.log)
    (hworld : sv.world = c.shared.world) (hlocks : sv.locks = [])
    (hsnap : ∀ s, l.snap = some s → s.rows = sv.db ∧ s.time = sv.log.length) (hlate : t.late)
    (hholds : Holds R i l sv t) : After R w (Function.update g i t) (c.put i ⟨p, l⟩ sv) where
  rows := by rw [Config.put_shared, hdb]; exact h.rows
  object := by rw [Config.put_shared, hworld]; exact h.object
  bus := by
    rw [Function.update_of_ne hi.symm, Config.put_shared, hworld]; exact h.bus
  locks := hlocks
  current := by
    intro j s hs
    by_cases hj : j = i
    · subst hj
      rw [Config.put_self] at hs
      exact hsnap s hs
    · rw [Config.put_other _ _ _ hj] at hs
      rw [Config.put_shared, hdb, hlog]; exact h.current j s hs
  late := by
    intro j hjw
    by_cases hj : j = i
    · subst hj; simpa using hlate
    · rw [Function.update_of_ne hj]; exact h.late j hjw
  holds := by
    intro j hjw
    by_cases hj : j = i
    · subst hj; simpa using hholds
    · rw [Function.update_of_ne hj, Config.put_other _ _ _ hj]
      exact (h.holds j hjw).server fun _ => by rw [Config.put_shared, hworld]

/-! ## The moves before the commit -/

variable {e : Env}

omit [DecidableEq ι] in
/-- A snapshot before the commit is of the store as it was at the start. -/
theorem Before.snap (h : Before R g c) {s : Snapshot Row} (hs : (c.threads i).loc.snap = some s) :
    s.rows = R.server.db ∧ c.shared.alive s = R.server.db := by
  obtain ⟨hrows, htime⟩ := h.current i s hs
  rw [alive_now htime, hrows]
  exact ⟨h.db, h.db⟩

omit [DecidableEq ι] in
/-- Locks a statement adds are the client's own. -/
theorem own_locks {needs : List (Need Key Uniq)} {locks : List (ι × Need Key Uniq)} :
    ∀ k ∈ needs.map (i, ·) ++ locks, k ∈ locks ∨ k.1 = i := by
  intro k hk
  rcases List.mem_append.1 hk with hk | hk
  · obtain ⟨n, -, rfl⟩ := List.mem_map.1 hk
    exact .inr rfl
  · exact .inl hk

omit [DecidableEq ι] in
theorem longer {conn : Conn} {o : Operation} {r : Answer o} {n : Nat} (h : n ≤ conn.hist.length) :
    n ≤ (conn.done o r).hist.length := by
  simp only [Client.done, List.length_append]
  omega

theorem Before.query {q : Sql} {r : Answer (.query .tx q : Operation)} {p} (h : Before R g c) (hc : Calm c.shared e)
    (hm : (protocol R i).may (g i) (.query .tx q))
    (hx : machine.exec i e (c.threads i).loc c.shared (.query .tx q) = some (some r, l, sv)) :
    ∃ t, (protocol R i).next (g i) (.query .tx q) r t ∧ Before R (Function.update g i t) (c.put i ⟨p, l⟩ sv) := by
  have hsnap : (c.threads i).loc.snap.isSome = true := by
    obtain ⟨snap, -, hq⟩ := exec_done hx
    rw [(hq _ _ rfl).1]; rfl
  have hh := h.holds i
  cases q with
  | delete q => exact hm.elim
  | select q =>
    obtain ⟨hg, hq⟩ := hm
    have hb : Begun (g i) (c.threads i).loc := .inr ⟨hg, hsnap⟩
    rw [hg] at hh ⊢
    obtain ⟨hlen, ⟨t, ht, hw⟩, -⟩ := hh
    obtain ⟨rfl, rfl, _, -, rfl⟩ := query_tx_runs hc.database ht [] [] (fun snap hs => by
      rw [hq, hw, applyAll_nil, (h.snap hs).1]; exact lookup_run R _ _ _) hx
    refine ⟨.missed, .inl ⟨rfl, rfl⟩, h.inside hb rfl rfl rfl own_locks rfl rfl ⟨?_, ⟨_, rfl, ?_⟩, fun hp => by cases hp⟩⟩
    · simp [Client.done, hlen]
    · show t.writes ++ [] = []
      rw [List.append_nil]; exact hw
  | forUpdate q =>
    obtain ⟨hg, hq⟩ := hm
    have hb : Begun (g i) (c.threads i).loc := .inl (by rw [hg]; rfl)
    rw [hg] at hh ⊢
    obtain ⟨hlen, ⟨t, ht, hw⟩, -⟩ := hh
    obtain ⟨rfl, rfl, _, -, rfl⟩ := query_tx_runs hc.database ht [.session R.session] []
      (fun snap hs => by
        rw [hq, hw, applyAll_nil, applyAll_nil, applyAll_nil, (h.snap hs).1, (h.snap hs).2, h.db]
        exact lock_run R _ _) hx
    refine ⟨.locked, ⟨rfl, rfl⟩, h.inside hb rfl rfl rfl own_locks rfl rfl ⟨?_, ⟨_, rfl, ?_⟩, fun hp => by cases hp⟩⟩
    · exact longer hlen
    · show t.writes ++ [] = []
      rw [List.append_nil]; exact hw
  | insert mk =>
    rcases hm with ⟨hg, hq⟩ | ⟨hg, entry, hq⟩
    · have hb : Begun (g i) (c.threads i).loc := .inl (by rw [hg]; rfl)
      rw [hg] at hh ⊢
      obtain ⟨hlen, ⟨t, ht, hw⟩, -⟩ := hh
      obtain ⟨rfl, rfl, _, -, rfl⟩ := query_tx_runs hc.database ht [.chunk (R.entered i t.env)]
        [.insert (.chunk (R.entered i t.env))] (fun snap hs => by
          rw [hq, hw, applyAll_nil, applyAll_nil, applyAll_nil, (h.snap hs).1, h.db]
          exact enter_run R i _ _) hx
      refine ⟨.inserted, ⟨fun _ => ⟨⟨_, rfl, rfl⟩, rfl⟩, fun hk => by cases hk⟩,
        h.inside hb rfl rfl rfl own_locks rfl rfl ⟨?_, ⟨_, rfl, ?_⟩, fun hp => by cases hp⟩⟩
      · exact longer hlen
      · show t.writes ++ [.insert (.chunk (R.entered i t.env))] = _
        rw [hw]; rfl
    · have hb : Begun (g i) (c.threads i).loc := .inl (by rw [hg]; rfl)
      rw [hg] at hh ⊢
      obtain ⟨hlen, ⟨t, ht, hw⟩, hput⟩ := hh
      obtain ⟨rfl, rfl, _, -, rfl⟩ := query_tx_runs hc.database ht
        [.audit (AuditLog.row entry (StepEnv.within t.env e))]
        [.insert (.audit (AuditLog.row entry (StepEnv.within t.env e)))] (fun snap hs => by
          rw [hq]
          refine append_run (StepEnv.within t.env e) fun a ha => ?_
          rw [hw, h.db, entered_kept R i t.env] at ha
          rcases List.mem_append.1 (auditT.mem_rows.1 ha) with ha | ha
          · exact hc.fresh a (auditT.mem_rows.2 (h.db ▸ ha))
          · cases List.mem_singleton.1 ha) hx
      refine ⟨.audited, ⟨(fun hk => by cases hk), fun _ => rfl⟩,
        h.inside hb rfl rfl rfl own_locks rfl rfl
          ⟨?_, ⟨_, rfl, AuditLog.row entry (StepEnv.within t.env e), ?_⟩, fun _ => hput rfl⟩⟩
      · exact longer hlen
      · show t.writes ++ [.insert (.audit (AuditLog.row entry (StepEnv.within t.env e)))] = _
        rw [hw]; rfl
  | update q set =>
    obtain ⟨hg, hq⟩ := hm
    have hb : Begun (g i) (c.threads i).loc := .inl (by rw [hg]; rfl)
    rw [hg] at hh ⊢
    obtain ⟨hlen, ⟨t, ht, hw⟩, hput⟩ := hh
    obtain ⟨rfl, rfl, _, -, rfl⟩ := query_tx_runs hc.database ht [.chunk (R.kept i t.env)]
      [.update (.chunk (R.kept i t.env))] (fun snap hs => by
        rw [hq, hw, (h.snap hs).2, h.db]
        exact setKey_run R i t.env _ _) hx
    refine ⟨.keyed, rfl, h.inside hb rfl rfl rfl own_locks rfl rfl ⟨?_, ⟨_, rfl, ?_⟩, fun _ => hput rfl⟩⟩
    · exact longer hlen
    · show t.writes ++ [.update (.chunk (R.kept i t.env))] = _
      rw [hw]; rfl

omit [DecidableEq ι] in
/-- Before the commit an upload has begun if it is underway. -/
theorem Before.begun_iff (h : Before R g c) (i : ι) :
    Begun (g i) (c.threads i).loc ↔ underway (c.threads i).loc = true := by
  have hh := h.holds i
  have hearly := h.early i
  cases hg : g i <;> rw [hg] at hh hearly <;> simp only [Stage.early, Stage.inside, reduceCtorEq, or_self, or_false,
    Bool.false_eq_true] at hearly
  case fresh =>
    obtain ⟨htx, -⟩ := hh
    simp [Begun, Stage.inside, underway, htx]
  case opened =>
    obtain ⟨hlen, ⟨t, ht, -⟩, -⟩ := hh
    simp [Begun, Stage.inside, underway, ht, hlen]
  all_goals
    obtain ⟨hlen, ⟨t, ht, -⟩, -⟩ := hh
    simp [Begun, Stage.inside, underway, ht, hlen]

omit [DecidableEq ι] in
theorem not_looks {conn : Conn} (h : underway conn = true) : looks conn = false := by
  simp only [underway, Bool.and_eq_true, Bool.or_eq_true, decide_eq_true_eq] at h
  simp only [looks, Bool.and_eq_false_iff, beq_eq_false_iff_ne]
  rcases h.2 with h | h
  · exact .inl (.inr (by omega))
  · exact .inr (by simpa [Option.isSome_iff_ne_none] using h)

/-- Taking the snapshot of the lookup is what begins an upload. -/
theorem Before.look {p} (h : Before R g c) (hg : Guard R c i e) {q : Sql} (hm : (protocol R i).may (g i) (.query .tx q))
    (hs : (c.threads i).loc.snap = none) :
    Before R g (c.put i ⟨p, { (c.threads i).loc with snap := some c.shared.look }⟩ c.shared) := by
  have hput : Before R (Function.update g i (g i))
      (c.put i ⟨p, { (c.threads i).loc with snap := some c.shared.look }⟩ c.shared) := by
    refine h.put rfl rfl rfl (fun k hk => .inl hk) (fun hb => ?_) (fun hb j hj hbj => ?_) (.inr rfl) (fun s hs => ?_)
      (h.early i) ?_
    · exact hb.imp_right fun ⟨ho, _⟩ => ⟨ho, rfl⟩
    · by_cases hin : (g i).inside = true
      · exact h.alone (.inl hin) j hj hbj
      · -- The upload is at its lookup: the guard keeps it apart.
        have ho : g i = .opened := by
          rcases hb with hb | hb
          · exact absurd hb hin
          · exact hb.1
        have hh := h.holds i
        rw [ho] at hh
        obtain ⟨hlen, ⟨t, ht, -⟩, -⟩ := hh
        have hlook : looks (c.threads i).loc = true := by simp [looks, ht, hlen, hs]
        rcases hg.2 hlook with hany | hall
        · rw [h.db] at hany
          obtain ⟨r, hr, hc⟩ := List.any_eq_true.1 hany
          simp only [Retries.ofChunk, Bool.and_eq_true, decide_eq_true_eq] at hc
          exact R.absent r hr hc
        · have hunder := (h.begun_iff j).1 hbj
          rw [hall j hj] at hunder; cases hunder
    · cases hs; exact ⟨rfl, rfl⟩
    · have hh := h.holds i
      cases hgi : g i <;> rw [hgi] at hh hm <;> first | trivial | exact ⟨hh.1, hh.2.tx, hh.2.object⟩ | skip
      cases q with
      | insert mk => rcases hm with ⟨hm, -⟩ | ⟨hm, -⟩ <;> cases hm
      | delete q => exact hm.elim
      | _ => cases hm.1
  rwa [Function.update_eq_self] at hput

/-- The commit: the store has one chunk more. -/
theorem Before.commit {p} (h : Before R g c) (hgi : g i = .audited) (hl : l.snap = none)
    (hsv : sv = (c.shared.apply i (c.threads i).loc.writes).release i) :
    After R i (Function.update g i .committed) (c.put i ⟨p, l⟩ sv) := by
  have hb : Begun (g i) (c.threads i).loc := .inl (by rw [hgi]; rfl)
  have hh := h.holds i
  rw [hgi] at hh
  obtain ⟨-, ⟨t, ht, a, hw⟩, hput⟩ := hh
  have hnot : ∀ j, j ≠ i → ¬Begun (g j) (c.threads j).loc := h.alone hb
  have hearly : ∀ j, j ≠ i → g j = .fresh ∨ g j = .opened := by
    intro j hj
    rcases h.early j with hf | ho | hin
    · exact .inl hf
    · exact .inr ho
    · exact absurd (.inl hin) (hnot j hj)
  subst hsv
  refine ⟨⟨t.env, ?_⟩, hput rfl, .inl ⟨by simp, h.bus⟩, ?_, fun j s hs => ?_, fun j hj => ?_, fun j hj => ?_⟩
  · have hwr : (c.threads i).loc.writes = [.insert (.chunk (R.entered i t.env)), .update (.chunk (R.kept i t.env))] ++
        [.insert (.audit a)] := by simp [Client.writes, ht, hw]
    show chunksT.rows (applyAll _ c.shared.db) = _
    rw [hwr, applyAll_append, h.db, entered_kept R i t.env]
    simp [Write.apply, Table.rows, chunksT]
  · refine List.filter_eq_nil_iff.2 fun k hk => ?_
    have hki : k.1 = i := h.one _ _ (h.locks k hk) hb
    simp [hki]
  · by_cases hj : j = i
    · subst hj
      rw [Config.put_self, hl] at hs; cases hs
    · rw [Config.put_other _ _ _ hj] at hs
      -- A client with a snapshot would have begun.
      rcases hearly j hj with hf | ho
      · have hhj := h.holds j
        rw [hf] at hhj
        rw [hhj.2.1] at hs; cases hs
      · exact absurd (.inr ⟨ho, by rw [hs]; rfl⟩) (hnot j hj)
  · rw [Function.update_of_ne hj]
    rcases hearly j hj with hf | ho
    · exact .inl hf
    · exact .inr (.inl ho)
  · rw [Function.update_of_ne hj, Config.put_other _ _ _ hj]
    exact (h.holds j).server fun _ => rfl

theorem Before.outer {x : Io} {r : Answer (.outer x : Operation)} {p} (h : Before R g c) (hc : Calm c.shared e)
    (hm : (protocol R i).may (g i) (.outer x))
    (hx : machine.exec i e (c.threads i).loc c.shared (.outer x) = some (some r, l, sv)) :
    ∃ t, (protocol R i).next (g i) (.outer x) r t ∧ Before R (Function.update g i t) (c.put i ⟨p, l⟩ sv) := by
  have hh := h.holds i
  obtain ⟨rfl, rfl, rfl⟩ := outer_done hx
  cases x with
  | toBytes body limit =>
    obtain ⟨hg, rfl, rfl⟩ := hm
    have hb : Begun (g i) (c.threads i).loc := .inl (by rw [hg]; rfl)
    rw [hg] at hh ⊢
    have hfits := R.fits i
    have hr : (Outer.act (Io.toBytes (R.ups i).body (ChunkRoutes.MAX_CHUNK_BYTES + 1)) e c.shared.world).1 =
        .ok (R.ups i).body := by
      have hle : ¬ChunkRoutes.MAX_CHUNK_BYTES + 1 < (R.ups i).body.length := by omega
      simp only [Outer.act, Io.act, hc.database, Bool.false_eq_true, if_false, if_neg hle]
    rw [hr]
    refine ⟨.locked, ⟨rfl, rfl⟩, h.inside hb rfl rfl rfl (fun k hk => .inl hk) rfl rfl ⟨?_, hh.2.tx, fun hp => by cases hp⟩⟩
    exact longer hh.1
  | put key body ct =>
    obtain ⟨hg, rfl, rfl⟩ := hm
    have hb : Begun (g i) (c.threads i).loc := .inl (by rw [hg]; rfl)
    rw [hg] at hh ⊢
    have hput : ObjectStore.put e.storeFails c.shared.world.store R.key (R.ups i).body = _ :=
      ObjectStore.put_ok (hc.store R.key)
    have hr : (Outer.act (Io.put R.key (R.ups i).body ct) e c.shared.world).1 = .ok () := congrArg Prod.fst hput
    have hw : (Outer.act (Io.put R.key (R.ups i).body ct) e c.shared.world).2.store =
        c.shared.world.store.insert R.key (R.ups i).body := congrArg Prod.snd hput
    rw [hr]
    refine ⟨.stored, rfl, h.inside hb rfl rfl rfl (fun k hk => .inl hk) rfl rfl ⟨?_, hh.2.tx, fun _ => ?_⟩⟩
    · exact longer hh.1
    · exact (congrArg (·.lookup R.key) hw).trans ObjectStore.lookup_insert_self
  | incCounter name n =>
    have hg : g i = .stored := hm
    have hb : Begun (g i) (c.threads i).loc := .inl (by rw [hg]; rfl)
    rw [hg] at hh ⊢
    refine ⟨.stored, rfl, h.inside hb rfl rfl rfl (fun k hk => .inl hk) rfl rfl ⟨?_, hh.2.tx, fun _ => hh.2.object rfl⟩⟩
    exact longer hh.1
  | send ev =>
    have hearly := h.early i
    rw [hm.1] at hearly
    simp [Stage.early, Stage.inside] at hearly
  | utcNow =>
    have hearly := h.early i
    rw [show g i = .committed from hm] at hearly
    simp [Stage.early, Stage.inside] at hearly
  | _ => exact hm.elim

/-- A completed operation, before the commit. -/
theorem Before.done {o : Operation} {r : Answer o} {p} (h : Before R g c) (hc : Calm c.shared e)
    (hm : (protocol R i).may (g i) o) (hx : machine.exec i e (c.threads i).loc c.shared o = some (some r, l, sv)) :
    ∃ t, (protocol R i).next (g i) o r t ∧ Invariant R (Function.update g i t) (c.put i ⟨p, l⟩ sv) := by
  have hh := h.holds i
  cases o with
  | query via q =>
    cases via with
    | tx =>
      obtain ⟨t, hn, hb⟩ := h.query hc hm hx
      exact ⟨t, hn, .inl hb⟩
    | pool => exact hm.elim
  | outer x =>
    obtain ⟨t, hn, hb⟩ := h.outer hc hm hx
    exact ⟨t, hn, .inl hb⟩
  | begin =>
    have hg : g i = .fresh := hm
    obtain ⟨rfl, rfl, rfl⟩ := begin_runs hc.database hx
    rw [hg] at hh
    have hnot : ¬Begun .opened (Client.done { (c.threads i).loc with tx := some { env := e, writes := [] } } .begin (.ok ())) := by
      simp [Begun, Stage.inside, Client.done]
    refine ⟨.opened, rfl, .inl (h.put rfl rfl rfl (fun k hk => .inl hk) (fun hb => ?_) (fun hb => absurd hb hnot)
      (.inr rfl) (fun s hs => by cases hs) (.inr (.inl rfl)) ⟨?_, ⟨_, rfl, rfl⟩, fun hp => by cases hp⟩)⟩
    · rw [hg] at hb
      simp [Begun, Stage.inside] at hb
    · simp [Client.done, hh.2.2]
  | commit =>
    obtain ⟨rfl, rfl, hsv⟩ := commit_runs hc.database hx
    exact ⟨.committed, rfl, .inr ⟨i, h.commit hm rfl hsv⟩⟩
  | rollback =>
    have hearly := h.early i
    rw [show g i = .found from hm] at hearly
    simp [Stage.early, Stage.inside] at hearly

/-! ## The moves after the commit -/

omit [DecidableEq ι] in
theorem After.any {w : ι} (h : After R w g c) : (chunksT.rows c.shared.db).any R.ofChunk = true := by
  obtain ⟨env, hrows⟩ := h.rows
  rw [hrows]
  simp [Retries.ofChunk, Chunks.ofPair, Retries.kept, Retries.entered, Chunks.insertRow, ChunkRoutes.reserve, R.ofClient]

omit [DecidableEq ι] in
/-- The lookup finds the chunk. -/
theorem After.lookup {w : ι} (h : After R w g c) (alive cur : Db) : ∃ env rows,
    ((Chunks.lookupByClientIdSql R.session.id R.pseudoId R.clientChunkId).run e c.shared.db alive cur).result =
      .ok (rows, []) ∧ (chunksT.rows rows).head? = some (R.kept w env) := by
  obtain ⟨env, hrows⟩ := h.rows
  refine ⟨env, _, rfl, ?_⟩
  rw [chunksT.rows_filter_is, hrows, List.filter_append, List.filter_eq_nil_iff.2, List.nil_append]
  · simp [Chunks.ofPair, Retries.kept, Retries.entered, Chunks.insertRow, ChunkRoutes.reserve, R.ofClient]
  · intro c hc
    simpa using R.absent c hc

/-- The upload that entered the chunk told of it, or is about to. -/
theorem After.winner {w : ι} {p} (h : After R w g c) (hdb : sv.db = c.shared.db) (hlog : sv.log = c.shared.log)
    (hstore : sv.world.store = c.shared.world.store) (hlocks : sv.locks = [])
    (hsnap : ∀ s, l.snap = some s → s.rows = sv.db ∧ s.time = sv.log.length)
    (hbus : (t = .committed ∧ sv.world.bus = R.server.world.bus) ∨
      (t = .told ∧ ∃ atTs, sv.world.bus = R.server.world.bus ++ [R.event w atTs])) :
    After R w (Function.update g w t) (c.put w ⟨p, l⟩ sv) where
  rows := by rw [Config.put_shared, hdb]; exact h.rows
  object := by rw [Config.put_shared, hstore]; exact h.object
  bus := by rw [Function.update_self, Config.put_shared]; exact hbus
  locks := hlocks
  current := by
    intro j s hs
    by_cases hj : j = w
    · subst hj
      rw [Config.put_self] at hs
      exact hsnap s hs
    · rw [Config.put_other _ _ _ hj] at hs
      rw [Config.put_shared, hdb, hlog]; exact h.current j s hs
  late := by
    intro j hj
    rw [Function.update_of_ne hj]; exact h.late j hj
  holds := by
    intro j hj
    rw [Function.update_of_ne hj, Config.put_other _ _ _ hj]
    exact (h.holds j hj).server fun _ => hstore

theorem After.done {w : ι} {o : Operation} {r : Answer o} {p} (h : After R w g c) (hc : Calm c.shared e)
    (hm : (protocol R i).may (g i) o) (hx : machine.exec i e (c.threads i).loc c.shared o = some (some r, l, sv)) :
    ∃ t, (protocol R i).next (g i) o r t ∧ After R w (Function.update g i t) (c.put i ⟨p, l⟩ sv) := by
  by_cases hi : i = w
  · subst hi
    -- The upload that entered the chunk is past its transaction.
    have hstage : g i = .committed ∨ g i = .told := h.bus.imp And.left And.left
    rcases may_cases hm with hs | ⟨hs, rfl⟩ | ⟨hs, rfl⟩ | ⟨hs, rfl⟩ | ⟨hs, ho⟩
    · rcases hstage with hg | hg <;> rw [hg] at hs <;> cases hs
    · rcases hstage with hg | hg <;> rw [hg] at hs <;> cases hs
    · rcases hstage with hg | hg <;> rw [hg] at hs <;> cases hs
    · rcases hstage with hg | hg <;> rw [hg] at hs <;> cases hs
    · have hbus : c.shared.world.bus = R.server.world.bus := by
        rcases h.bus with ⟨-, hb⟩ | ⟨hg, -⟩
        · exact hb
        · rw [hs] at hg; cases hg
      rcases ho with rfl | ⟨atTs, rfl⟩
      · obtain ⟨rfl, rfl, rfl⟩ := outer_done hx
        exact ⟨.committed, hs.symm, h.winner rfl rfl rfl h.locks (fun s hs => by cases hs) (.inl ⟨rfl, hbus⟩)⟩
      · obtain ⟨rfl, rfl, rfl⟩ := outer_done hx
        refine ⟨.told, rfl, h.winner rfl rfl rfl h.locks (fun s hs => by cases hs) (.inr ⟨rfl, atTs, ?_⟩)⟩
        show c.shared.world.bus ++ [R.event i atTs] = _
        rw [hbus]
  · have hh := h.holds i hi
    have hlate := h.late i hi
    rcases may_cases hm with hs | ⟨hs, rfl⟩ | ⟨hs, rfl⟩ | ⟨hs, rfl⟩ | ⟨hs, -⟩
    · rcases hlate with hg | hg | hg | hg <;> rw [hg] at hs <;> cases hs
    · rw [hs] at hh
      obtain ⟨rfl, rfl, rfl⟩ := begin_runs hc.database hx
      refine ⟨.opened, rfl, h.put hi rfl rfl rfl h.locks (fun s hs => by cases hs) (.inr (.inl rfl))
        ⟨?_, ⟨_, rfl, rfl⟩, fun hp => by cases hp⟩⟩
      simp [Client.done, hh.2.2]
    · -- The lookup finds the chunk.
      rw [hs] at hh
      obtain ⟨-, ⟨t, ht, hw⟩, -⟩ := hh
      obtain ⟨snap, -, hsnap⟩ := exec_done hx
      obtain ⟨hsn, -⟩ := hsnap _ _ rfl
      obtain ⟨env, rows, hrun, hrows⟩ := h.lookup (e := StepEnv.within t.env e)
        (applyAll t.writes (c.shared.alive snap)) (applyAll t.writes c.shared.db)
      obtain ⟨rfl, rfl, _, -, rfl⟩ := query_tx_runs hc.database ht rows [] (fun snap' hs' => by
        obtain rfl := Option.some.inj (hsn.symm.trans hs')
        rw [hw] at hrun ⊢
        rw [applyAll_nil, (h.current i snap hsn).1]; exact hrun) hx
      refine ⟨.found, .inr ⟨_, hrows, rfl, rfl, rfl⟩, h.put hi rfl rfl rfl h.locks (fun s hs => by cases hs)
        (.inr (.inr (.inl rfl))) trivial⟩
    · obtain ⟨rfl, rfl, rfl⟩ := rollback_runs hc.database hx
      refine ⟨.deduped, rfl, h.put hi rfl rfl rfl ?_ (fun s hs => by cases hs) (.inr (.inr (.inr rfl))) trivial⟩
      simp [Server.release, h.locks]
    · rcases hlate with hg | hg | hg | hg <;> rw [hg] at hs <;> cases hs

/-- Taking a snapshot after the commit. -/
theorem After.look {w : ι} {p} {q : Sql} (h : After R w g c) (hm : (protocol R i).may (g i) (.query .tx q)) :
    After R w g (c.put i ⟨p, { (c.threads i).loc with snap := some c.shared.look }⟩ c.shared) := by
  have hi : i ≠ w := by
    rintro rfl
    have hstage : g i = .committed ∨ g i = .told := h.bus.imp And.left And.left
    rcases may_cases hm with hs | ⟨hs, -⟩ | ⟨hs, -⟩ | ⟨hs, -⟩ | ⟨-, ho | ⟨_, ho⟩⟩
    · rcases hstage with hg | hg <;> rw [hg] at hs <;> cases hs
    · rcases hstage with hg | hg <;> rw [hg] at hs <;> cases hs
    · rcases hstage with hg | hg <;> rw [hg] at hs <;> cases hs
    · rcases hstage with hg | hg <;> rw [hg] at hs <;> cases hs
    · cases ho
    · cases ho
  have hput : After R w (Function.update g i (g i))
      (c.put i ⟨p, { (c.threads i).loc with snap := some c.shared.look }⟩ c.shared) := by
    refine h.put hi rfl rfl rfl h.locks (fun s hs => ?_) (h.late i hi) ?_
    · cases hs; exact ⟨rfl, rfl⟩
    · have hh := h.holds i hi
      rcases h.late i hi with hg | hg | hg | hg <;> rw [hg] at hm hh ⊢
      · rcases may_cases hm with hs | ⟨-, ho⟩ | ⟨hs, -⟩ | ⟨hs, -⟩ | ⟨hs, -⟩ <;> first | cases hs | cases ho
      · exact ⟨hh.1, hh.2.tx, hh.2.object⟩
      · trivial
      · trivial
  rwa [Function.update_eq_self] at hput

end

/-! ## Runs -/

section
variable {ι : Type} [DecidableEq ι] {R : Retries ι} {c : Clients ι Row Env Io Outcome} {e : Env}

omit [DecidableEq ι] in
theorem before_start : Before R (fun _ => .fresh) R.start where
  db := rfl
  log := R.quiescent.log
  bus := rfl
  one := by
    intro i j hi _
    simp [Begun, Stage.inside] at hi
  locks := by
    intro l hl
    rw [show R.start.shared.locks = [] from R.quiescent.locks] at hl
    cases hl
  current := fun i s hs => by cases hs
  early := fun _ => .inl rfl
  holds := fun _ => ⟨rfl, rfl, rfl⟩

/-- The invariant of every guarded run. -/
theorem invariant_run (h : Run machine (Guard R) R.start c) :
    Ghosted (protocol R) (fun _ => Answers R) (Invariant R) c := by
  refine Run.ghost ⟨fun _ => .fresh, .inl before_start, handle_follows R⟩ ?_ ?_ ?_ h
  · intro c g i e o k l sv _ hJ _ hm hg hx
    obtain ⟨⟨via, q, rfl⟩, hsnap, rfl, rfl⟩ := exec_inner hx
    cases via with
    | pool => exact hm.elim
    | tx =>
      rcases hJ with hJ | ⟨w, hJ⟩
      · exact .inl (hJ.look hg hm hsnap)
      · exact .inr ⟨w, hJ.look hm⟩
  · intro c g i e o k r l sv _ hJ _ hm hg hx
    rcases hJ with hJ | ⟨w, hJ⟩
    · exact hJ.done hg.1 hm hx
    · obtain ⟨t, hn, hA⟩ := hJ.done hg.1 hm hx
      exact ⟨t, hn, .inr ⟨w, hA⟩⟩
  · intro c g i e a l sv _ hJ _ hQ _ hx
    obtain ⟨rfl, rfl⟩ := close_done hx
    refine ⟨g i, hQ, ?_⟩
    rcases hJ with hJ | ⟨w, hJ⟩
    · have hearly := hJ.early i
      rcases hQ with ⟨hs, -⟩ | ⟨hs, -⟩ <;> rw [hs] at hearly <;> simp [Stage.early, Stage.inside] at hearly
    · have hlocks : (c.shared.release i).locks = [] := by simp [Server.release, hJ.locks]
      refine .inr ⟨w, ?_⟩
      by_cases hi : i = w
      · subst hi
        exact hJ.winner rfl rfl rfl hlocks (fun s hs => hJ.current i s hs) hJ.bus
      · refine hJ.put hi rfl rfl rfl hlocks (fun s hs => hJ.current i s hs) (hJ.late i hi) ?_
        rcases hQ with ⟨hs, -⟩ | ⟨hs, -⟩
        · have hlate := hJ.late i hi
          rw [hs] at hlate
          simp [Stage.late] at hlate
        · rw [hs]; trivial

/-- With no other upload's lock in the way, it moves. -/
theorem moves {g : ι → Stage} {i : ι} (hF : (c.threads i).prog.Follows (protocol R i) (Answers R) (g i))
    (hn : c.returned i = none) (hl : ∀ l ∈ c.shared.locks, l.1 = i) : ∃ c', c.step machine i e = some c' := by
  obtain ⟨o, k, hp, hm⟩ := Config.at_operation hF hn
  refine Config.step_moves hp (exec_moves hl fun s ho => ?_)
  subst ho
  exact hm

/-- Uploads of one chunk in any interleaving that keeps their lookups apart:
every answer is the same success; once all have answered, one of them entered
the chunk, told of it once and is the one whose body the store holds, and the
others are deduplicated; and until all have answered, some upload can move. -/
theorem retries_idempotent (R : Retries ι) (h : Run machine (Guard R) R.start c) :
    (∀ i o, c.returned i = some o → o = R.answer false ∨ o = R.answer true) ∧
    ((∀ i, (c.returned i).isSome = true) → Nonempty ι → ∃ w, c.returned w = some (R.answer false) ∧
      (∀ i, i ≠ w → c.returned i = some (R.answer true)) ∧
      (∃ env, chunksT.rows c.shared.db = chunksT.rows R.server.db ++ [R.kept w env]) ∧
      (∃ atTs, c.shared.world.bus = R.server.world.bus ++ [R.event w atTs]) ∧
      c.shared.world.store.lookup R.key = some (R.ups w).body) ∧
    ((∃ i, c.returned i = none) → ∀ e, Calm c.shared e →
      ∃ i c', c.returned i = none ∧ Guard R c i e ∧ c.step machine i e = some c') := by
  obtain ⟨g, hJ, hF⟩ := invariant_run h
  have hanswer : ∀ i o, c.returned i = some o → Answers R (g i) o := by
    intro i o ho
    have := hF i
    rwa [Config.returned_iff.1 ho] at this
  refine ⟨fun i o ho => ?_, fun hall hne => ?_, fun hsome e he => ?_⟩
  · rcases hanswer i o ho with ⟨-, ho⟩ | ⟨-, ho⟩
    · exact .inl ho
    · exact .inr ho
  · have hstage : ∀ i, (g i = .told ∧ c.returned i = some (R.answer false)) ∨
        (g i = .deduped ∧ c.returned i = some (R.answer true)) := by
      intro i
      obtain ⟨o, ho⟩ := Option.isSome_iff_exists.1 (hall i)
      rcases hanswer i o ho with ⟨hs, rfl⟩ | ⟨hs, rfl⟩
      · exact .inl ⟨hs, ho⟩
      · exact .inr ⟨hs, ho⟩
    rcases hJ with hJ | ⟨w, hJ⟩
    · obtain ⟨i⟩ := hne
      have hearly := hJ.early i
      rcases hstage i with ⟨hs, -⟩ | ⟨hs, -⟩ <;> rw [hs] at hearly <;> simp [Stage.early, Stage.inside] at hearly
    · refine ⟨w, ?_, fun i hi => ?_, hJ.rows, ?_, hJ.object⟩
      · rcases hstage w with ⟨-, hr⟩ | ⟨hs, -⟩
        · exact hr
        · rcases hJ.bus with ⟨hb, -⟩ | ⟨hb, -⟩ <;> rw [hs] at hb <;> cases hb
      · rcases hstage i with ⟨hs, -⟩ | ⟨-, hr⟩
        · have hlate := hJ.late i hi
          rw [hs] at hlate
          simp [Stage.late] at hlate
        · exact hr
      · rcases hJ.bus with ⟨hb, -⟩ | ⟨-, hb⟩
        · rcases hstage w with ⟨hs, -⟩ | ⟨hs, -⟩ <;> rw [hs] at hb <;> cases hb
        · exact hb
  · obtain ⟨i, hi⟩ := hsome
    rcases hJ with hJ | ⟨w, hJ⟩
    · by_cases hbegun : ∃ j, Begun (g j) (c.threads j).loc
      · -- The upload that has begun holds all the locks.
        obtain ⟨j, hb⟩ := hbegun
        have hj : c.returned j = none := by
          cases hr : c.returned j with
          | none => rfl
          | some o =>
            rcases hanswer j o hr with ⟨hs, -⟩ | ⟨hs, -⟩ <;> rw [hs] at hb <;> simp [Begun, Stage.inside] at hb
        obtain ⟨c', hc'⟩ := moves (e := e) (hF j) hj fun l hl => hJ.one _ _ (hJ.locks l hl) hb
        refine ⟨j, c', hj, ⟨he, fun hlook => ?_⟩, hc'⟩
        rw [not_looks ((hJ.begun_iff j).1 hb)] at hlook; cases hlook
      · have hnone : c.shared.locks = [] :=
          List.eq_nil_iff_forall_not_mem.2 fun l hl => hbegun ⟨l.1, hJ.locks l hl⟩
        obtain ⟨c', hc'⟩ := moves (e := e) (hF i) hi fun l hl => by rw [hnone] at hl; cases hl
        refine ⟨i, c', hi, ⟨he, fun _ => .inr fun j _ => ?_⟩, hc'⟩
        rw [← Bool.not_eq_true, ← hJ.begun_iff j]
        exact fun hb => hbegun ⟨j, hb⟩
    · obtain ⟨c', hc'⟩ := moves (e := e) (hF i) hi fun l hl => by rw [hJ.locks] at hl; cases hl
      exact ⟨i, c', hi, ⟨he, fun _ => .inl hJ.any⟩, hc'⟩

end

/-! ## Two uploads of one chunk -/

def sampleUps : Fin 2 → ChunkRoutes.UploadRequest
  | 0 => Sample.chunk 'a' [1]
  | 1 => Sample.chunk 'a' [2]

def sample : Retries (Fin 2) where
  st := Sample.state
  svc := fun _ => "bot"
  ups := sampleUps
  session := Sample.session
  pseudoId := ⟨"mixed"⟩
  clientChunkId := "a"
  headers := fun _ => { captureStartedAt := 0, durationMs := 0, clientChunkId := "a" }
  server := Sample.server [.session Sample.session]
  toSession := by decide
  ofPseudo := fun i => by match i with | 0 => rfl | 1 => rfl
  parsed := fun i => by match i with | 0 => rfl | 1 => rfl
  ofClient := fun _ => rfl
  fits := by decide
  quiescent := ⟨by decide, rfl, rfl⟩
  exists_ := by simp [Sample.server]
  absent := fun c hc => by cases hc
  room := by decide

theorem calm_env {sv : Sv (Fin 2)} {k : Nat} (h : ∀ a ∈ auditT.rows sv.db, a.id ≠ (Sample.env k).uuid 0) :
    Calm sv (Sample.env k) := ⟨rfl, fun _ => rfl, h⟩

instance (c : Clients (Fin 2) Row Env Io Outcome) (i : Fin 2) : Decidable (Apart sample c i) :=
  inferInstanceAs (Decidable (_ → _))

/-- The lookup of the second upload comes after the commit of the first. -/
def sampleSchedule : List (Fin 2 × Env) := Sample.moves 0 [(0, 3), (1, 1), (0, 14), (1, 3)]

theorem retries_idempotent_sample : ∃ c : Clients (Fin 2) Row Env Io Outcome, ∃ w,
    c.returned w = some (sample.answer false) ∧ (∀ i, i ≠ w → c.returned i = some (sample.answer true)) ∧
    ∃ env, chunksT.rows c.shared.db = chunksT.rows sample.server.db ++ [sample.kept w env] := by
  have hrun : (sample.start.play machine sampleSchedule).map (fun c =>
      ((uploadedOf (c.returned 0)).isSome, (uploadedOf (c.returned 1)).isSome)) = some (true, true) := by decide +kernel
  have hguard : sample.start.Guarded machine (Guard sample) sampleSchedule := by
    have hd : sample.start.Guarded machine (fun c i e =>
        (∀ a ∈ auditT.rows c.shared.db, a.id ≠ e.uuid 0) ∧ Apart sample c i) sampleSchedule := by decide +kernel
    refine hd.mono fun c m hm h => ?_
    obtain ⟨k, hk⟩ := Sample.moves_env hm
    rw [hk] at h ⊢
    exact ⟨calm_env h.1, h.2⟩
  obtain ⟨c, hc, hr⟩ := Option.map_eq_some_iff.1 hrun
  have hall : ∀ i, (c.returned i).isSome = true := by
    simp only [Prod.mk.injEq, Option.isSome_iff_exists] at hr
    obtain ⟨⟨r₀, h₀⟩, r₁, h₁⟩ := hr
    intro i
    match i with
    | 0 => rw [uploadedOf_eq h₀]; rfl
    | 1 => rw [uploadedOf_eq h₁]; rfl
  obtain ⟨w, hw, hothers, hrows, -⟩ := (retries_idempotent sample (Run.play hguard .nil hc)).2.1 hall ⟨0⟩
  exact ⟨c, w, hw, hothers, hrows⟩

/-- The second lookup falls before the first commit: both uploads miss the
chunk, and the second fails. -/
theorem retries_collide : ∃ c : Clients (Fin 2) Row Env Io Outcome,
    Run machine (fun c _ e => Calm c.shared e) sample.start c ∧ c.returned 0 = some (sample.answer false) ∧
    c.returned 1 = some (.error (.database (.unique (.uniq (.chunkClient Sample.sessionId ⟨"mixed"⟩ "a"))))) := by
  have hrun : (sample.start.play machine (Sample.moves 0 [(0, 3), (1, 3), (0, 14), (1, 5)])).map (fun c =>
      (uploadedOf (c.returned 0), errorOf (c.returned 1))) =
      some (some { seq := sample.seq, s3Key := sample.key, deduplicated := false },
        some (.database (.unique (.uniq (.chunkClient Sample.sessionId ⟨"mixed"⟩ "a"))))) := by decide +kernel
  have hguard : sample.start.Guarded machine (fun c _ e => Calm c.shared e)
      (Sample.moves 0 [(0, 3), (1, 3), (0, 14), (1, 5)]) := by
    have hd : sample.start.Guarded machine (fun c _ e => ∀ a ∈ auditT.rows c.shared.db, a.id ≠ e.uuid 0)
        (Sample.moves 0 [(0, 3), (1, 3), (0, 14), (1, 5)]) := by decide +kernel
    refine hd.mono fun c m hm h => ?_
    obtain ⟨k, hk⟩ := Sample.moves_env hm
    rw [hk] at h ⊢
    exact calm_env h
  obtain ⟨c, hc, hr⟩ := Option.map_eq_some_iff.1 hrun
  simp only [Prod.mk.injEq] at hr
  exact ⟨c, Run.play hguard .nil hc, uploadedOf_eq hr.1, errorOf_eq hr.2⟩

end DataApi.UploadRetry
