/-
The life of a chunk row, from the upload that enters it to the wipe or the
cascade that drops it, under any interleaving of the handlers that touch
sessions and chunks. An upload enters its row with an empty key and sets the
key before it commits; whatever else is committed enters no chunk row and
leaves the prefix of every session as it is (`Commits`).
-/
import DataApi.Db.Writes
import DataApi.Proofs.ChunkKeys
import DataApi.Rules

namespace DataApi.ChunkLife

open Relational ReadCommitted Resumption Handler
open ChunkRoutes (Named)

/-! ## What is written -/

/-- The prefix of session `id`. -/
def prefixOf (id : Uuid) (db : Db) : Option String :=
  match lookup (.session id) db with
  | some (.session s) => some s.s3Prefix
  | _ => none

theorem prefixOf_eq {id : Uuid} {db : Db} {s : Session} (h : lookup (.session id) db = some (.session s)) :
    prefixOf id db = some s.s3Prefix := by
  rw [prefixOf, h]

theorem prefixOf_congr {id : Uuid} {db db' : Db} (h : versions (.session id) db = versions (.session id) db') :
    prefixOf id db = prefixOf id db' := by
  rw [prefixOf, prefixOf, lookup, lookup, h]

theorem prefixOf_some {id : Uuid} {db : Db} {pre : String} (h : prefixOf id db = some pre) :
    ∃ s, lookup (.session id) db = some (.session s) ∧ s.s3Prefix = pre := by
  unfold prefixOf at h
  split at h
  · next s hs => exact ⟨s, hs, Option.some.inj h⟩
  · cases h

/-- A write that leaves the prefixes as they are. -/
def KeepsPrefix (db : Db) (w : Write Row Key) : Prop :=
  ∀ id, w.key = .session id → ∃ s, w = .update (.session s) ∧ prefixOf id db = some s.s3Prefix

/-- A write that concerns no chunk and no prefix. -/
structure Keeps (db : Db) (w : Write Row Key) : Prop where
  chunks : (Key.table w.key) ≠ .chunks
  sessions : KeepsPrefix db w

theorem keepsPrefix_of_chunk {db : Db} {w : Write Row Key} (h : (Key.table w.key) = .chunks) : KeepsPrefix db w := by
  intro id hid
  rw [hid] at h
  cases h

theorem KeepsPrefix.congr {db db' : Db} {w : Write Row Key} (h : KeepsPrefix db w)
    (hp : ∀ id pre, prefixOf id db = some pre → prefixOf id db' = some pre) : KeepsPrefix db' w := by
  intro id hid
  obtain ⟨s, hs, hpre⟩ := h id hid
  exact ⟨s, hs, hp id _ hpre⟩

theorem Keeps.congr {db db' : Db} {w : Write Row Key} (h : Keeps db w)
    (hp : ∀ id pre, prefixOf id db = some pre → prefixOf id db' = some pre) : Keeps db' w :=
  ⟨h.chunks, h.sessions.congr hp⟩

theorem KeepsPrefix.apply {db : Db} {w : Write Row Key} (h : KeepsPrefix db w) (id : Uuid) :
    prefixOf id (w.apply db) = prefixOf id db := by
  by_cases hk : w.key = .session id
  · obtain ⟨s, rfl, hpre⟩ := h id hk
    obtain ⟨old, hold, -⟩ := prefixOf_some hpre
    have hkey : key (Row.session s) = .session id := hk
    have hnew := @lookup_update _ _ _ _ _ (Row.session s) _ _ (hkey ▸ hold)
    rw [hkey] at hnew
    rw [hpre, prefixOf_eq hnew]
  · exact prefixOf_congr (versions_apply_other hk db)

theorem keeps_prefixOf {ws : List (Write Row Key)} {db : Db} (h : ∀ w ∈ ws, KeepsPrefix db w) (id : Uuid) :
    prefixOf id (applyAll ws db) = prefixOf id db := by
  induction ws generalizing db with
  | nil => rfl
  | cons w ws ih =>
    have hw := h w (by simp)
    rw [applyAll_cons, ih fun v hv => (h v (by simp [hv])).congr fun id pre hpre => (hw.apply id).trans hpre]
    exact hw.apply id

/-- The primary key of a chunk. -/
def chunkKeyOf (r : ChunkRow) : Key := key (Row.chunk r)

theorem mem_chunks {db : Db} {r : ChunkRow} : r ∈ chunksT.rows db ↔ Row.chunk r ∈ versions (chunkKeyOf r) db := by
  rw [chunksT.mem_rows, mem_versions]
  exact ⟨fun h => ⟨h, rfl⟩, fun h => h.1⟩

theorem mem_chunks_congr {db db' : Db} {r : ChunkRow} (h : versions (chunkKeyOf r) db = versions (chunkKeyOf r) db') :
    r ∈ chunksT.rows db ↔ r ∈ chunksT.rows db' := by
  rw [mem_chunks, mem_chunks, h]

/-- Writes of other tables leave the chunks. -/
theorem others_chunks {ws : List (Write Row Key)} {db : Db} (h : ∀ w ∈ ws, (Key.table w.key) ≠ .chunks) (r : ChunkRow) :
    versions (chunkKeyOf r) (applyAll ws db) = versions (chunkKeyOf r) db :=
  versions_applyAll_other (fun w hw hk => h w hw (by rw [hk]; rfl)) db

/-- A statement whose writes are such. -/
def Other (q : Sql) : Prop :=
  ∀ env snap alive cur rows ws, KeysUnique cur → (q.run env snap alive cur).result = .ok (rows, ws) →
    ∀ w ∈ ws, Keeps cur w

theorem other_of_writes {D : TableName → Prop} {q : Sql} (h : Writes D q) (hc : ¬D .chunks) (hs : ¬D .sessions) :
    Other q := by
  intro env snap alive cur rows ws _ hok w hw
  have hd := h env snap alive cur rows ws hok w hw
  refine ⟨fun ht => hc (ht ▸ hd), fun id hid => ?_⟩
  rw [hid] at hd
  exact absurd hd hs

theorem select_other (p : Env → Row → Bool) : Other (.select p) :=
  other_of_writes (D := fun _ => False) (select_writesIn p) id id

theorem appendSql_other (e : AuditLog.Entry) : Other (AuditLog.appendSql e) :=
  other_of_writes (AuditLog.appendSql_writes e) (by simp) (by simp)

/-- An UPDATE of a session that leaves its prefix alone. -/
theorem updateSession_other {p : Session → Bool} {set : Env → Session → Session} {hk : ∀ e, sessionsT.Keeps (set e)}
    (hset : ∀ e s, (set e s).s3Prefix = s.s3Prefix) : Other (sessionsT.update p set hk) := by
  intro env snap alive cur rows ws hu hok w hw
  obtain ⟨s, hs, -, rfl, hkey⟩ := update_ok_write hok hw
  refine ⟨(fun h => by cases h), fun id hid => ⟨set env s, rfl, ?_⟩⟩
  have hlook : lookup (Key.session id) cur = some (.session s) := by
    rw [← hid, hkey]
    exact hu.lookup_eq hs
  rw [prefixOf_eq hlook, hset]

theorem updateStatusSql_other (id : Uuid) (status : SessionStatus) : Other (Sessions.updateStatusSql id status) :=
  updateSession_other fun _ _ => rfl

theorem patchFieldsSql_other (id : Uuid) (endedAt : Option (Option Timestamp)) (count : Option (Option Int)) :
    Other (Sessions.patchFieldsSql id endedAt count) := updateSession_other fun _ _ => rfl

theorem resumeFromAbandonedSql_other (id : Uuid) : Other (Sessions.resumeFromAbandonedSql id) :=
  updateSession_other fun _ _ => rfl

/-- What identifies an upload across retries. -/
structure Triple where
  sessionId : Uuid
  pseudoId : PseudoId
  clientChunkId : String
  deriving DecidableEq

def tripleOf (r : ChunkRow) : Triple := ⟨r.sessionId, r.pseudoId, r.clientChunkId⟩

/-- The index entry of a triple. -/
def Triple.slot (t : Triple) : Lockable Key Uniq := .uniq (.chunkClient t.sessionId t.pseudoId t.clientChunkId)

theorem slot_mem {t : Triple} {r : ChunkRow} : t.slot ∈ slots (Row.chunk r) ↔ tripleOf r = t := by
  cases t
  simp [slots, uniques, Row.uniques, Triple.slot, tripleOf, eq_comm]

/-- No row of the table has it. -/
def Absent (t : Triple) (db : Db) : Prop := ∀ r ∈ chunksT.rows db, tripleOf r ≠ t

/-- A row as an upload leaves it. -/
def Canonical (db : Db) (r : ChunkRow) : Prop :=
  0 ≤ r.seq ∧ Named r.pseudoId ∧ ∃ pre, prefixOf r.sessionId db = some pre ∧
    r.s3Key = ChunkRoutes.chunkKey pre r.pseudoId r.seq

theorem Canonical.congr {db db' : Db} {r : ChunkRow} (h : Canonical db r)
    (hp : ∀ id pre, prefixOf id db = some pre → prefixOf id db' = some pre) : Canonical db' r := by
  obtain ⟨hseq, hnamed, pre, hpre, hkey⟩ := h
  exact ⟨hseq, hnamed, pre, hp _ _ hpre, hkey⟩

/-- What a transaction may do to the store: a session is entered only by a
`create`, a prefix never changes, and a chunk row that is new was entered as
an upload leaves it. -/
structure Commits (creates : Bool) (db : Db) (ws : List (Write Row Key)) : Prop where
  sessions : ∀ id, prefixOf id (applyAll ws db) = prefixOf id db ∨ (creates = true ∧ prefixOf id db = none)
  chunks : ∀ r ∈ chunksT.rows (applyAll ws db), r ∈ chunksT.rows db ∨ (Canonical db r ∧
    ∃ r₀, .insert (.chunk r₀) ∈ ws ∧ chunkKeyOf r₀ = chunkKeyOf r ∧ tripleOf r₀ = tripleOf r)

theorem Commits.prefix_kept {creates : Bool} {db : Db} {ws : List (Write Row Key)} (h : Commits creates db ws)
    (id : Uuid) (pre : String) (hpre : prefixOf id db = some pre) : prefixOf id (applyAll ws db) = some pre := by
  rcases h.sessions id with hsame | ⟨-, hnone⟩
  · rw [hsame, hpre]
  · rw [hnone] at hpre; cases hpre

theorem commits_of_keeps {creates : Bool} {db : Db} {ws : List (Write Row Key)} (h : ∀ w ∈ ws, Keeps db w) :
    Commits creates db ws where
  sessions id := .inl (keeps_prefixOf (fun w hw => (h w hw).sessions) id)
  chunks r hr := .inl ((mem_chunks_congr (others_chunks (fun w hw => (h w hw).chunks) r)).1 hr)

/-- All along the log, every chunk row is canonical. -/
theorem canonical_replay {ι : Type} {creates : ι → Bool} {db₀ : Db} {log : List (ι × List (Write Row Key))}
    (h : Logged (fun db i ws => Commits (creates i) db ws) db₀ log) (h₀ : chunksT.rows db₀ = []) :
    ∀ r ∈ chunksT.rows (replay db₀ log), Canonical (replay db₀ log) r := by
  refine h.induct (I := fun log => ∀ r ∈ chunksT.rows (replay db₀ log), Canonical (replay db₀ log) r) ?_ ?_
  · intro r hr
    rw [replay_nil, h₀] at hr
    cases hr
  · intro log i ws _ ih hc r hr
    rw [replay_append] at hr ⊢
    have hkept : ∀ id pre, prefixOf id (replay db₀ log) = some pre →
        prefixOf id (replay (replay db₀ log) [(i, ws)]) = some pre := hc.prefix_kept
    rcases hc.chunks r hr with hr | ⟨hr, -⟩
    · exact (ih r hr).congr hkept
    · exact hr.congr hkept

/-! ## What a client has done -/

/-- The chunk rows a statement deleted. -/
def droppedBy : (o : Operation) → Answer o → List ChunkRow
  | .query _ (.delete _), .ok rows => chunksT.rows rows
  | _, _ => []

def isCommit : (o : Operation) → Answer o → Bool
  | .commit, .ok _ => true
  | _, _ => false

def isSweep : Operation → Bool
  | .outer (.deleteMany _) => true
  | _ => false

/-- The announcement of an upload. -/
def isIngested : Operation → Bool
  | .outer (.send (.chunkUploaded _ _)) => true
  | _ => false

def dropped (c : Conn) : List ChunkRow := c.hist.flatMap fun x => droppedBy x.1 x.2

def committed (c : Conn) : Bool := c.hist.any fun x => isCommit x.1 x.2

def swept (c : Conn) : Bool := c.hist.any fun x => isSweep x.1

def announced (c : Conn) : Bool := c.hist.any fun x => isIngested x.1

section
variable {c : Conn} {tx : Option (Tx Row Key Env)} {o : Operation} {r : Answer o}

@[simp] theorem dropped_done : dropped (Client.done { c with tx := tx } o r) = dropped c ++ droppedBy o r := by
  simp [dropped, Client.done]

@[simp] theorem committed_done : committed (Client.done { c with tx := tx } o r) = (committed c || isCommit o r) := by
  simp [committed, Client.done]

@[simp] theorem swept_done : swept (Client.done { c with tx := tx } o r) = (swept c || isSweep o) := by
  simp [swept, Client.done]

@[simp] theorem announced_done :
    announced (Client.done { c with tx := tx } o r) = (announced c || isIngested o) := by
  simp [announced, Client.done]

end

/-! ## The protocol -/

inductive Stage
  | idle
  | locked (x : Session)
  | reserved (r : ChunkRow) (k : String)
  | stored (r : ChunkRow) (k : String)
  | keyed (r : ChunkRow) (k : String)
  | filed (r : ChunkRow) (k : String)
  | dropped (dead : List ChunkRow)
  | owing (dead : List ChunkRow)
  | ended

def uploadOf : Request → Option ChunkRoutes.UploadRequest
  | .upload _ r => some r
  | _ => none

def isCreate : Request → Bool
  | .createSession _ _ => true
  | _ => false

/-- The triple an upload carries, where its path and headers are read. -/
def tripleOfRequest (st : AppState) : Request → Option Triple
  | .upload _ r =>
    match PseudoId.newOrMixed r.pseudoRaw, ChunkRoutes.parseChunkHeaders st r.headers with
    | .ok pid, .ok h => some { sessionId := r.sessionId, pseudoId := pid, clientChunkId := h.clientChunkId }
    | _, _ => none
  | _ => none

/-- Where the chunk table and the store stand still. -/
def Stage.rests : Stage → Prop
  | .idle | .owing _ | .ended => True
  | _ => False

/-- After the commit. -/
def Stage.after : Stage → Prop
  | .filed _ _ | .owing _ | .ended => True
  | _ => False

/-- Where a transaction writes what it likes of other tables. -/
def Stage.plain : Stage → Prop
  | .idle | .dropped _ => True
  | _ => False

def protocol (st : AppState) (req : Request) : Protocol (@Answer Row Key Uniq Env Io World _ _) Stage where
  may s
    | .begin => s = .idle
    | .query .tx (.select _) => True
    | .query .tx (.forUpdate p) => s = .idle ∧ ∃ id, Stmt.forUpdate p = Sessions.getInTxSql id
    | .query .tx (.insert mk) =>
      (∃ x ins, s = .locked x ∧ .insert mk = Chunks.insertSql ins ∧ ins.sessionId = x.id ∧ Named ins.pseudoId ∧
        tripleOfRequest st req = some ⟨ins.sessionId, ins.pseudoId, ins.clientChunkId⟩) ∨
      ((∀ x, s ≠ .locked x) ∧ Other (.insert mk))
    | .query .tx (.update p set) =>
      (∃ r k, s = .stored r k ∧ .update p set = Chunks.setKeySql r.sessionId r.pseudoId r.seq k) ∨
      ((∀ r k, s ≠ .stored r k) ∧ (∀ x, s ≠ .locked x) ∧ Other (.update p set))
    | .query .tx (.delete p) =>
      (s = .idle ∧ ∃ q, (.delete p : Sql) = chunksT.delete q) ∨ ((∃ dead, s = .dropped dead) ∧ Other (.delete p))
    | .query .pool q => s.rests ∧ (Other q ∨ (isCreate req = true ∧ ∃ input, q = Sessions.createSql input))
    | .commit => s = .idle ∨ (∃ r k, s = .keyed r k) ∨ ∃ dead, s = .dropped dead
    | .rollback => s = .idle
    | .outer (.put key body _) => ∃ r u, s = .reserved r key ∧ uploadOf req = some u ∧ body = u.body
    | .outer (.deleteMany keys) => ∃ dead, s = .owing dead ∧ keys = dead.map (·.s3Key)
    | .outer (.send ev) => isIngested (.outer (.send ev)) = true → ∃ r k, s = .filed r k
    | .outer _ => True
  next s
    | .query .tx (.forUpdate p), .ok rows, t =>
      if (uploadOf req).isSome then
        (∀ x, (sessionsT.rows rows).head? = some x → t = .locked x ∧ p (.session x) = true) ∧
          ((sessionsT.rows rows).head? = none → t = s)
      else t = s
    | .query .tx (.insert mk), .ok rows, t =>
      (∀ x, s = .locked x → ∃ r, (chunksT.rows rows).head? = some r ∧ r.sessionId = x.id ∧
        t = .reserved r (ChunkRoutes.chunkKey x.s3Prefix r.pseudoId r.seq) ∧
        ∀ ins, .insert mk = Chunks.insertSql ins → r.pseudoId = ins.pseudoId) ∧
      ((∀ x, s ≠ .locked x) → t = s)
    | .query .tx (.update _ _), .ok _, t =>
      (∀ r k, s = .stored r k → t = .keyed r k) ∧ ((∀ r k, s ≠ .stored r k) → t = s)
    | .query .tx (.delete _), .ok rows, t => (s = .idle → t = .dropped (chunksT.rows rows)) ∧ (s ≠ .idle → t = s)
    | .query .pool _, .error _, t => ((∃ dead, s = .owing dead) → t = .ended) ∧ ((∀ dead, s ≠ .owing dead) → t = s)
    | .commit, .ok _, t => (∀ r k, s = .keyed r k → t = .filed r k) ∧ (∀ dead, s = .dropped dead → t = .owing dead) ∧
        (s = .idle → t = .ended)
    | .commit, .error _, t => t = .idle
    | .outer (.put _ _ _), .ok _, t => ∀ r k, s = .reserved r k → t = .stored r k
    | .outer (.deleteMany _), _, t => t = .ended
    | .outer (.toBytes body _), .ok bytes, t => t = s ∧ bytes = body
    | _, _, t => t = s

/-- A handler that returns has swept what it dropped, and an upload that is
no duplicate has filed its row. -/
def Replies (s : Stage) (o : Outcome) : Prop :=
  (∀ dead, s = .owing dead → dead = []) ∧
  ∀ r, o = .ok (.uploaded r) → r.deduplicated = false → ∃ row k, s = .filed row k

abbrev Follows {β : Type} (st : AppState) (req : Request) (Q : Stage → Except AppError β → Prop) (s : Stage)
    (h : Handler β) : Prop := Prog.Follows (protocol st req) Q s h.run

/-! ### The upload -/

def Uploads (s : Stage) (o : Except AppError ChunkRoutes.UploadResponse) : Prop :=
  (∀ dead, s = .owing dead → dead = []) ∧ ∀ r, o = .ok r → r.deduplicated = false → ∃ row k, s = .filed row k

theorem uploads_error {s : Stage} {e : AppError} (hs : ∀ dead, s ≠ .owing dead) : Uploads s (.error e) :=
  ⟨fun dead h => absurd h (hs dead), fun r h => by cases h⟩

theorem store_follows (st : AppState) {req : Request} (svc : String) {u : ChunkRoutes.UploadRequest} {pid : PseudoId}
    {h : ChunkRoutes.ChunkHeaders} (hu : uploadOf req = some u) (hpid : Named pid)
    (htriple : tripleOfRequest st req = some ⟨u.sessionId, pid, h.clientChunkId⟩) :
    Follows st req Uploads .idle (ChunkRoutes.store svc u.sessionId pid h u.body) := by
  rw [ChunkRoutes.store, Sessions.getInTx, bind_assoc]
  refine follows_fetchOptional ⟨rfl, _, rfl⟩ (fun e t ht => ?_) fun rows t ht => ?_
  · obtain rfl : t = .idle := ht
    exact uploads_error (by simp)
  have hlock := ht
  simp only [protocol, Sessions.getInTxSql, Table.forUpdate, hu, Option.isSome_some, if_true] at hlock
  cases hx : (sessionsT.rows rows).head? with
  | none =>
    obtain rfl := hlock.2 hx
    exact follows_throw (uploads_error (by simp))
  | some x =>
    obtain ⟨rfl, hp⟩ := hlock.1 x hx
    have hid : u.sessionId = x.id := by
      have : Sessions.byId u.sessionId x = true := (sessionsT.is_put _ x).symm.trans hp
      simpa [Sessions.byId, eq_comm] using this
    simp only [pure_bind, ChunkRoutes.readBody, bind_assoc]
    refine follows_toBytes trivial (fun e t ht => ?_) fun bytes t ht => ?_
    · obtain rfl : t = .locked x := ht
      exact uploads_error (by simp)
    obtain ⟨rfl, rfl⟩ := ht
    refine follows_refuseIf (fun _ => uploads_error (by simp)) fun _ => ?_
    rw [Chunks.insert]
    refine follows_fetchOne (.inl ⟨x, _, rfl, rfl, hid, hpid, htriple⟩) (fun e t ht => ?_) (fun rows t ht hnone => ?_)
      fun rows t row ht hrow => ?_
    · obtain rfl : t = .locked x := ht
      exact uploads_error (by simp)
    · obtain ⟨r, hr, -⟩ := ht.1 x rfl
      rw [hr] at hnone
      cases hnone
    obtain ⟨r, hr, hsid, rfl, hins⟩ := ht.1 x rfl
    obtain rfl := Option.some.inj (hr.symm.trans hrow)
    have hpid' : r.pseudoId = pid := hins _ rfl
    rw [hpid']
    refine follows_put ⟨r, u, rfl, hu, rfl⟩ (fun e t ht => ?_) fun t ht => ?_
    · obtain rfl := ht
      exact uploads_error (by simp)
    obtain rfl := ht r _ rfl
    refine follows_incCounter trivial fun t ht => ?_
    obtain rfl : t = .stored r _ := ht
    refine follows_execute (.inl ⟨r, _, rfl, ?_⟩) (fun e t ht => ?_) fun rows t ht => ?_
    · rw [hpid', hsid, ← hid]
      rfl
    · obtain rfl : t = .stored r _ := ht
      exact uploads_error (by simp)
    obtain rfl := ht.1 r _ rfl
    refine follows_appendTx (.inr ⟨by simp, appendSql_other _⟩) (fun e t ht => ?_) fun rows t ht => ?_
    · obtain rfl : t = .keyed r _ := ht
      exact uploads_error (by simp)
    obtain rfl := ht.2 (by simp)
    refine follows_commit (.inr (.inl ⟨r, _, rfl⟩)) (fun e t ht => ?_) fun t ht => ?_
    · obtain rfl : t = .idle := ht
      exact uploads_error (by simp)
    obtain rfl := ht.1 r _ rfl
    refine follows_utcNow trivial fun now t ht => ?_
    obtain rfl : t = .filed r _ := ht
    refine follows_send (fun _ => ⟨r, _, rfl⟩) fun t ht => ?_
    obtain rfl : t = .filed r _ := ht
    exact follows_pure ⟨by simp, fun _ _ _ => ⟨r, _, rfl⟩⟩

theorem upload_follows (st : AppState) (svc : String) (u : ChunkRoutes.UploadRequest) :
    Follows st (.upload svc u) Uploads .idle (ChunkRoutes.upload st svc u) := by
  rw [ChunkRoutes.upload]
  refine follows_ofResult (fun e _ => uploads_error (by simp)) fun pid hpid => ?_
  refine follows_ofResult (fun e _ => uploads_error (by simp)) fun h hh => ?_
  have hpid' : PseudoId.newOrMixed u.pseudoRaw = .ok pid := by
    cases hn : PseudoId.newOrMixed u.pseudoRaw with
    | error e => rw [hn] at hpid; cases hpid
    | ok p => rw [hn] at hpid; exact congrArg _ (Except.ok.inj hpid)
  refine follows_begin rfl (fun e t ht => ?_) fun t ht => ?_
  · obtain rfl : t = .idle := ht
    exact uploads_error (by simp)
  obtain rfl : t = .idle := ht
  rw [Chunks.lookupByClientId]
  refine follows_fetchOptional trivial (fun e t ht => ?_) fun rows t ht => ?_
  · obtain rfl : t = .idle := ht
    exact uploads_error (by simp)
  obtain rfl : t = .idle := ht
  cases (chunksT.rows rows).head? with
  | none => exact store_follows st svc rfl (ChunkRoutes.newOrMixed_named hpid') (by simp [tripleOfRequest, hpid', hh])
  | some existing =>
    refine follows_rollback rfl (fun e t ht => ?_) fun t ht => ?_
    · obtain rfl : t = .idle := ht
      exact uploads_error (by simp)
    · obtain rfl : t = .idle := ht
      refine follows_pure ⟨by simp, fun r hr hd => ?_⟩
      cases hr
      cases hd

/-! ### The other handlers -/

/-- A handler that answers anything but an upload. -/
def Settled {β : Type} (s : Stage) (_ : Except AppError β) : Prop := ∀ dead, s = .owing dead → dead = []

section
variable {β γ : Type} {st : AppState} {req : Request} {s : Stage}

theorem settled {o : Except AppError β} (hs : ∀ dead, s ≠ .owing dead) : Settled s o := fun dead h => absurd h (hs dead)

theorem plain_settled (hs : s.plain) (o : Except AppError β) : Settled s o := by
  rintro dead rfl
  exact hs.elim

/-- An audit row, another table, a session's other columns. -/
theorem follows_other {q : Sql} {f : List Row → Handler β} (hs : s.plain) (hq : Other q)
    (hd : ∀ p, q = .delete p → ∃ dead, s = .dropped dead) (hfu : ∀ p, q ≠ .forUpdate p)
    (h : ∀ rows, Follows st req Settled s (f rows)) : Follows st req Settled s (query .tx q >>= f) := by
  have hl : ∀ x, s ≠ .locked x := by rintro x rfl; exact hs
  have hst : ∀ r k, s ≠ .stored r k := by rintro r k rfl; exact hs
  have hs : ∀ o : Except AppError β, Settled s o := plain_settled hs
  cases q with
  | select p =>
    refine follows_query trivial (fun e t ht => ?_) fun rows t ht => ?_
    · obtain rfl : t = s := ht
      exact hs _
    · obtain rfl : t = s := ht
      exact h rows
  | forUpdate p => exact absurd rfl (hfu p)
  | insert mk =>
    refine follows_query (.inr ⟨hl, hq⟩) (fun e t ht => ?_) fun rows t ht => ?_
    · obtain rfl : t = s := ht
      exact hs _
    · obtain rfl := ht.2 hl
      exact h rows
  | update p set =>
    refine follows_query (.inr ⟨hst, hl, hq⟩) (fun e t ht => ?_) fun rows t ht => ?_
    · obtain rfl : t = s := ht
      exact hs _
    · obtain rfl := ht.2 hst
      exact h rows
  | delete p =>
    obtain ⟨dead, rfl⟩ := hd p rfl
    refine follows_query (.inr ⟨⟨dead, rfl⟩, hq⟩) (fun e t ht => ?_) fun rows t ht => ?_
    · obtain rfl : t = .dropped dead := ht
      exact hs _
    · obtain rfl := ht.2 (by simp)
      exact h rows

/-- A session row, for a handler that uploads nothing. -/
theorem follows_getInTx (hreq : uploadOf req = none) {id : Uuid} {f : Session → Handler β}
    (h : ∀ x, Follows st req Settled .idle (f x)) : Follows st req Settled .idle (Sessions.getInTx id >>= f) := by
  rw [Sessions.getInTx, bind_assoc]
  refine follows_fetchOptional ⟨rfl, id, rfl⟩ (fun e t ht => ?_) fun rows t ht => ?_
  · obtain rfl : t = .idle := ht
    exact settled (by simp)
  simp only [protocol, Sessions.getInTxSql, Table.forUpdate, hreq, Option.isSome_none, Bool.false_eq_true, if_false] at ht
  subst ht
  cases (sessionsT.rows rows).head? with
  | none => exact follows_throw (settled (by simp))
  | some x => exact h x

theorem follows_begin {f : Unit → Handler β} (h : Follows st req Settled .idle (f ())) :
    Follows st req Settled .idle (begin >>= f) := by
  refine Handler.follows_begin rfl (fun e t ht => ?_) fun t ht => ?_
  · obtain rfl : t = .idle := ht
    exact settled (by simp)
  · obtain rfl : t = .idle := ht
    exact h

/-- An UPDATE of the session row. -/
theorem follows_set {q : Sql} (hq : Other q) (hd : ∀ p, q ≠ .delete p) (hfu : ∀ p, q ≠ .forUpdate p)
    {f : Session → Handler β} (hs : s.plain) (h : ∀ x, Follows st req Settled s (f x)) :
    Follows st req Settled s (fetchOne .tx sessionsT q >>= f) := by
  rw [fetchOne, bind_assoc]
  refine follows_other hs hq (fun p hp => absurd hp (hd p)) hfu fun rows => ?_
  cases (sessionsT.rows rows).head? with
  | none => exact follows_throw (plain_settled hs _)
  | some x => exact h x

/-- The audit row and the commit of a handler that drops no chunk. -/
theorem follows_announce {e : AuditLog.Entry} {k : Handler β} (h : Follows st req Settled .ended k) :
    Follows st req Settled .idle (AuditLog.appendTx e >>= fun _ => commit >>= fun _ => k) := by
  simp only [AuditLog.appendTx, execute, bind_assoc, pure_bind]
  refine follows_other trivial (appendSql_other e) (fun p h => by cases h)
    (fun p h => by cases h) fun rows => ?_
  refine follows_commit (.inl rfl) (fun e t ht => ?_) fun t ht => ?_
  · obtain rfl : t = .idle := ht
    exact settled (by simp)
  · obtain rfl := ht.2.2 rfl
    exact h

theorem follows_stateChanged {id : Uuid} {g : Int} {old new : SessionStatus} {k : Handler β}
    (h : Follows st req Settled s k) :
    Follows st req Settled s (SessionRoutes.stateChanged id g old new >>= fun _ => k) := by
  rw [SessionRoutes.stateChanged, bind_assoc]
  refine follows_utcNow trivial fun now t ht => ?_
  obtain rfl : t = s := ht
  refine follows_send (fun h => by cases h) fun t' ht' => ?_
  obtain rfl : t' = t := ht'
  exact h

/-- A statement of its own. -/
theorem follows_pool {q : Sql} {f : List Row → Handler β} (hs : s.rests) (hq : Other q)
    (h : ∀ rows, Follows st req Settled s (f rows)) : Follows st req Settled s (query .pool q >>= f) := by
  refine follows_query ⟨hs, .inl hq⟩ (fun e t ht => ?_) fun rows t ht => ?_
  · intro dead hdead
    by_cases howing : ∃ dead, s = .owing dead
    · rw [ht.1 howing] at hdead
      cases hdead
    · rw [ht.2 fun dead hd => howing ⟨dead, hd⟩] at hdead
      exact absurd ⟨dead, hdead⟩ howing
  · obtain rfl : t = s := ht
    exact h rows

/-- The chunk rows go. -/
theorem follows_drop {p : ChunkRow → Bool} {f : List ChunkRow → Handler β}
    (h : ∀ dead, Follows st req Settled (.dropped dead) (f dead)) :
    Follows st req Settled .idle (fetchAll .tx chunksT (chunksT.delete p) >>= f) := by
  refine follows_fetchAll (.inl ⟨rfl, p, rfl⟩) (fun e t ht => ?_) fun rows t ht => ?_
  · obtain rfl : t = .idle := ht
    exact settled (by simp)
  · obtain rfl := ht.1 rfl
    exact h _

/-- The rows of another table go with them. -/
theorem follows_dropOther {dead : List ChunkRow} {q : Sql} {D : TableName → Prop} (hq : Writes D q) (hc : ¬D .chunks)
    (hs : ¬D .sessions) (hfu : ∀ p, q ≠ .forUpdate p) {f : Nat → Handler β}
    (h : ∀ n, Follows st req Settled (.dropped dead) (f n)) :
    Follows st req Settled (.dropped dead) (execute .tx q >>= f) := by
  rw [execute, bind_assoc]
  exact follows_other trivial (other_of_writes hq hc hs) (fun _ _ => ⟨dead, rfl⟩) hfu fun rows => h _

theorem follows_dropped {dead : List ChunkRow} {e : AuditLog.Entry} {k : Handler β}
    (h : Follows st req Settled (.owing dead) k) :
    Follows st req Settled (.dropped dead) (AuditLog.appendTx e >>= fun _ => commit >>= fun _ => k) := by
  rw [AuditLog.appendTx, bind_assoc]
  refine follows_dropOther (AuditLog.appendSql_writes e) (by simp) (by simp) (fun p h => by cases h) fun _ => ?_
  refine follows_commit (.inr (.inr ⟨dead, rfl⟩)) (fun e t ht => ?_) fun t ht => ?_
  · obtain rfl : t = .idle := ht
    exact settled (by simp)
  · obtain rfl := ht.2.1 dead rfl
    exact h

/-- Nothing is left to sweep. -/
def Stage.clear (s : Stage) : Prop := s = .owing [] ∨ s = .ended

theorem Stage.clear.settled {o : Except AppError β} (hs : s.clear) : Settled s o := by
  rintro dead rfl
  rcases hs with h | h <;> cases h
  rfl

theorem Stage.clear.rests (hs : s.clear) : s.rests := by
  rcases hs with rfl | rfl <;> trivial

theorem follows_sweep {dead : List ChunkRow} {k : Handler β} (h : ∀ t : Stage, t.clear → Follows st req Settled t k) :
    Follows st req Settled (.owing dead) (SessionRoutes.sweep (dead.map (·.s3Key)) >>= fun _ => k) := by
  rw [SessionRoutes.sweep]
  cases dead with
  | nil => exact h _ (.inl rfl)
  | cons d dead =>
    simp only [List.map_cons, List.isEmpty_cons, Bool.false_eq_true, if_false, bind_assoc, pure_bind]
    refine follows_deleteMany ⟨_, rfl, rfl⟩ fun _ t ht => ?_
    obtain rfl : t = .ended := ht
    exact h _ (.inr rfl)

theorem create_follows (svc : String) (input : Sessions.CreateSession) :
    Follows st (.createSession svc input) Settled .idle (SessionRoutes.create svc input) := by
  rw [SessionRoutes.create, Sessions.create]
  have stays : ∀ {q : Sql} {e t}, (protocol st (.createSession svc input)).next .idle (.query .pool q) (.error e) t →
      t = .idle := fun ht => ht.2 (by simp)
  refine follows_fetchOne ⟨trivial, .inr ⟨rfl, input, rfl⟩⟩ (fun e t ht => ?_) (fun rows t ht _ => ?_)
    fun rows t x ht _ => ?_
  · obtain rfl := stays ht
    exact settled (by simp)
  · obtain rfl : t = .idle := ht
    exact settled (by simp)
  · obtain rfl : t = .idle := ht
    refine follows_append ⟨trivial, .inl (appendSql_other _)⟩ (fun e t ht => ?_) fun rows t ht => ?_
    · obtain rfl := stays ht
      exact settled (by simp)
    · obtain rfl : t = .idle := ht
      refine follows_incCounter trivial fun t ht => ?_
      obtain rfl : t = .idle := ht
      exact follows_pure (settled (by simp))

theorem patch_follows (svc : String) (id : Uuid) (body : SessionRoutes.PatchSession) :
    Follows st (.patchSession svc id body) Settled .idle (SessionRoutes.patch svc id body) := by
  rw [SessionRoutes.patch]
  refine follows_begin ?_
  refine follows_getInTx rfl fun existing => ?_
  have finish : ∀ (updated : Session) change, Follows st (.patchSession svc id body) Settled .idle
      (SessionRoutes.patchFields id body updated >>= fun updated =>
        AuditLog.appendTx (SessionRoutes.entry svc id "patched" (.obj
          [("status", .str updated.status.asStr), ("ended_at", Json.optTime updated.endedAt)])) >>= fun _ =>
        commit >>= fun _ => SessionRoutes.announceChange id updated.guildId change >>= fun _ => pure updated) := by
    intro updated change
    have last : ∀ updated : Session, Follows st (.patchSession svc id body) Settled .idle
        (AuditLog.appendTx (SessionRoutes.entry svc id "patched" (.obj
          [("status", .str updated.status.asStr), ("ended_at", Json.optTime updated.endedAt)])) >>= fun _ =>
        commit >>= fun _ => SessionRoutes.announceChange id updated.guildId change >>= fun _ => pure updated) := by
      intro updated
      refine follows_announce ?_
      cases change with
      | none => exact follows_pure (settled (by simp))
      | some p =>
        rw [SessionRoutes.announceChange, bind_assoc]
        refine follows_stateChanged ?_
        refine follows_incCounter trivial fun t ht => ?_
        obtain rfl : t = .ended := ht
        exact follows_pure (settled (by simp))
    rw [SessionRoutes.patchFields]
    split
    · exact follows_set (patchFieldsSql_other _ _ _) (fun p h => by cases h) (fun p h => by cases h) trivial last
    · exact last updated
  cases body.status with
  | none => exact finish existing none
  | some new =>
    rw [SessionRoutes.patchStatus, bind_assoc]
    refine follows_refuseIf (fun _ => settled (by simp)) fun _ => ?_
    rw [bind_assoc, Sessions.updateStatus]
    exact follows_set (updateStatusSql_other _ _) (fun p h => by cases h) (fun p h => by cases h) trivial
      fun y => finish y _

theorem resume_follows (svc : String) (id : Uuid) (body : SessionRoutes.ResumeBody) :
    Follows st (.resume svc id body) Settled .idle (SessionRoutes.resume st svc id body) := by
  rw [SessionRoutes.resume]
  refine follows_begin ?_
  refine follows_getInTx rfl fun existing => ?_
  refine follows_refuseIf (fun _ => settled (by simp)) fun _ => ?_
  refine follows_utcNow trivial fun now t ht => ?_
  obtain rfl : t = .idle := ht
  refine follows_refuseIf (fun _ => settled (by simp)) fun _ => ?_
  rw [Sessions.resumeFromAbandoned]
  refine follows_set (resumeFromAbandonedSql_other id) (fun p h => by cases h) (fun p h => by cases h) trivial
    fun updated => ?_
  refine follows_announce ?_
  exact follows_stateChanged (follows_pure (settled (by simp)))

theorem deleteCascade_follows (svc : String) (id : Uuid) :
    Follows st (.deleteCascade svc id) Settled .idle (SessionRoutes.deleteCascade svc id) := by
  rw [SessionRoutes.deleteCascade]
  refine follows_begin ?_
  refine follows_getInTx rfl fun existing => ?_
  simp only [SessionRoutes.deleteChildren, Chunks.deleteForSession, Uniform.deleteAllForSession,
    MuteRanges.deleteForSession, bind_assoc, pure_bind]
  refine follows_drop fun dead => ?_
  refine follows_dropOther (Uniform.deleteAllForSessionSql_writes _ id) (by simp) (by simp) (fun p h => by cases h) fun _ => ?_
  refine follows_dropOther (Uniform.deleteAllForSessionSql_writes _ id) (by simp) (by simp) (fun p h => by cases h) fun _ => ?_
  refine follows_dropOther (Uniform.deleteAllForSessionSql_writes _ id) (by simp) (by simp) (fun p h => by cases h) fun _ => ?_
  refine follows_dropOther (MuteRanges.deleteForSessionSql_writes id) (by simp) (by simp) (fun p h => by cases h) fun _ => ?_
  refine follows_dropOther (Metadata.deleteSql_writes id) (by simp) (by simp) (fun p h => by cases h) fun _ => ?_
  refine follows_dropOther (Participants.deleteForSessionSql_writes id) (by simp) (by simp) (fun p h => by cases h) fun _ => ?_
  rw [Sessions.updateStatus]
  refine follows_set (updateStatusSql_other id .deleted) (fun p h => by cases h) (fun p h => by cases h) trivial
    fun updated => ?_
  refine follows_dropped ?_
  refine follows_sweep fun t ht => ?_
  exact follows_stateChanged (follows_pure ht.settled)

/-- The rows of a participant's audio, in one transaction. -/
theorem follows_deleteAudioRows {sid : Uuid} {pid : PseudoId} {f : List String × Nat × Nat → Handler β}
    (h : ∀ dead segs mutes, Follows st req Settled (.dropped dead) (f (dead.map (·.s3Key), segs, mutes))) :
    Follows st req Settled .idle (MuteRoutes.deleteAudioRows sid pid >>= f) := by
  simp only [MuteRoutes.deleteAudioRows, Chunks.deleteForParticipant, Uniform.deleteForParticipantSegments,
    MuteRanges.deleteForParticipant, bind_assoc, pure_bind]
  refine follows_drop fun dead => ?_
  refine follows_dropOther (Uniform.deleteForParticipantSegmentsSql_writes sid pid) (by simp) (by simp)
    (fun p h => by cases h) fun _ => ?_
  exact follows_dropOther (MuteRanges.deleteForParticipantSql_writes sid pid) (by simp) (by simp)
    (fun p h => by cases h) fun _ => h _ _ _

/-- The flag, and the objects. -/
theorem follows_finish {dead : List ChunkRow} {sid : Uuid} {pid : PseudoId} {k : Handler β}
    (h : ∀ t : Stage, t.clear → Follows st req Settled t k) : Follows st req Settled (.owing dead)
      (Participants.markWiped sid pid >>= fun _ => SessionRoutes.sweep (dead.map (·.s3Key)) >>= fun _ => k) := by
  simp only [Participants.markWiped, execute, bind_assoc, pure_bind]
  refine follows_pool trivial (other_of_writes (Participants.markWipedSql_writes sid pid) (by simp) (by simp)) fun rows => ?_
  exact follows_sweep h

theorem wipe_follows (svc : String) (sid : Uuid) (pidRaw : String) :
    Follows st (.wipeParticipantAudio svc sid pidRaw) Settled .idle (MuteRoutes.wipeParticipantAudio svc sid pidRaw) := by
  rw [MuteRoutes.wipeParticipantAudio, Handler.pseudoId]
  refine follows_ofResult (fun e _ => settled (by simp)) fun pid _ => ?_
  refine follows_begin ?_
  refine follows_deleteAudioRows fun dead segs mutes => ?_
  refine follows_dropped ?_
  refine follows_finish fun t ht => ?_
  rw [Sessions.guildIdForSession, bind_assoc, fetchOptional, bind_assoc]
  refine follows_pool ht.rests (select_other _) fun rows => ?_
  simp only [pure_bind]
  cases (sessionsT.rows rows).head? with
  | none => exact follows_throw ht.settled
  | some x =>
    refine follows_utcNow trivial fun now t' ht' => ?_
    obtain rfl : t' = t := ht'
    refine follows_send (fun h => by cases h) fun t'' ht'' => ?_
    obtain rfl : t'' = t' := ht''
    exact follows_pure ht.settled

theorem validated_follows {token : Uuid} {f : ConsentTokens.WithContext → Handler β}
    (h : ∀ ctx, Follows st req Settled .idle (f ctx)) : Follows st req Settled .idle (ConsentRoutes.validated token >>= f) := by
  have throws : ∀ {γ : Type} {e : AppError}, Settled Stage.idle (.error e : Except AppError γ) := settled (by simp)
  rw [ConsentRoutes.validated, ConsentTokens.validate, bind_assoc, bind_assoc, fetchOptional, bind_assoc]
  refine follows_pool trivial (select_other _) fun rows => ?_
  simp only [pure_bind]
  cases (consentTokensT.rows rows).head? with
  | none => exact follows_throw throws
  | some ct =>
    simp only [fetchOne, bind_assoc]
    refine follows_pool trivial (select_other _) fun rows => ?_
    cases (sessionsT.rows rows).head? with
    | none => exact follows_throw throws
    | some session =>
      simp only [pure_bind]
      refine follows_pool trivial (select_other _) fun rows => ?_
      cases (participantsT.rows rows).head? with
      | none => exact follows_throw throws
      | some participant => exact h _

theorem deleteAudio_follows (token : Uuid) :
    Follows st (.deleteAudio token) Settled .idle (ConsentRoutes.deleteAudio token) := by
  rw [ConsentRoutes.deleteAudio]
  refine validated_follows fun ctx => ?_
  refine follows_begin ?_
  refine follows_deleteAudioRows fun dead segs mutes => ?_
  refine follows_dropped ?_
  refine follows_finish fun t ht => ?_
  rw [ConsentRoutes.guildId, bind_assoc, fetchOne, bind_assoc]
  refine follows_pool ht.rests (select_other _) fun rows => ?_
  cases (sessionsT.rows rows).head? with
  | none => exact follows_throw ht.settled
  | some x =>
    refine follows_utcNow trivial fun now t' ht' => ?_
    obtain rfl : t' = t := ht'
    refine follows_send (fun h => by cases h) fun t'' ht'' => ?_
    obtain rfl : t'' = t' := ht''
    exact follows_pure ht.settled

end

/-- The requests that touch sessions and chunks. -/
def Touches : Request → Prop
  | .createSession _ _ | .patchSession _ _ _ | .resume _ _ _ | .upload _ _ | .wipeParticipantAudio _ _ _
  | .deleteAudio _ | .deleteCascade _ _ => True
  | _ => False

theorem handle_follows (st : AppState) {req : Request} (hr : Touches req) :
    Follows st req Replies .idle (handle st req) := by
  have other : ∀ {β : Type} {g : β → Reply} {p : Handler β}, (∀ b r, g b ≠ .uploaded r) →
      Follows st req Settled .idle p → Follows st req Replies .idle (g <$> p) := by
    intro β g p hg hp
    refine follows_map (hp.mono fun t r hr => ⟨hr, fun u hu _ => ?_⟩)
    cases r with
    | error e => cases hu
    | ok b => exact absurd (Except.ok.inj hu) (hg b u)
  cases req with
  | createSession svc input => exact other (by simp) (create_follows svc input)
  | patchSession svc id body => exact other (by simp) (patch_follows svc id body)
  | resume svc id body => exact other (by simp) (resume_follows svc id body)
  | deleteCascade svc id => exact other (by simp) (deleteCascade_follows svc id)
  | upload svc u =>
    refine follows_map ((upload_follows st svc u).mono fun t r hr => ⟨hr.1, fun v hv hd => ?_⟩)
    cases r with
    | error e => cases hv
    | ok b => exact hr.2 v (by simpa [Except.map] using hv) hd
  | wipeParticipantAudio svc sid pid => exact other (by simp) (wipe_follows svc sid pid)
  | deleteAudio token => exact other (by simp) (deleteAudio_follows token)
  | _ => exact hr.elim

end DataApi.ChunkLife
