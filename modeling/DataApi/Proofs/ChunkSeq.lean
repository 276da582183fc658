/-
Sequence numbers under concurrent uploads. `MAX(seq) + 1` is computed from a
snapshot that no lock of the chunk rows protects; what protects it is the
session row, which `get_in_tx` locks FOR UPDATE before: a chunk cannot be
entered under a locked session, so the chunk keys of the session stand still
from the lock to the commit (`Stage.locked`, `Stage.reserved`).
-/
import DataApi.Db.Writes
import DataApi.Rules

namespace DataApi.ChunkSeq

open Relational ReadCommitted Resumption Handler

/-! ## Consecutive numbers -/

/-- A session and a pseudonym: what numbers count. -/
abbrev Pair := Uuid × PseudoId

def chunkKey (p : Pair) (seq : Int) : Key := .chunk p.1 p.2 seq

/-- The chunks of `p` have exactly the numbers below `n`. -/
def Numbered (p : Pair) (n : Nat) (db : Db) : Prop :=
  ∀ seq, Present (chunkKey p seq) db ↔ 0 ≤ seq ∧ seq < n

theorem Numbered.unique {p : Pair} {n m : Nat} {db : Db} (hn : Numbered p n db) (hm : Numbered p m db) : n = m := by
  have h : ∀ seq : Int, (0 ≤ seq ∧ seq < n) ↔ (0 ≤ seq ∧ seq < m) := fun seq => (hn seq).symm.trans (hm seq)
  have h₁ := h n
  have h₂ := h m
  omega

theorem Numbered.congr {p : Pair} {n : Nat} {db db' : Db} (h : ∀ seq, Present (chunkKey p seq) db' ↔
    Present (chunkKey p seq) db) (hn : Numbered p n db) : Numbered p n db' := fun seq => (h seq).trans (hn seq)

/-- A row under a chunk's key is a chunk row. -/
theorem present_chunk {p : Pair} {seq : Int} {db : Db} : Present (chunkKey p seq) db ↔
    ∃ c ∈ chunksT.rows db, Chunks.ofPair p.1 p.2 c = true ∧ c.seq = seq := by
  simp only [Chunks.ofPair, Bool.and_eq_true, decide_eq_true_eq]
  constructor
  · rintro ⟨r, hr, hk⟩
    cases r <;> simp only [key, Row.key, chunkKey, reduceCtorEq, Key.chunk.injEq] at hk
    next c => exact ⟨c, chunksT.mem_rows.2 hr, ⟨hk.1, hk.2.1⟩, hk.2.2⟩
  · rintro ⟨c, hc, ⟨h₁, h₂⟩, h₃⟩
    refine ⟨.chunk c, chunksT.mem_rows.1 hc, ?_⟩
    simp [key, Row.key, chunkKey, h₁, h₂, h₃]

/-- The next number is the count. -/
theorem Numbered.nextSeq {p : Pair} {n : Nat} {db : Db} (h : Numbered p n db) : Chunks.nextSeq p.1 p.2 db = n := by
  have hmem : ∀ seq : Int, seq ∈ ((chunksT.rows db).filter (Chunks.ofPair p.1 p.2)).map (·.seq) ↔ 0 ≤ seq ∧ seq < n := by
    intro seq
    rw [← h seq, present_chunk]
    simp only [List.mem_map, List.mem_filter, and_assoc]
  unfold Chunks.nextSeq
  cases n with
  | zero =>
    have hnil : ((chunksT.rows db).filter (Chunks.ofPair p.1 p.2)).map (·.seq) = [] := by
      refine List.eq_nil_iff_forall_not_mem.2 fun seq hseq => ?_
      have := (hmem seq).1 hseq
      omega
    rw [hnil]; rfl
  | succ n =>
    have hmax : (((chunksT.rows db).filter (Chunks.ofPair p.1 p.2)).map (·.seq)).max? = some (n : Int) := by
      refine List.max?_eq_some_iff.2 ⟨(hmem n).2 (by omega), fun seq hseq => ?_⟩
      have := (hmem seq).1 hseq
      omega
    rw [hmax]; simp

theorem nextRow_ok {x : Chunks.Insert} {env : Env} {snap : Db} {row : ChunkRow} {n : Nat}
    (hn : Numbered (x.sessionId, x.pseudoId) n snap) (h : Chunks.nextRow x env snap = .ok row) :
    row = Chunks.insertRow x n env := by
  rw [Chunks.nextRow, hn.nextSeq] at h
  split at h
  · exact (Except.ok.inj h).symm
  · cases h

theorem nextRow_error {x : Chunks.Insert} {env : Env} {snap : Db} {err : DbError Key Uniq}
    (h : Chunks.nextRow x env snap = .error err) (l : Lockable Key Uniq) : err ≠ .unique l := by
  rintro rfl
  unfold Chunks.nextRow at h
  split at h <;> cases h

/-- Writes that enter the next number, and no other chunk of the pair. -/
theorem Numbered.applyAll {p : Pair} {n : Nat} {db : Db} (h : Numbered p n db) {ws : List (Write Row Key)}
    (hdel : ∀ w ∈ ws, ∀ seq, w.deletes ≠ some (chunkKey p seq))
    (hins : ∀ seq, (∃ r, .insert r ∈ ws ∧ key r = chunkKey p seq) ↔ seq = n) :
    Numbered p (n + 1) (applyAll ws db) := by
  intro seq
  rw [present_applyAll fun w hw => hdel w hw seq, h seq, hins seq]
  omega

/-! ## The protocol of an upload -/

/-- Where an upload stands: before the lock, under it, with its row written,
and committed. -/
inductive Stage
  | idle
  | locked
  | reserved (seq : Nat)
  | committed (seq : Nat)

/-- The primary key of a chunk was taken. -/
def KeyTaken (e : DbError Key Uniq) : Prop := ∃ p seq, e = .unique (.pk (chunkKey p seq))

def protocol (p : Pair) : Protocol (@Answer Row Key Uniq Env Io World _ _) Stage where
  may s
    | .begin => s = .idle
    | .query .tx (.select _) => True
    | .query .tx (.forUpdate q) => s = .idle ∧ Stmt.forUpdate q = Sessions.getInTxSql p.1
    | .query .tx (.insert mk) =>
      (s = .locked ∧ ∃ x : Chunks.Insert, x.sessionId = p.1 ∧ x.pseudoId = p.2 ∧ .insert mk = Chunks.insertSql x) ∨
      (s ≠ .locked ∧ ∃ e, .insert mk = AuditLog.appendSql e)
    | .query .tx (.update q set) => ∃ seq key, s = .reserved seq ∧ .update q set = Chunks.setKeySql p.1 p.2 seq key
    | .query .tx (.delete _) => False
    | .query .pool _ => False
    | .commit => ∃ seq, s = .reserved seq
    | .rollback => s = .idle
    | .outer _ => True
  next s
    | .begin, .error e, t => t = s ∧ ¬KeyTaken e
    | .query .tx _, .error e, t => t = s ∧ ¬KeyTaken e
    | .query .tx (.forUpdate _), .ok rows, t => ∀ x, (sessionsT.rows rows).head? = some x → t = .locked
    | .query .tx (.insert _), .ok rows, t =>
      (s = .locked → ∀ c, (chunksT.rows rows).head? = some c → ∃ n : Nat, c.seq = n ∧ t = .reserved n) ∧
      (s ≠ .locked → t = s)
    | .outer (.put _ _ _), .error e, t => t = s ∧ ∀ d, e ≠ .database d
    | .commit, .ok _, t => ∀ n, s = .reserved n → t = .committed n
    | .commit, .error e, _ => ¬KeyTaken e
    | .rollback, .error e, t => t = .idle ∧ ¬KeyTaken e
    | _, _, t => t = s

/-- What an upload answers: it never met its number taken, and the number it
answers with is the one it committed. -/
def Answers (s : Stage) : Except AppError ChunkRoutes.UploadResponse → Prop
  | .error e => ∀ d, e = .database d → ¬KeyTaken d
  | .ok r => r.deduplicated = false → ∃ n : Nat, s = .committed n ∧ r.seq = n

abbrev Follows {β : Type} (p : Pair) (Q : Stage → Except AppError β → Prop) (s : Stage) (h : Handler β) : Prop :=
  Prog.Follows (protocol p) Q s h.run

/-- A statement's error ends the handler. -/
theorem answers_database {s : Stage} {e : DbError Key Uniq} (h : ¬KeyTaken e) : Answers s (.error (.database e)) := by
  intro d hd
  cases hd; exact h

theorem answers_other {s : Stage} {e : AppError} (h : ∀ d, e ≠ .database d) : Answers s (.error e) :=
  fun d hd => absurd hd (h d)

/-! ### Headers that do not parse are no database error -/

theorem mapError_other {ε α : Type} {x : Except ε α} {f : ε → AppError} {e : AppError}
    (h : x.mapError f = .error e) (hf : ∀ y d, f y ≠ .database d) (d : DbError Key Uniq) : e ≠ .database d := by
  cases x with
  | error y =>
    obtain rfl := Except.error.inj h
    exact hf y d
  | ok a => cases h

theorem required_error {h : HeaderMap} {key name : String} {e : AppError}
    (he : ChunkRoutes.required h key name = .error e) (d : DbError Key Uniq) : e ≠ .database d := by
  rintro rfl
  unfold ChunkRoutes.required at he
  split at he
  · cases he
  · split at he <;> cases he

theorem parseChunkHeaders_error {st : AppState} {h : HeaderMap} {e : AppError}
    (he : ChunkRoutes.parseChunkHeaders st h = .error e) (d : DbError Key Uniq) : e ≠ .database d := by
  unfold ChunkRoutes.parseChunkHeaders at he
  rcases bind_error he with he | ⟨capture, _, he⟩
  · exact required_error he d
  rcases bind_error he with he | ⟨_, _, he⟩
  · exact mapError_other he (by simp) d
  rcases bind_error he with he | ⟨_, _, he⟩
  · exact required_error he d
  rcases bind_error he with he | ⟨_, _, he⟩
  · exact mapError_other he (by simp) d
  split at he
  · obtain rfl := Except.error.inj he
    simp
  rcases bind_error he with he | ⟨_, _, he⟩
  · exact required_error he d
  split at he
  · obtain rfl := Except.error.inj he
    simp
  · cases he

theorem store_follows (svc : String) (sid : Uuid) (pid : PseudoId) (h : ChunkRoutes.ChunkHeaders) (body : Bytes) :
    Follows (sid, pid) Answers .idle (ChunkRoutes.store svc sid pid h body) := by
  rw [ChunkRoutes.store, Sessions.getInTx, bind_assoc]
  refine follows_fetchOptional ⟨rfl, rfl⟩ (fun e t ht => answers_database ht.2) fun rows t ht => ?_
  cases hx : (sessionsT.rows rows).head? with
  | none => exact follows_throw (answers_other (by simp))
  | some session =>
    obtain rfl : t = .locked := ht session hx
    simp only [pure_bind, ChunkRoutes.readBody, bind_assoc]
    refine follows_toBytes trivial (fun e t _ => answers_other (by simp)) fun bytes t ht => ?_
    obtain rfl := ht
    refine follows_refuseIf (fun _ => answers_other (by simp)) fun _ => ?_
    rw [Chunks.insert]
    refine follows_fetchOne (.inl ⟨rfl, _, rfl, rfl, rfl⟩) (fun e t ht => answers_database ht.2) ?_ ?_
    · exact fun rows t _ _ => answers_database (by rintro ⟨_, _, h⟩; cases h)
    · intro rows t row ht hrow
      obtain ⟨n, hn, rfl⟩ := ht.1 rfl row hrow
      refine follows_put trivial (fun e t ht => answers_other ht.2) fun t ht => ?_
      obtain rfl : t = .reserved n := ht
      refine follows_incCounter trivial fun t ht => ?_
      obtain rfl : t = .reserved n := ht
      refine follows_execute ⟨n, _, rfl, by rw [hn]; rfl⟩ (fun e t ht => answers_database ht.2) fun rows t ht => ?_
      obtain rfl : t = .reserved n := ht
      refine follows_appendTx (.inr ⟨by simp, _, rfl⟩) (fun e t ht => answers_database ht.2) fun rows t ht => ?_
      obtain rfl : t = .reserved n := ht.2 (by simp)
      refine follows_commit ⟨n, rfl⟩ (fun e t ht => answers_database ht) fun t ht => ?_
      obtain rfl : t = .committed n := ht n rfl
      refine follows_utcNow trivial fun now t ht => ?_
      obtain rfl : t = .committed n := ht
      refine follows_send trivial fun t ht => ?_
      obtain rfl : t = .committed n := ht
      exact follows_pure fun _ => ⟨n, rfl, hn⟩

theorem upload_follows (st : AppState) (svc : String) (r : ChunkRoutes.UploadRequest) :
    Follows (r.sessionId, ⟨r.pseudoRaw⟩) Answers .idle (ChunkRoutes.upload st svc r) := by
  rw [ChunkRoutes.upload]
  refine follows_ofResult (fun e he => ?_) fun pid hpid => ?_
  · refine answers_other fun d hd => ?_
    subst hd
    unfold PseudoId.newOrMixed at he
    split at he <;> simp [Except.mapError, PseudoIdError.toAppError] at he
  have hraw : pid = ⟨r.pseudoRaw⟩ := by
    unfold PseudoId.newOrMixed at hpid
    split at hpid <;> simp [Except.mapError] at hpid
    exact hpid.symm
  subst hraw
  refine follows_ofResult (fun e he => answers_other (parseChunkHeaders_error he)) fun h _ => ?_
  refine follows_begin rfl (fun e t ht => answers_database ht.2) fun t ht => ?_
  obtain rfl : t = .idle := ht
  rw [Chunks.lookupByClientId]
  refine follows_fetchOptional trivial (fun e t ht => answers_database ht.2) fun rows t ht => ?_
  obtain rfl : t = .idle := ht
  cases (chunksT.rows rows).head? with
  | none => exact store_follows svc r.sessionId _ h r.body
  | some existing =>
    refine follows_rollback rfl (fun e t ht => answers_database ht.2) fun t ht => ?_
    exact follows_pure fun hd => by cases hd

/-! ## What a stage means -/

section
variable {ι : Type} (pair : ι → Pair)

/-- How many of the committed transactions are uploads of `p`. -/
def uploads (p : Pair) (log : List (ι × List (Write Row Key))) : Nat := (log.filter fun t => pair t.1 = p).length

/-- No chunk is written in the open transaction. -/
def Clean (c : Conn) : Prop := ∀ t, c.tx = some t → ∀ w ∈ t.writes, Key.table w.key ≠ .chunks

/-- Writes that enter the chunk `seq`, and touch no other. -/
structure Writing (p : Pair) (seq : Nat) (ws : List (Write Row Key)) : Prop where
  entered : ∃ r : ChunkRow, .insert (.chunk r) ∈ ws ∧ r.sessionId = p.1 ∧ r.pseudoId = p.2 ∧ r.seq = seq
  only : ∀ w ∈ ws, Key.table w.key = .chunks → w.key = chunkKey p seq
  kept : ∀ w ∈ ws, ∀ k, w.deletes = some k → Key.table k ≠ .chunks

def Holds (i : ι) (c : Conn) (sv : Sv ι) : Stage → Prop
  | .idle => Clean c
  | .locked => Clean c ∧ (i, (.row (.session (pair i).1), .update)) ∈ sv.locks ∧
      ∀ s, c.snap = some s → ∀ seq, Present (chunkKey (pair i) seq) s.rows ↔ Present (chunkKey (pair i) seq) sv.db
  | .reserved n => (i, (.row (.session (pair i).1), .update)) ∈ sv.locks ∧ Numbered (pair i) n sv.db ∧
      ∃ t, c.tx = some t ∧ Writing (pair i) n t.writes
  | .committed n => c.tx = none ∧ ∃ pre ws post, sv.log = pre ++ (i, ws) :: post ∧ uploads pair (pair i) pre = n

/-- What an upload commits: the next number of its pair, and nothing of any
other pair. -/
structure Commits (db : Db) (i : ι) (ws : List (Write Row Key)) : Prop where
  entered : ∃ r : ChunkRow, .insert (.chunk r) ∈ ws ∧ r.sessionId = (pair i).1 ∧ r.pseudoId = (pair i).2 ∧
    ∀ n, Numbered (pair i) n db → r.seq = n
  next : ∀ n, Numbered (pair i) n db → Numbered (pair i) (n + 1) (applyAll ws db)
  others : ∀ p, p ≠ pair i → ∀ seq, Present (chunkKey p seq) (applyAll ws db) ↔ Present (chunkKey p seq) db

variable {pair} {i j : ι} {conn c' : Conn} {sv sv' : Sv ι}

theorem clean_present {t : Tx Row Key Env} (h : Clean conn) (ht : conn.tx = some t) (p : Pair) (seq : Int) (db : Db) :
    Present (chunkKey p seq) (applyAll t.writes db) ↔ Present (chunkKey p seq) db :=
  present_congr (versions_applyAll_other (fun w hw hk => h t ht w hw (by rw [hk]; rfl)) db)

theorem Clean.same (h : Clean conn) (htx : c'.tx = conn.tx) : Clean c' := fun t ht => h t (htx ▸ ht)

/-- A deleted key is the key of the write. -/
theorem deletes_key {w : Write Row Key} {k : Key} (h : w.deletes = some k) : w.key = k := by
  cases w with
  | delete k' => exact Option.some.inj h
  | insert r => cases h
  | update r => cases h

theorem chunkKey_inj {p q : Pair} {a b : Int} (h : chunkKey p a = chunkKey q b) : p = q ∧ a = b := by
  simp only [chunkKey, Key.chunk.injEq] at h
  exact ⟨Prod.ext h.1 h.2.1, h.2.2⟩

theorem Writing.commits {n : Nat} {ws : List (Write Row Key)} {db : Db} (h : Writing (pair i) n ws)
    (hn : Numbered (pair i) n db) : Commits pair db i ws := by
  obtain ⟨r, hr, h₁, h₂, h₃⟩ := h.entered
  have hkey : key (Row.chunk r) = chunkKey (pair i) n := by
    simp [key, Row.key, chunkKey, h₁, h₂, h₃]
  refine ⟨⟨r, hr, h₁, h₂, fun m hm => ?_⟩, fun m hm => ?_, fun p hp seq => ?_⟩
  · rw [h₃, hn.unique hm]
  · obtain rfl := hn.unique hm
    refine hm.applyAll (fun w hw seq hk => h.kept w hw _ hk rfl) fun seq => ⟨?_, ?_⟩
    · rintro ⟨x, hx, hk⟩
      have : Write.key (.insert x : Write Row Key) = chunkKey (pair i) n := h.only _ hx (by
        show Key.table (key x) = .chunks
        rw [hk]; rfl)
      exact (chunkKey_inj (hk.symm.trans this)).2
    · rintro rfl
      exact ⟨_, hr, hkey⟩
  · refine present_congr (versions_applyAll_other (fun w hw hk => ?_) db)
    have := h.only w hw (by rw [hk]; rfl)
    exact hp (chunkKey_inj (hk.symm.trans this)).1

/-- The numbers of every pair, all along the log. -/
theorem numbered_replay {db₀ : Db} {log : List (ι × List (Write Row Key))} (h : Logged (Commits pair) db₀ log)
    (h₀ : ∀ p, Numbered p 0 db₀) : ∀ p, Numbered p (uploads pair p log) (replay db₀ log) := by
  refine h.induct (I := fun log => ∀ p, Numbered p (uploads pair p log) (replay db₀ log)) h₀ ?_
  intro log i ws _ ih hc p
  rw [replay_append]
  by_cases hp : pair i = p
  · subst hp
    have : uploads pair (pair i) (log ++ [(i, ws)]) = uploads pair (pair i) log + 1 := by simp [uploads]
    rw [this]
    exact hc.next _ (ih _)
  · have : uploads pair p (log ++ [(i, ws)]) = uploads pair p log := by simp [uploads, hp]
    rw [this]
    exact (ih p).congr (hc.others p (Ne.symm hp))

variable [DecidableEq ι] {c d : Clients ι Row Env Io Outcome} {e : Env} {s : Stage}

/-- The chunk keys of a session stand still while its row is locked. -/
theorem locked_present (ho : Orderly c) (hs : c.step machine i e = some d) (hj : j ≠ i)
    (hφ : ∀ ws, d.shared.log = c.shared.log ++ [(i, ws)] → Commits pair c.shared.db i ws)
    (hl : (j, (.row (.session (pair j).1), .update)) ∈ c.shared.locks) (seq : Int) :
    Present (chunkKey (pair j) seq) d.shared.db ↔ Present (chunkKey (pair j) seq) c.shared.db := by
  rcases ho.log_cases hs with ⟨hdb, -⟩ | ⟨ws, hdb, hlog, hfree⟩
  · rw [hdb]
  · rw [hdb]
    obtain ⟨⟨r, hr, hsid, -⟩, -, hothers⟩ := hφ ws hlog
    refine hothers _ (fun hp => ?_) seq
    refine (hfree _ hr).ref_ne hl hj rfl ?_
    simp [refs, Row.refs, hsid, ← hp]

theorem Holds.stays (ho : Orderly c) (hs : c.step machine i e = some d) (hj : j ≠ i)
    (hφ : ∀ ws, d.shared.log = c.shared.log ++ [(i, ws)] → Commits pair c.shared.db i ws)
    (h : Holds pair j (c.threads j).loc c.shared s) : Holds pair j (c.threads j).loc d.shared s := by
  cases s with
  | idle => exact h
  | locked =>
    obtain ⟨hc, hl, hsnap⟩ := h
    refine ⟨hc, (locks_other hs hj).2 hl, fun s hs' seq => ?_⟩
    rw [locked_present ho hs hj hφ hl]; exact hsnap s hs' seq
  | reserved n =>
    obtain ⟨hl, hn, ht⟩ := h
    exact ⟨(locks_other hs hj).2 hl, hn.congr (locked_present ho hs hj hφ hl), ht⟩
  | committed n =>
    obtain ⟨htx, pre, ws, post, hlog, hn⟩ := h
    rcases ho.log_cases hs with ⟨-, hlog'⟩ | ⟨ws', -, hlog', -⟩
    · exact ⟨htx, pre, ws, post, by rw [hlog', hlog], hn⟩
    · exact ⟨htx, pre, ws, post ++ [(i, ws')], by rw [hlog', hlog]; simp, hn⟩

omit [DecidableEq ι] in
/-- A move that writes nothing. -/
theorem Holds.same (h : Holds pair i conn sv s) (htx : c'.tx = conn.tx) (hsnap : c'.snap = none) (hdb : sv'.db = sv.db)
    (hlog : sv'.log = sv.log) (hlocks : ∀ l ∈ sv.locks, l ∈ sv'.locks) : Holds pair i c' sv' s := by
  cases s with
  | idle => exact Clean.same h htx
  | locked =>
    refine ⟨h.1.same htx, hlocks _ h.2.1, fun s hs => ?_⟩
    rw [hsnap] at hs; cases hs
  | reserved n => exact ⟨hlocks _ h.1, hdb ▸ h.2.1, htx ▸ h.2.2⟩
  | committed n => exact ⟨htx ▸ h.1, hlog ▸ h.2⟩

omit [DecidableEq ι] in
theorem Holds.look (h : Holds pair i conn sv s) :
    Holds pair i { conn with snap := some sv.look } sv s := by
  cases s with
  | locked =>
    refine ⟨h.1, h.2.1, fun s hs seq => ?_⟩
    obtain rfl := Option.some.inj hs
    rfl
  | _ => exact h

omit [DecidableEq ι] in
/-- A statement that writes other tables, or updates the chunk entered. -/
theorem Holds.wrote {t : Tx Row Key Env} (h : Holds pair i conn sv s) (ht : conn.tx = some t) (hs : s ≠ .locked)
    {ws : List (Write Row Key)} {locks : List (ι × Need Key Uniq)}
    (hc : c'.tx = some { t with writes := t.writes ++ ws }) (hlocks : ∀ l ∈ sv.locks, l ∈ locks)
    (hws : ∀ w ∈ ws, Key.table w.key ≠ .chunks ∨
      ∃ n : Nat, s = .reserved n ∧ w.key = chunkKey (pair i) n ∧ w.deletes = none) :
    Holds pair i c' { sv with locks := locks } s := by
  cases s with
  | idle =>
    intro t' ht' w hw
    obtain rfl := Option.some.inj (hc.symm.trans ht')
    rcases List.mem_append.1 hw with hw | hw
    · exact h t ht w hw
    · rcases hws w hw with hw | ⟨n, hn, -⟩
      · exact hw
      · cases hn
  | locked => exact absurd rfl hs
  | reserved n =>
    obtain ⟨hl, hn, t', ht', hw'⟩ := h
    obtain rfl := Option.some.inj (ht.symm.trans ht')
    obtain ⟨⟨r, hr, hr'⟩, honly, hkept⟩ := hw'
    refine ⟨hlocks _ hl, hn, _, hc, ⟨r, List.mem_append_left _ hr, hr'⟩, fun w hw hk => ?_, fun w hw k hk => ?_⟩
    · rcases List.mem_append.1 hw with hw | hw
      · exact honly w hw hk
      · rcases hws w hw with hw | ⟨m, hm, hw, -⟩
        · exact absurd hk hw
        · cases hm; exact hw
    · rcases List.mem_append.1 hw with hw | hw
      · exact hkept w hw k hk
      · rcases hws w hw with hw | ⟨m, hm, -, hd⟩
        · rw [← deletes_key hk]; exact hw
        · rw [hd] at hk; cases hk
  | committed n =>
    have htx := h.1
    rw [ht] at htx; cases htx

omit [DecidableEq ι] in
/-- Under the lock, the snapshot of the transaction has the numbers of the
store. -/
theorem Holds.snapshot_numbered {n : Nat} (h : Holds pair i conn sv .locked) {t : Tx Row Key Env}
    (ht : conn.tx = some t) {snap : Snapshot Row} (hs : conn.snap = some snap) (hn : Numbered (pair i) n sv.db) :
    Numbered (pair i) n (applyAll t.writes snap.rows) := by
  refine hn.congr fun seq => ?_
  rw [clean_present h.1 ht, h.2.2 snap hs]

/-- No statement of an upload finds the number taken. -/
theorem Holds.not_keyTaken (hn : ∃ n, Numbered (pair i) n sv.db) (h : Holds pair i conn sv s) {q : Sql}
    (hm : (protocol (pair i)).may s (.query .tx q)) {err : DbError Key Uniq}
    (hx : machine.exec i e conn sv (.query .tx q) = some (some (.error err), c', sv')) : ¬KeyTaken err := by
  rintro ⟨p, seq, rfl⟩
  obtain ⟨n, hn⟩ := hn
  rcases query_tx_error hx with ⟨hf, -⟩ | ⟨t, snap, ht, hs, hres⟩
  · cases hf
  · cases q with
    | select q => cases hres
    | forUpdate q => cases hres
    | delete q => exact hm
    | update q set =>
      simp only [Stmt.run] at hres
      split at hres <;> cases hres
    | insert mk =>
      rcases hm with ⟨rfl, x, hsid, hpid, hq⟩ | ⟨-, a, hq⟩
      · rw [hq] at hres
        have hnum := h.snapshot_numbered ht hs hn
        obtain ⟨row, hrow, hk, hp⟩ := insert_pk_present (fun l hl => nextRow_error hl l rfl) hres
        obtain rfl := nextRow_ok (by rw [hsid, hpid]; exact hnum) hrow
        have hkey : chunkKey p seq = chunkKey (pair i) n := by
          rw [← hk]
          simp [chunksT, key, Row.key, Chunks.insertRow, chunkKey, hsid, hpid]
        rw [hkey, clean_present h.1 ht] at hp
        have := (hn n).1 hp
        omega
      · rw [hq] at hres
        obtain ⟨row, _, hk, -⟩ := insert_pk_present (fun l hl => by cases hl) hres
        cases hk

theorem Holds.query_tx (hn : ∃ n, Numbered (pair i) n sv.db) (h : Holds pair i conn sv s) {q : Sql}
    {r : Answer (.query .tx q : Operation)} (hm : (protocol (pair i)).may s (.query .tx q))
    (hx : machine.exec i e conn sv (.query .tx q) = some (some r, c', sv')) :
    ∃ t, (protocol (pair i)).next s (.query .tx q) r t ∧ Holds pair i c' sv' t ∧ sv'.log = sv.log := by
  rcases query_tx_done hx with ⟨err, rfl, rfl, rfl⟩ | ⟨t, snap, rows, ws, eff, ht, hs, _, heff, hres, _, rfl, rfl, rfl⟩
  · have herr := h.not_keyTaken hn hm hx
    refine ⟨s, ?_, h.same rfl rfl rfl rfl fun _ hl => hl, rfl⟩
    cases q <;> exact ⟨rfl, herr⟩
  · have hlocks : ∀ k ∈ sv.locks, k ∈ eff.needs.map (i, ·) ++ sv.locks := fun k hk => List.mem_append_right _ hk
    subst heff
    cases q with
    | select q =>
      obtain rfl : [] = ws := by
        simp only [Stmt.run, Except.ok.injEq, Prod.mk.injEq] at hres
        exact hres.2
      exact ⟨s, rfl, h.same (by simp [Client.done, ht]) rfl rfl rfl hlocks, rfl⟩
    | forUpdate q =>
      obtain ⟨rfl, hq⟩ := hm
      rw [hq] at hres hlocks ⊢
      obtain ⟨hrows, rfl, hneeds⟩ := forUpdate_ok hres
      cases hx : (sessionsT.rows rows).head? with
      | none =>
        refine ⟨.idle, fun x hx' => ?_, h.same (by simp [Client.done, ht]) rfl rfl rfl hlocks, rfl⟩
        rw [hx] at hx'; cases hx'
      | some x =>
        have hmem : Row.session x ∈ rows := sessionsT.mem_rows.1 (List.mem_of_mem_head? hx)
        obtain ⟨y, hy, _, hpy, -⟩ := (mem_hits sessionsT).1 (hrows ▸ hmem)
        obtain rfl := sessionsT.put_inj hy
        have hid : x.id = (pair i).1 := by simpa [Sessions.byId] using hpy
        refine ⟨.locked, fun _ _ => rfl, ⟨?_, ?_, fun s hs => by cases hs⟩, rfl⟩
        · exact Clean.same h (by simp [Client.done, ht])
        · have := hneeds _ hmem
          exact List.mem_append_left _ (List.mem_map.2 ⟨_, by rwa [show key (Row.session x) = .session x.id from rfl,
            hid] at this, rfl⟩)
    | delete q => exact hm.elim
    | insert mk =>
      rcases hm with ⟨rfl, x, hsid, hpid, hq⟩ | ⟨hs', a, hq⟩
      · obtain ⟨n, hn⟩ := hn
        rw [hq] at hres hlocks ⊢
        obtain ⟨row, hrow, _, _, _, rfl, rfl⟩ := insert_ok hres
        obtain rfl := nextRow_ok (by rw [hsid, hpid]; exact h.snapshot_numbered ht hs hn) hrow
        refine ⟨.reserved n, ⟨fun _ c hc => ⟨n, ?_, rfl⟩, fun hne => absurd rfl hne⟩, ⟨hlocks _ h.2.1, hn, _, rfl, ?_⟩, rfl⟩
        · have : chunksT.rows [chunksT.put (Chunks.insertRow x n (StepEnv.within t.env e))] = [_] := chunksT.rows_map_put [_]
          rw [this] at hc
          obtain rfl := Option.some.inj hc
          rfl
        · refine ⟨⟨_, List.mem_append_right _ (List.mem_singleton.2 rfl), hsid, hpid, rfl⟩, fun w hw hk => ?_, fun w hw => ?_⟩
          · rcases List.mem_append.1 hw with hw | hw
            · exact absurd hk (h.1 t ht w hw)
            · rw [List.mem_singleton.1 hw]
              simp [Write.key, chunksT, key, Row.key, Chunks.insertRow, chunkKey, hsid, hpid]
          · intro k hk
            rcases List.mem_append.1 hw with hw | hw
            · rw [← deletes_key hk]; exact h.1 t ht w hw
            · rw [List.mem_singleton.1 hw] at hk; cases hk
      · rw [hq] at hres hlocks ⊢
        obtain ⟨row, _, _, _, _, _, rfl⟩ := insert_ok hres
        refine ⟨s, ⟨fun hl => absurd hl hs', fun _ => rfl⟩, ?_, rfl⟩
        refine h.wrote ht hs' rfl hlocks fun w hw => ?_
        rw [List.mem_singleton.1 hw]
        exact .inl (fun hk => by cases hk)
    | update q set =>
      obtain ⟨n, key, rfl, hq⟩ := hm
      rw [hq] at hres hlocks ⊢
      refine ⟨.reserved n, rfl, h.wrote ht (by simp) rfl hlocks fun w hw => .inr ⟨n, rfl, ?_⟩, rfl⟩
      obtain ⟨c, _, hc, rfl, hk⟩ := update_ok_write hres hw
      simp only [Chunks.at', Chunks.ofPair, Bool.and_eq_true, decide_eq_true_eq] at hc
      refine ⟨hk.trans ?_, rfl⟩
      simp [chunksT, Relational.key, Row.key, chunkKey, hc.1.1, hc.1.2, hc.2]

/-- A completed operation: the stage follows, and what it committed is the
next number. -/
theorem Holds.done (hn : ∃ n, Numbered (pair i) n sv.db ∧ n = uploads pair (pair i) sv.log)
    (h : Holds pair i conn sv s) {o : Operation} {r : Answer o} (hm : (protocol (pair i)).may s o)
    (hx : machine.exec i e conn sv o = some (some r, c', sv')) :
    ∃ t, (protocol (pair i)).next s o r t ∧ Holds pair i c' sv' t ∧
      (sv'.log = sv.log ∨ ∃ ws, sv'.log = sv.log ++ [(i, ws)] ∧ Commits pair sv.db i ws) := by
  obtain ⟨n, hnum, hcount⟩ := hn
  have closed : ∀ (c : Conn) (sv : Sv ι), c.tx = none → Holds pair i c sv .idle := by
    intro c sv hc t ht
    rw [hc] at ht; cases ht
  cases o with
  | query via q =>
    cases via with
    | tx =>
      obtain ⟨t, ht, hh, hlog⟩ := h.query_tx ⟨n, hnum⟩ hm hx
      exact ⟨t, ht, hh, .inl hlog⟩
    | pool => exact hm.elim
  | begin =>
    obtain rfl : s = .idle := hm
    rcases begin_done hx with ⟨err, rfl, rfl, rfl⟩ | ⟨rfl, rfl, rfl⟩
    · refine ⟨.idle, ⟨rfl, ?_⟩, Clean.same h rfl, .inl rfl⟩
      rw [(begin_error hx).1]
      rintro ⟨_, _, hk⟩; cases hk
    · refine ⟨.idle, rfl, fun t ht w hw => ?_, .inl rfl⟩
      cases ht; cases hw
  | commit =>
    obtain ⟨m, rfl⟩ := hm
    rcases commit_done hx with ⟨err, rfl, rfl, rfl⟩ | ⟨rfl, rfl, rfl⟩
    · refine ⟨.idle, ?_, closed _ _ rfl, .inl rfl⟩
      rw [(commit_error hx).1]
      rintro ⟨_, _, hk⟩; cases hk
    · obtain ⟨_, hm, t, ht, hw⟩ := h
      have hwr : conn.writes = t.writes := by simp [Client.writes, ht]
      refine ⟨.committed m, fun _ hm' => by cases hm'; rfl, ⟨rfl, sv.log, conn.writes, [], rfl, ?_⟩,
        .inr ⟨conn.writes, rfl, ?_⟩⟩
      · rw [← hcount, hm.unique hnum]
      · rw [hwr]; exact hw.commits hm
  | rollback =>
    obtain ⟨rfl, rfl⟩ := rollback_done hx
    refine ⟨.idle, ?_, closed _ _ rfl, .inl rfl⟩
    cases r with
    | ok u => exact (hm : s = .idle).symm
    | error err =>
      refine ⟨rfl, ?_⟩
      rw [(rollback_error hx).1]
      rintro ⟨_, _, hk⟩; cases hk
  | outer x =>
    obtain ⟨hr, rfl, rfl⟩ := outer_done hx
    refine ⟨s, ?_, h.same rfl rfl rfl rfl fun _ hl => hl, .inl rfl⟩
    cases x with
    | put k body ct =>
      cases r with
      | ok u => rfl
      | error err =>
        refine ⟨rfl, fun d hd => ?_⟩
        have : Except.error err = (ObjectStore.put e.storeFails sv.world.store k body).1 := hr
        unfold ObjectStore.put at this
        split at this <;> cases this
        cases hd
    | _ => rfl

end

/-! ## Runs -/

def pairOf (r : ChunkRoutes.UploadRequest) : Pair := (r.sessionId, ⟨r.pseudoRaw⟩)

/-- `Answers`, of the whole request. -/
def Replies (s : Stage) : Outcome → Prop
  | .error e => Answers s (.error e)
  | .ok (.uploaded r) => Answers s (.ok r)
  | .ok _ => False

theorem handle_follows (st : AppState) (svc : String) (r : ChunkRoutes.UploadRequest) :
    Follows (pairOf r) Replies .idle (handle st (.upload svc r)) := by
  refine follows_map ((upload_follows st svc r).mono fun t a ha => ?_)
  cases a <;> exact ha

theorem no_chunks_numbered {db : Db} (h : chunksT.rows db = []) (p : Pair) : Numbered p 0 db := by
  intro seq
  rw [present_chunk, h]
  simp only [List.not_mem_nil, false_and, exists_false, false_iff]
  omega

/-- The numbers of a pair, each once. -/
theorem Numbered.seqs {p : Pair} {n : Nat} {db : Db} (h : Numbered p n db) (hu : KeysUnique db) :
    (((chunksT.rows db).filter (Chunks.ofPair p.1 p.2)).map (·.seq)).Perm ((List.range n).map Int.ofNat) := by
  have hmem : ∀ seq : Int, seq ∈ ((chunksT.rows db).filter (Chunks.ofPair p.1 p.2)).map (·.seq) ↔
      Present (chunkKey p seq) db := by
    intro seq
    rw [present_chunk]
    simp only [List.mem_map, List.mem_filter, and_assoc]
  have hkeys : (((chunksT.rows db).filter (Chunks.ofPair p.1 p.2)).map (·.seq)).map (chunkKey p) =
      ((chunksT.rows db).filter (Chunks.ofPair p.1 p.2)).map fun c => key (chunksT.put c) := by
    rw [List.map_map]
    refine List.map_congr_left fun c hc => ?_
    have hp := (List.mem_filter.1 hc).2
    simp only [Chunks.ofPair, Bool.and_eq_true, decide_eq_true_eq] at hp
    simp [chunkKey, chunksT, key, Row.key, hp.1, hp.2]
  refine (List.perm_ext_iff_of_nodup ?_ ?_).2 fun seq => ?_
  · refine List.Nodup.of_map (chunkKey p) ?_
    rw [hkeys]
    exact (chunksT.rows_keys_nodup hu).sublist (List.filter_sublist.map _)
  · exact List.nodup_range.map fun a b hab => Int.ofNat.inj hab
  · rw [hmem, h seq, List.mem_map]
    constructor
    · exact fun hs => ⟨seq.toNat, List.mem_range.2 (by omega), Int.toNat_of_nonneg hs.1⟩
    · rintro ⟨a, ha, rfl⟩
      have := List.mem_range.1 ha
      simp only [Int.ofNat_eq_natCast]
      omega

/-- An upload that has returned drops its transaction, if it still has one. -/
theorem Holds.close {ι : Type} [DecidableEq ι] {pair : ι → Pair} {i : ι} {conn : Conn} {sv : Sv ι} {s : Stage}
    {a : Outcome} (h : Holds pair i conn sv s) (ha : Replies s a) :
    ∃ t, Replies t a ∧ Holds pair i { conn with tx := none } (sv.release i) t := by
  by_cases hs : ∃ n, s = .committed n
  · obtain ⟨n, rfl⟩ := hs
    exact ⟨.committed n, ha, rfl, h.2⟩
  · refine ⟨.idle, ?_, fun t ht => by cases ht⟩
    cases a with
    | error e => exact ha
    | ok reply =>
      cases reply with
      | uploaded r =>
        intro hd
        obtain ⟨n, hn, -⟩ := ha hd
        exact absurd ⟨n, hn⟩ hs
      | _ => exact ha.elim

/-- Uploads in any interleaving, of any sessions and pseudonyms, any of which
may fail at any step: none fails because its number is taken, each committed
one got the number of uploads of its pair committed before it, and the
numbers of a pair are those below the count of its committed uploads. -/
theorem upload_seqs_consecutive {ι : Type} [DecidableEq ι] (st : AppState) (svc : ι → String)
    (ups : ι → ChunkRoutes.UploadRequest) (sv₀ : Sv ι) (hstart : sv₀.Quiescent) (hempty : chunksT.rows sv₀.db = [])
    {c : Clients ι Row Env Io Outcome}
    (h : Run machine (fun _ _ _ => True) (Service.start st (fun i => .upload (svc i) (ups i)) sv₀) c) :
    (∀ i p seq, c.returned i ≠ some (.error (.database (.unique (.pk (chunkKey p seq)))))) ∧
    (∀ p, (((chunksT.rows c.shared.db).filter (Chunks.ofPair p.1 p.2)).map (·.seq)).Perm
      ((List.range (uploads (pairOf ∘ ups) p c.shared.log)).map Int.ofNat)) ∧
    (∀ pre i ws post, c.shared.log = pre ++ (i, ws) :: post →
      ∃ r : ChunkRow, .insert (.chunk r) ∈ ws ∧ (r.sessionId, r.pseudoId) = pairOf (ups i) ∧
        r.seq = uploads (pairOf ∘ ups) (pairOf (ups i)) pre) ∧
    ∀ i r, c.returned i = some (.ok (.uploaded r)) → r.deduplicated = false →
      ∃ pre ws post, c.shared.log = pre ++ (i, ws) :: post ∧
        r.seq = uploads (pairOf ∘ ups) (pairOf (ups i)) pre := by
  have ho : Orderly (Service.start st (fun i => .upload (svc i) (ups i)) sv₀) := Orderly.start hstart
  have hdb : c.shared.db = replay sv₀.db c.shared.log := Run.replay hstart.log ho h
  have h₀ : ∀ p, Numbered p 0 sv₀.db := no_chunks_numbered hempty
  obtain ⟨hL, g, hg⟩ := Run.clients (H := fun i s l sv => Holds (pairOf ∘ ups) i l sv s) (G := fun _ => .idle)
      (P := fun i => protocol (pairOf (ups i))) (Q := fun _ => Replies) (φ := Commits (pairOf ∘ ups))
      hstart.log ho (fun i t ht => by cases ht) (fun i => handle_follows st (svc i) (ups i))
      (fun c c' i j e s ho _ hs hj hφ hH => hH.stays ho hs hj hφ)
      (fun i s l sv hH _ => Holds.look hH)
      (fun c i e o k r l sv s ho hdb hL _ _ hm hH hx => hH.done ⟨_, hdb ▸ numbered_replay hL h₀ _, rfl⟩ hm hx)
      (fun i s a l sv hH hQ => Holds.close hH hQ) h
  have hreturned : ∀ i a, c.returned i = some a → Replies (g i) a := by
    intro i a ha
    obtain ⟨-, hF⟩ := hg i
    rw [Config.returned_iff.1 ha] at hF
    exact hF
  refine ⟨fun i p seq hi => ?_, fun p => ?_, fun pre i ws post hlog => ?_, fun i r hi hd => ?_⟩
  · exact hreturned i _ hi _ rfl ⟨p, seq, rfl⟩
  · have hu := (Run.orderly ho h).unique
    rw [hdb] at hu ⊢
    exact (numbered_replay hL h₀ p).seqs hu
  · obtain ⟨r, hr, h₁, h₂, h₃⟩ := (hL pre i ws post hlog).entered
    refine ⟨r, hr, Prod.ext h₁ h₂, h₃ _ (numbered_replay (hlog ▸ hL).init h₀ _)⟩
  · obtain ⟨n, hs, hr⟩ := hreturned i _ hi hd
    obtain ⟨hH, -⟩ := hg i
    rw [hs] at hH
    obtain ⟨-, pre, ws, post, hlog, hn⟩ := hH
    exact ⟨pre, ws, post, hlog, by rw [hr, ← hn]; rfl⟩

/-- Two uploads whose duplicate lookups both come before either lock. -/
def sampleUploads : Fin 2 → ChunkRoutes.UploadRequest
  | 0 => Sample.chunk 'a' [1]
  | 1 => Sample.chunk 'b' [2]

theorem upload_seqs_consecutive_sample : ∃ c : Clients (Fin 2) Row Env Io Outcome, c.shared.log.length = 2 ∧
    (∀ p, (((chunksT.rows c.shared.db).filter (Chunks.ofPair p.1 p.2)).map (·.seq)).Perm
      ((List.range (uploads (pairOf ∘ sampleUploads) p c.shared.log)).map Int.ofNat)) := by
  have hrun : ((Service.start Sample.state (fun i => .upload "bot" (sampleUploads i))
      (Sample.server [.session Sample.session])).play machine
      (Sample.moves 0 [(0, 3), (1, 3), (0, 14), (1, 14)])).map (fun c => c.shared.log.length) = some 2 := by
    decide +kernel
  obtain ⟨c, hc, hlog⟩ := Option.map_eq_some_iff.1 hrun
  refine ⟨c, hlog, ?_⟩
  exact (upload_seqs_consecutive Sample.state (fun _ => "bot") sampleUploads (Sample.server [.session Sample.session])
    ⟨by decide, rfl, rfl⟩ rfl (Run.play (Config.guarded_of_all (fun _ _ _ => trivial) _) .nil hc)).2.1

end DataApi.ChunkSeq
