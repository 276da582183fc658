/-
The size limit of a chunk. The reader's limit is one byte above the one that is
checked, so only a body one byte over gets the answer meant for all that are.
-/
import DataApi.Proofs.UploadTrace

namespace DataApi.ChunkLimit

open Relational ReadCommitted Resumption Handler ErrorsUnchanged UploadTrace ChunkRoutes

/-- The first upload of a chunk, with valid headers, to a session that exists;
nothing fails before the body is read. -/
structure FirstTime (st : AppState) (env : Nat → Env) (db : Db) (r : UploadRequest) (pid : PseudoId) (h : ChunkHeaders)
    (s : Session) : Prop where
  pseudo : PseudoId.newOrMixed r.pseudoRaw = .ok pid
  headers : parseChunkHeaders st r.headers = .ok h
  works : ∀ n ∈ [0, 1, 2, 3], (env n).fails = false
  new : (chunksT.rows db).find? (fun c => Chunks.ofPair r.sessionId pid c && c.clientChunkId = h.clientChunkId) = none
  session : (sessionsT.rows db).find? (Sessions.byId r.sessionId) = some s

/-- Nothing fails after the body is read either. -/
structure Lands (env : Nat → Env) (db : Db) (r : UploadRequest) (pid : PseudoId) (s : Session) : Prop where
  entered : (env 4).fails = false
  room : Chunks.nextSeq r.sessionId pid db < 2 ^ 31
  stored : (env 5).storeFails (chunkKey s.s3Prefix pid (Chunks.nextSeq r.sessionId pid db)) = false
  accepted : ¬Refused env db

/-- The chunk is filed, and told of, with the size of its body. -/
structure Filed (r : UploadRequest) (h : ChunkHeaders) (x : UploadResponse) (db' : Db) (bus bus' : List Event) : Prop where
  new : x.deduplicated = false
  row : ∃ c ∈ chunksT.rows db', c.sessionId = r.sessionId ∧ c.seq = x.seq ∧ c.clientChunkId = h.clientChunkId ∧
    c.sizeBytes = (r.body.length : Int)
  event : ∃ (t : Timestamp) (d : ChunkUploaded), bus' = bus ++ [.chunkUploaded t d] ∧ d.sessionId = r.sessionId ∧
    d.seq = x.seq ∧ d.sizeBytes = (r.body.length : Int)

/-- Not refused for its body: filed, or stopped by the database or the store. -/
def Accepted (r : UploadRequest) (h : ChunkHeaders) (a : Outcome) (db' : Db) (bus bus' : List Event) : Prop :=
  match a with
  | .ok (.uploaded x) => Filed r h x db' bus bus'
  | .error (.database _) | .error (.s3 _ _) => True
  | _ => False

section
variable {st : AppState} {svc : String} {env : Nat → Env} {db : Db} {w : World} {r : UploadRequest} {pid : PseudoId}
  {h : ChunkHeaders} {s : Session}

/-! ## The body -/

/-- The three ranges of its length. -/
theorem readBody_ends {β : Type} {n : Nat} {tx : Option (Tx Row Key Env)} {body : Bytes} {f : Bytes → Handler β}
    {Q : Except AppError β → Moment → Prop} (hf : (env n).fails = false) :
    Ends env n ⟨tx, db, w⟩ (readBody body >>= f) Q ↔
      if MAX_CHUNK_BYTES + 1 < body.length then Q (.error (.badRequest "read body: length limit exceeded")) ⟨tx, db, w⟩
      else if MAX_CHUNK_BYTES < body.length then
        Q (.error (.payloadTooLarge s!"chunk exceeds {MAX_CHUNK_BYTES} bytes")) ⟨tx, db, w⟩
      else Ends env (n + 1) ⟨tx, db, w⟩ (f body) Q := by
  have hread : (Io.toBytes body (MAX_CHUNK_BYTES + 1)).act (env n) w =
      (if MAX_CHUNK_BYTES + 1 < body.length then .error "length limit exceeded" else .ok body, w) := by
    simp [Io.act, hf]
  rw [readBody, toBytes]
  simp only [bind_assoc]
  rw [ends_outer, hread]
  by_cases hlong : MAX_CHUNK_BYTES + 1 < body.length
  · rw [if_pos hlong, if_pos hlong]
    exact Iff.rfl
  · rw [if_neg hlong, if_neg hlong]
    simp only [pure_bind, ends_refuseIf, decide_eq_true_eq]

/-- What follows the body. -/
def entered (svc : String) (sessionId : Uuid) (pid : PseudoId) (h : ChunkHeaders) (s : Session) (bytes : Bytes) :
    Handler UploadResponse := do
  let row ← Chunks.insert (reserve sessionId pid h (sizeBytes bytes))
  put (chunkKey s.s3Prefix pid row.seq) bytes "audio/pcm"
  finish svc sessionId pid row.seq (chunkKey s.s3Prefix pid row.seq) s.guildId (sizeBytes bytes)

theorem upload_reads (hfirst : FirstTime st env db r pid h s) {Q : Except AppError UploadResponse → Moment → Prop}
    (hread : Ends env 3 ⟨some ⟨env 0, []⟩, db, w⟩ (readBody r.body >>= entered svc r.sessionId pid h s) Q) :
    Ends env 0 ⟨none, db, w⟩ (upload st svc r) Q := by
  have hworks : ∀ n ∈ [0, 1, 2, 3], ¬(env n).fails = true := fun n hn => by rw [hfirst.works n hn]; simp
  rw [upload]
  refine Ends.ofOk (by rw [hfirst.pseudo]; rfl) (Ends.ofOk hfirst.headers (Ends.begun (hfirst.works 0 (by simp)) ?_))
  refine Ends.select_tx (fun hf => absurd hf (hworks 1 (by simp))) fun _ => ?_
  rw [applyAll_nil, hfirst.new, store, Sessions.getInTx]
  simp only [bind_assoc]
  refine Ends.lock_tx (fun hf => absurd hf (hworks 2 (by simp))) fun _ => ?_
  rw [applyAll_nil, hfirst.session]
  exact hread

/-! ## A body within the limit -/

/-- Naming the key is an UPDATE of the new row alone. -/
theorem setKey_new {b e : Env} {x : Chunks.Insert} {t : Env} {key : String} {rows : Db} {ws : List (Write Row Key)}
    (hans : answer (Chunks.setKeySql x.sessionId x.pseudoId (Chunks.nextSeq x.sessionId x.pseudoId db) key) b e
      (db ++ [chunksT.put (Chunks.insertRow x (Chunks.nextSeq x.sessionId x.pseudoId db) t)]) = .ok (rows, ws)) :
    ws = [.update (chunksT.put { Chunks.insertRow x (Chunks.nextSeq x.sessionId x.pseudoId db) t with s3Key := key })] := by
  obtain ⟨hrows, rfl, -⟩ := update_ok (answer_ok hans).2
  have hold : (db.filter (chunksT.is (Chunks.at' x.sessionId x.pseudoId (Chunks.nextSeq x.sessionId x.pseudoId db)))) = [] := by
    refine List.filter_eq_nil_iff.2 fun y hy hat => ?_
    obtain ⟨c, rfl, hc⟩ := chunksT.is_iff.1 hat
    simp only [Chunks.at', Bool.and_eq_true, decide_eq_true_eq] at hc
    have hlt := UploadRetry.nextSeq_gt (chunksT.mem_rows.2 hy) hc.1
    rw [hc.2] at hlt
    exact lt_irrefl _ hlt
  have hnew : chunksT.is (Chunks.at' x.sessionId x.pseudoId (Chunks.nextSeq x.sessionId x.pseudoId db))
      (chunksT.put (Chunks.insertRow x (Chunks.nextSeq x.sessionId x.pseudoId db) t)) = true := by
    simp [Chunks.at', Chunks.ofPair, Chunks.insertRow]
  rw [hits_self, List.filter_append, hold, List.nil_append, List.filter_cons_of_pos hnew, List.filter_nil] at hrows
  rw [hrows]
  simp [Table.rows]

/-- The row with its key, after the audit row. -/
theorem row_stays {c c' : ChunkRow} {x : Row} (hkey : key (chunksT.put c) = key (chunksT.put c')) :
    c' ∈ chunksT.rows (applyAll ([.insert (chunksT.put c)] ++ [.update (chunksT.put c')] ++ [.insert x]) db) := by
  rw [chunksT.mem_rows]
  simp only [List.cons_append, List.nil_append, applyAll_cons, applyAll_nil, Write.apply]
  refine List.mem_append_left _ (List.mem_map.2 ⟨chunksT.put c, ?_, if_pos hkey⟩)
  exact List.mem_append_right _ (List.mem_singleton.2 rfl)

theorem finish_filed {b t : Env} {guildId size : Int} {key : String} (hsize : size = (r.body.length : Int)) :
    Ends env 6 ⟨some ⟨b, [.insert (chunksT.put
        (Chunks.insertRow (reserve r.sessionId pid h size) (Chunks.nextSeq r.sessionId pid db) t))]⟩, db, w⟩
      (finish svc r.sessionId pid (Chunks.nextSeq r.sessionId pid db) key guildId size)
      fun a m => Accepted r h (a.map .uploaded) m.db w.bus m.world.bus := by
  refine ends_outer.2 ?_
  generalize hworld : ((Io.incCounter counterName 1).act (env 6) w).2 = w₁
  have hbus : w₁.bus = w.bus := by
    rw [← hworld]
    rfl
  refine Ends.execute_tx (fun _ _ => trivial) fun rows ws hset => ?_
  obtain rfl := setKey_new (x := reserve r.sessionId pid h size) hset
  rw [AuditLog.appendTx]
  simp only [bind_assoc, pure_bind]
  refine Ends.execute_tx (fun _ _ => trivial) fun rows' ws' haudit => ?_
  obtain ⟨a, -, -, -, -, -, rfl⟩ := insert_ok (answer_ok haudit).2
  refine Ends.commit (fun _ => trivial) fun _ => ?_
  exact ⟨rfl, ⟨_, row_stays rfl, rfl, rfl, rfl, hsize⟩, _, _, by rw [← hbus]; rfl, rfl, rfl, hsize⟩

theorem entered_accepted {b : Env} (hle : r.body.length ≤ MAX_CHUNK_BYTES) :
    Ends env 4 ⟨some ⟨b, []⟩, db, w⟩ (entered svc r.sessionId pid h s r.body)
      fun a m => Accepted r h (a.map .uploaded) m.db w.bus m.world.bus := by
  have hsize := sizeBytes_eq hle
  rw [entered, Chunks.insert]
  generalize sizeBytes r.body = size at hsize ⊢
  refine Ends.fetchOne_tx (fun _ _ => trivial) (fun _ _ _ _ => trivial) fun rows ws row hinsert hrow => ?_
  obtain ⟨-, rfl, rfl⟩ := insert_answer hinsert
  rw [chunksT.head_put] at hrow
  obtain rfl := Option.some.inj hrow
  refine put_ends.2 ?_
  split
  · trivial
  · exact finish_filed hsize

theorem upload_lands (hfirst : FirstTime st env db r pid h s) (hle : r.body.length ≤ MAX_CHUNK_BYTES)
    (hlands : Lands env db r pid s) : Ends env 0 ⟨none, db, w⟩ (upload st svc r) fun a _ => ∃ x, a = .ok x := by
  have hputs : Puts st env db r pid h s := by
    refine ⟨hfirst.pseudo, hfirst.headers, ?_, hfirst.new, hfirst.session, hle, hlands.room, hlands.stored⟩
    have hworks := hfirst.works
    simp only [List.mem_cons, List.not_mem_nil, or_false, forall_eq_or_imp, forall_eq] at hworks ⊢
    exact ⟨hworks.1, hworks.2.1, hworks.2.2.1, hworks.2.2.2, hlands.entered⟩
  refine upload_reaches hputs fun c w' _ => (finish_ends (newOrMixed_named hputs.pseudo)).mono fun a m hfinish => ?_
  exact hfinish.2 hlands.accepted

end

/-! ## The limit -/

/-- A body within the limit is accepted with its size; one above it is answered
as too large, and changes nothing. -/
structure Limits (st : AppState) (env : Nat → Env) (sv : Sv Unit) (svc : String) (r : UploadRequest) (pid : PseudoId)
    (h : ChunkHeaders) (s : Session) : Prop where
  accepts : r.body.length ≤ MAX_CHUNK_BYTES →
    Accepted r h (serve st ⟨.upload svc r, env⟩ sv).1 (serve st ⟨.upload svc r, env⟩ sv).2.db sv.world.bus
      (serve st ⟨.upload svc r, env⟩ sv).2.world.bus ∧
    (Lands env sv.db r pid s → (serve st ⟨.upload svc r, env⟩ sv).1.isOk = true)
  refuses : MAX_CHUNK_BYTES < r.body.length →
    (∃ msg, (serve st ⟨.upload svc r, env⟩ sv).1 = .error (.payloadTooLarge msg)) ∧
    (serve st ⟨.upload svc r, env⟩ sv).2.db = sv.db ∧ (serve st ⟨.upload svc r, env⟩ sv).2.world = sv.world

section
variable {st : AppState} {svc : String} {env : Nat → Env} {sv : Sv Unit} {r : UploadRequest} {pid : PseudoId}
  {h : ChunkHeaders} {s : Session}

theorem within_accepted (hfirst : FirstTime st env sv.db r pid h s) (hle : r.body.length ≤ MAX_CHUNK_BYTES) :
    Accepted r h (serve st ⟨.upload svc r, env⟩ sv).1 (serve st ⟨.upload svc r, env⟩ sv).2.db sv.world.bus
      (serve st ⟨.upload svc r, env⟩ sv).2.world.bus := by
  refine (serve_ends (Q := fun a db w => Accepted r h a db sv.world.bus w.bus)).2 (ends_map.2 (upload_reads hfirst ?_))
  refine (readBody_ends (hfirst.works 3 (by simp))).2 ?_
  rw [if_neg (by omega), if_neg (by omega)]
  exact entered_accepted hle

theorem within_lands (hfirst : FirstTime st env sv.db r pid h s) (hle : r.body.length ≤ MAX_CHUNK_BYTES)
    (hlands : Lands env sv.db r pid s) : (serve st ⟨.upload svc r, env⟩ sv).1.isOk = true := by
  refine (serve_ends (Q := fun a _ _ => a.isOk = true)).2 (ends_map.2 ((upload_lands hfirst hle hlands).mono ?_))
  rintro a m ⟨x, rfl⟩
  rfl

/-- One byte over the limit. -/
theorem over_refused (hfirst : FirstTime st env sv.db r pid h s) (hover : MAX_CHUNK_BYTES < r.body.length)
    (hle : r.body.length ≤ MAX_CHUNK_BYTES + 1) :
    (∃ msg, (serve st ⟨.upload svc r, env⟩ sv).1 = .error (.payloadTooLarge msg)) ∧
      (serve st ⟨.upload svc r, env⟩ sv).2.db = sv.db ∧ (serve st ⟨.upload svc r, env⟩ sv).2.world = sv.world := by
  refine (serve_ends (Q := fun a db w => (∃ msg, a = .error (.payloadTooLarge msg)) ∧ db = sv.db ∧ w = sv.world)).2
    (ends_map.2 (upload_reads hfirst ?_))
  refine (readBody_ends (hfirst.works 3 (by simp))).2 ?_
  rw [if_neg (by omega), if_pos hover]
  exact ⟨⟨_, rfl⟩, rfl, rfl⟩

/-- More than one byte over it: another answer. -/
theorem far_over (hfirst : FirstTime st env sv.db r pid h s) (hover : MAX_CHUNK_BYTES + 1 < r.body.length) :
    (serve st ⟨.upload svc r, env⟩ sv).1 = .error (.badRequest "read body: length limit exceeded") := by
  refine (serve_ends (Q := fun a _ _ => a = .error (.badRequest "read body: length limit exceeded"))).2
    (ends_map.2 (upload_reads hfirst ?_))
  refine (readBody_ends (hfirst.works 3 (by simp))).2 ?_
  rw [if_pos hover]
  rfl

/-- The first upload of a chunk to a session that exists: the limit is kept
exactly up to one byte above it. -/
theorem limit_kept_iff (hfirst : FirstTime st env sv.db r pid h s) :
    Limits st env sv svc r pid h s ↔ r.body.length ≤ MAX_CHUNK_BYTES + 1 := by
  constructor
  · intro hlimits
    by_contra hfar
    obtain ⟨⟨msg, hmsg⟩, -⟩ := hlimits.refuses (by omega)
    rw [far_over hfirst (by omega)] at hmsg
    cases hmsg
  · intro hle
    exact ⟨fun hin => ⟨within_accepted hfirst hin, within_lands hfirst hin⟩, fun hover => over_refused hfirst hover hle⟩

end

/-- A session, and an upload of `n` bytes to it. -/
def sampleUpload (n : Nat) : UploadRequest := Sample.chunk 'a' (List.replicate n 0)

def sampleServer : Sv Unit := Sample.server [.session Sample.session]

def sampleHeaders : ChunkHeaders := { captureStartedAt := 0, durationMs := 0, clientChunkId := "a" }

theorem sample_first (n : Nat) :
    FirstTime Sample.state Sample.env sampleServer.db (sampleUpload n) ⟨"mixed"⟩ sampleHeaders Sample.session where
  pseudo := rfl
  headers := rfl
  works := fun _ _ => rfl
  new := rfl
  session := rfl

theorem limit_kept_sample :
    Limits Sample.state Sample.env sampleServer "bot" (sampleUpload 3) ⟨"mixed"⟩ sampleHeaders Sample.session :=
  (limit_kept_iff (sample_first 3)).2 (by decide)

/-- Two bytes over the limit: a bad request. -/
theorem two_over_refused_otherwise : ¬Limits Sample.state Sample.env sampleServer "bot"
    (sampleUpload (MAX_CHUNK_BYTES + 2)) ⟨"mixed"⟩ sampleHeaders Sample.session := by
  have hlen : (sampleUpload (MAX_CHUNK_BYTES + 2)).body.length = MAX_CHUNK_BYTES + 2 := List.length_replicate
  intro hlimits
  obtain ⟨⟨msg, hmsg⟩, -⟩ := hlimits.refuses (by omega)
  rw [far_over (sample_first _) (by omega)] at hmsg
  cases hmsg

end DataApi.ChunkLimit
