/-
What a failed upload leaves behind. The transaction rolls back; the object
that was put and the count of it do not. So a failure leaves no trace exactly
when it comes before the put has succeeded.
-/
import DataApi.Proofs.ChunkKeys
import DataApi.Proofs.ErrorsUnchanged
import DataApi.Proofs.UploadRetry

namespace DataApi.UploadTrace

open Relational ReadCommitted Resumption Handler ErrorsUnchanged ChunkRoutes

def counterName : String := "chronicle_chunks_uploaded_total"

/-- The tables, the stored objects, the bus and the counter are as before. -/
structure Same (db : Db) (w : World) (db' : Db) (w' : World) : Prop where
  tables : db' = db
  objects : ∀ key, w'.store.lookup key = w.store.lookup key
  bus : w'.bus = w.bus
  counter : w'.counters counterName = w.counters counterName

theorem Same.refl (db : Db) (w : World) : Same db w db w := ⟨rfl, fun _ => rfl, rfl, rfl⟩

/-- The upload gets as far as putting its object. -/
structure Puts (st : AppState) (env : Nat → Env) (db : Db) (r : UploadRequest) (pid : PseudoId) (h : ChunkHeaders)
    (s : Session) : Prop where
  pseudo : PseudoId.newOrMixed r.pseudoRaw = .ok pid
  headers : parseChunkHeaders st r.headers = .ok h
  works : ∀ n ∈ [0, 1, 2, 3, 4], (env n).fails = false
  new : (chunksT.rows db).find? (fun c => Chunks.ofPair r.sessionId pid c && c.clientChunkId = h.clientChunkId) = none
  session : (sessionsT.rows db).find? (Sessions.byId r.sessionId) = some s
  body : r.body.length ≤ MAX_CHUNK_BYTES
  room : Chunks.nextSeq r.sessionId pid db < 2 ^ 31
  stored : (env 5).storeFails (chunkKey s.s3Prefix pid (Chunks.nextSeq r.sessionId pid db)) = false

/-- A step after the put is refused: the UPDATE of the key, the audit row or
the commit. -/
def Refused (env : Nat → Env) (db : Db) : Prop := (env 7).fails = true ∨ Unaudited (env 8) db ∨ (env 9).fails = true

def Late (st : AppState) (env : Nat → Env) (db : Db) (r : UploadRequest) : Prop :=
  (∃ pid h s, Puts st env db r pid h s) ∧ Refused env db

section
variable {st : AppState} {svc : String} {env : Nat → Env} {db : Db} {w : World} {r : UploadRequest}

theorem read_body {β : Type} {n : Nat} {tx : Option (Tx Row Key Env)} {body : Bytes} {f : Bytes → Handler β}
    {Q : Except AppError β → Moment → Prop} (herr : ∀ err, Q (.error err) ⟨tx, db, w⟩)
    (hok : (env n).fails = false → body.length ≤ MAX_CHUNK_BYTES → Ends env (n + 1) ⟨tx, db, w⟩ (f body) Q) :
    Ends env n ⟨tx, db, w⟩ (readBody body >>= f) Q := by
  rw [readBody, toBytes]
  simp only [bind_assoc]
  refine ends_outer.2 ?_
  have hread : (Io.toBytes body (MAX_CHUNK_BYTES + 1)).act (env n) w =
      (if (env n).fails then .error "connection error" else if MAX_CHUNK_BYTES + 1 < body.length then
        .error "length limit exceeded" else .ok body, w) := rfl
  rw [hread]
  cases h : (env n).fails with
  | true => exact herr _
  | false =>
    by_cases hlong : MAX_CHUNK_BYTES + 1 < body.length
    · rw [if_neg (by simp), if_pos hlong]
      exact herr _
    · rw [if_neg (by simp), if_neg hlong]
      refine Ends.refuseIf (fun _ => herr _) fun hle => hok h ?_
      simpa using hle

theorem body_read {β : Type} {n : Nat} {tx : Option (Tx Row Key Env)} {body : Bytes} {f : Bytes → Handler β}
    {Q : Except AppError β → Moment → Prop} (hf : (env n).fails = false) (hle : body.length ≤ MAX_CHUNK_BYTES)
    (hok : Ends env (n + 1) ⟨tx, db, w⟩ (f body) Q) : Ends env n ⟨tx, db, w⟩ (readBody body >>= f) Q := by
  have hread : (Io.toBytes body (MAX_CHUNK_BYTES + 1)).act (env n) w = (.ok body, w) := by
    simp only [Io.act, hf, Bool.false_eq_true, if_false, Prod.mk.injEq, and_true]
    exact if_neg (by omega)
  rw [readBody, toBytes]
  simp only [bind_assoc]
  refine ends_outer.2 ?_
  rw [hread]
  exact Ends.passed (by simpa using hle) hok

/-- Where a chunk of the body is entered, it gets the next number. -/
theorem insert_answer {b e : Env} {x : Chunks.Insert} {rows : Db} {ws : List (Write Row Key)}
    (h : answer (Chunks.insertSql x) b e db = .ok (rows, ws)) :
    Chunks.nextSeq x.sessionId x.pseudoId db < 2 ^ 31 ∧
      rows = [chunksT.put (Chunks.insertRow x (Chunks.nextSeq x.sessionId x.pseudoId db) { e with now := b.now })] ∧
      ws = [.insert (chunksT.put (Chunks.insertRow x (Chunks.nextSeq x.sessionId x.pseudoId db) { e with now := b.now }))] := by
  obtain ⟨c, hc, -, -, -, rfl, rfl⟩ := insert_ok (answer_ok h).2
  rw [Chunks.nextRow] at hc
  split at hc
  · next hroom =>
    obtain rfl := Except.ok.inj hc
    exact ⟨hroom, rfl, rfl⟩
  · cases hc

theorem check_chunk {c : ChunkRow} (h : Named c.pseudoId) : check (chunksT.put c) = true := by
  show (decide (c.pseudoId.raw = "mixed") || isValidPseudoId c.pseudoId.raw) = true
  rcases h with h | h
  · rw [h]; rfl
  · rw [h, Bool.or_true]

/-- Naming the key never fails by itself. -/
theorem setKey_answer {b e : Env} {sid : Uuid} {pid : PseudoId} {seq : Int} {key : String} (hf : e.fails = false)
    (hpid : Named pid) : ∃ rows ws, answer (Chunks.setKeySql sid pid seq key) b e db = .ok (rows, ws) := by
  refine answer_update_ok hf fun c _ hc => check_chunk ?_
  simp only [Chunks.at', Chunks.ofPair, Bool.and_eq_true, decide_eq_true_eq] at hc
  rw [show ({ c with s3Key := key } : ChunkRow).pseudoId = pid from hc.1.2]
  exact hpid

theorem pseudo_ok {raw : String} {pid : PseudoId}
    (h : (PseudoId.newOrMixed raw).mapError PseudoIdError.toAppError = .ok pid) : PseudoId.newOrMixed raw = .ok pid := by
  cases hp : PseudoId.newOrMixed raw with
  | error e => rw [hp] at h; cases h
  | ok p => rw [hp] at h; rw [Except.ok.inj h]

/-- The put of an object, or its error. -/
theorem put_ends {β : Type} {n : Nat} {tx : Option (Tx Row Key Env)} {key ct : String} {body : Bytes}
    {f : Unit → Handler β} {Q : Except AppError β → Moment → Prop} : Ends env n ⟨tx, db, w⟩ (Handler.put key body ct >>= f) Q ↔
      if (env n).storeFails key then Q (.error (.s3 s!"put {key}" true)) ⟨tx, db, w⟩
      else Ends env (n + 1) ⟨tx, db, { w with store := w.store.insert key body }⟩ (f ()) Q := by
  have hact : (Io.put key body ct).act (env n) w = if (env n).storeFails key then (.error (.s3 s!"put {key}" true), w)
      else (.ok (), { w with store := w.store.insert key body }) := by
    simp only [Io.act, ObjectStore.put]
    split <;> rfl
  rw [Handler.put, bind_assoc, ends_outer, hact]
  cases (env n).storeFails key <;> exact Iff.rfl

/-- The steps after the put. -/
def finish (svc : String) (sid : Uuid) (pid : PseudoId) (seq : Int) (key : String) (guildId size : Int) :
    Handler UploadResponse := do
  incCounter counterName 1
  let _ ← execute .tx (Chunks.setKeySql sid pid seq key)
  AuditLog.appendTx (entry svc sid pid seq size)
  commit
  let atTs ← utcNow
  send (.chunkUploaded atTs { sessionId := sid, guildId := guildId, pseudoId := pid, seq := seq, sizeBytes := size })
  return { seq := seq, s3Key := key, deduplicated := false }

/-- They fail when one is refused, and the upload has been counted by then. -/
theorem finish_ends {b : Env} {c : ChunkRow} {sid : Uuid} {pid : PseudoId} {seq guildId size : Int} {key : String}
    (hpid : Named pid) : Ends env 6 ⟨some ⟨b, [.insert (chunksT.put c)]⟩, db, w⟩ (finish svc sid pid seq key guildId size)
      fun a s => (Refused env db → (∃ e, a = .error e) ∧
        s.world.counters counterName = (w.counters counterName + 1) % 2 ^ 64) ∧ (¬Refused env db → ∃ x, a = .ok x) := by
  refine ends_outer.2 ?_
  have hworld : ((Io.incCounter counterName 1).act (env 6) w).2.counters counterName =
      (w.counters counterName + 1) % 2 ^ 64 := by
    show (if counterName = counterName then (w.counters counterName + 1) % 2 ^ 64 else w.counters counterName) = _
    exact if_pos rfl
  generalize ((Io.incCounter counterName 1).act (env 6) w).2 = w₁ at hworld ⊢
  have hlate : ∀ {tx : Option (Tx Row Key Env)} {err : AppError}, Refused env db →
      (Refused env db → (∃ e, (.error err : Except AppError UploadResponse) = .error e) ∧
        (⟨tx, db, w₁⟩ : Moment).world.counters counterName = (w.counters counterName + 1) % 2 ^ 64) ∧
      (¬Refused env db → ∃ x, (.error err : Except AppError UploadResponse) = .ok x) :=
    fun h => ⟨fun _ => ⟨⟨_, rfl⟩, hworld⟩, fun hno => absurd h hno⟩
  rw [execute, bind_assoc]
  cases h7 : (env 7).fails with
  | true =>
    refine ends_tx.2 ?_
    rw [answer_fails h7]
    exact hlate (.inl h7)
  | false =>
    have hkey : ∃ rows ws, answer (Chunks.setKeySql sid pid seq key) b (env 7) (applyAll [.insert (chunksT.put c)] db) =
        .ok (rows, ws) := setKey_answer h7 hpid
    obtain ⟨rows, ws, hset⟩ := hkey
    refine Ends.answered_tx hset ?_
    rw [AuditLog.appendTx, execute]
    simp only [pure_bind, bind_assoc]
    have hchunks : ∀ v ∈ ([.insert (chunksT.put c)] ++ ws : List (Write Row Key)), v.key.table = .chunks := by
      intro v hv
      rcases List.mem_append.1 hv with hv | hv
      · rw [List.mem_singleton.1 hv]; rfl
      · exact Chunks.setKeySql_writes _ _ _ _ _ _ _ _ _ _ (answer_ok hset).2 v hv
    have haudit : Unaudited (env 8) (applyAll ([.insert (chunksT.put c)] ++ ws) db) ↔ Unaudited (env 8) db := by
      refine unaudited_spared fun v hv => ?_
      rw [hchunks v hv]
      decide
    have hentry := decided_append (entry svc sid pid seq size) b (env 8) (applyAll ([.insert (chunksT.put c)] ++ ws) db)
    by_cases hno : Unaudited (env 8) (applyAll ([.insert (chunksT.put c)] ++ ws) db)
    · obtain ⟨err, hans⟩ := hentry.error (not_not.2 hno)
      refine ends_tx.2 ?_
      rw [hans]
      exact hlate (.inr (.inl (haudit.1 hno)))
    · refine Ends.answered_tx (hentry.ok hno) (ends_commit.2 ?_)
      cases h9 : (env 9).fails with
      | true => exact hlate (.inr (.inr h9))
      | false =>
        have hnot : ¬Refused env db := by
          rintro (h | h | h)
          · rw [h7] at h; cases h
          · exact hno (haudit.2 h)
          · rw [h9] at h; cases h
        exact ⟨fun h => absurd h hnot, fun _ => ⟨_, rfl⟩⟩

/-- An error that is not late leaves everything as it was. -/
theorem upload_clean (hlate : ¬Late st env db r) : Ends env 0 ⟨none, db, w⟩ (upload st svc r)
    fun a s => ∀ e, a = .error e → Same db w s.db s.world := by
  have herr : ∀ {tx : Option (Tx Row Key Env)} {err : AppError}, ∀ e,
      (.error err : Except AppError UploadResponse) = .error e → Same db w (⟨tx, db, w⟩ : Moment).db (⟨tx, db, w⟩ : Moment).world :=
    fun _ _ => .refl db w
  rw [upload]
  refine Ends.ofResult (fun _ _ => herr) fun pid hpid => ?_
  refine Ends.ofResult (fun _ _ => herr) fun h hh => ?_
  refine Ends.begin (fun _ => herr) fun h0 => ?_
  refine Ends.select_tx (fun _ => herr) fun h1 => ?_
  rw [applyAll_nil]
  cases hnew : (chunksT.rows db).find? (fun c => Chunks.ofPair r.sessionId pid c && c.clientChunkId = h.clientChunkId) with
  | some c =>
    refine ends_rollback.2 ?_
    split
    · exact herr
    · exact fun e h => by cases h
  | none =>
    rw [store, Sessions.getInTx]
    simp only [bind_assoc]
    refine Ends.lock_tx (fun _ => herr) fun h2 => ?_
    rw [applyAll_nil]
    cases hsession : (sessionsT.rows db).find? (Sessions.byId r.sessionId) with
    | none => exact herr
    | some s =>
      refine read_body (fun _ => herr) fun h3 hbody => ?_
      refine Ends.fetchOne_tx (fun _ _ => herr) (fun _ _ _ _ => herr) fun rows ws row hinsert hrow => ?_
      obtain ⟨hroom, rfl, rfl⟩ := insert_answer hinsert
      rw [chunksT.head_put] at hrow
      obtain rfl := Option.some.inj hrow
      refine put_ends.2 ?_
      split
      · exact herr
      · next hput =>
        have hputs : Puts st env db r pid h s := by
          refine ⟨pseudo_ok hpid, hh, ?_, hnew, hsession, hbody, hroom, Bool.eq_false_iff.2 hput⟩
          simp only [List.mem_cons, List.not_mem_nil, or_false, forall_eq_or_imp, forall_eq]
          exact ⟨h0, h1, h2, h3, (answer_ok hinsert).1⟩
        have hok : ¬Refused env db := fun hrefused => hlate ⟨⟨pid, h, s, hputs⟩, hrefused⟩
        refine (finish_ends (newOrMixed_named (pseudo_ok hpid))).mono fun a s hfinish e he => ?_
        obtain ⟨x, hx⟩ := hfinish.2 hok
        rw [hx] at he
        cases he

/-- A chunk that `upload` reserves enters: its number and its client id are
free. -/
theorem insert_enters {pid : PseudoId} {h : ChunkHeaders} {s : Session} (hputs : Puts st env db r pid h s) (b : Env)
    (size : Int) : ∃ c, answer (Chunks.insertSql (reserve r.sessionId pid h size)) b (env 4) db =
        .ok ([chunksT.put c], [.insert (chunksT.put c)]) ∧ c.seq = Chunks.nextSeq r.sessionId pid db := by
  refine ⟨Chunks.insertRow (reserve r.sessionId pid h size) (Chunks.nextSeq r.sessionId pid db)
    { env 4 with now := b.now }, ?_, rfl⟩
  have h4 : (env 4).fails = false := hputs.works 4 (by simp)
  rw [answer, if_neg (by simp [h4])]
  refine insert_run (by rw [Chunks.nextRow]; exact if_pos hputs.room) (check_chunk (newOrMixed_named hputs.pseudo)) ?_ ?_
  · intro l hl e he hle
    rcases List.mem_cons.1 hl with rfl | hl
    · have hk := slots_key hle
      cases e with
      | chunk c =>
        obtain ⟨hsid, hpid, hseq⟩ := Key.chunk.inj hk
        have hpair : Chunks.ofPair r.sessionId pid c = true := by
          simp only [Chunks.ofPair, Bool.and_eq_true, decide_eq_true_eq]
          exact ⟨hsid, hpid⟩
        have hlt := UploadRetry.nextSeq_gt (chunksT.mem_rows.2 he) hpair
        rw [hseq] at hlt
        exact lt_irrefl _ hlt
      | _ => cases hk
    · obtain rfl : l = .uniq (.chunkClient r.sessionId pid h.clientChunkId) := List.mem_singleton.1 hl
      have hu : Uniq.chunkClient r.sessionId pid h.clientChunkId ∈ uniques e := by simpa [slots] using hle
      cases e with
      | chunk c =>
        obtain ⟨hsid, hpid, hcid⟩ := Uniq.chunkClient.inj (List.mem_singleton.1 hu)
        have hno := List.find?_eq_none.1 hputs.new c (chunksT.mem_rows.2 he)
        simp only [Chunks.ofPair, Bool.and_eq_true, decide_eq_true_eq] at hno
        exact hno ⟨⟨hsid.symm, hpid.symm⟩, hcid.symm⟩
      | participant p => cases List.mem_singleton.1 hu
      | uniform rt x => cases List.mem_singleton.1 hu
      | _ => cases hu
  · intro k hk
    obtain rfl : k = .session r.sessionId := List.mem_singleton.1 hk
    refine ⟨_, sessionsT.mem_rows.1 (List.mem_of_find?_eq_some hputs.session), congrArg Key.session ?_⟩
    simpa [Sessions.byId] using List.find?_some hputs.session

/-- An upload that puts its object comes to the steps after the put. -/
theorem upload_reaches {pid : PseudoId} {h : ChunkHeaders} {s : Session} (hputs : Puts st env db r pid h s)
    {Q : Except AppError UploadResponse → Moment → Prop}
    (hfin : ∀ c w', w'.counters = w.counters → Ends env 6 ⟨some ⟨env 0, [.insert (chunksT.put c)]⟩, db, w'⟩
      (finish svc r.sessionId pid (Chunks.nextSeq r.sessionId pid db)
        (chunkKey s.s3Prefix pid (Chunks.nextSeq r.sessionId pid db)) s.guildId (sizeBytes r.body)) Q) :
    Ends env 0 ⟨none, db, w⟩ (upload st svc r) Q := by
  have hworks : ∀ n ∈ [0, 1, 2, 3, 4], ¬(env n).fails = true := fun n hn => by rw [hputs.works n hn]; simp
  rw [upload]
  refine Ends.ofOk (by rw [hputs.pseudo]; rfl) (Ends.ofOk hputs.headers (Ends.begun (hputs.works 0 (by simp)) ?_))
  refine Ends.select_tx (fun hf => absurd hf (hworks 1 (by simp))) fun _ => ?_
  rw [applyAll_nil, hputs.new, store, Sessions.getInTx]
  simp only [bind_assoc]
  refine Ends.lock_tx (fun hf => absurd hf (hworks 2 (by simp))) fun _ => ?_
  rw [applyAll_nil, hputs.session]
  refine body_read (hputs.works 3 (by simp)) hputs.body ?_
  obtain ⟨c, hinsert, hseq⟩ := insert_enters hputs (env 0) (sizeBytes r.body)
  refine Ends.fetchedOne_tx hinsert (chunksT.head_put c) (put_ends.2 ?_)
  rw [hseq, if_neg (by rw [hputs.stored]; simp)]
  exact hfin c { w with store := w.store.insert (chunkKey s.s3Prefix pid (Chunks.nextSeq r.sessionId pid db)) r.body } rfl

/-- An error after the put has been counted. -/
theorem upload_counted (hlate : Late st env db r) : Ends env 0 ⟨none, db, w⟩ (upload st svc r)
    fun a s => (∃ e, a = .error e) ∧ s.world.counters counterName = (w.counters counterName + 1) % 2 ^ 64 := by
  obtain ⟨⟨pid, h, s, hputs⟩, hrefused⟩ := hlate
  refine upload_reaches hputs fun c w' hw => (finish_ends (newOrMixed_named hputs.pseudo)).mono fun a s hfinish => ?_
  obtain ⟨herr, hcount⟩ := hfinish.1 hrefused
  exact ⟨herr, by rw [hcount, hw]⟩

end

/-- If the upload fails, everything is as before it. -/
def NoTrace (st : AppState) (x : Call) (sv : Sv Unit) : Prop :=
  ∀ e, (serve st x sv).1 = .error e → Same sv.db sv.world (serve st x sv).2.db (serve st x sv).2.world

/-- A failed upload leaves no trace exactly when it does not fail after its
object was put. -/
theorem no_trace_iff (st : AppState) (x : Call) (sv : Sv Unit) (svc : String) (r : UploadRequest)
    (hx : x.request = .upload svc r) : NoTrace st x sv ↔ ¬Late st x.env sv.db r := by
  constructor
  · intro htrace hlate
    obtain ⟨⟨e, he⟩, hcount⟩ : (∃ e, (serve st x sv).1 = .error e) ∧ (serve st x sv).2.world.counters counterName =
        (sv.world.counters counterName + 1) % 2 ^ 64 := by
      refine (serve_ends (Q := fun a _ w => (∃ e, a = .error e) ∧ w.counters counterName =
        (sv.world.counters counterName + 1) % 2 ^ 64)).2 ?_
      rw [hx]
      refine ends_map.2 ((upload_counted hlate).mono ?_)
      rintro a s ⟨⟨e, rfl⟩, hcount⟩
      exact ⟨⟨e, rfl⟩, hcount⟩
    have hsame := (htrace e he).counter
    rw [hcount] at hsame
    omega
  · intro hlate
    refine (serve_ends (Q := fun a db w => ∀ e, a = .error e → Same sv.db sv.world db w)).2 ?_
    rw [hx]
    refine ends_map.2 ((upload_clean hlate).mono ?_)
    rintro a s hclean e he
    cases a with
    | error e' => exact hclean e' rfl
    | ok y => cases he

def sampleServer : Sv Unit := Sample.server [.session Sample.session]

/-- An upload whose operations from number `n` on are failed. -/
def sampleCall (n : Nat) : Call :=
  { request := .upload "bot" (Sample.chunk 'a' [1, 2, 3])
    env := fun k => { Sample.env k with fails := decide (n ≤ k) } }

/-- The session lookup fails: nothing was put yet. -/
theorem no_trace_sample : NoTrace Sample.state (sampleCall 2) sampleServer := by
  refine (no_trace_iff Sample.state (sampleCall 2) sampleServer "bot" _ rfl).2 ?_
  rintro ⟨⟨pid, h, s, hputs⟩, -⟩
  have h2 : ((sampleCall 2).env 2).fails = false := hputs.works 2 (by simp)
  revert h2
  decide

/-- The commit fails: the object is in the store, no chunk row names it, and
it has been counted. -/
theorem orphaned_object : (serve Sample.state (sampleCall 9) sampleServer).1.isOk = false ∧
    (serve Sample.state (sampleCall 9) sampleServer).2.world.store.lookup "s1/audio/mixed/chunk_000000.pcm" = some [1, 2, 3] ∧
    (chunksT.rows (serve Sample.state (sampleCall 9) sampleServer).2.db).length = 0 ∧
    ¬NoTrace Sample.state (sampleCall 9) sampleServer := by
  have herr : (serve Sample.state (sampleCall 9) sampleServer).1.isOk = false := by decide +kernel
  have hobject : (serve Sample.state (sampleCall 9) sampleServer).2.world.store.lookup "s1/audio/mixed/chunk_000000.pcm" =
      some [1, 2, 3] := by decide +kernel
  refine ⟨herr, hobject, by decide +kernel, fun htrace => ?_⟩
  cases ha : (serve Sample.state (sampleCall 9) sampleServer).1 with
  | ok y => rw [ha] at herr; cases herr
  | error e =>
    have hsame := (htrace e ha).objects "s1/audio/mixed/chunk_000000.pcm"
    rw [hobject] at hsame
    cases hsame

end DataApi.UploadTrace
