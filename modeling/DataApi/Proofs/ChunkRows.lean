/-
What every run of the handlers that touch sessions and chunks keeps. Each
stage of a client says what its transaction has written and which rows and
index entries it has locked (`Core`); the locks carry that over the moves of
the others, and so every commit is as `Commits` says.
-/
import DataApi.Proofs.ChunkLife

namespace DataApi.ChunkLife

open Relational ReadCommitted Resumption Handler
open ChunkRoutes (Named)

/-! ## Chunk rows under writes -/

/-- Where no chunk is entered or changed, no chunk row is new. -/
theorem mem_chunks_back {ws : List (Write Row Key)} {db : Db} {r : ChunkRow}
    (h : ∀ w ∈ ws, (Key.table w.key) ≠ .chunks ∨ ∃ k, w = .delete k) (hr : r ∈ chunksT.rows (applyAll ws db)) :
    r ∈ chunksT.rows db := by
  induction ws generalizing db with
  | nil => exact hr
  | cons w ws ih =>
    have hr := chunksT.mem_rows.1 (ih (fun v hv => h v (by simp [hv])) hr)
    rw [chunksT.mem_rows]
    rcases h w (by simp) with hw | ⟨k, rfl⟩
    · have hmem : Row.chunk r ∈ versions (chunkKeyOf r) (w.apply db) := mem_versions.2 ⟨hr, rfl⟩
      rw [versions_apply_other (fun hk => hw (by rw [hk]; rfl))] at hmem
      exact (mem_versions.1 hmem).1
    · exact (List.mem_filter.1 hr).1

/-- A key that is deleted, and never entered, is gone. -/
theorem versions_deleted {ws : List (Write Row Key)} {db : Db} {k : Key} (hdel : .delete k ∈ ws)
    (h : ∀ w ∈ ws, w.key = k → w = .delete k) : versions k (applyAll ws db) = [] := by
  rw [versions_applyAll]
  have hall : ∀ w ∈ ws.filter fun w => w.key = k, w = .delete k := by
    intro w hw
    obtain ⟨hw, hk⟩ := List.mem_filter.1 hw
    exact h w hw (by simpa using hk)
  have hne : Write.delete k ∈ ws.filter fun w => w.key = k := List.mem_filter.2 ⟨hdel, by simp [Write.key]⟩
  generalize ws.filter (fun w => w.key = k) = vs at hall hne
  have hkeys : ∀ x ∈ versions k db, key x = k := fun x hx => (mem_versions.1 hx).2
  generalize versions k db = rows at hkeys
  induction vs generalizing rows with
  | nil => cases hne
  | cons v vs ih =>
    obtain rfl := hall v (by simp)
    have hnil : Write.apply rows (.delete k) = [] := by
      refine List.filter_eq_nil_iff.2 fun x hx => ?_
      simpa using hkeys x hx
    rw [applyAll_cons, hnil]
    cases vs with
    | nil => rfl
    | cons v' vs' => exact ih (fun w hw => hall w (by simp [hw])) (by rw [hall v' (by simp)]; simp) [] (by simp)

/-- A DELETE on chunks takes the rows it answers with, and no others. -/
theorem deleteChunks_ok {p : ChunkRow → Bool} {env : Env} {snap alive cur rows : Db} {ws : List (Write Row Key)}
    (h : ((chunksT.delete p : Sql).run env snap alive cur).result = .ok (rows, ws)) :
    (∀ d ∈ chunksT.rows rows, d ∈ chunksT.rows cur ∧ .delete (chunkKeyOf d) ∈ ws) ∧
      ∀ w ∈ ws, ∃ d ∈ chunksT.rows rows, w = .delete (chunkKeyOf d) := by
  have htable := deleteLeaf_writes (T := chunksT) (n := .chunks) rfl (fun _ => rfl) p _ _ _ _ _ _ h
  obtain ⟨rfl, hws⟩ := delete_ok h
  refine ⟨fun d hd => ?_, fun w hw => ?_⟩
  · have hmem := chunksT.mem_rows.1 hd
    obtain ⟨t, ht, hcur, -⟩ := (mem_hits chunksT).1 hmem
    refine ⟨chunksT.mem_rows.2 (ht ▸ hcur), ?_⟩
    rw [hws]
    exact List.mem_map.2 ⟨_, dead_subset_cascade hmem, rfl⟩
  · rw [hws] at hw htable
    obtain ⟨r, hr, rfl⟩ := List.mem_map.1 hw
    rcases mem_cascade hr with hhit | ⟨-, k, hk, d, hd, hdk⟩
    · obtain ⟨t, rfl, -⟩ := (mem_hits chunksT).1 hhit
      exact ⟨t, chunksT.mem_rows.2 hhit, rfl⟩
    · -- A chunk is no parent.
      have hchunk := htable _ (List.mem_map.2 ⟨d, hd, rfl⟩)
      have hparent := ref_isParent hk
      rw [← hdk] at hparent
      have hchunk' : Key.table (key d) = .chunks := hchunk
      rw [hchunk'] at hparent
      cases hparent

/-! ## What a stage means -/

section
variable {ι : Type}

/-- The open transaction wrote no chunk and no prefix. -/
def Quiet (c : Conn) (sv : Sv ι) : Prop := ∀ t, c.tx = some t → ∀ w ∈ t.writes, Keeps sv.db w

/-- An upload entered `r`, with its key and its triple free among what is
committed; its transaction sees the row as `now`. -/
structure Entered (st : AppState) (req : Request) (i : ι) (c : Conn) (sv : Sv ι) (r : ChunkRow) (k : String)
    (now : ChunkRow) : Prop where
  triple : tripleOfRequest st req = some (tripleOf r)
  seq : 0 ≤ r.seq
  named : Named r.pseudoId
  addressed : ∃ pre, prefixOf r.sessionId sv.db = some pre ∧ k = ChunkRoutes.chunkKey pre r.pseudoId r.seq
  lock : (i, (.row (chunkKeyOf r), .update)) ∈ sv.locks
  slot : (i, ((tripleOf r).slot, .update)) ∈ sv.locks
  fresh : versions (chunkKeyOf r) sv.db = []
  absent : Absent (tripleOf r) sv.db
  tx : ∃ t, c.tx = some t ∧ .insert (.chunk r) ∈ t.writes ∧
    lookup (chunkKeyOf r) (applyAll t.writes sv.db) = some (.chunk now) ∧
    ∀ w ∈ t.writes, Keeps sv.db w ∨ (w.key = chunkKeyOf r ∧ w.deletes = none)

/-- A transaction deleted the rows `dead`, and no other chunk. -/
structure Dropping (i : ι) (c : Conn) (sv : Sv ι) (dead : List ChunkRow) : Prop where
  rows : ∀ d ∈ dead, (i, (.row (chunkKeyOf d), .update)) ∈ sv.locks ∧ versions (chunkKeyOf d) sv.db = [.chunk d]
  told : ∀ d ∈ dead, d ∈ dropped c
  tx : ∃ t, c.tx = some t ∧ (∀ d ∈ dead, .delete (chunkKeyOf d) ∈ t.writes) ∧
    ∀ w ∈ t.writes, Keeps sv.db w ∨ ∃ d ∈ dead, w = .delete (chunkKeyOf d)

def Core (st : AppState) (req : Request) (i : ι) (c : Conn) (sv : Sv ι) : Stage → Prop
  | .idle => Quiet c sv
  | .locked x => Quiet c sv ∧ prefixOf x.id sv.db = some x.s3Prefix ∧
      ∀ s, c.snap = some s → ∀ r ∈ chunksT.rows s.rows, 0 ≤ r.seq
  | .reserved r k | .stored r k => Entered st req i c sv r k r
  | .keyed r k => Entered st req i c sv r k { r with s3Key := k }
  | .filed r _ => c.tx = none ∧ tripleOfRequest st req = some (tripleOf r)
  | .dropped dead => Dropping i c sv dead
  | .owing dead => c.tx = none ∧ committed c = true ∧ ∀ d ∈ dead, d ∈ dropped c
  | .ended => c.tx = none

structure Holds (st : AppState) (req : Request) (i : ι) (c : Conn) (sv : Sv ι) (s : Stage) : Prop where
  core : Core st req i c sv s
  announced : announced c = true → ∃ r k, s = .filed r k
  swept : swept c = true → s = .ended
  committed : committed c = true → s.after

variable {st : AppState} {req : Request} {i j : ι} {conn c' : Conn} {sv sv' : Sv ι} {s : Stage}

theorem Quiet.congr (h : Quiet conn sv) (htx : c'.tx = conn.tx)
    (hp : ∀ id pre, prefixOf id sv.db = some pre → prefixOf id sv'.db = some pre) : Quiet c' sv' := by
  intro t ht w hw
  rw [htx] at ht
  exact (h t ht w hw).congr hp

/-- The store changed, but not under the client's locks. -/
theorem Core.congr (h : Core st req i conn sv s)
    (hp : ∀ id pre, prefixOf id sv.db = some pre → prefixOf id sv'.db = some pre)
    (hlocks : ∀ n, (i, n) ∈ sv.locks → (i, n) ∈ sv'.locks)
    (hrow : ∀ k, (i, (.row k, .update)) ∈ sv.locks → versions k sv'.db = versions k sv.db)
    (habsent : ∀ t : Triple, (i, (t.slot, .update)) ∈ sv.locks → Absent t sv.db → Absent t sv'.db) :
    Core st req i conn sv' s := by
  have entered : ∀ {r k now}, Entered st req i conn sv r k now → Entered st req i conn sv' r k now := by
    intro r k now h
    obtain ⟨pre, hpre, hk⟩ := h.addressed
    obtain ⟨t, ht, hins, hlook, hws⟩ := h.tx
    refine ⟨h.triple, h.seq, h.named, ⟨pre, hp _ _ hpre, hk⟩, hlocks _ h.lock, hlocks _ h.slot,
      (hrow _ h.lock).trans h.fresh, habsent _ h.slot h.absent, t, ht, hins, ?_, fun w hw => ?_⟩
    · rw [lookup, versions_applyAll_congr (hrow _ h.lock)]
      exact hlook
    · exact (hws w hw).imp_left fun hk => hk.congr hp
  cases s with
  | idle => exact Quiet.congr h rfl hp
  | locked x => exact ⟨h.1.congr rfl hp, hp _ _ h.2.1, h.2.2⟩
  | reserved r k => exact entered h
  | stored r k => exact entered h
  | keyed r k => exact entered h
  | filed r k => exact h
  | dropped dead =>
    obtain ⟨t, ht, hdel, hws⟩ := h.tx
    refine ⟨fun d hd => ?_, h.told, t, ht, hdel, fun w hw => (hws w hw).imp_left fun hk => hk.congr hp⟩
    obtain ⟨hl, hv⟩ := h.rows d hd
    exact ⟨hlocks _ hl, (hrow _ hl).trans hv⟩
  | owing dead => exact h
  | ended => exact h

/-- A move that writes nothing. -/
theorem Core.same (h : Core st req i conn sv s) (htx : c'.tx = conn.tx) (hsnap : c'.snap = none) (hdb : sv'.db = sv.db)
    (hlocks : ∀ l ∈ sv.locks, l ∈ sv'.locks) (htold : ∀ d ∈ dropped conn, d ∈ dropped c')
    (hcommit : committed conn = true → committed c' = true) : Core st req i c' sv' s := by
  have entered : ∀ {r k now}, Entered st req i conn sv r k now → Entered st req i c' sv' r k now := by
    intro r k now h
    exact ⟨h.triple, h.seq, h.named, hdb ▸ h.addressed, hlocks _ h.lock, hlocks _ h.slot, hdb ▸ h.fresh, hdb ▸ h.absent,
      by rw [htx, hdb]; exact h.tx⟩
  have quiet : Quiet conn sv → Quiet c' sv' := fun h => h.congr htx fun id pre hp => hdb ▸ hp
  cases s with
  | idle => exact quiet h
  | locked x =>
    refine ⟨quiet h.1, hdb ▸ h.2.1, fun s hs => ?_⟩
    rw [hsnap] at hs
    cases hs
  | reserved r k => exact entered h
  | stored r k => exact entered h
  | keyed r k => exact entered h
  | filed r k => exact ⟨htx.trans h.1, h.2⟩
  | dropped dead =>
    refine ⟨fun d hd => ?_, fun d hd => htold d (h.told d hd), by rw [htx, hdb]; exact h.tx⟩
    obtain ⟨hl, hv⟩ := h.rows d hd
    exact ⟨hlocks _ hl, hdb ▸ hv⟩
  | owing dead => exact ⟨htx.trans h.1, hcommit h.2.1, fun d hd => htold d (h.2.2 d hd)⟩
  | ended => exact htx.trans h

/-- The transaction sees the prefixes that are committed. -/
theorem Core.view_prefixOf (h : Core st req i conn sv s) {t : Tx Row Key Env} (ht : conn.tx = some t) (id : Uuid) :
    prefixOf id (applyAll t.writes sv.db) = prefixOf id sv.db := by
  have entered : ∀ {r k now}, Entered st req i conn sv r k now → ∀ w ∈ t.writes, KeepsPrefix sv.db w := by
    intro r k now h w hw
    obtain ⟨t', ht', -, -, hws⟩ := h.tx
    obtain rfl := Option.some.inj (ht.symm.trans ht')
    rcases hws w hw with hk | ⟨hk, -⟩
    · exact hk.sessions
    · exact keepsPrefix_of_chunk (by rw [hk]; rfl)
  refine keeps_prefixOf ?_ id
  cases s with
  | idle => exact fun w hw => (h t ht w hw).sessions
  | locked x => exact fun w hw => (h.1 t ht w hw).sessions
  | reserved r k => exact entered h
  | stored r k => exact entered h
  | keyed r k => exact entered h
  | filed r k => exact absurd ht (by rw [h.1]; simp)
  | dropped dead =>
    intro w hw
    obtain ⟨t', ht', -, hws⟩ := h.tx
    obtain rfl := Option.some.inj (ht.symm.trans ht')
    rcases hws w hw with hk | ⟨d, -, rfl⟩
    · exact hk.sessions
    · exact keepsPrefix_of_chunk rfl
  | owing dead => exact absurd ht (by rw [h.1]; simp)
  | ended => exact absurd ht (by rw [h]; simp)

/-- A statement that wrote no chunk and no prefix. -/
theorem Core.wrote (h : Core st req i conn sv s) {t : Tx Row Key Env} (ht : conn.tx = some t)
    {ws : List (Write Row Key)} (hws : ∀ w ∈ ws, Keeps (applyAll t.writes sv.db) w)
    (htx : c'.tx = some { t with writes := t.writes ++ ws }) (hsnap : c'.snap = none) (hdb : sv'.db = sv.db)
    (hlocks : ∀ l ∈ sv.locks, l ∈ sv'.locks) (htold : ∀ d ∈ dropped conn, d ∈ dropped c') : Core st req i c' sv' s := by
  have hkeeps : ∀ w ∈ ws, Keeps sv.db w := fun w hw =>
    (hws w hw).congr fun id pre hp => (h.view_prefixOf ht id).symm.trans hp
  have quiet : Quiet conn sv → Quiet c' sv' := by
    intro hq t' ht' w hw
    obtain rfl := Option.some.inj (htx.symm.trans ht')
    rw [hdb]
    rcases List.mem_append.1 hw with hw | hw
    · exact hq t ht w hw
    · exact hkeeps w hw
  have entered : ∀ {r k now}, Entered st req i conn sv r k now → Entered st req i c' sv' r k now := by
    intro r k now h
    obtain ⟨t', ht', hins, hlook, hw'⟩ := h.tx
    obtain rfl := Option.some.inj (ht.symm.trans ht')
    refine ⟨h.triple, h.seq, h.named, hdb ▸ h.addressed, hlocks _ h.lock, hlocks _ h.slot, hdb ▸ h.fresh, hdb ▸ h.absent,
      _, htx, List.mem_append_left _ hins, ?_, fun w hw => ?_⟩
    · rw [hdb, applyAll_append, lookup, others_chunks (fun w hw => (hkeeps w hw).chunks)]
      exact hlook
    · rw [hdb]
      rcases List.mem_append.1 hw with hw | hw
      · exact hw' w hw
      · exact .inl (hkeeps w hw)
  cases s with
  | idle => exact quiet h
  | locked x =>
    refine ⟨quiet h.1, hdb ▸ h.2.1, fun s hs => ?_⟩
    rw [hsnap] at hs
    cases hs
  | reserved r k => exact entered h
  | stored r k => exact entered h
  | keyed r k => exact entered h
  | filed r k => exact absurd ht (by rw [h.1]; simp)
  | dropped dead =>
    obtain ⟨t', ht', hdel, hw'⟩ := h.tx
    obtain rfl := Option.some.inj (ht.symm.trans ht')
    refine ⟨fun d hd => ?_, fun d hd => htold d (h.told d hd), _, htx,
      fun d hd => List.mem_append_left _ (hdel d hd), fun w hw => ?_⟩
    · obtain ⟨hl, hv⟩ := h.rows d hd
      exact ⟨hlocks _ hl, hdb ▸ hv⟩
    · rw [hdb]
      rcases List.mem_append.1 hw with hw | hw
      · exact hw' w hw
      · exact .inl (hkeeps w hw)
  | owing dead => exact absurd ht (by rw [h.1]; simp)
  | ended => exact absurd ht (by rw [h]; simp)

/-! ### Beside the others -/

variable [DecidableEq ι] {c d : Clients ι Row Env Io Outcome} {e : Env}

/-- A triple whose index entry is locked is not entered by another. -/
theorem absent_stays (creates : ι → Bool) (ho : Orderly c) (hs : c.step machine i e = some d) (hj : j ≠ i)
    (hφ : ∀ ws, d.shared.log = c.shared.log ++ [(i, ws)] → Commits (creates i) c.shared.db ws) {t : Triple}
    (hl : (j, (t.slot, .update)) ∈ c.shared.locks) (h : Absent t c.shared.db) : Absent t d.shared.db := by
  rcases ho.log_cases hs with ⟨hdb, -⟩ | ⟨ws, hdb, hlog, hfree⟩
  · rw [hdb]; exact h
  · intro r hr ht
    rw [hdb] at hr
    rcases (hφ ws hlog).chunks r hr with hr | ⟨-, r₀, hr₀, -, ht₀⟩
    · exact h r hr ht
    · exact (hfree _ hr₀).slot_ne hl hj rfl (slot_mem.2 (ht₀.trans ht))

theorem Holds.stays (creates : ι → Bool) (ho : Orderly c) (hs : c.step machine i e = some d) (hj : j ≠ i)
    (hφ : ∀ ws, d.shared.log = c.shared.log ++ [(i, ws)] → Commits (creates i) c.shared.db ws)
    (h : Holds st req j (c.threads j).loc c.shared s) : Holds st req j (c.threads j).loc d.shared s := by
  refine ⟨h.core.congr (fun id pre hp => ?_) (fun n hn => (locks_other hs hj).2 hn) (fun k hk => ?_)
    (fun t hl => absent_stays creates ho hs hj hφ hl), h.announced, h.swept, h.committed⟩
  · rcases ho.log_cases hs with ⟨hdb, -⟩ | ⟨ws, hdb, hlog, -⟩
    · rw [hdb]; exact hp
    · rw [hdb]; exact (hφ ws hlog).prefix_kept id pre hp
  · exact ho.locked_stays hs hj hk (by decide)

end

/-! ## What a statement does to a stage -/

section
variable {ι : Type} {st : AppState} {req : Request} {i : ι} {conn c' : Conn} {sv sv' : Sv ι} {s t : Stage}

/-- What holds of the stage after an operation. -/
theorem Holds.put (h : Holds st req i conn sv s) {o : Operation} {r : Answer o} {x : Option (Tx Row Key Env)}
    (hc : c' = Client.done { conn with tx := x } o r) (hcore : Core st req i c' sv' t)
    (hann : isIngested o = true → ∃ r k, t = .filed r k) (hsweep : isSweep o = true → t = .ended)
    (hcommit : isCommit o r = true → t.after)
    (hafter : s.after → t = s ∨ (∃ dead, s = .owing dead) ∧ t = .ended) : Holds st req i c' sv' t := by
  refine ⟨hcore, fun ha => ?_, fun hw => ?_, fun hd => ?_⟩
  · rw [hc, announced_done, Bool.or_eq_true] at ha
    rcases ha with ha | ha
    · obtain ⟨r, k, rfl⟩ := h.announced ha
      rcases hafter trivial with rfl | ⟨⟨dead, howing⟩, -⟩
      · exact ⟨r, k, rfl⟩
      · cases howing
    · exact hann ha
  · rw [hc, swept_done, Bool.or_eq_true] at hw
    rcases hw with hw | hw
    · obtain rfl := h.swept hw
      rcases hafter trivial with rfl | ⟨-, rfl⟩ <;> rfl
    · exact hsweep hw
  · rw [hc, committed_done, Bool.or_eq_true] at hd
    rcases hd with hd | hd
    · rcases hafter (h.committed hd) with rfl | ⟨-, rfl⟩
      · exact h.committed hd
      · trivial
    · exact hcommit hd

theorem told_done {x : Option (Tx Row Key Env)} {o : Operation} {r : Answer o} :
    ∀ d ∈ dropped conn, d ∈ dropped (Client.done { conn with tx := x } o r) := by
  intro d hd
  rw [dropped_done]
  exact List.mem_append_left _ hd

theorem committed_stays {x : Option (Tx Row Key Env)} {o : Operation} {r : Answer o} (h : committed conn = true) :
    committed (Client.done { conn with tx := x } o r) = true := by
  rw [committed_done, h]; rfl

/-- The next number is no less than zero. -/
theorem nextSeq_nonneg {sid : Uuid} {pid : PseudoId} {db : Db} (h : ∀ r ∈ chunksT.rows db, 0 ≤ r.seq) :
    0 ≤ Chunks.nextSeq sid pid db := by
  unfold Chunks.nextSeq
  cases hmax : (((chunksT.rows db).filter (Chunks.ofPair sid pid)).map (·.seq)).max? with
  | none => simp
  | some m =>
    obtain ⟨r, hr, rfl⟩ := List.mem_map.1 (List.max?_mem hmax)
    have := h r (List.mem_of_mem_filter hr)
    simp only [Option.getD_some]
    omega

theorem nextRow_seq {x : Chunks.Insert} {env : Env} {snap : Db} {row : ChunkRow} (h : Chunks.nextRow x env snap = .ok row) :
    row = Chunks.insertRow x (Chunks.nextSeq x.sessionId x.pseudoId snap) env := by
  unfold Chunks.nextRow at h
  split at h
  · exact (Except.ok.inj h).symm
  · cases h

variable {e : Env} {tx : Tx Row Key Env} {snap : Snapshot Row} {rows : List Row} {ws : List (Write Row Key)}

/-- A session row is locked, by an upload. -/
theorem Core.lock (h : Quiet conn sv) (htx : conn.tx = some tx) (hu : KeysUnique (applyAll tx.writes sv.db)) {id : Uuid}
    {alive snap : Db} (hres : ((Sessions.getInTxSql id).run e snap alive (applyAll tx.writes sv.db)).result = .ok (rows, ws))
    {x : Session} (hx : (sessionsT.rows rows).head? = some x) (htx' : c'.tx = some tx) (hsnap : c'.snap = none)
    (hdb : sv'.db = sv.db) : x.id = id ∧ Core st req i c' sv' (.locked x) := by
  obtain ⟨hrows, -, -⟩ := forUpdate_ok hres
  have hmem : Row.session x ∈ rows := sessionsT.mem_rows.1 (List.mem_of_mem_head? hx)
  obtain ⟨y, hy, hcur, hpy, -⟩ := (mem_hits sessionsT).1 (hrows ▸ hmem)
  obtain rfl := sessionsT.put_inj hy
  have hlook : lookup (Key.session x.id) (applyAll tx.writes sv.db) = some (.session x) := hu.lookup_eq hcur
  refine ⟨by simpa [Sessions.byId] using hpy, h.congr (htx'.trans htx.symm) fun id pre hp => hdb ▸ hp, ?_, fun s hs => ?_⟩
  · rw [hdb, ← keeps_prefixOf fun w hw => (h tx htx w hw).sessions]
    exact prefixOf_eq hlook
  · rw [hsnap] at hs
    cases hs

/-- A chunk row is entered. -/
theorem Core.enter {x : Session} (h : Core st req i conn sv (.locked x)) (htx : conn.tx = some tx)
    (hs : conn.snap = some snap) {ins : Chunks.Insert} (hid : ins.sessionId = x.id) (hnamed : Named ins.pseudoId)
    (htriple : tripleOfRequest st req = some ⟨ins.sessionId, ins.pseudoId, ins.clientChunkId⟩) {alive : Db}
    (hres : ((Chunks.insertSql ins).run e (applyAll tx.writes snap.rows) alive (applyAll tx.writes sv.db)).result =
      .ok (rows, ws))
    (htx' : c'.tx = some { tx with writes := tx.writes ++ ws }) (hdb : sv'.db = sv.db)
    (hlocks : ∀ n ∈ ((Chunks.insertSql ins).run e (applyAll tx.writes snap.rows) alive (applyAll tx.writes sv.db)).needs,
      (i, n) ∈ sv'.locks) :
    ∃ r, (chunksT.rows rows).head? = some r ∧ r.sessionId = x.id ∧ r.pseudoId = ins.pseudoId ∧
      Core st req i c' sv' (.reserved r (ChunkRoutes.chunkKey x.s3Prefix r.pseudoId r.seq)) := by
  obtain ⟨hquiet, hpre, hseqs⟩ := h
  have hquiet := hquiet tx htx
  have hcovered := (Stmt.run_spec hres).1
  obtain ⟨r, hmk, -, hclash, -, rfl, rfl⟩ := insert_ok hres
  obtain rfl := nextRow_seq hmk
  generalize hseq : Chunks.nextSeq ins.sessionId ins.pseudoId (applyAll tx.writes snap.rows) = seq at *
  obtain ⟨hrow, hslots, -⟩ := hcovered _ (List.mem_singleton.2 rfl)
  have hfree := clash_slots_none hclash
  have hviews : versions (chunkKeyOf (Chunks.insertRow ins seq e)) (applyAll tx.writes sv.db) =
      versions (chunkKeyOf (Chunks.insertRow ins seq e)) sv.db := others_chunks (fun w hw => (hquiet w hw).chunks) _
  have hnone : versions (chunkKeyOf (Chunks.insertRow ins seq e)) (applyAll tx.writes sv.db) = [] := by
    exact List.filter_eq_nil_iff.2 fun z hz hk => hfree z hz (of_decide_eq_true hk)
  refine ⟨_, congrArg List.head? (chunksT.rows_map_put [_]), hid, rfl, htriple, ?_, hnamed, ⟨x.s3Prefix, ?_, rfl⟩,
    hlocks _ hrow, hlocks _ (hslots _ (slot_mem.2 rfl)), ?_, fun z hz hzt => ?_, _, htx', ?_, ?_, fun w hw => ?_⟩
  · show 0 ≤ seq
    rw [← hseq]
    refine nextSeq_nonneg fun z hz => hseqs snap hs z ?_
    exact (mem_chunks_congr (others_chunks (fun w hw => (hquiet w hw).chunks) z)).1 hz
  · rw [hdb]
    show prefixOf ins.sessionId sv.db = some x.s3Prefix
    rw [hid, hpre]
  · rw [hdb, ← hviews, hnone]
  · rw [hdb] at hz
    have hz' := (mem_chunks_congr (others_chunks (fun w hw => (hquiet w hw).chunks) z)).2 hz
    exact clash_none hclash (slot_mem.2 rfl) (chunksT.mem_rows.1 hz') (slot_mem.2 hzt)
  · exact List.mem_append_right _ (List.mem_singleton.2 rfl)
  · rw [hdb, applyAll_append]
    exact lookup_insert (r := Row.chunk (Chunks.insertRow ins seq e)) (List.head?_eq_none_iff.2 hnone)
  · rw [hdb]
    rcases List.mem_append.1 hw with hw | hw
    · exact .inl (hquiet w hw)
    · rw [List.mem_singleton.1 hw]
      exact .inr ⟨rfl, rfl⟩

/-- The key is set: the UPDATE finds the row entered. -/
theorem Core.setKey {r : ChunkRow} {k : String} (h : Core st req i conn sv (.stored r k)) (htx : conn.tx = some tx)
    (hok : SnapshotOk i snap sv) (hu : KeysUnique (applyAll tx.writes sv.db)) {view : Db}
    (hres : ((Chunks.setKeySql r.sessionId r.pseudoId r.seq k).run e view (applyAll tx.writes (sv.alive snap))
      (applyAll tx.writes sv.db)).result = .ok (rows, ws))
    (htx' : c'.tx = some { tx with writes := tx.writes ++ ws }) (hdb : sv'.db = sv.db)
    (hlocks : ∀ l ∈ sv.locks, l ∈ sv'.locks) : Core st req i c' sv' (.keyed r k) := by
  have h : Entered st req i conn sv r k r := h
  obtain ⟨t', ht', hins, hlook, hws⟩ := h.tx
  obtain rfl := Option.some.inj (htx.symm.trans ht')
  have hmem := (lookup_mem hlook).1
  have halive : Row.chunk r ∈ applyAll tx.writes (sv.alive snap) := by
    have hv : versions (chunkKeyOf r) (applyAll tx.writes (sv.alive snap)) =
        versions (chunkKeyOf r) (applyAll tx.writes sv.db) := by
      refine versions_applyAll_congr ?_ _
      exact hok.alive_versions h.lock (m := .update) (by decide)
    have : Row.chunk r ∈ versions (chunkKeyOf r) (applyAll tx.writes (sv.alive snap)) := by
      rw [hv]
      exact mem_versions.2 ⟨hmem, rfl⟩
    exact (mem_versions.1 this).1
  have hat : ∀ z, Chunks.at' r.sessionId r.pseudoId r.seq z = true → key (chunksT.put z) = chunkKeyOf r := by
    intro z hz
    simp only [Chunks.at', Chunks.ofPair, Bool.and_eq_true, decide_eq_true_eq] at hz
    obtain ⟨⟨h₁, h₂⟩, h₃⟩ := hz
    show Key.chunk z.sessionId z.pseudoId z.seq = Key.chunk r.sessionId r.pseudoId r.seq
    rw [h₁, h₂, h₃]
  have hone := hits_one hu hat (by simp [Chunks.at', Chunks.ofPair]) hmem halive
  obtain ⟨hrows, rfl, -⟩ := update_ok hres
  rw [hone] at hrows
  obtain rfl : rows = [Row.chunk { r with s3Key := k }] := by
    rw [hrows]
    exact congrArg (List.map _) (chunksT.rows_map_put [r])
  refine ⟨h.triple, h.seq, h.named, hdb ▸ h.addressed, hlocks _ h.lock, hlocks _ h.slot, hdb ▸ h.fresh, hdb ▸ h.absent,
    _, htx', List.mem_append_left _ hins, ?_, fun w hw => ?_⟩
  · rw [hdb, applyAll_append]
    exact lookup_update (r := Row.chunk { r with s3Key := k }) hlook
  · rw [hdb]
    rcases List.mem_append.1 hw with hw | hw
    · exact hws w hw
    · rw [List.mem_singleton.1 hw]
      exact .inr ⟨rfl, rfl⟩

/-- The chunk rows are deleted. -/
theorem Core.drop (h : Quiet conn sv) (htx : conn.tx = some tx) (hu : KeysUnique (applyAll tx.writes sv.db))
    {p : ChunkRow → Bool} {view alive : Db}
    (hres : ((chunksT.delete p : Sql).run e view alive (applyAll tx.writes sv.db)).result = .ok (rows, ws))
    (htx' : c'.tx = some { tx with writes := tx.writes ++ ws }) (hdb : sv'.db = sv.db)
    (hlocks : ∀ n ∈ ((chunksT.delete p : Sql).run e view alive (applyAll tx.writes sv.db)).needs, (i, n) ∈ sv'.locks)
    (htold : ∀ d ∈ chunksT.rows rows, d ∈ dropped c') : Core st req i c' sv' (.dropped (chunksT.rows rows)) := by
  have hquiet := h tx htx
  have hcovered := (Stmt.run_spec hres).1
  obtain ⟨hdead, hws⟩ := deleteChunks_ok hres
  refine ⟨fun d hd => ?_, htold, _, htx', fun d hd => List.mem_append_right _ (hdead d hd).2, fun w hw => ?_⟩
  · obtain ⟨hcur, hdel⟩ := hdead d hd
    refine ⟨hlocks _ (hcovered _ hdel), ?_⟩
    rw [hdb, ← others_chunks (fun w hw => (hquiet w hw).chunks) d]
    exact hu.versions_eq (chunksT.mem_rows.1 hcur)
  · rw [hdb]
    rcases List.mem_append.1 hw with hw | hw
    · exact .inl (hquiet w hw)
    · exact .inr (hws w hw)

end

/-! ## Completed operations -/

section
variable {ι : Type} {st : AppState} {req : Request} {i : ι} {conn c' : Conn} {sv sv' : Sv ι} {s t : Stage} {e : Env} {q : Sql}
  {tx : Tx Row Key Env} {snap : Snapshot Row} {rows : Db} {ws : List (Write Row Key)}

/-- A statement of the transaction was answered. -/
structure Answered (i : ι) (e : Env) (conn c' : Conn) (sv sv' : Sv ι) (q : Sql) (tx : Tx Row Key Env) (snap : Snapshot Row)
    (rows : Db) (ws : List (Write Row Key)) : Prop where
  was : conn.tx = some tx
  looked : conn.snap = some snap
  run : (q.run (StepEnv.within tx.env e) (applyAll tx.writes snap.rows) (applyAll tx.writes (sv.alive snap))
    (applyAll tx.writes sv.db)).result = .ok (rows, ws)
  client : c' = Client.done { conn with tx := some { tx with writes := tx.writes ++ ws } } (.query .tx q : Operation) (.ok rows)
  db : sv'.db = sv.db
  log : sv'.log = sv.log
  locks : ∀ l ∈ sv.locks, l ∈ sv'.locks
  own : ∀ n ∈ (q.run (StepEnv.within tx.env e) (applyAll tx.writes snap.rows) (applyAll tx.writes (sv.alive snap))
    (applyAll tx.writes sv.db)).needs, (i, n) ∈ sv'.locks

theorem Answered.now (ha : Answered i e conn c' sv sv' q tx snap rows ws) :
    c'.tx = some { tx with writes := tx.writes ++ ws } := by rw [ha.client]; rfl

/-- The stage moves on inside the transaction. -/
theorem Holds.moves (h : Holds st req i conn sv s) (ha : Answered i e conn c' sv sv' q tx snap rows ws)
    (hcore : Core st req i c' sv' t) (hs : ¬s.after) : Holds st req i c' sv' t :=
  h.put ha.client hcore (fun h => by cases h) (fun h => by cases h) (fun h => by cases h) fun hafter => absurd hafter hs

/-- A statement that writes no chunk leaves the stage as it is. -/
theorem Holds.other (h : Holds st req i conn sv s) (ha : Answered i e conn c' sv sv' q tx snap rows ws)
    (hu : KeysUnique (applyAll tx.writes sv.db)) (hq : Other q) : Holds st req i c' sv' s := by
  have hsnap : c'.snap = none := by rw [ha.client]; rfl
  have htold : ∀ d ∈ dropped conn, d ∈ dropped c' := by
    rw [ha.client]
    exact told_done
  exact h.put ha.client (h.core.wrote ha.was (hq _ _ _ _ _ _ hu ha.run) ha.now hsnap ha.db ha.locks htold)
    (fun h => by cases h) (fun h => by cases h) (fun h => by cases h) fun _ => .inl rfl

/-- The session is locked. -/
theorem Holds.locks {p : Row → Bool} (h : Holds st req i conn sv s)
    (ha : Answered i e conn c' sv sv' (.forUpdate p) tx snap rows ws) (hu : KeysUnique (applyAll tx.writes sv.db))
    (hm : (protocol st req).may s (.query .tx (.forUpdate p))) :
    ∃ t, (protocol st req).next s (.query .tx (.forUpdate p)) (.ok rows) t ∧ Holds st req i c' sv' t ∧ sv'.log = sv.log := by
  obtain ⟨rfl, id, hq⟩ := hm
  have hlock : Other (.forUpdate p) := other_of_writes (D := fun _ => False) (forUpdate_writesIn p) not_false not_false
  by_cases hup : (uploadOf req).isSome = true
  · simp only [protocol, hup, if_true]
    cases hhead : (sessionsT.rows rows).head? with
    | none => exact ⟨.idle, ⟨(fun x hx => by cases hx), fun _ => rfl⟩, h.other ha hu hlock, ha.log⟩
    | some x =>
      have hres := ha.run
      have htx' := ha.now
      have hws : ws = [] := by
        simp only [Stmt.run, Except.ok.injEq, Prod.mk.injEq] at hres
        exact hres.2.symm
      rw [hws, List.append_nil] at htx'
      rw [hq] at hres
      obtain ⟨hid, hcore⟩ := Core.lock h.core ha.was hu hres hhead htx' (by rw [ha.client]; rfl) ha.db
      refine ⟨.locked x, ⟨fun y hy => ?_, (fun h => by cases h)⟩, h.moves ha hcore not_false, ha.log⟩
      obtain rfl := Option.some.inj hy
      refine ⟨rfl, ?_⟩
      have hp : p = sessionsT.is (Sessions.byId id) := by
        simpa [Sessions.getInTxSql, Table.forUpdate] using hq
      rw [hp]
      exact (sessionsT.is_put _ x).trans (by simp [Sessions.byId, hid])
  · have hup' : (uploadOf req).isSome = false := by simpa using hup
    simp only [protocol, hup', Bool.false_eq_true, if_false]
    exact ⟨.idle, rfl, h.other ha hu hlock, ha.log⟩

/-- The chunk is entered, or a row of another table. -/
theorem Holds.enters {mk : Env → Db → Except (DbError Key Uniq) (List (Row × OnConflict Row))} (h : Holds st req i conn sv s)
    (ha : Answered i e conn c' sv sv' (.insert mk) tx snap rows ws) (hu : KeysUnique (applyAll tx.writes sv.db))
    (hm : (protocol st req).may s (.query .tx (.insert mk))) :
    ∃ t, (protocol st req).next s (.query .tx (.insert mk)) (.ok rows) t ∧ Holds st req i c' sv' t ∧ sv'.log = sv.log := by
  rcases hm with ⟨x, ins, rfl, hq, hid, hnamed, htriple⟩ | ⟨hl, hq⟩
  · have hres := ha.run
    have hown := ha.own
    rw [hq] at hres hown
    obtain ⟨r, hr, hsid, hpid, hcore⟩ := Core.enter h.core ha.was ha.looked hid hnamed htriple hres ha.now ha.db hown
    refine ⟨_, ⟨fun y hy => ?_, fun hl => absurd rfl (hl x)⟩, h.moves ha hcore not_false, ha.log⟩
    cases hy
    refine ⟨r, hr, hsid, rfl, fun ins' hq' => ?_⟩
    rw [← hq, hq'] at hres
    obtain ⟨r', hmk, -, -, -, rfl, -⟩ := insert_ok hres
    have : r' = r := Option.some.inj ((congrArg List.head? (chunksT.rows_map_put [r'])).symm.trans hr)
    rw [← this, nextRow_seq hmk]
    rfl
  · exact ⟨s, ⟨fun x hx => absurd hx (hl x), fun _ => rfl⟩, h.other ha hu hq, ha.log⟩

/-- The key of the chunk is set, or another row. -/
theorem Holds.sets {p : Row → Bool} {set : Env → Setter Row} (h : Holds st req i conn sv s)
    (ha : Answered i e conn c' sv sv' (.update p set) tx snap rows ws) (hu : KeysUnique (applyAll tx.writes sv.db))
    (hok : SnapshotOk i snap sv) (hm : (protocol st req).may s (.query .tx (.update p set))) :
    ∃ t, (protocol st req).next s (.query .tx (.update p set)) (.ok rows) t ∧ Holds st req i c' sv' t ∧ sv'.log = sv.log := by
  rcases hm with ⟨r, k, rfl, hq⟩ | ⟨hst, hl, hq⟩
  · have hres := ha.run
    rw [hq] at hres
    have hcore := Core.setKey h.core ha.was hok hu hres ha.now ha.db ha.locks
    exact ⟨.keyed r k, ⟨(fun r' k' h => by cases h; rfl), fun hne => absurd rfl (hne r k)⟩, h.moves ha hcore not_false, ha.log⟩
  · exact ⟨s, ⟨fun r k hs => absurd hs (hst r k), fun _ => rfl⟩, h.other ha hu hq, ha.log⟩

/-- The chunks are deleted, or rows of another table. -/
theorem Holds.deletes {p : Row → Bool} (h : Holds st req i conn sv s)
    (ha : Answered i e conn c' sv sv' (.delete p) tx snap rows ws) (hu : KeysUnique (applyAll tx.writes sv.db))
    (hm : (protocol st req).may s (.query .tx (.delete p))) :
    ∃ t, (protocol st req).next s (.query .tx (.delete p)) (.ok rows) t ∧ Holds st req i c' sv' t ∧ sv'.log = sv.log := by
  rcases hm with ⟨rfl, p', hq⟩ | ⟨⟨dead, rfl⟩, hq⟩
  · have htold : ∀ d ∈ chunksT.rows rows, d ∈ dropped c' := by
      intro d hd
      rw [ha.client, dropped_done]
      exact List.mem_append_right _ hd
    have hres := ha.run
    have hown := ha.own
    rw [hq] at hres hown
    have hcore : Core st req i c' sv' (.dropped (chunksT.rows rows)) :=
      Core.drop h.core ha.was hu hres ha.now ha.db hown htold
    exact ⟨_, ⟨fun _ => rfl, fun hne => absurd rfl hne⟩, h.moves ha hcore not_false, ha.log⟩
  · exact ⟨.dropped dead, ⟨(fun h => by cases h), fun _ => rfl⟩, h.other ha hu hq, ha.log⟩

end

section
variable {ι : Type} [DecidableEq ι] {st : AppState} {req : Request} {i : ι} {conn c' : Conn} {sv sv' : Sv ι} {s : Stage}
  {e : Env}

theorem Holds.query_tx (h : Holds st req i conn sv s) (hview : ∀ t, conn.tx = some t → KeysUnique (applyAll t.writes sv.db))
    (hsnap : ∀ x, conn.snap = some x → SnapshotOk i x sv) {q : Sql} {r : Answer (.query .tx q : Operation)}
    (hm : (protocol st req).may s (.query .tx q))
    (hx : machine.exec i e conn sv (.query .tx q) = some (some r, c', sv')) :
    ∃ t, (protocol st req).next s (.query .tx q) r t ∧ Holds st req i c' sv' t ∧ sv'.log = sv.log := by
  rcases query_tx_done hx with ⟨err, rfl, rfl, rfl⟩ |
    ⟨tx, snap, rows, ws, eff, htx, hsn, _, heff, hres, _, rfl, hc', hsv'⟩
  · refine ⟨s, ?_, h.put (x := conn.tx) rfl (h.core.same rfl rfl rfl (fun _ hl => hl) told_done committed_stays)
      (fun h => by cases h) (fun h => by cases h) (fun h => by cases h) fun _ => .inl rfl, rfl⟩
    cases q <;> rfl
  subst heff
  have hu := hview tx htx
  have ha : Answered i e conn c' sv sv' q tx snap rows ws := by
    refine ⟨htx, hsn, hres, hc', by rw [hsv'], by rw [hsv'], fun l hl => ?_, fun n hn => ?_⟩
    · rw [hsv']
      exact List.mem_append_right _ hl
    · rw [hsv']
      exact List.mem_append_left _ (List.mem_map.2 ⟨n, hn, rfl⟩)
  cases q with
  | select p => exact ⟨s, rfl, h.other ha hu (select_other p), ha.log⟩
  | forUpdate p => exact h.locks ha hu hm
  | insert mk => exact h.enters ha hu hm
  | update p set => exact h.sets ha hu (hsnap snap hsn) hm
  | delete p => exact h.deletes ha hu hm

omit [DecidableEq ι] in
/-- What a commit does. -/
theorem Core.commits {tx : Tx Row Key Env} (h : Core st req i conn sv s) (htx : conn.tx = some tx)
    (hu : KeysUnique (applyAll tx.writes sv.db)) (hs : s = .idle ∨ (∃ r k, s = .keyed r k) ∨ ∃ dead, s = .dropped dead)
    (creates : Bool) : Commits creates sv.db tx.writes := by
  have hpre : ∀ id, prefixOf id (applyAll tx.writes sv.db) = prefixOf id sv.db ∨ (creates = true ∧ prefixOf id sv.db = none) :=
    fun id => .inl (h.view_prefixOf htx id)
  rcases hs with rfl | ⟨r, k, rfl⟩ | ⟨dead, rfl⟩
  · exact commits_of_keeps (h tx htx)
  · have h : Entered st req i conn sv r k { r with s3Key := k } := h
    obtain ⟨t', ht', hins, hlook, hws⟩ := h.tx
    obtain rfl := Option.some.inj (htx.symm.trans ht')
    refine ⟨hpre, fun z hz => ?_⟩
    by_cases hk : chunkKeyOf z = chunkKeyOf r
    · have hz' := hu.lookup_eq (chunksT.mem_rows.1 hz)
      have : lookup (chunkKeyOf z) (applyAll tx.writes sv.db) = some (.chunk z) := hz'
      rw [hk, hlook] at this
      obtain rfl : { r with s3Key := k } = z := by simpa using this
      obtain ⟨pre, hpre, hkey⟩ := h.addressed
      exact .inr ⟨⟨h.seq, h.named, pre, hpre, hkey⟩, r, hins, rfl, rfl⟩
    · refine .inl ((mem_chunks_congr ?_).1 hz)
      refine versions_applyAll_other (fun w hw hwk => ?_) _
      rcases hws w hw with hkeep | ⟨hwr, -⟩
      · exact hkeep.chunks (by rw [hwk]; rfl)
      · exact hk (hwk.symm.trans hwr)
  · obtain ⟨t', ht', -, hws⟩ := h.tx
    obtain rfl := Option.some.inj (htx.symm.trans ht')
    refine ⟨hpre, fun z hz => .inl (mem_chunks_back (fun w hw => ?_) hz)⟩
    rcases hws w hw with hkeep | ⟨d, -, rfl⟩
    · exact .inl hkeep.chunks
    · exact .inr ⟨_, rfl⟩

/-- A session is entered. -/
theorem createSql_commits {input : Sessions.CreateSession} {snap alive db rows : Db} {ws : List (Write Row Key)}
    (hres : ((Sessions.createSql input).run e snap alive db).result = .ok (rows, ws)) : Commits true db ws := by
  obtain ⟨x, -, -, hclash, -, -, rfl⟩ := insert_ok hres
  have hnone : lookup (Key.session x.id) db = none := lookup_none.2 (clash_slots_none hclash)
  refine ⟨fun id => ?_, fun r hr => .inl ?_⟩
  · by_cases hid : x.id = id
    · subst hid
      refine .inr ⟨rfl, ?_⟩
      rw [prefixOf, hnone]
    · refine .inl (prefixOf_congr (versions_applyAll_other (fun w hw hk => ?_) db))
      rw [List.mem_singleton.1 hw] at hk
      exact hid (Key.session.inj hk)
  · refine mem_chunks_back (fun w hw => .inl ?_) hr
    rw [List.mem_singleton.1 hw]
    exact fun h => by cases h

theorem Holds.pool (h : Holds st req i conn sv s) (hu : KeysUnique sv.db) {q : Sql}
    {r : Answer (.query .pool q : Operation)} (hm : (protocol st req).may s (.query .pool q))
    (hx : machine.exec i e conn sv (.query .pool q) = some (some r, c', sv')) :
    ∃ t, (protocol st req).next s (.query .pool q) r t ∧ Holds st req i c' sv' t ∧
      (sv'.log = sv.log ∨ ∃ ws, sv'.log = sv.log ++ [(i, ws)] ∧ Commits (isCreate req) sv.db ws) := by
  obtain ⟨hs, hq⟩ := hm
  rcases query_pool_done hx with ⟨err, rfl, rfl, rfl⟩ | ⟨snap, rows, ws, eff, hsn, _, rfl, hres, _, rfl, rfl, rfl⟩
  · have same : Holds st req i (Client.done conn (.query .pool q) (.error err)) sv' s :=
      h.put (x := conn.tx) rfl (h.core.same rfl rfl rfl (fun _ hl => hl) told_done committed_stays)
        (fun h => by cases h) (fun h => by cases h) (fun h => by cases h) fun _ => .inl rfl
    by_cases howing : ∃ dead, s = .owing dead
    · obtain ⟨dead, rfl⟩ := howing
      refine ⟨.ended, ⟨fun _ => rfl, fun hne => absurd rfl (hne dead)⟩, ?_, .inl rfl⟩
      exact h.put (x := conn.tx) rfl (show Core st req i _ sv' .ended from h.core.1) (fun h => by cases h)
        (fun _ => rfl) (fun h => by cases h) fun _ => .inr ⟨⟨dead, rfl⟩, rfl⟩
    · exact ⟨s, ⟨fun he => absurd he howing, fun _ => rfl⟩, same, .inl rfl⟩
  · have hcommits : Commits (isCreate req) sv.db ws := by
      rcases hq with hq | ⟨hc, input, rfl⟩
      · exact commits_of_keeps (hq _ _ _ _ _ _ hu hres)
      · rw [hc]
        exact createSql_commits hres
    have hcore : Core st req i (Client.done conn (.query .pool q) (.ok rows)) (sv.apply i ws) s := by
      cases s with
      | idle => exact Quiet.congr h.core rfl hcommits.prefix_kept
      | owing dead => exact ⟨h.core.1, committed_stays (x := conn.tx) h.core.2.1,
          fun d hd => told_done (x := conn.tx) d (h.core.2.2 d hd)⟩
      | ended => exact h.core
      | _ => exact hs.elim
    refine ⟨s, rfl, ?_, .inr ⟨ws, rfl, hcommits⟩⟩
    exact h.put (x := conn.tx) rfl hcore (fun h => by cases h) (fun h => by cases h) (fun h => by cases h) fun _ => .inl rfl

/-- A transaction begins. -/
theorem Holds.begins (h : Holds st req i conn sv s) {r : Answer (.begin : Operation)} (hm : (protocol st req).may s .begin)
    (hx : machine.exec i e conn sv .begin = some (some r, c', sv')) :
    ∃ t, (protocol st req).next s .begin r t ∧ Holds st req i c' sv' t ∧ sv'.log = sv.log := by
  obtain rfl : s = .idle := hm
  rcases begin_done hx with ⟨err, rfl, rfl, rfl⟩ | ⟨rfl, rfl, rfl⟩
  · refine ⟨.idle, rfl, ?_, rfl⟩
    exact h.put (x := conn.tx) rfl (h.core.same rfl rfl rfl (fun _ hl => hl) told_done committed_stays)
      (fun h => by cases h) (fun h => by cases h) (fun h => by cases h) fun _ => .inl rfl
  · refine ⟨.idle, rfl, h.put rfl (fun t ht w hw => ?_) (fun h => by cases h) (fun h => by cases h)
      (fun h => by cases h) (fun h => h.elim), rfl⟩
    obtain rfl := Option.some.inj ht
    cases hw

omit [DecidableEq ι] in
/-- Nothing is asked of a client without a transaction. -/
theorem core_idle (htx : conn.tx = none) : Core st req i conn sv .idle := by
  intro t ht
  rw [htx] at ht
  cases ht

/-- A transaction commits, or is lost. -/
theorem Holds.commits (h : Holds st req i conn sv s) (hview : ∀ t, conn.tx = some t → KeysUnique (applyAll t.writes sv.db))
    {r : Answer (.commit : Operation)} (hm : (protocol st req).may s .commit)
    (hx : machine.exec i e conn sv .commit = some (some r, c', sv')) :
    ∃ t, (protocol st req).next s .commit r t ∧ Holds st req i c' sv' t ∧
      (sv'.log = sv.log ∨ ∃ ws, sv'.log = sv.log ++ [(i, ws)] ∧ Commits (isCreate req) sv.db ws) := by
  rcases commit_done hx with ⟨err, rfl, rfl, rfl⟩ | ⟨rfl, rfl, rfl⟩
  · refine ⟨.idle, rfl, h.put rfl (core_idle rfl) (fun h => by cases h) (fun h => by cases h) (fun h => by cases h)
      (fun hs => ?_), .inl rfl⟩
    rcases hm with rfl | ⟨_, _, rfl⟩ | ⟨_, rfl⟩ <;> exact hs.elim
  · have hcommits : Commits (isCreate req) sv.db conn.writes := by
      cases htx : conn.tx with
      | none =>
        simp only [Client.writes, htx]
        exact commits_of_keeps (by simp)
      | some tx =>
        simp only [Client.writes, htx]
        exact h.core.commits htx (hview tx htx) hm _
    rcases hm with rfl | ⟨r, k, rfl⟩ | ⟨dead, rfl⟩
    · refine ⟨.ended, ⟨(fun r k h => by cases h), (fun dead h => by cases h), fun _ => rfl⟩, ?_, .inr ⟨_, rfl, hcommits⟩⟩
      exact h.put rfl rfl (fun h => by cases h) (fun h => by cases h) (fun _ => trivial) fun h => h.elim
    · refine ⟨.filed r k, ⟨(fun r k h => by cases h; rfl), (fun dead h => by cases h), (fun h => by cases h)⟩, ?_,
        .inr ⟨_, rfl, hcommits⟩⟩
      have hcore : Entered st req i conn sv r k { r with s3Key := k } := h.core
      exact h.put rfl ⟨rfl, hcore.triple⟩ (fun h => by cases h) (fun h => by cases h) (fun _ => trivial) fun h => h.elim
    · refine ⟨.owing dead, ⟨(fun r k h => by cases h), (fun dead h => by cases h; rfl), (fun h => by cases h)⟩, ?_,
        .inr ⟨_, rfl, hcommits⟩⟩
      have hcore : Dropping i conn sv dead := h.core
      refine h.put rfl ⟨rfl, ?_, fun d hd => told_done d (hcore.told d hd)⟩ (fun h => by cases h) (fun h => by cases h)
        (fun _ => trivial) fun h => h.elim
      rw [committed_done]
      simp [isCommit]

theorem Holds.rollsBack (h : Holds st req i conn sv s) {r : Answer (.rollback : Operation)}
    (hm : (protocol st req).may s .rollback) (hx : machine.exec i e conn sv .rollback = some (some r, c', sv')) :
    ∃ t, (protocol st req).next s .rollback r t ∧ Holds st req i c' sv' t ∧ sv'.log = sv.log := by
  obtain rfl : s = .idle := hm
  obtain ⟨rfl, rfl⟩ := rollback_done hx
  refine ⟨.idle, by cases r <;> rfl, ?_, rfl⟩
  exact h.put rfl (core_idle rfl) (fun h => by cases h) (fun h => by cases h) (fun h => by cases h) fun _ => .inl rfl

omit [DecidableEq ι] in
/-- An operation outside the database, to a stage that allows what it sends or
sweeps. -/
theorem Holds.outside (h : Holds st req i conn sv s) {x : Io} {r : x.Ans} {world : World} {t : Stage}
    (hcore : Core st req i conn sv t) (hann : isIngested (.outer x) = true → ∃ r k, t = .filed r k)
    (hsweep : isSweep (.outer x) = true → t = .ended) (hafter : s.after → t = s ∨ (∃ dead, s = .owing dead) ∧ t = .ended) :
    Holds st req i (Client.done conn (.outer x) r) { sv with world := world } t :=
  h.put (x := conn.tx) rfl (hcore.same rfl rfl rfl (fun _ hl => hl) told_done committed_stays) hann hsweep
    (fun h => by cases h) hafter

omit [DecidableEq ι] in
/-- It leaves the stage. -/
theorem Holds.passes (h : Holds st req i conn sv s) {x : Io} {r : x.Ans} {world : World}
    (hann : isIngested (.outer x) = true → ∃ r k, s = .filed r k) (hsweep : isSweep (.outer x) = false) :
    Holds st req i (Client.done conn (.outer x) r) { sv with world := world } s :=
  h.outside h.core hann (fun hi => absurd hi (by simp [hsweep])) fun _ => .inl rfl

/-- A body that was read is the one that was sent. -/
theorem toBytes_ok {body bytes : Bytes} {limit : Nat} {w : World} (h : (Io.act (.toBytes body limit) e w).1 = .ok bytes) :
    bytes = body := by
  simp only [Io.act] at h
  split at h
  · cases h
  · split at h
    · cases h
    · exact (Except.ok.inj h).symm

/-- What is done outside the database. -/
theorem Holds.outer (h : Holds st req i conn sv s) {x : Io} {r : Answer (.outer x : Operation)}
    (hm : (protocol st req).may s (.outer x)) (hx : machine.exec i e conn sv (.outer x) = some (some r, c', sv')) :
    ∃ t, (protocol st req).next s (.outer x) r t ∧ Holds st req i c' sv' t ∧ sv'.log = sv.log := by
  obtain ⟨hr, rfl, rfl⟩ := outer_done hx
  cases x with
  | put key body ct =>
    obtain ⟨r₀, u, rfl, -, -⟩ := hm
    cases r with
    | ok u =>
      refine ⟨.stored r₀ key, (fun r k h => by cases h; rfl), ?_, rfl⟩
      exact h.outside h.core (fun h => by cases h) (fun h => by cases h) fun h => h.elim
    | error err => exact ⟨_, rfl, h.passes (fun h => by cases h) rfl, rfl⟩
  | deleteMany keys =>
    obtain ⟨dead, rfl, -⟩ := hm
    refine ⟨.ended, rfl, ?_, rfl⟩
    exact h.outside (t := .ended) h.core.1 (fun h => by cases h) (fun _ => rfl) fun _ => .inr ⟨⟨dead, rfl⟩, rfl⟩
  | send ev => exact ⟨s, rfl, h.passes hm rfl, rfl⟩
  | toBytes body limit =>
    refine ⟨s, ?_, h.passes (fun h => by cases h) rfl, rfl⟩
    cases r with
    | error err => rfl
    | ok bytes => exact ⟨rfl, toBytes_ok hr.symm⟩
  | get | utcNow | newEtag | incCounter => exact ⟨s, rfl, h.passes (fun h => by cases h) rfl, rfl⟩

theorem Holds.done (h : Holds st req i conn sv s) (hu : KeysUnique sv.db)
    (hview : ∀ t, conn.tx = some t → KeysUnique (applyAll t.writes sv.db))
    (hsnap : ∀ x, conn.snap = some x → SnapshotOk i x sv) {o : Operation} {r : Answer o} (hm : (protocol st req).may s o)
    (hx : machine.exec i e conn sv o = some (some r, c', sv')) :
    ∃ t, (protocol st req).next s o r t ∧ Holds st req i c' sv' t ∧
      (sv'.log = sv.log ∨ ∃ ws, sv'.log = sv.log ++ [(i, ws)] ∧ Commits (isCreate req) sv.db ws) := by
  have unlogged : (∃ t, (protocol st req).next s o r t ∧ Holds st req i c' sv' t ∧ sv'.log = sv.log) →
      ∃ t, (protocol st req).next s o r t ∧ Holds st req i c' sv' t ∧
        (sv'.log = sv.log ∨ ∃ ws, sv'.log = sv.log ++ [(i, ws)] ∧ Commits (isCreate req) sv.db ws) :=
    Exists.imp fun t ht => ⟨ht.1, ht.2.1, .inl ht.2.2⟩
  cases o with
  | query via q =>
    cases via with
    | tx => exact unlogged (h.query_tx hview hsnap hm hx)
    | pool => exact h.pool hu hm hx
  | begin => exact unlogged (h.begins hm hx)
  | commit => exact h.commits hview hm hx
  | rollback => exact unlogged (h.rollsBack hm hx)
  | outer x => exact unlogged (h.outer hm hx)

/-- A stage an operation other than a commit leads to. -/
inductive Reached (s : Stage) (o : Operation) : Stage → Prop
  | stays : Reached s o s
  | ended : Reached s o .ended
  | locked (x : Session) : Reached s o (.locked x)
  | reserved (x : Session) (r : ChunkRow) (k : String) (locked : s = .locked x) : Reached s o (.reserved r k)
  | stored (r : ChunkRow) (k : String) (body : Bytes) (ct : String) (reserved : s = .reserved r k)
    (put : o = .outer (.put k body ct)) : Reached s o (.stored r k)
  | keyed (r : ChunkRow) (k : String) (stored : s = .stored r k) : Reached s o (.keyed r k)
  | dropped (dead : List ChunkRow) : Reached s o (.dropped dead)

theorem next_reached {o : Operation} {r : Answer o} {t : Stage} (ho : o ≠ .commit) (hm : (protocol st req).may s o)
    (hn : (protocol st req).next s o r t) : Reached s o t := by
  have stays : t = s → Reached s o t := fun h => h ▸ .stays
  cases o with
  | commit => exact absurd rfl ho
  | begin => exact stays hn
  | rollback => exact stays hn
  | outer x =>
    cases x with
    | put key body ct =>
      cases r with
      | error err => exact stays hn
      | ok u =>
        obtain ⟨r, u, hs, -⟩ := hm
        obtain rfl := hn r key hs
        exact .stored r key body ct hs rfl
    | deleteMany keys =>
      obtain rfl : t = .ended := hn
      exact .ended
    | toBytes body limit =>
      cases r with
      | error err => exact stays hn
      | ok bytes => exact stays hn.1
    | _ => exact stays hn
  | query via q =>
    cases via with
    | pool =>
      cases r with
      | ok rows => exact stays hn
      | error err =>
        by_cases howing : ∃ dead, s = .owing dead
        · obtain rfl := hn.1 howing
          exact .ended
        · exact stays (hn.2 fun dead hd => howing ⟨dead, hd⟩)
    | tx =>
      cases r with
      | error err => cases q <;> exact stays hn
      | ok rows =>
        cases q with
        | select p => exact stays hn
        | forUpdate p =>
          simp only [protocol] at hn
          split at hn
          · cases hx : (sessionsT.rows rows).head? with
            | none => exact stays (hn.2 hx)
            | some x =>
              obtain ⟨rfl, -⟩ := hn.1 x hx
              exact .locked x
          · exact stays hn
        | insert mk =>
          by_cases hl : ∃ x, s = .locked x
          · obtain ⟨x, hx⟩ := hl
            obtain ⟨r, -, -, rfl, -⟩ := hn.1 x hx
            exact .reserved x _ _ hx
          · exact stays (hn.2 fun x hx => hl ⟨x, hx⟩)
        | update p set =>
          by_cases hl : ∃ r k, s = .stored r k
          · obtain ⟨r, k, hs⟩ := hl
            obtain rfl := hn.1 r k hs
            exact .keyed r k hs
          · exact stays (hn.2 fun r k hs => hl ⟨r, k, hs⟩)
        | delete p =>
          by_cases hs : s = .idle
          · obtain rfl := hn.1 hs
            exact .dropped _
          · exact stays (hn.2 hs)

/-- What a move does to the chunk rows: nothing, or, with a commit, the row of
an upload comes or those of a deletion go. -/
inductive RowsMoved {ι : Type} (i : ι) (s t : Stage) (sv sv' : Sv ι) : Prop
  | same (rows : ∀ z, z ∈ chunksT.rows sv'.db ↔ z ∈ chunksT.rows sv.db) (after : t.after → t = s ∨ t = .ended)
    (log : sv'.log = sv.log ∨ ∃ ws, sv'.log = sv.log ++ [(i, ws)] ∧ ∀ w ∈ ws, (Key.table w.key) ≠ .chunks)
  | came (r : ChunkRow) (k : String) (keyed : s = .keyed r k) (filed : t = .filed r k) (ws : List (Write Row Key))
    (log : sv'.log = sv.log ++ [(i, ws)]) (enters : .insert (.chunk r) ∈ ws)
    (spares : ∀ w ∈ ws, (Key.table w.key) ≠ .chunks ∨ w.deletes = none)
    (rows : ∀ z, z ∈ chunksT.rows sv'.db ↔ z ∈ chunksT.rows sv.db ∨ z = { r with s3Key := k })
  | went (dead : List ChunkRow) (dropped : s = .dropped dead) (owing : t = .owing dead) (ws : List (Write Row Key))
    (log : sv'.log = sv.log ++ [(i, ws)])
    (deletes : ∀ w ∈ ws, (Key.table w.key) ≠ .chunks ∨ ∃ d ∈ dead, w = .delete (chunkKeyOf d))
    (rows : ∀ z, z ∈ chunksT.rows sv'.db ↔ z ∈ chunksT.rows sv.db ∧ z ∉ dead)

/-- Only a commit leads to where a row is filed, or rows are owed. -/
theorem Reached.after {o : Operation} (h : Reached s o t) (ht : t.after) : t = s ∨ t = .ended := by
  cases h with
  | stays => exact .inl rfl
  | ended => exact .inr rfl
  | _ => exact ht.elim

omit [DecidableEq ι] in
/-- The row of an upload comes with its commit. -/
theorem Entered.rows {tx : Tx Row Key Env} {r now : ChunkRow} {k : String} (h : Entered st req i conn sv r k now)
    (htx : conn.tx = some tx) (hu : KeysUnique (applyAll tx.writes sv.db)) (z : ChunkRow) :
    z ∈ chunksT.rows (applyAll tx.writes sv.db) ↔ z ∈ chunksT.rows sv.db ∨ z = now := by
  obtain ⟨t', ht', -, hlook, hws⟩ := h.tx
  obtain rfl := Option.some.inj (htx.symm.trans ht')
  have hnow : chunkKeyOf now = chunkKeyOf r := (lookup_mem hlook).2
  by_cases hk : chunkKeyOf z = chunkKeyOf r
  · have hbefore : z ∉ chunksT.rows sv.db := by
      rw [mem_chunks, hk, h.fresh]
      simp
    constructor
    · intro hz
      have hz := hu.lookup_eq (chunksT.mem_rows.1 hz)
      have : lookup (chunkKeyOf z) (applyAll tx.writes sv.db) = some (.chunk z) := hz
      rw [hk, hlook] at this
      exact .inr (by simpa using this.symm)
    · intro hz
      rcases hz with hz | rfl
      · exact absurd hz hbefore
      · exact chunksT.mem_rows.2 (lookup_mem hlook).1
  · have hsame : versions (chunkKeyOf z) (applyAll tx.writes sv.db) = versions (chunkKeyOf z) sv.db := by
      refine versions_applyAll_other (fun w hw hwk => ?_) _
      rcases hws w hw with hkeep | ⟨hwr, -⟩
      · exact hkeep.chunks (by rw [hwk]; rfl)
      · exact hk (hwk.symm.trans hwr)
    rw [mem_chunks_congr hsame]
    constructor
    · exact .inl
    · rintro (hz | rfl)
      · exact hz
      · exact absurd hnow hk

omit [DecidableEq ι] in
/-- The rows of a deletion go with its commit. -/
theorem Dropping.gone {tx : Tx Row Key Env} {dead : List ChunkRow} (h : Dropping i conn sv dead)
    (htx : conn.tx = some tx) (z : ChunkRow) :
    z ∈ chunksT.rows (applyAll tx.writes sv.db) ↔ z ∈ chunksT.rows sv.db ∧ z ∉ dead := by
  obtain ⟨t', ht', hdel, hws⟩ := h.tx
  obtain rfl := Option.some.inj (htx.symm.trans ht')
  by_cases hk : ∃ d ∈ dead, chunkKeyOf d = chunkKeyOf z
  · obtain ⟨d, hd, hkey⟩ := hk
    have hgone : versions (chunkKeyOf z) (applyAll tx.writes sv.db) = [] := by
      rw [← hkey]
      refine versions_deleted (hdel d hd) fun w hw hwk => ?_
      rcases hws w hw with hkeep | ⟨d', -, rfl⟩
      · exact absurd (by rw [hwk]; rfl) hkeep.chunks
      · exact congrArg Write.delete hwk
    refine ⟨fun hz => ?_, fun hz => ?_⟩
    · rw [mem_chunks, hgone] at hz
      cases hz
    · have hmem := mem_chunks.1 hz.1
      rw [← hkey, (h.rows d hd).2, List.mem_singleton] at hmem
      obtain rfl : z = d := by simpa using hmem
      exact absurd hd hz.2
  · have hsame : versions (chunkKeyOf z) (applyAll tx.writes sv.db) = versions (chunkKeyOf z) sv.db := by
      refine versions_applyAll_other (fun w hw hwk => ?_) _
      rcases hws w hw with hkeep | ⟨d, hd, rfl⟩
      · exact hkeep.chunks (by rw [hwk]; rfl)
      · exact hk ⟨d, hd, hwk⟩
    rw [mem_chunks_congr hsame]
    exact ⟨fun hz => ⟨hz, fun hd => hk ⟨z, hd, rfl⟩⟩, fun hz => hz.1⟩

theorem Holds.rows (h : Holds st req i conn sv s) (hu : KeysUnique sv.db)
    (hview : ∀ t, conn.tx = some t → KeysUnique (applyAll t.writes sv.db)) {o : Operation} {r : Answer o} {t : Stage}
    (hm : (protocol st req).may s o) (hx : machine.exec i e conn sv o = some (some r, c', sv'))
    (hn : (protocol st req).next s o r t) : RowsMoved i s t sv sv' := by
  have same : o ≠ .commit → sv'.db = sv.db → sv'.log = sv.log → RowsMoved i s t sv sv' := fun ho hdb hlog =>
    .same (fun z => by rw [hdb]) (next_reached ho hm hn).after (.inl hlog)
  cases o with
  | query via q =>
    cases via with
    | tx =>
      rcases query_tx_done hx with ⟨err, rfl, rfl, rfl⟩ | ⟨tx, snap, rows, ws, eff, -, -, -, -, -, -, rfl, -, rfl⟩
      · exact same (by simp) rfl rfl
      · exact same (by simp) rfl rfl
    | pool =>
      rcases query_pool_done hx with ⟨err, rfl, rfl, rfl⟩ | ⟨snap, rows, ws, eff, -, -, rfl, hres, -, rfl, rfl, rfl⟩
      · exact same (by simp) rfl rfl
      · have hother : ∀ w ∈ ws, (Key.table w.key) ≠ .chunks := by
          rcases hm.2 with hq | ⟨-, input, rfl⟩
          · exact fun w hw => (hq _ _ _ _ _ _ hu hres w hw).chunks
          · obtain ⟨x, -, -, -, -, -, rfl⟩ := insert_ok hres
            intro w hw
            rw [List.mem_singleton.1 hw]
            exact fun h => by cases h
        exact .same (fun z => mem_chunks_congr (others_chunks hother z)) (next_reached (by simp) hm hn).after
          (.inr ⟨ws, rfl, hother⟩)
  | begin => rcases begin_done hx with ⟨err, rfl, rfl, rfl⟩ | ⟨rfl, rfl, rfl⟩ <;> exact same (by simp) rfl rfl
  | rollback =>
    obtain ⟨rfl, rfl⟩ := rollback_done hx
    exact same (by simp) rfl rfl
  | outer x =>
    obtain ⟨-, -, rfl⟩ := outer_done hx
    exact same (by simp) rfl rfl
  | commit =>
    rcases commit_done hx with ⟨err, rfl, rfl, rfl⟩ | ⟨rfl, rfl, rfl⟩
    · obtain rfl : t = .idle := hn
      exact .same (fun z => Iff.rfl) (fun ht => ht.elim) (.inl rfl)
    · rcases hm with rfl | ⟨r, k, rfl⟩ | ⟨dead, rfl⟩
      · have hother : ∀ w ∈ conn.writes, (Key.table w.key) ≠ .chunks := by
          intro w hw
          cases htx : conn.tx with
          | none => simp [Client.writes, htx] at hw
          | some tx => exact (h.core tx htx w (by simpa [Client.writes, htx] using hw)).chunks
        exact .same (fun z => mem_chunks_congr (others_chunks hother z)) (fun _ => .inr (hn.2.2 rfl))
          (.inr ⟨_, rfl, hother⟩)
      · have hcore : Entered st req i conn sv r k { r with s3Key := k } := h.core
        obtain ⟨tx, htx, hins, -, hws⟩ := hcore.tx
        have hw : conn.writes = tx.writes := by simp [Client.writes, htx]
        refine .came r k rfl (hn.1 r k rfl) conn.writes rfl (hw ▸ hins) (fun w hw' => ?_) fun z => ?_
        · exact (hws w (hw ▸ hw')).imp (fun hk => hk.chunks) fun hk => hk.2
        · simpa [Server.release, Server.apply, hw] using hcore.rows htx (hview tx htx) z
      · have hcore : Dropping i conn sv dead := h.core
        obtain ⟨tx, htx, -, hws⟩ := hcore.tx
        have hw : conn.writes = tx.writes := by simp [Client.writes, htx]
        refine .went dead rfl (hn.2.1 dead rfl) conn.writes rfl (fun w hw' => ?_) fun z => ?_
        · exact (hws w (hw ▸ hw')).imp_left fun hk => hk.chunks
        · simpa [Server.release, Server.apply, hw] using hcore.gone htx z

omit [DecidableEq ι] in
/-- A snapshot is taken. -/
theorem Holds.look (h : Holds st req i conn sv s) (hseqs : ∀ r ∈ chunksT.rows sv.db, Canonical sv.db r) :
    Holds st req i { conn with snap := some sv.look } sv s := by
  refine ⟨?_, h.announced, h.swept, h.committed⟩
  have hcore := h.core
  cases s with
  | locked x =>
    refine ⟨hcore.1, hcore.2.1, fun s hs r hr => ?_⟩
    obtain rfl := Option.some.inj hs
    exact (hseqs r hr).1
  | idle => exact hcore
  | filed r k => exact hcore
  | owing dead => exact hcore
  | ended => exact hcore
  | dropped dead => exact ⟨hcore.rows, hcore.told, hcore.tx⟩
  | reserved r k | stored r k | keyed r k =>
    have hcore : Entered st req i conn sv r k _ := hcore
    exact ⟨hcore.triple, hcore.seq, hcore.named, hcore.addressed, hcore.lock, hcore.slot, hcore.fresh, hcore.absent,
      hcore.tx⟩

/-- A client that has returned drops its transaction. -/
theorem Holds.close (h : Holds st req i conn sv s) {a : Outcome} (ha : Replies s a) :
    ∃ t, Replies t a ∧ (t = s ∨ t = .idle) ∧ Holds st req i { conn with tx := none } (sv.release i) t := by
  by_cases hs : s.after
  · refine ⟨s, ha, .inl rfl, ?_, h.announced, h.swept, h.committed⟩
    cases s with
    | filed r k => exact ⟨rfl, h.core.2⟩
    | owing dead => exact ⟨rfl, h.core.2⟩
    | ended => exact rfl
    | _ => exact hs.elim
  · refine ⟨.idle, ⟨(fun dead h => by cases h), fun r hr hd => ?_⟩, .inr rfl, ⟨(fun t ht => by cases ht), fun hann => ?_,
      fun hsw => ?_, fun hc => absurd (h.committed hc) hs⟩⟩
    · obtain ⟨row, k, rfl⟩ := ha.2 r hr hd
      exact absurd trivial hs
    · obtain ⟨r, k, rfl⟩ := h.announced hann
      exact absurd trivial hs
    · obtain rfl := h.swept hsw
      exact absurd trivial hs

end

/-! ## Runs -/

section
variable {ι : Type} [DecidableEq ι] {st : AppState} {reqs : ι → Request} {sv₀ : Sv ι}

/-- Chunk rows are as uploads leave them. -/
def AllCanonical (db : Db) : Prop := ∀ r ∈ chunksT.rows db, Canonical db r

/-- The invariant rule for clients that touch sessions and chunks: they stand
where their stages say, every chunk row is canonical, and `K` relates the
clients to each other and to the world. -/
theorem run_chunks {guard : Clients ι Row Env Io Outcome → ι → Env → Prop}
    {K : (ι → Stage) → Clients ι Row Env Io Outcome → Prop} {c : Clients ι Row Env Io Outcome}
    (hreqs : ∀ i, Touches (reqs i)) (hstart : sv₀.Quiescent) (hempty : chunksT.rows sv₀.db = [])
    (startK : K (fun _ => .idle) (Service.start st reqs sv₀))
    (lookK : ∀ c g i o k, K g c → (c.threads i).prog = .op o k →
      K g (c.put i ⟨.op o k, { (c.threads i).loc with snap := some c.shared.look }⟩ c.shared))
    (doneK : ∀ c g i e o k r l sv t, Orderly c → AllCanonical c.shared.db →
      (∀ j, Holds st (reqs j) j (c.threads j).loc c.shared (g j)) →
      (∀ j, (c.threads j).prog.Follows (protocol st (reqs j)) Replies (g j)) → K g c → guard c i e →
      (c.threads i).prog = .op o k → (protocol st (reqs i)).may (g i) o →
      machine.exec i e (c.threads i).loc c.shared o = some (some r, l, sv) → (protocol st (reqs i)).next (g i) o r t →
      Holds st (reqs i) i l sv t → K (Function.update g i t) (c.put i ⟨k r, l⟩ sv))
    (closeK : ∀ c g i e a t, K g c → guard c i e → (c.threads i).prog = .ret a → Replies (g i) a →
      t = g i ∨ t = .idle → Holds st (reqs i) i (c.threads i).loc c.shared (g i) →
      K (Function.update g i t) (c.put i ⟨.ret a, { (c.threads i).loc with tx := none }⟩ (c.shared.release i)))
    (h : Run machine guard (Service.start st reqs sv₀) c) :
    AllCanonical c.shared.db ∧ Logged (fun db i ws => Commits (isCreate (reqs i)) db ws) sv₀.db c.shared.log ∧
      ∃ g : ι → Stage, K g c ∧ ∀ i, Holds st (reqs i) i (c.threads i).loc c.shared (g i) ∧
        (c.threads i).prog.Follows (protocol st (reqs i)) Replies (g i) := by
  have ho : Orderly (Service.start st reqs sv₀) := Orderly.start hstart
  have hcanon : ∀ {c : Clients ι Row Env Io Outcome}, c.shared.db = replay sv₀.db c.shared.log →
      Logged (fun db i ws => Commits (isCreate (reqs i)) db ws) sv₀.db c.shared.log → AllCanonical c.shared.db := by
    intro c hdb hL
    rw [hdb]
    exact canonical_replay hL hempty
  have hstays : ∀ (c c' : Clients ι Row Env Io Outcome) i j e s, Orderly c → guard c i e → c.step machine i e = some c' →
      j ≠ i → (∀ ws, c'.shared.log = c.shared.log ++ [(i, ws)] → Commits (isCreate (reqs i)) c.shared.db ws) →
      Holds st (reqs j) j (c.threads j).loc c.shared s → Holds st (reqs j) j (c.threads j).loc c'.shared s :=
    fun c c' i j e s ho _ hs hj hφ hH => hH.stays (fun i => isCreate (reqs i)) ho hs hj hφ
  obtain ⟨hL, g, hK, hg⟩ := Run.clientsWith (H := fun i s l sv => Holds st (reqs i) i l sv s) (G := fun _ => .idle)
      (P := fun i => protocol st (reqs i)) (Q := fun _ => Replies) (R := fun s t => t = s ∨ t = .idle) (φ := fun db i ws => Commits (isCreate (reqs i)) db ws)
      (K := K) hstart.log ho (fun i => ⟨(fun t ht => by cases ht), (fun h => by cases h), (fun h => by cases h), (fun h => by cases h)⟩) startK
      (fun i => handle_follows st (hreqs i)) hstays
      (fun c i s hdb hL hH _ => hH.look (hcanon hdb hL))
      (fun c i e o k r l sv s ho _ _ _ _ hm hH hx => hH.done ho.unique (ho.view i) (ho.snapshot i) hm hx)
      (fun i s a l sv hH hQ => hH.close hQ)
      (fun c g i e o k hK _ hp _ _ => lookK c g i o k hK hp)
      (fun c g i e o k r l sv t ho hdb hL hH hF hK hg hp hm hx hn hHt =>
        doneK c g i e o k r l sv t ho (hcanon hdb hL) hH hF hK hg hp hm hx hn hHt)
      (fun c g i e a t hH hK hg hp hQ _ hR => closeK c g i e a t hK hg hp hQ hR (hH i)) h
  exact ⟨hcanon (Run.replay hstart.log ho h) hL, hL, g, hK, hg⟩

/-! ### Keys -/

/-- Rows of one session with one key are one row. -/
theorem canonical_inj {db : Db} (hu : KeysUnique db) {r r' : ChunkRow} (hr : r ∈ chunksT.rows db)
    (hr' : r' ∈ chunksT.rows db) (hc : Canonical db r) (hc' : Canonical db r') (hs : r.sessionId = r'.sessionId)
    (hk : r.s3Key = r'.s3Key) : r = r' := by
  obtain ⟨-, hn, pre, hpre, hkey⟩ := hc
  obtain ⟨-, hn', pre', hpre', hkey'⟩ := hc'
  rw [hkey, hkey'] at hk
  obtain ⟨-, hpid, hseq⟩ := ChunkRoutes.chunkKey_inj hn hn' hk
  have h₁ := hu.lookup_eq (chunksT.mem_rows.1 hr)
  have h₂ := hu.lookup_eq (chunksT.mem_rows.1 hr')
  have hkeys : key (chunksT.put r) = key (chunksT.put r') := by
    show Key.chunk r.sessionId r.pseudoId r.seq = Key.chunk r'.sessionId r'.pseudoId r'.seq
    rw [hs, hpid, hseq]
  rw [hkeys, h₂] at h₁
  exact (chunksT.put_inj (Option.some.inj h₁)).symm

/-- In every state any interleaving of the handlers reaches, whatever fails:
each chunk row is numbered from zero and has the key its session's prefix,
its pseudonym and its number make; such keys are equal only where all three
are, so no two rows of a session share one. -/
theorem chunk_keys_canonical (st : AppState) (reqs : ι → Request) (hreqs : ∀ i, Touches (reqs i)) (sv₀ : Sv ι)
    (hstart : sv₀.Quiescent) (hempty : chunksT.rows sv₀.db = []) {c : Clients ι Row Env Io Outcome}
    (h : Run machine (fun _ _ _ => True) (Service.start st reqs sv₀) c) :
    (∀ r ∈ chunksT.rows c.shared.db, 0 ≤ r.seq ∧ ∃ s ∈ sessionsT.rows c.shared.db, s.id = r.sessionId ∧
      r.s3Key = s.s3Prefix ++ "/audio/" ++ r.pseudoId.raw ++ "/chunk_" ++ ChunkRoutes.pad6 r.seq ++ ".pcm") ∧
    (∀ (pre pre' : String) (pid pid' : PseudoId) (n n' : Int), Named pid → Named pid' →
      ChunkRoutes.chunkKey pre pid n = ChunkRoutes.chunkKey pre' pid' n' → pre = pre' ∧ pid = pid' ∧ n = n') ∧
    ∀ r ∈ chunksT.rows c.shared.db, ∀ r' ∈ chunksT.rows c.shared.db, r.sessionId = r'.sessionId → r.s3Key = r'.s3Key →
      r = r' := by
  have ho : Orderly (Service.start st reqs sv₀) := Orderly.start hstart
  obtain ⟨hcanon, -⟩ := run_chunks (K := fun _ _ => True) hreqs hstart hempty trivial (fun _ _ _ _ _ _ _ => trivial)
    (fun _ _ _ _ _ _ _ _ _ _ _ _ _ _ _ _ _ _ _ _ _ => trivial) (fun _ _ _ _ _ _ _ _ _ _ _ _ => trivial) h
  refine ⟨fun r hr => ?_, fun pre pre' pid pid' n n' hp hp' => ChunkRoutes.chunkKey_inj hp hp', fun r hr r' hr' => ?_⟩
  · obtain ⟨hseq, -, pre, hpre, hkey⟩ := hcanon r hr
    obtain ⟨s, hs, rfl⟩ := prefixOf_some hpre
    obtain ⟨hmem, hid⟩ := lookup_mem hs
    exact ⟨hseq, s, sessionsT.mem_rows.2 hmem, Key.session.inj hid, hkey⟩
  · exact canonical_inj (Run.orderly ho h).unique hr hr' (hcanon r hr) (hcanon r' hr')

end

/-- An upload, and a cascade of its session that comes too late to meet it. -/
def sampleRequests : Fin 2 → Request
  | 0 => .upload "bot" (Sample.chunk 'a' [1])
  | 1 => .deleteCascade "bot" Sample.sessionId

theorem chunk_keys_canonical_sample : ∃ c : Clients (Fin 2) Row Env Io Outcome, ∃ r ∈ chunksT.rows c.shared.db,
    0 ≤ r.seq ∧ ∃ s ∈ sessionsT.rows c.shared.db, s.id = r.sessionId ∧
      r.s3Key = s.s3Prefix ++ "/audio/" ++ r.pseudoId.raw ++ "/chunk_" ++ ChunkRoutes.pad6 r.seq ++ ".pcm" := by
  have hrun : ((Service.start Sample.state sampleRequests (Sample.server [.session Sample.session])).play machine
      (Sample.moves 0 [(1, 1), (0, 17)])).map (fun c => (chunksT.rows c.shared.db).length) = some 1 := by decide +kernel
  obtain ⟨c, hc, hlen⟩ := Option.map_eq_some_iff.1 hrun
  obtain ⟨r, hr⟩ := List.length_eq_one_iff.1 hlen
  have hmem : r ∈ chunksT.rows c.shared.db := by rw [hr]; simp
  refine ⟨c, r, hmem, ?_⟩
  exact (chunk_keys_canonical Sample.state sampleRequests (by
      intro i
      match i with
      | 0 => trivial
      | 1 => trivial) (Sample.server [.session Sample.session]) ⟨by decide, rfl, rfl⟩ rfl
    (Run.play (Config.guarded_of_all (fun _ _ _ => trivial) _) .nil hc)).1 r hmem

end DataApi.ChunkLife
