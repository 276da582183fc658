/-
Bulk inserts into one session at once. The ids that are there are looked up
without a lock, so a batch whose lookup falls between the lookup of another
and its commit enters an id the other enters too, and the second to insert it
is refused (`batches_collide`). When batches that overlap so share only ids
that are there already, each new id is entered by one of them, and the others
find it.
-/
import DataApi.Proofs.BulkDedup
import DataApi.Proofs.UploadRetry

namespace DataApi.BulkRace

open Relational ReadCommitted Resumption Handler DataApi.Uniform
open BulkDedup (taken newInputs Storable Readable mem_taken taken_append)
open UploadRetry (looks underway)

/-! ## The requests -/

/-- Batches for one table of one session, each of distinct client ids. What
has to be entered can be, and reads back. -/
structure Batches (ι : Type) where
  rt : ResourceTable
  sid : Uuid
  svc : ι → String
  inputs : ι → List CreateInput
  server : Sv ι
  distinct : ∀ i, ((inputs i).map (·.clientId)).Nodup
  valid : ∀ i, validateInputs rt (inputs i) = .ok ()
  readable : ∀ i, ∀ x ∈ inputs i, x.clientId ∉ taken rt sid server.db → Storable x ∧ Readable rt x
  quiescent : server.Quiescent
  intact : Intact server.db
  exists_ : Present (Key.session sid) server.db

abbrev Inserts (ι : Type) : Type := Clients ι Row Env Io (Except AppError BulkResult)

namespace Batches

variable {ι : Type} (B : Batches ι)

def start : Inserts ι where
  threads := fun i => ⟨(bulkInsert B.rt B.sid (B.svc i) (B.inputs i)).run, {}⟩
  shared := B.server

/-- The client ids batch `i` submits. -/
def ids (i : ι) : List String := (B.inputs i).map (·.clientId)

/-- The client ids that are there. -/
def there (db : Db) : List String := taken B.rt B.sid db

def row (r : UniformPgRow) : Row := .uniform B.rt r

end Batches

/-! ## The condition -/

/-- A batch whose lookup takes its snapshot shares with each batch that is
past its own only ids that are there. -/
def Apart {ι : Type} (B : Batches ι) (c : Inserts ι) (i : ι) : Prop :=
  looks (c.threads i).loc = true → ∀ j, j ≠ i → underway (c.threads j).loc = true →
    ∀ id ∈ B.ids i, id ∈ B.ids j → id ∈ B.there c.shared.db

/-- Nothing fails, and `gen_random_uuid()` draws no id of a row, committed or
not. -/
structure Calm {ι : Type} (B : Batches ι) (c : Inserts ι) (e : Env) : Prop where
  database : e.fails = false
  fresh : ¬Present (Key.uniform B.rt (e.uuid 0)) c.shared.db
  unused : ∀ j, ∀ w ∈ (c.threads j).loc.writes, w.key ≠ .uniform B.rt (e.uuid 0)

def Guard {ι : Type} (B : Batches ι) (c : Inserts ι) (i : ι) (e : Env) : Prop := Calm B c e ∧ Apart B c i

/-! ## What is reported -/

def ReportsInserted {ι : Type} (c : Inserts ι) (i : ι) (id : String) : Prop :=
  ∃ r, c.returned i = some (.ok r) ∧ id ∈ r.inserted.map (·.clientId)

def ReportsDuplicate {ι : Type} (c : Inserts ι) (i : ι) (id : String) : Prop :=
  ∃ r, c.returned i = some (.ok r) ∧ id ∈ r.deduplicatedClientIds

/-! ## The protocol of a batch -/

/-- `entering` has the ids found, the rows entered and the inputs to come. -/
inductive Stage
  | fresh
  | opened
  | entering (found : List String) (done : List UniformPgRow) (rest : List CreateInput)
  | committed (found : List String) (done : List UniformPgRow)

section
variable {ι : Type} (B : Batches ι) (i : ι)

/-- The answer of the lookup splits the batch. -/
structure Looked (rows : List Row) (found : List String) (rest : List CreateInput) : Prop where
  there : found = ((uniformT B.rt).rows rows).map (·.clientId)
  new : rest = (B.inputs i).filter fun x => !found.contains x.clientId
  readable : ∀ x ∈ rest, Storable x ∧ Readable B.rt x

/-- No answer is an error. -/
def protocol : Protocol (@Answer Row Key Uniq Env Io World _ _) Stage where
  may s
    | .begin => s = .fresh
    | .query .tx (.select p) => s = .opened ∧ Stmt.select p = existingSql B.rt B.sid (B.ids i)
    | .query .tx (.insert mk) => ∃ found done x rest etag, s = .entering found done (x :: rest) ∧
        .insert mk = insertRowSql B.rt B.sid (B.svc i) x etag
    | .commit => ∃ found done, s = .entering found done []
    | .outer .newEtag => ∃ found done rest, s = .entering found done rest
    | _ => False
  next s
    | .begin, .ok _, t => t = .opened
    | .query .tx (.select _), .ok rows, t => ∃ found rest, Looked B i rows found rest ∧ t = .entering found [] rest
    | .query .tx (.insert _), .ok rows, t => ∃ found done x rest etag env, s = .entering found done (x :: rest) ∧
        rows = [B.row (freshRow B.rt B.sid (B.svc i) x etag env)] ∧
        t = .entering found (done ++ [freshRow B.rt B.sid (B.svc i) x etag env]) rest
    | .commit, .ok _, t => ∃ found done, s = .entering found done [] ∧ t = .committed found done
    | .outer .newEtag, _, t => t = s
    | _, _, _ => False

/-- A batch that was empty, or one that was committed. -/
def Answers (s : Stage) (a : Except AppError BulkResult) : Prop :=
  (s = .fresh ∧ B.inputs i = [] ∧ a = .ok { inserted := [], deduplicatedClientIds := [] }) ∨
  ∃ found done outs, s = .committed found done ∧ List.Forall₂ (fun r out => rowFromPg r = .ok out) done outs ∧
    a = .ok { inserted := outs, deduplicatedClientIds := found }

theorem rows_follow {Q : Stage → Except AppError BulkResult → Prop} {found : List String} : ∀ {rest : List CreateInput}
    {done : List UniformPgRow} {f : List UniformRow → Handler BulkResult}, (∀ x ∈ rest, Storable x ∧ Readable B.rt x) →
    (∀ rows outs, List.Forall₂ (fun r out => rowFromPg r = .ok out) rows outs →
      Prog.Follows (protocol B i) Q (.entering found (done ++ rows) []) (f outs).run) →
    Prog.Follows (protocol B i) Q (.entering found done rest) (Uniform.insertRows B.rt B.sid (B.svc i) rest >>= f).run := by
  intro rest
  induction rest with
  | nil =>
    intro done f _ hf
    have hend := hf [] [] .nil
    rw [List.append_nil] at hend
    exact hend
  | cons x rest ih =>
    intro done f hrest hf
    rw [Uniform.insertRows]
    simp only [bind_assoc]
    refine follows_newEtag ⟨_, _, _, rfl⟩ fun etag t ht => ?_
    obtain rfl : t = .entering found done (x :: rest) := ht
    rw [insertRowInTx]
    simp only [bind_assoc, pure_bind]
    refine follows_fetchOne ⟨_, _, _, _, etag, rfl, rfl⟩ (fun e t ht => ht.elim) (fun rows t ht hnone => ?_)
      fun rows t row ht hrow => ?_
    · obtain ⟨_, _, _, _, _, _, -, rfl, -⟩ := ht
      cases hnone.symm.trans ((uniformT B.rt).head_put _)
    · obtain ⟨found', done', x', rest', etag', env, hs, rfl, rfl⟩ := ht
      obtain ⟨rfl, rfl, rfl, rfl⟩ : found = found' ∧ done = done' ∧ x = x' ∧ rest = rest' := by simpa using hs
      obtain ⟨hstorable, hreadable⟩ := hrest x (by simp)
      have hreads : EtagHistory.Reads row := by
        obtain rfl := Option.some.inj (((uniformT B.rt).head_put _).symm.trans hrow)
        exact (BulkDedup.reads_fresh hstorable).2 hreadable
      obtain rfl := Option.some.inj (((uniformT B.rt).head_put _).symm.trans hrow)
      refine follows_ofResult (fun e he => ?_) fun out hout => ?_
      · obtain ⟨out, hout⟩ := hreads
        rw [hout] at he; cases he
      · refine ih (fun y hy => hrest y (List.mem_cons_of_mem _ hy)) fun rows outs hrows => ?_
        have hend := hf (_ :: rows) (out :: outs) (.cons hout hrows)
        rw [List.append_assoc, List.singleton_append]
        exact hend

theorem bulk_follows : Prog.Follows (protocol B i) (Answers B i) .fresh
    (bulkInsert B.rt B.sid (B.svc i) (B.inputs i)).run := by
  rw [bulkInsert]
  cases hinputs : (B.inputs i).isEmpty with
  | true => exact .inl ⟨rfl, List.isEmpty_iff.1 hinputs, rfl⟩
  | false =>
    refine follows_ofResult (fun e he => ?_) fun _ _ => ?_
    · rw [B.valid i] at he; cases he
    refine follows_begin rfl (fun e t ht => ht.elim) fun t ht => ?_
    obtain rfl : t = .opened := ht
    refine follows_fetchAll ⟨rfl, rfl⟩ (fun e t ht => ht.elim) fun rows t ht => ?_
    obtain ⟨found, rest, hlooked, rfl⟩ := ht
    obtain rfl := hlooked.there
    obtain rfl := hlooked.new
    refine rows_follow B i hlooked.readable fun rows outs houts => ?_
    refine follows_commit ⟨_, _, rfl⟩ (fun e t ht => ht.elim) fun t ht => ?_
    obtain ⟨found, done, hs, rfl⟩ := ht
    obtain ⟨rfl, rfl⟩ : _ = found ∧ rows = done := by simpa using hs
    exact follows_pure (.inr ⟨_, _, outs, rfl, houts, rfl⟩)

end

/-! ## What a stage means -/

/-- The rows that are entered and not committed. -/
def Stage.rows : Stage → List UniformPgRow
  | .entering _ done _ => done
  | _ => []

section
variable {ι : Type} (B : Batches ι)

/-- The ids a batch has entered or is about to enter. -/
def own (i : ι) (c : Conn) : Stage → List String
  | .fresh => []
  | .opened => match c.snap with
    | none => []
    | some snap => (newInputs B.rt B.sid snap.rows (B.inputs i)).map (·.clientId)
  | .entering _ done rest => done.map (·.clientId) ++ rest.map (·.clientId)
  | .committed _ done => done.map (·.clientId)

/-- The batch is split into what was there and what is its own. -/
structure Split (i : ι) (found own : List String) (db : Db) : Prop where
  covers : ∀ id, id ∈ B.ids i ↔ id ∈ found ∨ id ∈ own
  there : ∀ id ∈ found, id ∈ B.there db

/-- Inside the loop. -/
structure Entering (i : ι) (c : Conn) (db : Db) (found : List String) (done : List UniformPgRow)
    (rest : List CreateInput) : Prop where
  hist : 2 ≤ c.hist.length
  tx : ∃ t, c.tx = some t ∧ t.writes = done.map fun r => .insert (B.row r)
  split : Split B i found (done.map (·.clientId) ++ rest.map (·.clientId)) db
  distinct : (done.map (·.clientId) ++ rest.map (·.clientId)).Nodup
  new : ∀ id ∈ done.map (·.clientId) ++ rest.map (·.clientId), id ∉ B.there db
  readable : ∀ x ∈ rest, Storable x ∧ Readable B.rt x
  inSession : ∀ r ∈ done, r.sessionId = B.sid
  intact : Intact (db ++ done.map B.row)

structure Opened (i : ι) (c : Conn) (db : Db) : Prop where
  hist : c.hist.length = 1
  tx : ∃ t, c.tx = some t ∧ t.writes = []
  snap : ∀ s, c.snap = some s → (∀ r ∈ B.server.db, r ∈ s.rows) ∧ ∀ r ∈ s.rows, r ∈ db
  new : ∀ s, c.snap = some s → ∀ id ∈ B.ids i, id ∉ B.there s.rows → id ∉ B.there db

structure Committed (i : ι) (c : Conn) (db : Db) (found : List String) (done : List UniformPgRow) : Prop where
  tx : c.tx = none
  split : Split B i found (done.map (·.clientId)) db
  entered : ∀ r ∈ done, r.sessionId = B.sid ∧ B.row r ∈ db

def Holds (i : ι) (c : Conn) (db : Db) : Stage → Prop
  | .fresh => c.tx = none ∧ c.snap = none ∧ c.hist = []
  | .opened => Opened B i c db
  | .entering found done rest => Entering B i c db found done rest
  | .committed found done => Committed B i c db found done

/-- Locks are on the session, or on rows their client has entered. -/
def Locks (s : Stage) (n : Need Key Uniq) : Prop :=
  n = (.row (.session B.sid), .keyShare) ∨
    ∃ r ∈ s.rows, n.1 = .row (.uniform B.rt r.id) ∨ n.1 ∈ slots (B.row r)

structure Invariant (g : ι → Stage) (c : Inserts ι) : Prop where
  intact : Intact c.shared.db
  kept : ∀ r ∈ B.server.db, r ∈ c.shared.db
  origin : ∀ id ∈ B.there c.shared.db, id ∈ B.there B.server.db ∨
    ∃ i found done, g i = .committed found done ∧ id ∈ done.map (·.clientId)
  apart : ∀ i j, i ≠ j → ∀ id ∈ own B i (c.threads i).loc (g i), id ∉ own B j (c.threads j).loc (g j)
  unlike : ∀ i j, i ≠ j → ∀ r ∈ (g i).rows, ∀ r' ∈ (g j).rows, r.id ≠ r'.id
  locks : ∀ l ∈ c.shared.locks, Locks B (g l.1) l.2
  holds : ∀ i, Holds B i (c.threads i).loc c.shared.db (g i)

variable {B} {g : ι → Stage} {c : Inserts ι} {i : ι} {s t : Stage} {conn l : Conn} {sv : Sv ι} {db : Db} {e : Env}

theorem mem_own_opened {id : String} : id ∈ own B i conn .opened ↔
    ∃ snap, conn.snap = some snap ∧ id ∈ B.ids i ∧ id ∉ B.there snap.rows := by
  cases hsnap : conn.snap with
  | none => simp [own, hsnap]
  | some snap =>
    simp only [own, hsnap, newInputs, List.mem_map, List.mem_filter, Option.some.injEq, exists_eq_left', Batches.ids,
      Batches.there, Bool.not_eq_eq_eq_not, Bool.not_true, List.contains_eq_mem, decide_eq_false_iff_not]
    constructor
    · rintro ⟨x, ⟨hx, hno⟩, rfl⟩
      exact ⟨⟨x, hx, rfl⟩, hno⟩
    · rintro ⟨⟨x, hx, rfl⟩, hno⟩
      exact ⟨x, ⟨hx, hno⟩, rfl⟩

/-- A batch's own ids are of its inputs. -/
theorem Holds.own_ids (h : Holds B i conn db s) : ∀ id ∈ own B i conn s, id ∈ B.ids i := by
  intro id hid
  cases s with
  | fresh => cases hid
  | opened =>
    obtain ⟨-, -, hid, -⟩ := mem_own_opened.1 hid
    exact hid
  | entering found done rest => exact (h.split.covers id).2 (.inr hid)
  | committed found done => exact (h.split.covers id).2 (.inr hid)

/-- What is entered is not there yet, and what is committed is. -/
theorem Holds.own_there (h : Holds B i conn db s) {id : String} (hid : id ∈ own B i conn s) :
    (id ∈ B.there db ∧ conn.tx = none) ∨ (id ∉ B.there db ∧ underway conn = true) := by
  cases s with
  | fresh => cases hid
  | opened =>
    obtain ⟨snap, hsnap, hid, hnew⟩ := mem_own_opened.1 hid
    obtain ⟨t, ht, -⟩ := h.tx
    exact .inr ⟨h.new snap hsnap id hid hnew, by simp [underway, ht, hsnap]⟩
  | entering found done rest =>
    obtain ⟨t, ht, -⟩ := h.tx
    exact .inr ⟨h.new id hid, by simp [underway, ht, h.hist]⟩
  | committed found done =>
    obtain ⟨r, hr, rfl⟩ := List.mem_map.1 hid
    obtain ⟨hs, hdb⟩ := h.entered r hr
    exact .inl ⟨mem_taken.2 ⟨r, (uniformT B.rt).mem_rows.2 hdb, hs, rfl⟩, h.tx⟩

/-- The open transaction has written the rows of its stage. -/
theorem Holds.writes (h : Holds B i conn db s) : conn.writes = s.rows.map fun r => .insert (B.row r) := by
  cases s with
  | fresh => simp [Client.writes, h.1, Stage.rows]
  | opened =>
    obtain ⟨t, ht, hw⟩ := h.tx
    simp [Client.writes, ht, hw, Stage.rows]
  | entering found done rest =>
    obtain ⟨t, ht, hw⟩ := h.tx
    simp [Client.writes, ht, hw, Stage.rows]
  | committed found done => simp [Client.writes, h.tx, Stage.rows]

/-- Rows of distinct ids and client ids take no index entry of each other. -/
theorem slots_apart {r r' : UniformPgRow} (hid : r.id ≠ r'.id) (hclient : r.clientId ≠ r'.clientId) :
    ∀ k ∈ slots (B.row r), k ∉ slots (B.row r') := by
  intro k hk hk'
  rw [Batches.row, BulkDedup.uniform_slots] at hk hk'
  simp only [List.mem_cons, List.not_mem_nil, or_false] at hk hk'
  rcases hk with rfl | rfl
  · simp [hid] at hk'
  · simp [hclient] at hk'

theorem applyAll_rows (rows : List UniformPgRow) :
    applyAll (rows.map fun r => Write.insert (B.row r)) db = db ++ rows.map B.row := by
  have := applyAll_inserts (rows.map B.row) db
  rwa [List.map_map] at this

/-- Another batch commits its rows. -/
theorem Holds.grow (h : Holds B i conn db s) {rows : List UniformPgRow} (hdb : Intact (db ++ rows.map B.row))
    (hown : ∀ id ∈ own B i conn s, id ∉ rows.map (·.clientId)) (hunlike : ∀ r ∈ s.rows, ∀ r' ∈ rows, r.id ≠ r'.id) :
    Holds B i conn (db ++ rows.map B.row) s := by
  have hthere : ∀ {id}, id ∈ B.there db → id ∈ B.there (db ++ rows.map B.row) :=
    BulkDedup.taken_mono fun r hr => List.mem_append_left _ hr
  have hnew : ∀ {id}, id ∈ B.there (db ++ rows.map B.row) → id ∈ B.there db ∨ id ∈ rows.map (·.clientId) := by
    intro id hid
    rw [Batches.there, taken_append, List.mem_append] at hid
    refine hid.imp_right fun hid => ?_
    obtain ⟨r, hr, -, rfl⟩ := mem_taken.1 hid
    obtain ⟨r', hr', heq⟩ := List.mem_map.1 ((uniformT B.rt).mem_rows.1 hr)
    exact List.mem_map.2 ⟨r', hr', by rw [(uniformT B.rt).put_inj heq]⟩
  cases s with
  | fresh => exact h
  | opened =>
    refine ⟨h.hist, h.tx, fun snap hs => ⟨(h.snap snap hs).1, fun r hr => List.mem_append_left _ ((h.snap snap hs).2 r hr)⟩,
      fun snap hs id hid hno hthere => ?_⟩
    rcases hnew hthere with hthere | hthere
    · exact h.new snap hs id hid hno hthere
    · exact hown id (mem_own_opened.2 ⟨snap, hs, hid, hno⟩) hthere
  | entering found done rest =>
    refine ⟨h.hist, h.tx, ⟨h.split.covers, fun id hid => hthere (h.split.there id hid)⟩, h.distinct, fun id hid hthere => ?_,
      h.readable, h.inSession, hdb.append h.intact fun x hx y hy k hk hk' => ?_⟩
    · rcases hnew hthere with hthere | hthere
      · exact h.new id hid hthere
      · exact hown id hid hthere
    · obtain ⟨r', hr', rfl⟩ := List.mem_map.1 hx
      obtain ⟨r, hr, rfl⟩ := List.mem_map.1 hy
      refine slots_apart (hunlike r hr r' hr') (fun hclient => ?_) k hk' hk
      exact hown r.clientId (List.mem_append_left _ (List.mem_map.2 ⟨r, hr, rfl⟩)) (List.mem_map.2 ⟨r', hr', hclient.symm⟩)
  | committed found done =>
    exact ⟨h.tx, ⟨h.split.covers, fun id hid => hthere (h.split.there id hid)⟩,
      fun r hr => ⟨(h.entered r hr).1, List.mem_append_left _ (h.entered r hr).2⟩⟩

variable [DecidableEq ι]

/-- Batch `i` moved and committed nothing. -/
theorem Invariant.put {p} (h : Invariant B g c) (hdb : sv.db = c.shared.db)
    (hopen : ∀ found done, g i ≠ .committed found done)
    (hown : ∀ id ∈ own B i l t, id ∈ own B i (c.threads i).loc (g i) ∨ ∀ j, j ≠ i → id ∉ own B j (c.threads j).loc (g j))
    (hunlike : ∀ r ∈ t.rows, r ∈ (g i).rows ∨ ∀ j, j ≠ i → ∀ r' ∈ (g j).rows, r.id ≠ r'.id)
    (hkeep : ∀ r ∈ (g i).rows, r ∈ t.rows) (hlocks : ∀ k ∈ sv.locks, k ∈ c.shared.locks ∨ (k.1 = i ∧ Locks B t k.2))
    (hholds : Holds B i l sv.db t) : Invariant B (Function.update g i t) (c.put i ⟨p, l⟩ sv) where
  intact := by rw [Config.put_shared, hdb]; exact h.intact
  kept := by rw [Config.put_shared, hdb]; exact h.kept
  origin := by
    intro id hid
    rw [Config.put_shared, hdb] at hid
    refine (h.origin id hid).imp_right ?_
    rintro ⟨j, found, done, hg, hid⟩
    have hj : j ≠ i := by
      rintro rfl
      exact hopen found done hg
    exact ⟨j, found, done, by rw [Function.update_of_ne hj]; exact hg, hid⟩
  apart := by
    refine Config.put_pairs (P := fun j s m k s' m' => ∀ id ∈ own B j m s, id ∉ own B k m' s')
      (fun j a m k b n hP id hid hid' => hP id hid' hid) h.apart fun j hj id hid => ?_
    rcases hown id hid with hid | hid
    · exact h.apart i j hj.symm id hid
    · exact hid j hj
  unlike := by
    refine Config.put_pairs (c := c) (p := p) (l := l) (s := sv) (P := fun _ (s : Stage) _ _ (s' : Stage) _ => ∀ r ∈ s.rows, ∀ r' ∈ s'.rows, r.id ≠ r'.id)
      (fun j a m k b n hP r hr r' hr' => (hP r' hr' r hr).symm) h.unlike fun j hj r hr => ?_
    rcases hunlike r hr with hr | hr
    · exact h.unlike i j hj.symm r hr
    · exact hr j hj
  locks := by
    intro k hk
    have hold : k ∈ c.shared.locks → Locks B (Function.update g i t k.1) k.2 := by
      intro hk
      by_cases hki : k.1 = i
      · rw [hki, Function.update_self]
        refine (h.locks k hk).imp_right ?_
        rintro ⟨r, hr, hlock⟩
        exact ⟨r, hkeep r (hki ▸ hr), hlock⟩
      · rw [Function.update_of_ne hki]; exact h.locks k hk
    rcases hlocks k hk with hk | ⟨hki, hk⟩
    · exact hold hk
    · rw [hki, Function.update_self]; exact hk
  holds := by
    refine Config.put_each (P := fun j s m => Holds B j m sv.db s) hholds fun j _ => ?_
    rw [hdb]; exact h.holds j

/-! ## The moves -/

omit [DecidableEq ι] in
/-- A lookup under the guard finds nothing of its own with another. -/
theorem Invariant.look_apart (h : Invariant B g c) (hg : Apart B c i) (hl : looks (c.threads i).loc = true) {id : String}
    (hid : id ∈ B.ids i) (hno : id ∉ B.there c.shared.db) :
    ∀ j, j ≠ i → id ∉ own B j (c.threads j).loc (g j) := by
  intro j hj hmine
  rcases (h.holds j).own_there hmine with ⟨hthere, -⟩ | ⟨-, hunder⟩
  · exact hno hthere
  · exact hno (hg hl j hj hunder id hid ((h.holds j).own_ids id hmine))

/-- A statement takes its snapshot. -/
theorem Invariant.look {p} (h : Invariant B g c) (hg : Apart B c i) {q : Sql}
    (hm : (protocol B i).may (g i) (.query .tx q)) (hs : (c.threads i).loc.snap = none) :
    Invariant B g (c.put i ⟨p, { (c.threads i).loc with snap := some c.shared.look }⟩ c.shared) := by
  have hput : Invariant B (Function.update g i (g i))
      (c.put i ⟨p, { (c.threads i).loc with snap := some c.shared.look }⟩ c.shared) := by
    have hh := h.holds i
    cases hgi : g i with
    | opened =>
      rw [hgi] at hh
      obtain ⟨t, ht, -⟩ := hh.tx
      have hl : looks (c.threads i).loc = true := by simp [looks, ht, hh.hist, hs]
      refine h.put rfl (by simp [hgi]) (fun id hid => .inr ?_) (by simp [Stage.rows]) (by simp [hgi, Stage.rows])
        (fun k hk => .inl hk) ⟨hh.hist, hh.tx, ?_, ?_⟩
      · obtain ⟨snap, hsnap, hid, hno⟩ := mem_own_opened.1 hid
        obtain rfl := Option.some.inj hsnap
        exact h.look_apart hg hl hid hno
      · rintro snap hsnap
        obtain rfl := Option.some.inj hsnap
        exact ⟨h.kept, fun r hr => hr⟩
      · rintro snap hsnap id - hno
        obtain rfl := Option.some.inj hsnap
        exact hno
    | entering found done rest =>
      rw [hgi] at hh
      refine h.put rfl (by simp [hgi]) (fun id hid => .inl ?_) (fun r hr => .inl ?_) ?_ (fun k hk => .inl hk)
        ⟨hh.hist, hh.tx, hh.split, hh.distinct, hh.new, hh.readable, hh.inSession, hh.intact⟩
      · rw [hgi]; exact hid
      · rw [hgi]; exact hr
      · rw [hgi]; exact fun r hr => hr
    | fresh => cases q <;> simp [protocol, hgi] at hm
    | committed found done => cases q <;> simp [protocol, hgi] at hm
  rwa [Function.update_eq_self] at hput

theorem Invariant.begin {p} (h : Invariant B g c) (hgi : g i = .fresh) (hl : l = Client.done
    { (c.threads i).loc with tx := some { env := e, writes := [] } } .begin (.ok ())) :
    Invariant B (Function.update g i .opened) (c.put i ⟨p, l⟩ c.shared) := by
  have hh := h.holds i
  rw [hgi] at hh
  subst hl
  refine h.put rfl (by simp [hgi]) (fun id hid => ?_) (by simp [Stage.rows]) (by simp [hgi, Stage.rows])
    (fun k hk => .inl hk) ⟨by simp [Client.done, hh.2.2], ⟨_, rfl, rfl⟩, ?_, ?_⟩
  · obtain ⟨snap, hsnap, -⟩ := mem_own_opened.1 hid
    cases hsnap
  · rintro snap hsnap
    cases hsnap
  · rintro snap hsnap
    cases hsnap

/-- The lookup. -/
theorem Invariant.select {p} {q : Env → Row → Bool} {r : Answer (.query .tx (.select q) : Operation)} (h : Invariant B g c)
    (he : Calm B c e) (hm : (protocol B i).may (g i) (.query .tx (.select q)))
    (hx : machine.exec i e (c.threads i).loc c.shared (.query .tx (.select q)) = some (some r, l, sv)) :
    ∃ t, (protocol B i).next (g i) (.query .tx (.select q)) r t ∧
      Invariant B (Function.update g i t) (c.put i ⟨p, l⟩ sv) := by
  obtain ⟨hgi, hq⟩ := hm
  have hh := h.holds i
  rw [hgi] at hh
  obtain ⟨t, ht, hw⟩ := hh.tx
  obtain ⟨snap, -, hsnap⟩ := exec_done hx
  obtain ⟨hsnap, -⟩ := hsnap _ _ rfl
  obtain ⟨rfl, rfl, _, -, rfl⟩ := query_tx_runs he.database ht
    (snap.rows.filter ((uniformT B.rt).is fun r => r.sessionId = B.sid && (B.ids i).contains r.clientId)) []
    (fun snap' hsnap' => by
      obtain rfl := Option.some.inj (hsnap.symm.trans hsnap')
      rw [hq, hw, applyAll_nil]; rfl) hx
  have hfound : ((uniformT B.rt).rows (snap.rows.filter
      ((uniformT B.rt).is fun r => r.sessionId = B.sid && (B.ids i).contains r.clientId))).map (·.clientId) =
      BulkDedup.found B.rt B.sid (B.inputs i) snap.rows := by
    rw [(uniformT B.rt).rows_filter_is]; rfl
  have hmem : ∀ {id}, id ∈ BulkDedup.found B.rt B.sid (B.inputs i) snap.rows ↔ id ∈ B.ids i ∧ id ∈ B.there snap.rows :=
    BulkDedup.mem_found
  have hnew : ∀ x ∈ newInputs B.rt B.sid snap.rows (B.inputs i), x ∈ B.inputs i ∧ x.clientId ∉ B.there snap.rows :=
    fun x hx => by simpa [newInputs, Batches.there] using hx
  have hreadable : ∀ x ∈ newInputs B.rt B.sid snap.rows (B.inputs i), Storable x ∧ Readable B.rt x := fun x hx =>
    B.readable i x (hnew x hx).1 fun hthere => (hnew x hx).2 (BulkDedup.taken_mono (hh.snap snap hsnap).1 hthere)
  have hown : ∀ {id}, id ∈ (newInputs B.rt B.sid snap.rows (B.inputs i)).map (·.clientId) ↔
      id ∈ B.ids i ∧ id ∉ B.there snap.rows := by
    intro id
    have := @mem_own_opened ι B i (c.threads i).loc id
    simpa [own, hsnap] using this
  refine ⟨.entering (BulkDedup.found B.rt B.sid (B.inputs i) snap.rows) [] (newInputs B.rt B.sid snap.rows (B.inputs i)),
    ⟨_, _, ⟨hfound.symm, (BulkDedup.newInputs_eq _).symm, hreadable⟩, rfl⟩, ?_⟩
  refine h.put rfl (by simp [hgi]) (fun id hid => .inl ?_) (by simp [Stage.rows]) (by simp [hgi, Stage.rows])
    (fun k hk => .inl hk) ⟨by simp [Client.done, hh.hist], ⟨_, rfl, ?_⟩, ⟨fun id => ?_, fun id hid => ?_⟩, ?_,
      fun id hid => ?_, hreadable, by simp, ?_⟩
  · rw [hgi, mem_own_opened]
    exact ⟨snap, hsnap, hown.1 hid⟩
  · show t.writes ++ [] = []
    rw [hw]; rfl
  · rw [List.map_nil, List.nil_append, hmem, hown]
    tauto
  · exact BulkDedup.taken_mono (hh.snap snap hsnap).2 (hmem.1 hid).2
  · exact (B.distinct i).sublist (List.filter_sublist.map _)
  · exact hh.new snap hsnap id (hown.1 hid).1 (hown.1 hid).2
  · rw [List.map_nil, List.append_nil]
    exact h.intact

theorem Invariant.newEtag {p} {found : List String} {done : List UniformPgRow} {rest : List CreateInput}
    (h : Invariant B g c) (hgi : g i = .entering found done rest) {r : ETag}
    (hl : l = (c.threads i).loc.done (.outer .newEtag) r) (hdb : sv.db = c.shared.db) (hlocks : sv.locks = c.shared.locks) :
    Invariant B (Function.update g i (g i)) (c.put i ⟨p, l⟩ sv) := by
  have hh := h.holds i
  rw [hgi] at hh
  subst hl
  refine h.put hdb (by simp [hgi]) (fun id hid => .inl ?_) (fun r hr => .inl hr) (fun r hr => hr)
    (fun k hk => .inl (hlocks ▸ hk)) ?_
  · rw [hgi] at hid ⊢
    exact hid
  · rw [hgi, hdb]
    exact ⟨UploadRetry.longer hh.hist, hh.tx, hh.split, hh.distinct, hh.new, hh.readable, hh.inSession, hh.intact⟩

omit [DecidableEq ι] in
/-- No row that is entered has the id drawn. -/
theorem Invariant.undrawn (h : Invariant B g c) (he : Calm B c e) (j : ι) : ∀ r ∈ (g j).rows, r.id ≠ e.uuid 0 := by
  intro r hr hk
  refine he.unused j (.insert (B.row r)) ?_ (congrArg (Key.uniform B.rt) hk)
  rw [(h.holds j).writes]
  exact List.mem_map.2 ⟨r, hr, rfl⟩

/-- What a transaction sees when it enters a row: the session, and neither
the row's client id nor its draw. -/
structure Free (B : Batches ι) (x : CreateInput) (e : Env) (cur : Db) : Prop where
  session : Present (Key.session B.sid) cur
  client : x.clientId ∉ taken B.rt B.sid cur
  key : ¬Present (Key.uniform B.rt (e.uuid 0)) cur

omit [DecidableEq ι] in
theorem Invariant.free (h : Invariant B g c) (he : Calm B c e) {found : List String} {done : List UniformPgRow}
    {x : CreateInput} {rest : List CreateInput} (hgi : g i = .entering found done (x :: rest)) :
    Free B x e (c.shared.db ++ done.map B.row) := by
  have hh := h.holds i
  rw [hgi] at hh
  refine ⟨?_, fun hid => ?_, ?_⟩
  · obtain ⟨y, hy, hk⟩ := B.exists_
    exact ⟨y, List.mem_append_left _ (h.kept y hy), hk⟩
  · rw [taken_append, List.mem_append] at hid
    rcases hid with hid | hid
    · exact hh.new x.clientId (by simp) hid
    · obtain ⟨r, hr, -, hrx⟩ := mem_taken.1 hid
      obtain ⟨r', hr', heq⟩ := List.mem_map.1 ((uniformT B.rt).mem_rows.1 hr)
      obtain rfl := (uniformT B.rt).put_inj heq
      exact (List.nodup_append.1 hh.distinct).2.2 r'.clientId (List.mem_map.2 ⟨r', hr', rfl⟩) x.clientId (by simp) hrx
  · rintro ⟨y, hy, hk⟩
    rcases List.mem_append.1 hy with hy | hy
    · exact he.fresh ⟨y, hy, hk⟩
    · obtain ⟨r, hr, rfl⟩ := List.mem_map.1 hy
      exact h.undrawn he i r (by rw [hgi]; exact hr) (Key.uniform.inj hk).2

omit [DecidableEq ι] in
theorem Entering.current {found : List String} {done : List UniformPgRow} {rest : List CreateInput} {tx : Tx Row Key Env}
    (h : Entering B i conn db found done rest) (ht : conn.tx = some tx) : applyAll tx.writes db = db ++ done.map B.row := by
  obtain ⟨tx', ht', hw⟩ := h.tx
  obtain rfl := Option.some.inj (ht.symm.trans ht')
  rw [hw, applyAll_rows]

/-- A row enters: its client id is the batch's own, and its draw is fresh. -/
theorem Invariant.insert {p} {mk} {r : Answer (.query .tx (.insert mk) : Operation)} (h : Invariant B g c)
    (he : Calm B c e) (hm : (protocol B i).may (g i) (.query .tx (.insert mk)))
    (hx : machine.exec i e (c.threads i).loc c.shared (.query .tx (.insert mk)) = some (some r, l, sv)) :
    ∃ t, (protocol B i).next (g i) (.query .tx (.insert mk)) r t ∧
      Invariant B (Function.update g i t) (c.put i ⟨p, l⟩ sv) := by
  obtain ⟨found, done, x, rest, etag, hgi, hq⟩ := hm
  have hfree := h.free he hgi
  have hh := h.holds i
  rw [hgi] at hh
  obtain ⟨t, ht, hw⟩ := hh.tx
  have hcur := hh.current ht
  obtain ⟨hstorable, hreadable⟩ := hh.readable x (by simp)
  generalize hrow : freshRow B.rt B.sid (B.svc i) x etag (StepEnv.within t.env e) = row
  have hrowid : row.id = e.uuid 0 := by rw [← hrow]; rfl
  have hrowclient : row.clientId = x.clientId := by rw [← hrow]; rfl
  have hslots : ∀ k ∈ slots (B.row row), ∀ y ∈ c.shared.db ++ done.map B.row, k ∉ slots y := by
    rw [← hrow]
    exact BulkDedup.fresh_slots hfree.client hfree.key
  have hcheck : check (B.row row) = true := by rw [← hrow]; exact BulkDedup.fresh_check hstorable
  have hrefs : refs (B.row row) = [.session B.sid] := by rw [← hrow]; rfl
  have hrun : ∀ snap alive, ((insertRowSql B.rt B.sid (B.svc i) x etag).run (StepEnv.within t.env e) snap alive
      (c.shared.db ++ done.map B.row)).result = .ok ([B.row row], [.insert (B.row row)]) := fun snap alive => by
    rw [← hrow]
    exact BulkDedup.insertRow_run hfree.session hstorable hfree.client hfree.key
  obtain ⟨rfl, rfl, snap, -, rfl⟩ := query_tx_runs he.database ht [B.row row] [.insert (B.row row)]
    (fun snap _ => by rw [hq, hcur]; exact hrun _ _) hx
  have hmoved : (done ++ [row]).map (·.clientId) ++ rest.map (·.clientId) =
      done.map (·.clientId) ++ (x :: rest).map (·.clientId) := by simp [hrowclient]
  refine ⟨.entering found (done ++ [row]) rest, ⟨found, done, x, rest, etag, _, hgi, by rw [hrow], by rw [hrow]⟩, ?_⟩
  refine h.put rfl (by simp [hgi]) (fun id hid => .inl ?_) (fun r hr => ?_) (fun r hr => ?_) (fun k hk => ?_)
    ⟨UploadRetry.longer hh.hist, ⟨_, rfl, ?_⟩, ?_, ?_, ?_, fun y hy => hh.readable y (List.mem_cons_of_mem _ hy),
      fun r hr => ?_, ?_⟩
  · have hid : id ∈ (done ++ [row]).map (·.clientId) ++ rest.map (·.clientId) := hid
    rw [hgi]
    rwa [hmoved] at hid
  · rcases List.mem_append.1 hr with hr | hr
    · exact .inl (by rw [hgi]; exact hr)
    · rw [List.mem_singleton.1 hr, hrowid]
      exact .inr fun j _ r' hr' => (h.undrawn he j r' hr').symm
  · rw [hgi] at hr
    exact List.mem_append_left _ hr
  · rcases List.mem_append.1 hk with hk | hk
    · obtain ⟨n, hn, rfl⟩ := List.mem_map.1 hk
      rw [hq, hcur] at hn
      refine .inr ⟨rfl, ?_⟩
      rcases insert_needs (T := uniformT B.rt) (congrArg Except.ok hrow) hcheck hslots hn with hn | hn | ⟨k, hk, hn⟩
      · exact .inr ⟨row, by simp [Stage.rows], .inl hn⟩
      · exact .inr ⟨row, by simp [Stage.rows], .inr hn⟩
      · have hk : k ∈ refs (B.row row) := hk
        rw [hrefs, List.mem_singleton] at hk
        rw [hk] at hn
        exact .inl hn
    · exact .inl hk
  · show t.writes ++ [.insert (B.row row)] = _
    rw [hw]; simp
  · rw [hmoved]; exact hh.split
  · rw [hmoved]; exact hh.distinct
  · rw [hmoved]; exact hh.new
  · rcases List.mem_append.1 hr with hr | hr
    · exact hh.inSession r hr
    · rw [List.mem_singleton.1 hr, ← hrow]; rfl
  · rw [List.map_append, ← List.append_assoc]
    refine hh.intact.insert hcheck hslots fun k hk => ?_
    rw [hrefs, List.mem_singleton] at hk
    rw [hk]; exact hfree.session

/-- The commit: what was the batch's own is there. -/
theorem Invariant.commit {p} {found : List String} {done : List UniformPgRow} (h : Invariant B g c)
    (hgi : g i = .entering found done []) (hl : l = Client.done { (c.threads i).loc with tx := none } .commit (.ok ()))
    (hsv : sv = (c.shared.apply i (c.threads i).loc.writes).release i) :
    Invariant B (Function.update g i (.committed found done)) (c.put i ⟨p, l⟩ sv) := by
  have hh := h.holds i
  have hown : own B i (c.threads i).loc (g i) = done.map (·.clientId) := by simp [hgi, own]
  have hdb : sv.db = c.shared.db ++ done.map B.row := by
    rw [hsv]
    show applyAll (c.threads i).loc.writes c.shared.db = _
    rw [hh.writes, hgi, applyAll_rows]
    rfl
  rw [hgi] at hh
  refine ⟨?_, fun r hr => ?_, fun id hid => ?_, ?_, ?_, fun k hk => ?_, ?_⟩
  · rw [Config.put_shared, hdb]; exact hh.intact
  · rw [Config.put_shared, hdb]; exact List.mem_append_left _ (h.kept r hr)
  · rw [Config.put_shared, hdb, Batches.there, taken_append, List.mem_append] at hid
    rcases hid with hid | hid
    · refine (h.origin id hid).imp_right ?_
      rintro ⟨j, found', done', hg, hid⟩
      refine ⟨j, found', done', ?_, hid⟩
      rw [Function.update_of_ne (fun hj => by rw [hj, hgi] at hg; cases hg)]
      exact hg
    · obtain ⟨r, hr, -, rfl⟩ := mem_taken.1 hid
      obtain ⟨r', hr', heq⟩ := List.mem_map.1 ((uniformT B.rt).mem_rows.1 hr)
      obtain rfl := (uniformT B.rt).put_inj heq
      exact .inr ⟨i, found, done, by simp, List.mem_map.2 ⟨r', hr', rfl⟩⟩
  · refine Config.put_pairs (P := fun j s m k s' m' => ∀ id ∈ own B j m s, id ∉ own B k m' s')
      (fun j a m k b n hP id hid hid' => hP id hid' hid) h.apart fun j hj id hid => ?_
    exact h.apart i j hj.symm id (by rw [hown]; exact hid)
  · refine Config.put_pairs (c := c) (p := p) (l := l) (s := sv) (P := fun _ (s : Stage) _ _ (s' : Stage) _ =>
      ∀ r ∈ s.rows, ∀ r' ∈ s'.rows, r.id ≠ r'.id) (fun j a m k b n hP r hr r' hr' => (hP r' hr' r hr).symm) h.unlike
      fun j hj r hr => by cases hr
  · rw [Config.put_shared, hsv] at hk
    obtain ⟨hk, hki⟩ := List.mem_filter.1 hk
    rw [Function.update_of_ne (by simpa using hki)]
    exact h.locks k hk
  · refine Config.put_each (P := fun j s m => Holds B j m sv.db s) ?_ fun j hj => ?_
    · subst hl
      refine ⟨rfl, ⟨fun id => ?_, fun id hid => ?_⟩, fun r hr => ⟨hh.inSession r hr, ?_⟩⟩
      · simpa using hh.split.covers id
      · rw [hdb]
        exact BulkDedup.taken_mono (fun r hr => List.mem_append_left _ hr) (hh.split.there id hid)
      · rw [hdb]
        exact List.mem_append_right _ (List.mem_map.2 ⟨r, hr, rfl⟩)
    · rw [hdb]
      refine (h.holds j).grow hh.intact (fun id hid hid' => ?_) fun r hr r' hr' => ?_
      · exact h.apart j i hj id hid (by rw [hown]; exact hid')
      · exact h.unlike j i hj r hr r' (by rw [hgi]; exact hr')

/-- A completed operation. -/
theorem Invariant.done {o : Operation} {r : Answer o} {p} (h : Invariant B g c) (he : Calm B c e)
    (hm : (protocol B i).may (g i) o) (hx : machine.exec i e (c.threads i).loc c.shared o = some (some r, l, sv)) :
    ∃ t, (protocol B i).next (g i) o r t ∧ Invariant B (Function.update g i t) (c.put i ⟨p, l⟩ sv) := by
  cases o with
  | begin =>
    obtain ⟨rfl, rfl, rfl⟩ := begin_runs he.database hx
    exact ⟨.opened, rfl, h.begin hm rfl⟩
  | commit =>
    obtain ⟨found, done, hgi⟩ := hm
    obtain ⟨rfl, rfl, hsv⟩ := commit_runs he.database hx
    exact ⟨.committed found done, ⟨found, done, hgi, rfl⟩, h.commit hgi rfl hsv⟩
  | rollback => exact hm.elim
  | query via q =>
    cases via with
    | pool => exact hm.elim
    | tx =>
      cases q with
      | select q => exact h.select he hm hx
      | insert mk => exact h.insert he hm hx
      | _ => exact hm.elim
  | outer x =>
    cases x with
    | newEtag =>
      obtain ⟨found, done, rest, hgi⟩ := hm
      obtain ⟨-, rfl, rfl⟩ := outer_done hx
      exact ⟨g i, rfl, h.newEtag hgi rfl rfl rfl⟩
    | _ => exact hm.elim

/-! ## Runs -/

omit [DecidableEq ι] in
theorem invariant_start : Invariant B (fun _ => .fresh) B.start where
  intact := B.intact
  kept := fun r hr => hr
  origin := fun id hid => .inl hid
  apart := fun i j _ id hid => by cases hid
  unlike := fun i j _ r hr => by cases hr
  locks := by
    intro l hl
    rw [show B.start.shared.locks = [] from B.quiescent.locks] at hl
    cases hl
  holds := fun _ => ⟨rfl, rfl, rfl⟩

omit [DecidableEq ι] in
/-- A batch that has answered has no open transaction. -/
theorem Holds.answered {a : Except AppError BulkResult} (h : Holds B i conn db s) (ha : Answers B i s a) : conn.tx = none := by
  rcases ha with ⟨rfl, -, -⟩ | ⟨found, done, outs, rfl, -, -⟩
  · exact h.1
  · exact h.tx

/-- The invariant of every guarded run. -/
theorem invariant_run (h : Run machine (Guard B) B.start c) : Ghosted (protocol B) (Answers B) (Invariant B) c := by
  refine Run.ghost ⟨fun _ => .fresh, invariant_start, bulk_follows B⟩ ?_ ?_ ?_ h
  · intro c g i e o k l sv _ hJ _ hm hg hx
    obtain ⟨⟨via, q, rfl⟩, hsnap, rfl, rfl⟩ := exec_inner hx
    cases via with
    | pool => exact hm.elim
    | tx => exact hJ.look hg.2 hm hsnap
  · intro c g i e o k r l sv _ hJ _ hm hg hx
    exact hJ.done hg.1 hm hx
  · intro c g i e a l sv _ hJ _ hQ _ hx
    simp [machine, (hJ.holds i).answered hQ] at hx

omit [DecidableEq ι] in
/-- A lock of another batch is in the way of no row a batch enters. -/
theorem Invariant.unlocked (h : Invariant B g c) (he : Calm B c e) {x : CreateInput} (row : UniformPgRow)
    (hid : row.id = e.uuid 0) (hclient : row.clientId = x.clientId) (hx : x.clientId ∈ own B i (c.threads i).loc (g i))
    {n : Need Key Uniq} (hn : n.1 = .row (.uniform B.rt row.id) ∨ n.1 ∈ slots (B.row row) ∨
      n = (.row (.session B.sid), .keyShare))
    {k : ι × Need Key Uniq} (hk : k ∈ c.shared.locks) (hi : k.1 ≠ i) (heq : k.2.1 = n.1) : k.2.2.conflicts n.2 = false := by
  have hslots : ∀ {r : UniformPgRow} {m : Key}, (Lockable.row m : Lockable Key Uniq) ∉ slots (B.row r) := by
    intro r m
    rw [Batches.row, BulkDedup.uniform_slots]; simp
  rcases h.locks k hk with hl | ⟨r, hr, hl⟩
  · rw [hl] at heq ⊢
    rcases hn with hn | hn | hn
    · rw [hn] at heq; cases heq
    · rw [← heq] at hn
      exact absurd hn hslots
    · rw [hn]; rfl
  · -- The row of another batch has another draw and another client id.
    exfalso
    have hrid : r.id ≠ row.id := fun hrid => h.undrawn he k.1 r hr (hrid.trans hid)
    have hrclient : r.clientId ≠ row.clientId := by
      intro hrc
      refine h.apart k.1 i hi r.clientId ?_ (by rw [hrc, hclient]; exact hx)
      cases hg : g k.1 with
      | entering found done rest =>
        rw [hg] at hr
        exact List.mem_append_left _ (List.mem_map.2 ⟨r, hr, rfl⟩)
      | _ => rw [hg] at hr; cases hr
    rw [heq] at hl
    rcases hn with hn | hn | hn
    · rw [hn] at hl
      rcases hl with hl | hl
      · exact hrid (Key.uniform.inj (Lockable.row.inj hl)).2.symm
      · exact hslots hl
    · rcases hl with hl | hl
      · rw [hl] at hn
        exact hslots hn
      · exact slots_apart hrid hrclient _ hl hn
    · rw [hn] at hl
      rcases hl with hl | hl
      · cases hl
      · exact hslots hl

/-- A batch that has not answered can move: no lock is in its way. -/
theorem Invariant.moves (h : Invariant B g c) (he : Calm B c e)
    (hF : (c.threads i).prog.Follows (protocol B i) (Answers B i) (g i)) (hn : c.returned i = none) :
    ∃ c', c.step machine i e = some c' := by
  obtain ⟨o, k, hp, hm⟩ := Config.at_operation hF hn
  refine Config.step_moves hp (exec_unblocked fun via q snap ho hsnap => ?_)
  subst ho
  have hh := h.holds i
  cases via with
  | pool => exact hm.elim
  | tx =>
    cases q with
    | select q =>
      rw [hm.1] at hh
      obtain ⟨t, ht, -⟩ := hh.tx
      simp [plan, ht, Stmt.run, Server.blocks]
    | insert mk =>
      obtain ⟨found, done, x, rest, etag, hgi, hq⟩ := hm
      have hfree := h.free he hgi
      rw [hgi] at hh
      obtain ⟨t, ht, -⟩ := hh.tx
      refine blocks_eq_false.2 fun n hn l hl hi heq => ?_
      simp only [plan, ht, hq, hh.current ht] at hn
      refine h.unlocked (x := x) he (freshRow B.rt B.sid (B.svc i) x etag (StepEnv.within t.env e)) rfl rfl
        (by simp [hgi, own]) ?_ hl (hi.resolve_left (by simp)) heq
      rcases insert_needs (T := uniformT B.rt) rfl (BulkDedup.fresh_check (hh.readable x (by simp)).1)
        (BulkDedup.fresh_slots (e := StepEnv.within t.env e) hfree.client hfree.key) hn with hn | hn | ⟨k, hk, hn⟩
      · exact .inl hn
      · exact .inr (.inl hn)
      · exact .inr (.inr (by rw [hn, List.mem_singleton.1 hk]; rfl))
    | _ => exact hm.elim

omit [DecidableEq ι] in
/-- Rows are reported under their own client ids. -/
theorem reported {rows : List UniformPgRow} {outs : List UniformRow}
    (h : List.Forall₂ (fun r out => rowFromPg r = .ok out) rows outs) : outs.map (·.clientId) = rows.map (·.clientId) := by
  induction h with
  | nil => rfl
  | cons hr _ ih =>
    obtain ⟨p, -, hr⟩ := bind_ok hr
    obtain ⟨a, -, hr⟩ := bind_ok hr
    obtain rfl := Except.ok.inj hr
    rw [List.map_cons, List.map_cons, ih]

/-- Batches in any interleaving that keeps lookups apart from batches they
overlap with: every answer is a success; once all have answered, each id has
one row, and each id that was new was entered by one batch and found by the
others that submitted it; and until all have answered, some batch can move. -/
theorem batches_deduplicate (B : Batches ι) (h : Run machine (Guard B) B.start c) :
    (∀ i a, c.returned i = some a → ∃ r, a = .ok r) ∧
    ((∀ i, (c.returned i).isSome = true) →
      (∀ i, ∀ id ∈ B.ids i, (taken B.rt B.sid c.shared.db).count id = 1) ∧
      ∀ id, id ∉ taken B.rt B.sid B.server.db → (∃ i, id ∈ B.ids i) → ∃ w, ReportsInserted c w id ∧
        ∀ j, j ≠ w → ¬ReportsInserted c j id ∧ (id ∈ B.ids j → ReportsDuplicate c j id)) ∧
    ((∃ i, c.returned i = none) → ∀ e, Calm B c e →
      ∃ i c', c.returned i = none ∧ Guard B c i e ∧ c.step machine i e = some c') := by
  obtain ⟨g, hJ, hF⟩ := invariant_run h
  have hanswer : ∀ i a, c.returned i = some a → Answers B i (g i) a := by
    intro i a ha
    have := hF i
    rwa [Config.returned_iff.1 ha] at this
  refine ⟨fun i a ha => ?_, fun hall => ?_, fun hsome e he => ?_⟩
  · rcases hanswer i a ha with ⟨-, -, rfl⟩ | ⟨found, done, outs, -, -, rfl⟩
    · exact ⟨_, rfl⟩
    · exact ⟨_, rfl⟩
  · -- A batch that submitted something has committed.
    have hcommitted : ∀ i, ∀ id ∈ B.ids i, ∃ found done outs, g i = .committed found done ∧
        outs.map (·.clientId) = done.map (·.clientId) ∧
        c.returned i = some (.ok { inserted := outs, deduplicatedClientIds := found }) := by
      intro i id hid
      obtain ⟨a, ha⟩ := Option.isSome_iff_exists.1 (hall i)
      rcases hanswer i a ha with ⟨-, hnil, -⟩ | ⟨found, done, outs, hg, houts, rfl⟩
      · rw [Batches.ids, hnil] at hid; cases hid
      · exact ⟨found, done, outs, hg, reported houts, ha⟩
    have hsplit : ∀ i, ∀ id ∈ B.ids i, ∃ found done, g i = .committed found done ∧
        (id ∈ found ∨ id ∈ done.map (·.clientId)) ∧ id ∈ B.there c.shared.db := by
      intro i id hid
      obtain ⟨found, done, outs, hg, -, -⟩ := hcommitted i id hid
      have hh := hJ.holds i
      rw [hg] at hh
      refine ⟨found, done, hg, (hh.split.covers id).1 hid, ?_⟩
      rcases (hh.split.covers id).1 hid with hfound | hdone
      · exact hh.split.there id hfound
      · rcases Holds.own_there (s := .committed found done) hh hdone with ⟨hthere, -⟩ | ⟨-, hunder⟩
        · exact hthere
        · simp [underway, hh.tx] at hunder
    refine ⟨fun i id hid => ?_, fun id hnew hsub => ?_⟩
    · obtain ⟨-, -, -, -, hthere⟩ := hsplit i id hid
      exact List.count_eq_one_of_mem (BulkDedup.taken_nodup hJ.intact) hthere
    · -- The batch that entered it is the one whose own it is.
      obtain ⟨i, hid⟩ := hsub
      obtain ⟨-, -, -, -, hthere⟩ := hsplit i id hid
      obtain ⟨w, found, done, hg, hw⟩ := (hJ.origin id hthere).resolve_left hnew
      have hwids : id ∈ B.ids w := (hJ.holds w).own_ids id (by rw [hg]; exact hw)
      obtain ⟨found', done', outs, hg', houts, hr⟩ := hcommitted w id hwids
      rw [hg] at hg'
      cases hg'
      refine ⟨w, ⟨_, hr, by rw [houts]; exact hw⟩, fun j hj => ⟨?_, fun hidj => ?_⟩⟩
      · rintro ⟨r, hrj, hmem⟩
        rcases hanswer j _ hrj with ⟨-, -, hr⟩ | ⟨foundj, donej, outsj, hgj, houtsj, hr⟩
        · cases hr; cases hmem
        · cases hr
          rw [reported houtsj] at hmem
          exact hJ.apart j w hj id (by rw [hgj]; exact hmem) (by rw [hg]; exact hw)
      · obtain ⟨foundj, donej, outsj, hgj, -, hrj⟩ := hcommitted j id hidj
        have hh := hJ.holds j
        rw [hgj] at hh
        rcases (hh.split.covers id).1 hidj with hfound | hdone
        · exact ⟨_, hrj, hfound⟩
        · exact absurd (by rw [hg]; exact hw) (hJ.apart j w hj id (by rw [hgj]; exact hdone))
  · obtain ⟨i, hi⟩ := hsome
    by_cases hunder : ∃ j, underway (c.threads j).loc = true
    · -- A batch past its lookup goes on.
      obtain ⟨j, hj⟩ := hunder
      have hjn : c.returned j = none := by
        cases hr : c.returned j with
        | none => rfl
        | some a =>
          have htx := (hJ.holds j).answered (hanswer j a hr)
          simp [underway, htx] at hj
      obtain ⟨c', hc'⟩ := hJ.moves he (hF j) hjn
      refine ⟨j, c', hjn, ⟨he, fun hlook => ?_⟩, hc'⟩
      rw [UploadRetry.not_looks hj] at hlook; cases hlook
    · obtain ⟨c', hc'⟩ := hJ.moves he (hF i) hi
      exact ⟨i, c', hi, ⟨he, fun _ j _ hj => absurd ⟨j, hj⟩ hunder⟩, hc'⟩

end

/-! ## Two batches -/

open BulkDedup (sampleInput sampleDb)

/-- The batches share "a", which is there, and the second has "c" where the
first has "b". -/
def sampleInputs : Fin 2 → List CreateInput
  | 0 => [sampleInput "a", sampleInput "b"]
  | 1 => [sampleInput "c", sampleInput "b"]

def sample : Batches (Fin 2) where
  rt := .segments
  sid := Sample.sessionId
  svc := fun _ => "bot"
  inputs := sampleInputs
  server := Sample.server sampleDb
  distinct := by decide
  valid := by decide
  readable := fun i x hx _ => by
    obtain ⟨id, rfl⟩ : ∃ id, x = sampleInput id := by
      match i with
      | 0 => revert hx; simp +contextual [sampleInputs, or_imp]
      | 1 => revert hx; simp +contextual [sampleInputs, or_imp]
    have hspeaker : isValidPseudoId Sample.speaker = true := by decide +kernel
    exact ⟨rfl, fun _ => hspeaker⟩
  quiescent := ⟨by decide, rfl, rfl⟩
  intact := by decide +kernel
  exists_ := by decide

theorem calm_env {c : Inserts (Fin 2)} {k : Nat} (h : ¬Present (Key.uniform sample.rt ((Sample.env k).uuid 0)) c.shared.db ∧
    ∀ j, ∀ w ∈ (c.threads j).loc.writes, w.key ≠ .uniform sample.rt ((Sample.env k).uuid 0)) :
    Calm sample c (Sample.env k) := ⟨rfl, h.1, h.2⟩

instance (c : Inserts (Fin 2)) (i : Fin 2) : Decidable (Apart sample c i) := inferInstanceAs (Decidable (_ → _))

/-- The second batch begins, and looks once the first has committed. -/
theorem batches_deduplicate_sample : ∃ c : Inserts (Fin 2), (∀ i, ∃ r, c.returned i = some (.ok r)) ∧
    (taken .segments Sample.sessionId c.shared.db).count "b" = 1 ∧ ∃ w, ReportsInserted c w "b" ∧
      ∀ j, j ≠ w → ¬ReportsInserted c j "b" ∧ ReportsDuplicate c j "b" := by
  have hrun : (sample.start.play machine (Sample.moves 1 [(0, 3), (1, 1), (0, 4), (1, 6)])).map (fun c =>
      ((c.returned 0).isSome, (c.returned 1).isSome)) = some (true, true) := by decide +kernel
  have hguard : sample.start.Guarded machine (Guard sample)
      (Sample.moves 1 [(0, 3), (1, 1), (0, 4), (1, 6)]) := by
    have hd : sample.start.Guarded machine (fun c i e => (¬Present (Key.uniform sample.rt (e.uuid 0)) c.shared.db ∧
        ∀ j, ∀ w ∈ (c.threads j).loc.writes, w.key ≠ .uniform sample.rt (e.uuid 0)) ∧ Apart sample c i)
        (Sample.moves 1 [(0, 3), (1, 1), (0, 4), (1, 6)]) := by decide +kernel
    refine hd.mono fun c m hm h => ?_
    obtain ⟨k, hk⟩ := Sample.moves_env hm
    rw [hk] at h ⊢
    exact ⟨calm_env h.1, h.2⟩
  obtain ⟨c, hc, hr⟩ := Option.map_eq_some_iff.1 hrun
  have hall : ∀ i, (c.returned i).isSome = true := by
    simp only [Prod.mk.injEq] at hr
    exact Fin.forall_fin_two.2 hr
  obtain ⟨hok, hend, -⟩ := batches_deduplicate sample (Run.play hguard .nil hc)
  obtain ⟨hrows, hnew⟩ := hend hall
  have hids : ∀ i, "b" ∈ sample.ids i := by decide
  obtain ⟨w, hw, hothers⟩ := hnew "b" (by decide +kernel) ⟨0, hids 0⟩
  refine ⟨c, fun i => ?_, hrows 0 "b" (hids 0), w, hw, fun j hj => ⟨(hothers j hj).1, (hothers j hj).2 (hids j)⟩⟩
  obtain ⟨a, ha⟩ := Option.isSome_iff_exists.1 (hall i)
  obtain ⟨r, rfl⟩ := hok i a ha
  exact ⟨r, ha⟩

/-- The second lookup falls before the first commit: both batches enter "b",
and the second to insert it is refused. -/
theorem batches_collide : ∃ c : Inserts (Fin 2), Run machine (fun c _ e => Calm sample c e) sample.start c ∧
    c.returned 1 = some (.error (.database (.unique (.uniq (.uniformClient .segments Sample.sessionId "b"))))) := by
  have hrun : (sample.start.play machine (Sample.moves 1 [(0, 3), (1, 3), (0, 4), (1, 6)])).map (fun c =>
      errorOf (c.returned 1)) = some (some (.database (.unique (.uniq (.uniformClient .segments Sample.sessionId "b"))))) := by
    decide +kernel
  have hguard : sample.start.Guarded machine (fun c _ e => Calm sample c e)
      (Sample.moves 1 [(0, 3), (1, 3), (0, 4), (1, 6)]) := by
    have hd : sample.start.Guarded machine (fun c _ e => ¬Present (Key.uniform sample.rt (e.uuid 0)) c.shared.db ∧
        ∀ j, ∀ w ∈ (c.threads j).loc.writes, w.key ≠ .uniform sample.rt (e.uuid 0))
        (Sample.moves 1 [(0, 3), (1, 3), (0, 4), (1, 6)]) := by decide +kernel
    refine hd.mono fun c m hm h => ?_
    obtain ⟨k, hk⟩ := Sample.moves_env hm
    rw [hk] at h ⊢
    exact calm_env h
  obtain ⟨c, hc, hr⟩ := Option.map_eq_some_iff.1 hrun
  exact ⟨c, Run.play hguard .nil hc, errorOf_eq hr⟩

end DataApi.BulkRace
