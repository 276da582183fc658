/-
The stamps of a session's lifecycle. Three statements of three handlers
maintain `abandoned_at` and `deleted_at`; what ties the stamps to the status
is that each transaction takes a session row by a legal step (`Turn`), which
keeps `Good` and stamps an entry into `abandoned` with its own time.
-/
import DataApi.Proofs.StatusHistory
import DataApi.Proofs.Transactional

namespace DataApi.Lifecycle

open Relational ReadCommitted Resumption Handler
open StatusHistory (statusOf statusOf_eq statusOf_congr)

/-! ## Session rows -/

/-- The stamps agree with the status. -/
structure Good (s : Session) : Prop where
  deleted : s.deletedAt.isSome = true ↔ s.status = .deleted
  abandonedAt : s.abandonedAt.isSome = true → s.status = .abandoned ∨ s.status = .deleted
  abandoned : s.status = .abandoned → s.abandonedAt.isSome = true

/-- What a transaction of time `now` does to a session row. -/
structure Turn (now : Timestamp) (x y : Session) : Prop where
  id : y.id = x.id
  good : Good x → Good y
  stamp : y.status = .abandoned → y.abandonedAt = if x.status = .abandoned then x.abandonedAt else some now

theorem Turn.refl (now : Timestamp) (x : Session) : Turn now x x where
  id := rfl
  good h := h
  stamp h := by rw [if_pos h]

theorem Turn.setStatus {now : Timestamp} {x : Session} {new : SessionStatus} {e : Env} (he : e.now = now)
    (h : canTransition x.status new = true) : Turn now x (Sessions.setStatus new e x) where
  id := rfl
  good hx := by
    have hnd : x.status ≠ .deleted := fun hd => by
      rw [hd, canTransition_from_deleted] at h
      cases h
    have hnone : x.deletedAt = none := by
      cases hd : x.deletedAt with
      | none => rfl
      | some t => exact absurd (hx.deleted.1 (by rw [hd]; rfl)) hnd
    refine ⟨?_, ?_, ?_⟩
    · by_cases hn : new = .deleted <;> simp [Sessions.setStatus, hn, hnone]
    · intro hs
      by_cases ha : new = .abandoned
      · exact .inl ha
      · simp only [Sessions.setStatus, ha, if_false] at hs
        -- Only `deleted` is next to `abandoned`.
        rcases hx.abandonedAt hs with hab | hd
        · rw [hab] at h
          refine .inr ?_
          revert h
          cases new <;> simp [canTransition, Sessions.setStatus]
        · exact absurd hd hnd
    · intro ha
      have : new = .abandoned := ha
      simp [Sessions.setStatus, this]
  stamp ha := by
    have hnew : new = .abandoned := ha
    have hx : x.status ≠ .abandoned := by
      intro hxs
      rw [hxs, hnew] at h
      cases h
    simp [Sessions.setStatus, hnew, hx, he]

/-- The tombstone may be set over any status. -/
theorem Turn.delete {now : Timestamp} {x : Session} {e : Env} : Turn now x (Sessions.setStatus .deleted e x) where
  id := rfl
  good hx := by
    refine ⟨by simp [Sessions.setStatus], fun _ => .inr rfl, fun h => by cases h⟩
  stamp h := by cases h

theorem Turn.setFields {now : Timestamp} {x y : Session} (h : Turn now x y) (endedAt : Option (Option Timestamp))
    (count : Option (Option Int)) (e : Env) : Turn now x (Sessions.setFields endedAt count e y) where
  id := h.id
  good hx := ⟨(h.good hx).deleted, (h.good hx).abandonedAt, (h.good hx).abandoned⟩
  stamp := h.stamp

theorem Turn.resumed {now : Timestamp} {x : Session} (e : Env) (h : x.status = .abandoned) :
    Turn now x (Sessions.setResumed e x) where
  id := rfl
  good hx := by
    have hnone : x.deletedAt = none := by
      cases hd : x.deletedAt with
      | none => rfl
      | some t =>
        have := hx.deleted.1 (by rw [hd]; rfl)
        rw [h] at this
        cases this
    exact ⟨by simp [Sessions.setResumed, hnone], (fun h => by cases h), (fun h => by cases h)⟩
  stamp h := by cases h

theorem good_created (input : Sessions.CreateSession) (e : Env) : Good (Sessions.createRow input e) where
  deleted := by simp [Sessions.createRow]
  abandonedAt h := by cases h
  abandoned h := by cases h

/-! ## The protocol -/

inductive Stage
  | idle
  | begun
  | held (x y : Session)
  | ready (x y : Session)
  | changed (x y : Session)
  | created (x : Session)

/-- Nothing but the audit log and sessions is left to a statement. -/
def Spares (q : Sql) : Prop := Writes (fun n => n ≠ .sessions ∧ n ≠ .audit) q

/-- Which operation number `n` may be. -/
def May (now : Timestamp) (n : Nat) (s : Stage) : Operation → Prop
  | .begin => s = .idle ∧ n = 0
  | .query .tx (.forUpdate p) => s = .begun ∧ ∃ id, Stmt.forUpdate p = Sessions.getInTxSql id
  | .query .tx (.update p set) => ∃ x y set' hk, s = .held x y ∧
      Stmt.update p set = sessionsT.update (Sessions.byId x.id) set' hk
  | .query .tx (.insert mk) => (∃ x y, s = .held x y) ∧ ∃ e, Stmt.insert mk = AuditLog.appendSql e
  | .query .tx (.delete p) => (∃ x y, s = .held x y) ∧ Spares (.delete p)
  | .query .tx (.select _) => False
  | .query .pool q => (s = .idle ∧ ∃ input, q = Sessions.createSql input) ∨
      ((∃ x, s = .created x) ∧ ∃ e, q = AuditLog.appendSql e)
  | .commit => ∃ x y, s = .ready x y ∧ Turn now x y
  | .rollback => False
  | .outer _ => True

/-- Where the answer leads; in a `calm` environment no statement of a
transaction fails. -/
def Next (calm : Prop) (env : Nat → Env) (db : Db) (n : Nat) (s : Stage) : (o : Operation) → Answer o → Stage → Prop
  | .begin, .ok _, t => t = .begun
  | .begin, .error _, t => t = s ∧ ¬calm
  | .query .tx _, .error _, t => t = s ∧ ¬calm
  | .query .tx (.forUpdate p), .ok rows, t =>
    ((sessionsT.rows rows).head? = none → t = s ∧ ∀ x ∈ sessionsT.rows db, p (.session x) = false) ∧
    ∀ x, (sessionsT.rows rows).head? = some x → t = .held x x ∧ x ∈ sessionsT.rows db ∧ p (.session x) = true
  | .query .tx (.update _ set), .ok rows, t => ∀ x y, s = .held x y →
    ∃ y' e, t = .held x y' ∧ (sessionsT.rows rows).head? = some y' ∧ e.now = (env 0).now ∧
      sessionsT.put y' = (set e).set (sessionsT.put y)
  | .query .tx (.insert _), .ok _, t => ∀ x y, s = .held x y → t = .ready x y
  | .query .pool _, .ok _, t => (∀ x, s = .created x → t = s) ∧ (s = .idle → ∃ x, t = .created x)
  | .commit, .ok _, t => ∀ x y, s = .ready x y → t = .changed x y
  | .commit, .error _, t => t = .idle ∧ ¬calm
  | .outer .utcNow, r, t => t = s ∧ r = (env n).now
  | _, _, t => t = s

def protocol (calm : Prop) (env : Nat → Env) (db : Db) :
    Protocol (@Answer Row Key Uniq Env Io World _ _) (Nat × Stage) where
  may p := May (env 0).now p.1 p.2
  next p o r t := t.1 = p.1 + 1 ∧ Next calm env db p.1 p.2 o r t.2

/-- Nothing fails, and the audit ids that may be drawn are new. -/
structure Calm (env : Nat → Env) (db : Db) : Prop where
  fails : ∀ n, (env n).fails = false
  fresh : ∀ n, ∀ r ∈ db, key r ≠ Key.audit ((env n).uuid 0)

/-- The session rows but that of `id` are as they were. -/
def Others (id : Uuid) (db₀ db : Db) : Prop :=
  ∀ other, other ≠ id → versions (.session other) db = versions (.session other) db₀

/-- What an open transaction did: only the row of `x` among the sessions. -/
structure Wrote (env : Nat → Env) (x y : Session) (t : Tx Row Key Env) (db : Db) : Prop where
  began : t.env = env 0
  there : x ∈ sessionsT.rows db
  id : y.id = x.id
  row : lookup (.session x.id) (applyAll t.writes db) = some (.session y)
  sessions : ∀ w ∈ t.writes, (Key.table w.key) = .sessions → w.key = .session x.id

def Holds (env : Nat → Env) (db : Db) (p : Nat × Stage) (n : Nat) (c : Conn) (sv : Sv Unit) : Prop :=
  p.1 = n ∧ Unique c sv ∧ match p.2 with
  | .idle => sv.db = db ∧ c.tx = none
  | .begun => sv.db = db ∧ ∃ t, c.tx = some t ∧ t.env = env 0 ∧ t.writes = []
  | .held x y => sv.db = db ∧ ∃ t, c.tx = some t ∧ Wrote env x y t db ∧ ∀ w ∈ t.writes, (Key.table w.key) ≠ .audit
  | .ready x y => sv.db = db ∧ ∃ t, c.tx = some t ∧ Wrote env x y t db
  | .changed x y => c.tx = none ∧ x ∈ sessionsT.rows db ∧ Turn (env 0).now x y ∧
      lookup (.session x.id) sv.db = some (.session y) ∧ Others x.id db sv.db
  | .created x => c.tx = none ∧ lookup (.session x.id) db = none ∧ (∃ input e, x = Sessions.createRow input e) ∧
      lookup (.session x.id) sv.db = some (.session x) ∧ Others x.id db sv.db

section
variable {calm : Prop} {env : Nat → Env} {db : Db} {p : Nat × Stage} {n : Nat} {c c' : Conn} {sv sv' : Sv Unit}

/-- A statement of a transaction that cannot err fails only where the
environment does. -/
theorem error_not_calm {q : Sql} {err : DbError Key Uniq} {e : Env} {t : Tx Row Key Env} (ht : c.tx = some t)
    (hrun : (q.run (StepEnv.within t.env e) (t.view sv) (t.view sv) (t.view sv)).result ≠ .error err)
    (hx : ReadCommitted.perform () e sv.look c sv (.query .tx q) = (.error err, c', sv')) : e.fails = true := by
  by_contra hf
  have hf' : e.fails = false := by simpa using hf
  have ha : sv.alive sv.look = sv.db := alive_now rfl
  have hfe : (StepEnv.fails e : Bool) = false := hf'
  simp only [ReadCommitted.perform, act, hfe, Bool.false_eq_true, if_false, plan, ht, ha] at hx
  split at hx
  · next err' hres =>
    simp only [Prod.mk.injEq, Except.error.injEq] at hx
    obtain ⟨rfl, -, -⟩ := hx
    exact hrun hres
  · simp at hx

/-- The audit row goes in, where its id is new. -/
theorem appendSql_run {entry : AuditLog.Entry} {e : Env} {db : Db} (h : ∀ r ∈ db, key r ≠ Key.audit (e.uuid 0)) :
    ((AuditLog.appendSql entry).run e db db db).result =
      .ok ([.audit (AuditLog.row entry e)], [.insert (.audit (AuditLog.row entry e))]) := by
  refine insert_run (T := auditT) (t := AuditLog.row entry e) rfl rfl (fun l hl r hr hlr => ?_) fun k hk => by cases hk
  have hl' : l = .pk (.audit (e.uuid 0)) := by simpa [slots, uniques, Row.uniques, key, Row.key, auditT, AuditLog.row] using hl
  rw [hl'] at hlr
  exact h r hr (pk_mem_slots.1 hlr)

theorem Wrote.congr {x y : Session} {t : Tx Row Key Env} (h : Wrote env x y t db) {ws : List (Write Row Key)}
    (hws : ∀ w ∈ ws, (Key.table w.key) ≠ .sessions) : Wrote env x y { t with writes := t.writes ++ ws } db where
  began := h.began
  there := h.there
  id := h.id
  row := by
    rw [applyAll_append, lookup_applyAll_other fun w hw hk => hws w hw (by rw [hk]; rfl)]
    exact h.row
  sessions w hw hk := by
    rcases List.mem_append.1 hw with hw | hw
    · exact h.sessions w hw hk
    · exact absurd hk (hws w hw)

/-- Taking the row lock. -/
theorem Wrote.start {x : Session} {t : Tx Row Key Env} (hu : KeysUnique db) (ht : t.env = env 0) (hnil : t.writes = [])
    (hx : x ∈ sessionsT.rows db) : Wrote env x x t db where
  began := ht
  there := hx
  id := rfl
  row := by
    rw [hnil]
    exact hu.lookup_eq (sessionsT.mem_rows.1 hx)
  sessions w hw := by rw [hnil] at hw; cases hw

/-- An UPDATE of the row. -/
theorem Wrote.update {x y : Session} {t : Tx Row Key Env} (h : Wrote env x y t db) {set : Env → Session → Session}
    (hk : ∀ e, sessionsT.Keeps (set e)) (e : Env) :
    Wrote env x (set e y) { t with writes := t.writes ++ [.update (sessionsT.put (set e y))] } db := by
  have hkey : key (sessionsT.put (set e y)) = Key.session x.id := by
    rw [(hk e y).1, ← h.id]; rfl
  refine ⟨h.began, h.there, ?_, ?_, fun w hw hs => ?_⟩
  · simpa [sessionsT, key, Row.key] using hkey
  · rw [applyAll_append]
    have := @lookup_update _ _ _ _ _ (sessionsT.put (set e y)) _ _ (hkey ▸ h.row)
    rw [hkey] at this
    exact this
  · rcases List.mem_append.1 hw with hw | hw
    · exact h.sessions w hw hs
    · rw [List.mem_singleton.1 hw]; exact hkey

/-- The UPDATE finds the row. -/
theorem Wrote.hits {x y : Session} {t : Tx Row Key Env} (h : Wrote env x y t db) (hu : KeysUnique (applyAll t.writes db)) :
    hits (sessionsT.is (Sessions.byId x.id)) (applyAll t.writes db) (applyAll t.writes db) = [sessionsT.put y] := by
  have hmem : sessionsT.put y ∈ applyAll t.writes db := (lookup_mem h.row).1
  refine hits_one hu (fun z hz => ?_) ?_ hmem hmem (k := Key.session x.id)
  · have : z.id = x.id := by simpa [Sessions.byId] using hz
    rw [← this]; rfl
  · simpa [Sessions.byId] using h.id

/-- A statement that failed leaves the stage. -/
theorem Holds.failed (calm_of : calm → Calm env db) (h : Holds env db p n c sv) {q : Sql} {err : DbError Key Uniq}
    (hcalm : calm → (env n).fails = true)
    (hx : ReadCommitted.perform () (env n) sv.look c sv (.query .tx q) = (.error err, c', sv')) :
    ∃ t, (protocol calm env db).next p (.query .tx q) (.error err) t ∧ Holds env db t (n + 1) c' sv' := by
  obtain ⟨m, s⟩ := p
  obtain ⟨rfl, hu, hs⟩ := h
  have hu' : Unique c' sv' := hu.performed hx (by simp)
  rcases performed_query_tx hx with ⟨_, _, rfl, rfl⟩ | ⟨_, _, _, _, _, _, hok, _⟩
  · refine ⟨(m + 1, s), ⟨rfl, ?_⟩, rfl, hu', ?_⟩
    · have hnot : ¬calm := fun hc => by
        have := hcalm hc
        rw [(calm_of hc).fails] at this
        cases this
      cases q <;> exact ⟨rfl, hnot⟩
    · cases s <;> exact hs
  · cases hok

/-- What a statement that was answered did. -/
theorem answered {t : Tx Row Key Env} (ht : c.tx = some t) {q : Sql} {rows : List Row} {e : Env}
    (hx : ReadCommitted.perform () e sv.look c sv (.query .tx q) = (.ok rows, c', sv')) :
    ∃ ws, (q.run (StepEnv.within t.env e) (t.view sv) (t.view sv) (t.view sv)).result = .ok (rows, ws) ∧
      c'.tx = some { t with writes := t.writes ++ ws } ∧ sv'.db = sv.db := by
  rcases performed_query_tx hx with ⟨_, hok, _⟩ | ⟨t', rows', ws, needs, ht', hres, hok, rfl, rfl⟩
  · cases hok
  · obtain rfl := Except.ok.inj hok
    obtain rfl := Option.some.inj (ht.symm.trans ht')
    exact ⟨ws, hres, rfl, rfl⟩

/-- The locking read returns the rows it asks for. -/
theorem mem_locked {q : Row → Bool} {e : Env} {rows : List Row} {ws : List (Write Row Key)}
    (h : ((Stmt.forUpdate q : Sql).run e db db db).result = .ok (rows, ws)) :
    ws = [] ∧ ∀ x, x ∈ sessionsT.rows rows ↔ x ∈ sessionsT.rows db ∧ q (.session x) = true := by
  simp only [Stmt.run, Except.ok.injEq, Prod.mk.injEq] at h
  obtain ⟨hrows, rfl⟩ := h
  refine ⟨rfl, fun x => ?_⟩
  rw [sessionsT.mem_rows, sessionsT.mem_rows, ← hrows, Relational.hits, List.mem_filter]
  refine and_congr_right fun hx => ?_
  simp only [Bool.and_eq_true, List.any_eq_true, decide_eq_true_eq]
  exact ⟨fun h => h.1, fun h => ⟨h, _, hx, h, rfl⟩⟩

/-- The session is locked, or there is none. -/
theorem Holds.locks (calm_of : calm → Calm env db) (h : Holds env db p n c sv) {q : Row → Bool}
    {r : Answer (.query .tx (.forUpdate q) : Operation)} (hm : (protocol calm env db).may p (.query .tx (.forUpdate q)))
    (hx : ReadCommitted.perform () (env n) sv.look c sv (.query .tx (.forUpdate q)) = (r, c', sv')) :
    ∃ t, (protocol calm env db).next p (.query .tx (.forUpdate q)) r t ∧ Holds env db t (n + 1) c' sv' := by
  have hheld := h
  obtain ⟨m, s⟩ := p
  obtain ⟨rfl, hu, hs⟩ := h
  obtain ⟨rfl, id, hq⟩ : s = .begun ∧ _ := hm
  obtain ⟨hdb, t, ht, henv, hnil⟩ := hs
  have hview : t.view sv = db := by rw [Tx.view, hnil, hdb]; rfl
  have hu' : Unique c' sv' := hu.performed hx (by simp)
  cases r with
  | error err => exact hheld.failed calm_of (fun _ => error_not_calm ht (by simp [Stmt.run]) hx) hx
  | ok rows =>
    obtain ⟨ws, hres, htx, hsame⟩ := answered ht hx
    rw [hview] at hres
    obtain ⟨rfl, hmem⟩ := mem_locked hres
    cases hhead : (sessionsT.rows rows).head? with
    | none =>
      refine ⟨(m + 1, .begun), ⟨rfl, fun _ => ⟨rfl, fun x hx => ?_⟩, fun x hx => ?_⟩, rfl, hu', hsame.trans hdb, _, htx, henv, ?_⟩
      · by_contra hp
        have := (hmem x).2 ⟨hx, by simpa using hp⟩
        rw [List.head?_eq_none_iff.1 hhead] at this
        cases this
      · rw [hhead] at hx; cases hx
      · simp [hnil]
    | some x =>
      obtain ⟨hx, hpx⟩ := (hmem x).1 (List.mem_of_mem_head? hhead)
      refine ⟨(m + 1, .held x x), ⟨rfl, fun hno => ?_, fun y hy => ?_⟩, rfl, hu', hsame.trans hdb, _, htx, ?_, ?_⟩
      · rw [hhead] at hno; cases hno
      · obtain rfl := Option.some.inj (hhead.symm.trans hy)
        exact ⟨rfl, hx, hpx⟩
      · exact .start (hdb ▸ hu.db) henv (by simp [hnil]) hx
      · simp [hnil]

/-- The locked session is written. -/
theorem Holds.updates (calm_of : calm → Calm env db) (h : Holds env db p n c sv) {q : Row → Bool} {set : Env → Setter Row}
    {r : Answer (.query .tx (.update q set) : Operation)} (hm : (protocol calm env db).may p (.query .tx (.update q set)))
    (hx : ReadCommitted.perform () (env n) sv.look c sv (.query .tx (.update q set)) = (r, c', sv')) :
    ∃ t, (protocol calm env db).next p (.query .tx (.update q set)) r t ∧ Holds env db t (n + 1) c' sv' := by
  have hheld := h
  obtain ⟨m, s⟩ := p
  obtain ⟨rfl, hu, hs⟩ := h
  obtain ⟨x, y, set', hk, rfl, hq⟩ := hm
  obtain ⟨hdb, t, ht, hw, haud⟩ := hs
  have hview : t.view sv = applyAll t.writes db := by rw [Tx.view, hdb]
  have hrun : ∀ e', ((Stmt.update q set : Sql).run e' (t.view sv) (t.view sv) (t.view sv)).result =
      .ok ([sessionsT.put (set' e' y)], [.update (sessionsT.put (set' e' y))]) := by
    intro e'
    rw [hq, hview]
    exact update_run (hw.hits (hview ▸ hu.view t ht)) rfl
  cases r with
  | error err =>
    refine hheld.failed calm_of (fun _ => error_not_calm ht ?_ hx) hx
    rw [hrun]
    exact fun h => by cases h
  | ok rows =>
    have hu' : Unique c' sv' := hu.performed hx (by simp)
    obtain ⟨ws, hres, htx, hsame⟩ := answered ht hx
    rw [hrun] at hres
    simp only [Except.ok.injEq, Prod.mk.injEq] at hres
    obtain ⟨rfl, rfl⟩ := hres
    refine ⟨(m + 1, .held x (set' (StepEnv.within t.env (env m)) y)), ⟨rfl, fun x' y' hxy => ?_⟩, rfl, hu', hsame.trans hdb, _,
      htx, hw.update hk _, fun w hwm => ?_⟩
    · cases hxy
      refine ⟨_, StepEnv.within t.env (env m), rfl, ?_, ?_, ?_⟩
      · exact congrArg List.head? (sessionsT.rows_map_put [_])
      · show t.env.now = (env 0).now
        rw [hw.began]
      · simp only [Table.update, Stmt.update.injEq] at hq
        rw [hq.2]
        simp [Table.setter]
    · rcases List.mem_append.1 hwm with hwm | hwm
      · exact haud w hwm
      · rw [List.mem_singleton.1 hwm]
        exact fun h => by cases h

/-- The audit row goes in. -/
theorem Holds.audits (calm_of : calm → Calm env db) (h : Holds env db p n c sv)
    {mk : Env → List Row → Except (DbError Key Uniq) (List (Row × OnConflict Row))}
    {r : Answer (.query .tx (.insert mk) : Operation)} (hm : (protocol calm env db).may p (.query .tx (.insert mk)))
    (hx : ReadCommitted.perform () (env n) sv.look c sv (.query .tx (.insert mk)) = (r, c', sv')) :
    ∃ t, (protocol calm env db).next p (.query .tx (.insert mk)) r t ∧ Holds env db t (n + 1) c' sv' := by
  have hheld := h
  obtain ⟨m, s⟩ := p
  obtain ⟨rfl, hu, hs⟩ := h
  obtain ⟨⟨x, y, rfl⟩, entry, hq⟩ : (∃ x y, s = .held x y) ∧ _ := hm
  obtain ⟨hdb, t, ht, hw, haud⟩ := hs
  cases r with
  | error err =>
    refine hheld.failed calm_of (fun hc => error_not_calm ht ?_ hx) hx
    have hnew : ∀ z ∈ t.view sv, key z ≠ Key.audit ((StepEnv.within t.env (env m)).uuid 0) := by
      intro z hz hk
      have hvers : versions (key z) (t.view sv) = versions (key z) db := by
        rw [Tx.view, hdb]
        refine versions_applyAll_other (fun w hwm hwk => haud w hwm ?_) db
        rw [hwk, hk]; rfl
      have hz' : z ∈ versions (key z) db := by
        rw [← hvers]; simp [versions, hz]
      exact (calm_of hc).fresh m z (List.mem_filter.1 hz').1 hk
    rw [hq, appendSql_run hnew]
    exact fun h => by cases h
  | ok rows =>
    have hu' : Unique c' sv' := hu.performed hx (by simp)
    obtain ⟨ws, hres, htx, hsame⟩ := answered ht hx
    refine ⟨(m + 1, .ready x y), ⟨rfl, fun x' y' hxy => by cases hxy; rfl⟩, rfl, hu', hsame.trans hdb, _, htx, hw.congr ?_⟩
    intro w hwm
    rw [hq] at hres
    rw [AuditLog.appendSql_writes entry _ _ _ _ _ _ hres w hwm]
    decide

/-- Rows of other tables go. -/
theorem Holds.deletes (calm_of : calm → Calm env db) (h : Holds env db p n c sv) {q : Row → Bool}
    {r : Answer (.query .tx (.delete q) : Operation)} (hm : (protocol calm env db).may p (.query .tx (.delete q)))
    (hx : ReadCommitted.perform () (env n) sv.look c sv (.query .tx (.delete q)) = (r, c', sv')) :
    ∃ t, (protocol calm env db).next p (.query .tx (.delete q)) r t ∧ Holds env db t (n + 1) c' sv' := by
  have hheld := h
  obtain ⟨m, s⟩ := p
  obtain ⟨rfl, hu, hs⟩ := h
  obtain ⟨⟨x, y, rfl⟩, hq⟩ : (∃ x y, s = .held x y) ∧ _ := hm
  obtain ⟨hdb, t, ht, hw, haud⟩ := hs
  cases r with
  | error err => exact hheld.failed calm_of (fun _ => error_not_calm ht (by simp [Stmt.run]) hx) hx
  | ok rows =>
    have hu' : Unique c' sv' := hu.performed hx (by simp)
    obtain ⟨ws, hres, htx, hsame⟩ := answered ht hx
    have hws := fun w hw => hq _ _ _ _ _ _ hres w hw
    refine ⟨(m + 1, .held x y), ⟨rfl, rfl⟩, rfl, hu', hsame.trans hdb, _, htx, hw.congr fun w hw => (hws w hw).1, fun w hwm => ?_⟩
    rcases List.mem_append.1 hwm with hwm | hwm
    · exact haud w hwm
    · exact (hws w hwm).2

theorem Holds.query_tx (calm_of : calm → Calm env db) (h : Holds env db p n c sv) {q : Sql}
    {r : Answer (.query .tx q : Operation)} (hm : (protocol calm env db).may p (.query .tx q))
    (hx : ReadCommitted.perform () (env n) sv.look c sv (.query .tx q) = (r, c', sv')) :
    ∃ t, (protocol calm env db).next p (.query .tx q) r t ∧ Holds env db t (n + 1) c' sv' := by
  cases q with
  | select p => exact hm.elim
  | forUpdate p => exact h.locks calm_of hm hx
  | update p set => exact h.updates calm_of hm hx
  | insert mk => exact h.audits calm_of hm hx
  | delete p => exact h.deletes calm_of hm hx

theorem Others.refl (id : Uuid) (db : Db) : Others id db db := fun _ _ => rfl

theorem Others.apply {id : Uuid} {db₀ : Db} {ws : List (Write Row Key)} (h : Others id db₀ db)
    (hws : ∀ w ∈ ws, (Key.table w.key) = .sessions → w.key = Key.session id) : Others id db₀ (applyAll ws db) := by
  intro other hne
  have hother : ∀ w ∈ ws, w.key ≠ Key.session other := by
    intro w hw hk
    have := hws w hw (by rw [hk]; rfl)
    rw [hk] at this
    exact hne (Key.session.inj this)
  rw [versions_applyAll_other hother, h other hne]

/-- A session is created. -/
theorem Holds.create {input : Sessions.CreateSession} {rows : List Row} {ws : List (Write Row Key)} {e : Env}
    (hres : ((Sessions.createSql input).run e db db db).result = .ok (rows, ws)) :
    lookup (.session input.id) db = none ∧
      lookup (.session input.id) (applyAll ws db) = some (.session (Sessions.createRow input e)) ∧
      Others input.id db (applyAll ws db) := by
  obtain ⟨x, hmk, -, hclash, -, -, rfl⟩ := insert_ok hres
  obtain rfl := Except.ok.inj hmk
  have hnone : lookup (Key.session input.id) db = none := lookup_none.2 (clash_slots_none hclash)
  refine ⟨hnone, ?_, Others.apply (.refl _ _) fun w hw _ => ?_⟩
  · exact lookup_insert (r := Row.session (Sessions.createRow input e)) hnone
  · rw [List.mem_singleton.1 hw]; rfl

theorem Holds.pool (h : Holds env db p n c sv) {q : Sql} {r : Answer (.query .pool q : Operation)}
    (hm : (protocol calm env db).may p (.query .pool q))
    (hx : ReadCommitted.perform () (env n) sv.look c sv (.query .pool q) = (r, c', sv')) :
    ∃ t, (protocol calm env db).next p (.query .pool q) r t ∧ Holds env db t (n + 1) c' sv' := by
  obtain ⟨m, s⟩ := p
  obtain ⟨rfl, hu, hs⟩ := h
  have htx : c.tx = none := by
    rcases hm with ⟨rfl, -⟩ | ⟨⟨x, rfl⟩, -⟩
    · exact hs.2
    · exact hs.1
  have hu' : Unique c' sv' := hu.performed hx fun _ _ => htx
  rcases performed_query_pool hx with ⟨err, rfl, rfl, rfl⟩ | ⟨rows, ws, hres, rfl, rfl, rfl⟩
  · refine ⟨(m + 1, s), ⟨rfl, rfl⟩, rfl, hu', ?_⟩
    rcases hm with ⟨rfl, -⟩ | ⟨⟨x, rfl⟩, -⟩ <;> exact hs
  · rcases hm with ⟨rfl, input, rfl⟩ | ⟨⟨x, rfl⟩, entry, rfl⟩
    · obtain ⟨rfl, -⟩ := hs
      obtain ⟨hnone, hsome, hothers⟩ := Holds.create hres
      refine ⟨(m + 1, .created (Sessions.createRow input (env m))), ⟨rfl, ?_, fun _ => ⟨_, rfl⟩⟩, rfl, hu', htx, hnone,
        ⟨input, env m, rfl⟩, hsome, hothers⟩
      intro x hx
      cases hx
    · obtain ⟨-, hnone, hrow, hsome, hothers⟩ := hs
      have hws : ∀ w ∈ ws, (Key.table w.key) ≠ .sessions := by
        intro w hw
        rw [AuditLog.appendSql_writes entry _ _ _ _ _ _ hres w hw]
        decide
      refine ⟨(m + 1, .created x), ⟨rfl, fun _ _ => rfl, fun h => by cases h⟩, rfl, hu', htx, hnone, hrow, ?_,
        hothers.apply fun w hw hk => absurd hk (hws w hw)⟩
      refine (lookup_applyAll_other (fun w hw hk => hws w hw ?_) sv.db).trans hsome
      rw [hk]; rfl

/-- Every allowed operation keeps what the stage says. -/
theorem Holds.done (calm_of : calm → Calm env db) (h : Holds env db p n c sv) {o : Operation} {r : Answer o}
    (hm : (protocol calm env db).may p o) (hx : ReadCommitted.perform () (env n) sv.look c sv o = (r, c', sv')) :
    ∃ t, (protocol calm env db).next p o r t ∧ Holds env db t (n + 1) c' sv' := by
  cases o with
  | query via q =>
    cases via with
    | tx => exact h.query_tx calm_of hm hx
    | pool => exact h.pool hm hx
  | begin =>
    obtain ⟨m, s⟩ := p
    obtain ⟨rfl, hu, hs⟩ := h
    obtain ⟨rfl, rfl⟩ : s = .idle ∧ m = 0 := hm
    obtain ⟨rfl, htx⟩ := hs
    have hu' : Unique c' sv' := hu.performed hx (by simp)
    rcases performed_begin hx with ⟨err, rfl, rfl, rfl⟩ | ⟨rfl, rfl, rfl⟩
    · refine ⟨(1, .idle), ⟨rfl, rfl, fun hc => ?_⟩, rfl, hu', rfl, htx⟩
      have hfails : (StepEnv.fails (env 0) : Bool) = false := (calm_of hc).fails 0
      simp [ReadCommitted.perform, act, hfails] at hx
    · exact ⟨(1, .begun), ⟨rfl, rfl⟩, rfl, hu', rfl, _, rfl, rfl, rfl⟩
  | commit =>
    obtain ⟨m, s⟩ := p
    obtain ⟨rfl, hu, hs⟩ := h
    obtain ⟨x, y, rfl, hturn⟩ : ∃ x y, s = .ready x y ∧ _ := hm
    obtain ⟨rfl, t, ht, hw⟩ := hs
    have hu' : Unique c' sv' := hu.performed hx (by simp)
    rcases performed_commit hx with ⟨err, rfl, rfl, rfl⟩ | ⟨rfl, rfl, rfl⟩
    · refine ⟨(m + 1, .idle), ⟨rfl, rfl, fun hc => ?_⟩, rfl, hu', rfl, rfl⟩
      have hfails : (StepEnv.fails (env m) : Bool) = false := (calm_of hc).fails m
      simp [ReadCommitted.perform, act, hfails] at hx
    · refine ⟨(m + 1, .changed x y), ⟨rfl, fun x' y' hxy => ?_⟩, rfl, hu', rfl, hw.there, hturn, ?_, ?_⟩
      · cases hxy; rfl
      · simpa [Server.release, Server.apply, Client.writes, ht] using hw.row
      · have : Others x.id sv.db (applyAll t.writes sv.db) := (Others.refl _ _).apply hw.sessions
        simpa [Server.release, Server.apply, Client.writes, ht] using this
  | rollback => exact hm.elim
  | outer x =>
    obtain ⟨m, s⟩ := p
    obtain ⟨rfl, hu, hs⟩ := h
    have hu' : Unique c' sv' := hu.performed hx (by simp)
    obtain ⟨rfl, rfl, rfl⟩ := performed_outer hx
    refine ⟨(m + 1, s), ⟨rfl, ?_⟩, rfl, hu', ?_⟩
    · cases x <;> first | rfl | exact ⟨rfl, rfl⟩
    · cases s <;> exact hs

end

/-! ## The handlers follow it -/

/-- Nothing was committed. -/
def Stage.early : Stage → Prop
  | .changed _ _ | .created _ => False
  | _ => True

section
variable {β : Type} {calm : Prop} {env : Nat → Env} {db : Db} {Q : Nat × Stage → Except AppError β → Prop} {n : Nat}

abbrev Follows (calm : Prop) (env : Nat → Env) (db : Db) (Q : Nat × Stage → Except AppError β → Prop)
    (p : Nat × Stage) (h : Handler β) : Prop := Prog.Follows (protocol calm env db) Q p h.run

/-- An error before the commit may come whenever something fails. -/
def Fails (calm : Prop) (Q : Nat × Stage → Except AppError β → Prop) : Prop :=
  ∀ n s e, Stage.early s → ¬calm → Q (n, s) (.error e)

theorem follows_begin (hQ : Fails calm Q) {f : Unit → Handler β} (h : Follows calm env db Q (1, .begun) (f ())) :
    Follows calm env db Q (0, .idle) (begin >>= f) := by
  refine Handler.follows_begin ⟨rfl, rfl⟩ ?_ ?_
  · rintro err ⟨m, t⟩ ⟨rfl, rfl, hc⟩
    exact hQ _ _ _ trivial hc
  · rintro ⟨m, t⟩ ⟨rfl, rfl⟩
    exact h

theorem follows_getInTx (hQ : Fails calm Q) {id : Uuid} {f : Session → Handler β}
    (hnone : ∀ e, (∀ x ∈ sessionsT.rows db, x.id ≠ id) → Q (n + 1, .begun) (.error e))
    (h : ∀ x ∈ sessionsT.rows db, x.id = id → Follows calm env db Q (n + 1, .held x x) (f x)) :
    Follows calm env db Q (n, .begun) (Sessions.getInTx id >>= f) := by
  rw [Sessions.getInTx, bind_assoc]
  refine follows_fetchOptional ⟨rfl, id, rfl⟩ ?_ ?_
  · rintro err ⟨m, t⟩ ⟨rfl, rfl, hc⟩
    exact hQ _ _ _ trivial hc
  · rintro rows ⟨m, t⟩ ⟨rfl, hno, hsome⟩
    have byId_iff : ∀ x, sessionsT.is (Sessions.byId id) (.session x) = true ↔ x.id = id := by
      intro x
      rw [show Row.session x = sessionsT.put x from rfl, sessionsT.is_put]
      simp [Sessions.byId]
    cases hx : (sessionsT.rows rows).head? with
    | none =>
      obtain ⟨rfl, hall⟩ := hno hx
      refine follows_throw (hnone _ fun x hx hid => ?_)
      have := hall x hx
      rw [(byId_iff x).2 hid] at this
      cases this
    | some x =>
      obtain ⟨rfl, hmem, hp⟩ := hsome x hx
      exact h x hmem ((byId_iff x).1 hp)

/-- An UPDATE of the row that is held. -/
theorem follows_set (hQ : Fails calm Q) {x y : Session} {set : Env → Session → Session}
    {hk : ∀ e, sessionsT.Keeps (set e)} {f : Session → Handler β}
    (h : ∀ e : Env, e.now = (env 0).now → Follows calm env db Q (n + 1, .held x (set e y)) (f (set e y))) :
    Follows calm env db Q (n, .held x y)
      (fetchOne .tx sessionsT (sessionsT.update (Sessions.byId x.id) set hk) >>= f) := by
  have step : ∀ {rows : List Row} {t : Stage}, Next calm env db n (.held x y)
      (.query .tx (sessionsT.update (Sessions.byId x.id) set hk)) (.ok rows) t →
      ∃ e : Env, t = .held x (set e y) ∧ (sessionsT.rows rows).head? = some (set e y) ∧ e.now = (env 0).now := by
    intro rows t ht
    obtain ⟨y', e, rfl, hhead, he, hput⟩ := ht x y rfl
    have : y' = set e y := by
      refine sessionsT.put_inj ?_
      rw [hput]
      simp [Table.setter]
    subst this
    exact ⟨e, rfl, hhead, he⟩
  refine follows_fetchOne ⟨x, y, set, hk, rfl, rfl⟩ ?_ ?_ ?_
  · rintro err ⟨m, t⟩ ⟨rfl, rfl, hc⟩
    exact hQ _ _ _ trivial hc
  · rintro rows ⟨m, t⟩ ⟨rfl, ht⟩ hnone
    obtain ⟨e, -, hhead, -⟩ := step ht
    rw [hhead] at hnone
    cases hnone
  · rintro rows ⟨m, t⟩ z ⟨rfl, ht⟩ hz
    obtain ⟨e, rfl, hhead, he⟩ := step ht
    obtain rfl := Option.some.inj (hhead.symm.trans hz)
    exact h e he

/-- A DELETE of other rows. -/
theorem follows_delete (hQ : Fails calm Q) {x y : Session} {q : Sql} {p : Row → Bool} (hp : q = .delete p)
    (hq : Spares q) {f : List Row → Handler β} (h : ∀ rows, Follows calm env db Q (n + 1, .held x y) (f rows)) :
    Follows calm env db Q (n, .held x y) (query .tx q >>= f) := by
  subst hp
  refine follows_query ⟨⟨x, y, rfl⟩, hq⟩ ?_ ?_
  · rintro err ⟨m, t⟩ ⟨rfl, rfl, hc⟩
    exact hQ _ _ _ trivial hc
  · rintro rows ⟨m, t⟩ ⟨rfl, ht⟩
    obtain rfl : t = .held x y := ht
    exact h _

/-- The audit row and the commit. -/
theorem follows_announce (hQ : Fails calm Q) {x y : Session} (hturn : Turn (env 0).now x y) {e : AuditLog.Entry}
    {k : Handler β} (h : ∀ m, Follows calm env db Q (m, .changed x y) k) :
    Follows calm env db Q (n, .held x y) (AuditLog.appendTx e >>= fun _ => commit >>= fun _ => k) := by
  refine follows_appendTx ⟨⟨x, y, rfl⟩, e, rfl⟩ ?_ ?_
  · rintro err ⟨m, t⟩ ⟨rfl, rfl, hc⟩
    exact hQ _ _ _ trivial hc
  · rintro rows ⟨m, t⟩ ⟨rfl, ht⟩
    obtain rfl : t = .ready x y := ht x y rfl
    refine follows_commit ⟨x, y, rfl, hturn⟩ ?_ ?_
    · rintro err ⟨m, t⟩ ⟨rfl, rfl, hc⟩
      exact hQ _ _ _ trivial hc
    · rintro ⟨m, t⟩ ⟨rfl, ht⟩
      obtain rfl : t = .changed x y := ht x y rfl
      exact h _

theorem follows_stateChanged {s : Stage} {id : Uuid} {g : Int} {old new : SessionStatus} {k : Handler β}
    (h : ∀ m, Follows calm env db Q (m, s) k) :
    Follows calm env db Q (n, s) (SessionRoutes.stateChanged id g old new >>= fun _ => k) := by
  rw [SessionRoutes.stateChanged, bind_assoc]
  refine follows_utcNow trivial ?_
  rintro now ⟨m, t⟩ ⟨rfl, ht, -⟩
  obtain rfl : t = s := ht
  refine follows_send trivial ?_
  rintro ⟨m, t⟩ ⟨rfl, ht⟩
  obtain rfl : t = _ := ht
  exact h _

end

/-- Nothing is asked of the answer. -/
def Anything {β : Type} : Nat × Stage → Except AppError β → Prop := fun _ _ => True

theorem any_fails {β : Type} {calm : Prop} : Fails calm (@Anything β) := fun _ _ _ _ _ => trivial

section
variable {calm : Prop} {env : Nat → Env} {db : Db}

theorem create_follows (svc : String) (input : Sessions.CreateSession) :
    Follows calm env db Anything (0, .idle) (SessionRoutes.create svc input) := by
  rw [SessionRoutes.create, Sessions.create]
  refine follows_fetchOne (.inl ⟨rfl, input, rfl⟩) (fun _ _ _ => trivial) (fun _ _ _ _ => trivial) ?_
  rintro rows ⟨m, t⟩ x ⟨rfl, -, ht⟩ -
  obtain ⟨y, rfl⟩ := ht rfl
  refine follows_append (.inr ⟨⟨y, rfl⟩, _, rfl⟩) (fun _ _ _ => trivial) ?_
  rintro rows ⟨m, t⟩ ⟨rfl, ht, -⟩
  exact follows_incCounter trivial fun _ _ => follows_pure trivial

theorem patch_follows (svc : String) (id : Uuid) (body : SessionRoutes.PatchSession) :
    Follows calm env db Anything (0, .idle) (SessionRoutes.patch svc id body) := by
  rw [SessionRoutes.patch]
  refine follows_begin any_fails ?_
  refine follows_getInTx any_fails (fun _ _ => trivial) fun existing hmem hid => ?_
  subst hid
  have finish : ∀ (m : Nat) (y updated : Session) change, Turn (env 0).now existing y →
      Follows calm env db Anything (m, .held existing y)
        (SessionRoutes.patchFields existing.id body updated >>= fun updated =>
          AuditLog.appendTx (SessionRoutes.entry svc existing.id "patched" (.obj
            [("status", .str updated.status.asStr), ("ended_at", Json.optTime updated.endedAt)])) >>= fun _ =>
          commit >>= fun _ =>
          SessionRoutes.announceChange existing.id updated.guildId change >>= fun _ => pure updated) := by
    intro m y updated change hturn
    have last : ∀ (m : Nat) (y updated : Session), Turn (env 0).now existing y →
        Follows calm env db Anything (m, .held existing y)
          (AuditLog.appendTx (SessionRoutes.entry svc existing.id "patched" (.obj
            [("status", .str updated.status.asStr), ("ended_at", Json.optTime updated.endedAt)])) >>= fun _ =>
            commit >>= fun _ =>
            SessionRoutes.announceChange existing.id updated.guildId change >>= fun _ => pure updated) := by
      intro m y updated hturn
      refine follows_announce any_fails hturn fun m => ?_
      cases change with
      | none => exact follows_pure trivial
      | some p =>
        rw [SessionRoutes.announceChange, bind_assoc]
        refine follows_stateChanged fun m => ?_
        exact follows_incCounter trivial fun _ _ => follows_pure trivial
    rw [SessionRoutes.patchFields]
    split
    · exact follows_set any_fails fun e he => last _ _ _ (hturn.setFields _ _ e)
    · exact last m y updated hturn
  cases hs : body.status with
  | none => exact finish _ existing existing none (.refl _ _)
  | some new =>
    rw [SessionRoutes.patchStatus, bind_assoc]
    refine follows_refuseIf (fun _ => trivial) fun hc => ?_
    rw [bind_assoc, Sessions.updateStatus]
    exact follows_set any_fails fun e he => finish _ _ _ _ (.setStatus he (by simpa using hc))

theorem deleteCascade_follows (svc : String) (id : Uuid) :
    Follows calm env db Anything (0, .idle) (SessionRoutes.deleteCascade svc id) := by
  have spares : ∀ {q : Sql} {t : TableName}, Writes (· = t) q → t ≠ .sessions → t ≠ .audit → Spares q :=
    fun h hs ha => h.mono fun _ hn => hn ▸ ⟨hs, ha⟩
  rw [SessionRoutes.deleteCascade]
  refine follows_begin any_fails ?_
  refine follows_getInTx any_fails (fun _ _ => trivial) fun existing hmem hid => ?_
  subst hid
  simp only [SessionRoutes.deleteChildren, Chunks.deleteForSession, Uniform.deleteAllForSession,
    MuteRanges.deleteForSession, fetchAll, execute, bind_assoc, pure_bind]
  refine follows_delete any_fails rfl (spares (Chunks.deleteForSessionSql_writes _) (by decide) (by decide)) fun keys => ?_
  refine follows_delete any_fails rfl (spares (Uniform.deleteAllForSessionSql_writes _ _) (by decide) (by decide)) fun _ => ?_
  refine follows_delete any_fails rfl (spares (Uniform.deleteAllForSessionSql_writes _ _) (by decide) (by decide)) fun _ => ?_
  refine follows_delete any_fails rfl (spares (Uniform.deleteAllForSessionSql_writes _ _) (by decide) (by decide)) fun _ => ?_
  refine follows_delete any_fails rfl (spares (MuteRanges.deleteForSessionSql_writes _) (by decide) (by decide)) fun _ => ?_
  refine follows_delete any_fails rfl (spares (Metadata.deleteSql_writes _) (by decide) (by decide)) fun _ => ?_
  have hparts : Spares (Participants.deleteForSessionSql existing.id) :=
    (Participants.deleteForSessionSql_writes existing.id).mono fun n hn => by
      rcases hn with rfl | rfl <;> exact ⟨by decide, by decide⟩
  refine follows_delete any_fails rfl hparts fun _ => ?_
  rw [Sessions.updateStatus]
  refine follows_set any_fails fun e he => ?_
  refine follows_announce any_fails .delete fun m => ?_
  rw [SessionRoutes.sweep]
  split
  · exact follows_stateChanged fun m => follows_pure trivial
  · rw [bind_assoc]
    refine follows_deleteMany trivial ?_
    rintro r ⟨m, t⟩ ⟨rfl, ht⟩
    exact follows_stateChanged fun m => follows_pure trivial

/-- A session that may be resumed at `now`. -/
def Resumable (ttl : Nat) (now : Timestamp) (x : Session) : Prop :=
  x.status = .abandoned ∧ SessionRoutes.age now (x.abandonedAt.getD x.startedAt) ≤ ttl

def EndsResume (ttl : Nat) (id : Uuid) (calm : Prop) (env : Nat → Env) (db : Db) (p : Nat × Stage) :
    Except AppError Session → Prop
  | .ok _ => ∃ x y, p.2 = .changed x y ∧ x.id = id ∧ Resumable ttl (env 2).now x ∧ y.status = .recording ∧
      y.abandonedAt = none
  | .error _ => calm → ∀ x ∈ sessionsT.rows db, x.id = id → ¬Resumable ttl (env 2).now x

theorem endsResume_fails {ttl : Nat} {id : Uuid} : Fails calm (EndsResume ttl id calm env db) :=
  fun _ _ _ _ hnot hc => absurd hc hnot

/-- The clock is read by the third operation. -/
theorem resume_follows (hu : KeysUnique db) (st : AppState) (svc : String) (id : Uuid) (body : SessionRoutes.ResumeBody) :
    Follows calm env db (EndsResume st.resumeTtl id calm env db) (0, .idle) (SessionRoutes.resume st svc id body) := by
  rw [SessionRoutes.resume]
  refine follows_begin endsResume_fails ?_
  refine follows_getInTx endsResume_fails (fun _ hno _ x hx hid => absurd hid (hno x hx)) fun existing hmem hid => ?_
  subst hid
  have only : ∀ x ∈ sessionsT.rows db, x.id = existing.id → x = existing := by
    intro x hx hid
    have h₁ := hu.lookup_eq (sessionsT.mem_rows.1 hx)
    have h₂ := hu.lookup_eq (sessionsT.mem_rows.1 hmem)
    have hk : key (sessionsT.put x) = key (sessionsT.put existing) := congrArg Key.session hid
    rw [hk, h₂] at h₁
    exact (sessionsT.put_inj (Option.some.inj h₁)).symm
  refine follows_refuseIf (fun hc _ x hx hid hres => ?_) fun hstatus => ?_
  · rw [only x hx hid] at hres
    exact (of_decide_eq_true hc) hres.1
  refine follows_utcNow trivial ?_
  rintro now ⟨m, t⟩ ⟨rfl, ht, rfl⟩
  obtain rfl : t = .held existing existing := ht
  refine follows_refuseIf (fun hc _ x hx hid hres => ?_) fun hage => ?_
  · rw [only x hx hid] at hres
    exact absurd hres.2 (Nat.not_le.2 (of_decide_eq_true hc))
  have hab : existing.status = .abandoned := by simpa using hstatus
  have hres : Resumable st.resumeTtl (env 2).now existing := ⟨hab, by simpa using hage⟩
  rw [Sessions.resumeFromAbandoned]
  refine follows_set endsResume_fails fun e he => ?_
  refine follows_announce endsResume_fails (.resumed e hab) fun m => ?_
  refine follows_stateChanged fun m => follows_pure ?_
  exact ⟨existing, _, rfl, rfl, hres, rfl, rfl⟩

end

/-! ## One call -/

/-- What a call of time `now` does to the session rows. -/
def Effect (now : Timestamp) (db db' : Db) : Prop :=
  ∀ id : Uuid, lookup (.session id) db' = lookup (.session id) db ∨
    (∃ x y, lookup (.session id) db = some (.session x) ∧ lookup (.session id) db' = some (.session y) ∧ Turn now x y) ∨
    ∃ input e, lookup (.session id) db = none ∧ lookup (.session id) db' = some (.session (Sessions.createRow input e))

/-- The commit of a transaction, or none, as its effect. -/
theorem Holds.effect {env : Nat → Env} {db : Db} {p : Nat × Stage} {n : Nat} {c : Conn} {sv : Sv Unit} (hu : KeysUnique db)
    (h : Holds env db p n c sv) : Effect (env 0).now db sv.db := by
  obtain ⟨m, s⟩ := p
  obtain ⟨-, -, hs⟩ := h
  intro id
  have others : ∀ {x : Session}, x.id ≠ id → Others x.id db sv.db → lookup (.session id) sv.db = lookup (.session id) db := by
    intro x hne ho
    rw [lookup, lookup, ho id (Ne.symm hne)]
  cases s with
  | idle => exact .inl (by rw [hs.1])
  | begun => exact .inl (by rw [hs.1])
  | held x y => exact .inl (by rw [hs.1])
  | ready x y => exact .inl (by rw [hs.1])
  | changed x y =>
    obtain ⟨-, hmem, hturn, hsome, ho⟩ := hs
    by_cases hid : x.id = id
    · subst hid
      exact .inr (.inl ⟨x, y, hu.lookup_eq (sessionsT.mem_rows.1 hmem), hsome, hturn⟩)
    · exact .inl (others hid ho)
  | created x =>
    obtain ⟨-, hnone, ⟨input, e, rfl⟩, hsome, ho⟩ := hs
    by_cases hid : (Sessions.createRow input e).id = id
    · subst hid
      exact .inr (.inr ⟨input, e, hnone, hsome⟩)
    · exact .inl (others hid ho)

section
variable {st : AppState} {x : Call} {sv : Sv Unit}

/-- The rule for a call, from that for its handler. -/
theorem serve_ends {Q : Nat × Stage → Outcome → Prop} (hu : KeysUnique sv.db)
    (hf : Follows (Calm x.env sv.db) x.env sv.db Q (0, .idle) (handle st x.request)) :
    ∃ p n c sv', Holds x.env sv.db p n c sv' ∧ Q p (serve st x sv).1 ∧ (serve st x sv).2 = sv'.release () := by
  refine serve_follows (fun _ _ _ _ _ _ _ _ hm h hx => Holds.done id h hm hx) hf ⟨rfl, ⟨hu, ?_⟩, rfl, rfl⟩
  intro t ht
  cases ht

theorem handle_follows (st : AppState) (hu : KeysUnique sv.db) (hr : StatusHistory.Lifecycle x.request) :
    Follows (Calm x.env sv.db) x.env sv.db Anything (0, .idle) (handle st x.request) := by
  cases hq : x.request with
  | createSession svc input => exact follows_map (create_follows svc input)
  | patchSession svc id body => exact follows_map (patch_follows svc id body)
  | resume svc id body =>
    exact follows_map ((resume_follows hu st svc id body).mono fun _ _ _ => trivial)
  | deleteCascade svc id => exact follows_map (deleteCascade_follows svc id)
  | _ => rw [hq] at hr; exact hr.elim

theorem serve_effect (st : AppState) (hu : KeysUnique sv.db) (hr : StatusHistory.Lifecycle x.request) :
    KeysUnique (serve st x sv).2.db ∧ Effect (x.env 0).now sv.db (serve st x sv).2.db := by
  obtain ⟨p, n, c, sv', hh, -, hsv⟩ := serve_ends hu (handle_follows st hu hr)
  have heffect := hh.effect hu
  rw [hsv]
  exact ⟨hh.2.1.db, heffect⟩

theorem serve_resume (st : AppState) (hu : KeysUnique sv.db) {svc : String} {id : Uuid} {body : SessionRoutes.ResumeBody}
    (hr : x.request = .resume svc id body) :
    (∀ r, (serve st x sv).1 = .ok r → ∃ s ∈ sessionsT.rows sv.db, s.id = id ∧
      Resumable st.resumeTtl (x.env 2).now s ∧ ∃ s' ∈ sessionsT.rows (serve st x sv).2.db, s'.id = id ∧
        s'.status = .recording ∧ s'.abandonedAt = none) ∧
    ∀ e, (serve st x sv).1 = .error e → Calm x.env sv.db → ∀ s ∈ sessionsT.rows sv.db, s.id = id →
      ¬Resumable st.resumeTtl (x.env 2).now s := by
  have hf : Follows (Calm x.env sv.db) x.env sv.db (fun p o =>
      (∀ r, o = .ok r → ∃ s s', p.2 = .changed s s' ∧ s.id = id ∧ Resumable st.resumeTtl (x.env 2).now s ∧
        s'.status = .recording ∧ s'.abandonedAt = none) ∧
      ∀ e, o = .error e → Calm x.env sv.db → ∀ s ∈ sessionsT.rows sv.db, s.id = id →
        ¬Resumable st.resumeTtl (x.env 2).now s)
      (0, .idle) (handle st x.request) := by
    rw [hr]
    refine follows_map ((resume_follows hu st svc id body).mono fun p o ho => ?_)
    cases o with
    | ok r => exact ⟨fun _ _ => ho, fun e he => by cases he⟩
    | error e => exact ⟨fun r hr => (by cases hr), fun _ _ => ho⟩
  obtain ⟨p, n, c, sv', hh, hq, hsv⟩ := serve_ends hu hf
  refine ⟨fun r hok => ?_, fun e herr => ?_⟩
  · obtain ⟨s, s', hp, rfl, hres, hrec, hnone⟩ := hq.1 r hok
    obtain ⟨m, t⟩ := p
    obtain rfl : t = .changed s s' := hp
    obtain ⟨-, -, -, hmem, hturn, hsome, -⟩ := hh
    refine ⟨s, hmem, rfl, hres, s', ?_, hturn.id, hrec, hnone⟩
    rw [hsv]
    exact sessionsT.mem_rows.2 (lookup_mem hsome).1
  · exact hq.2 e herr

end

/-! ## Runs -/

/-- `x`, called after `before`, took the session into `abandoned`, where it
stayed over the calls `later`. -/
structure Abandons (st : AppState) (sv₀ : Sv Unit) (id : Uuid) (before : List Call) (x : Call) (later : List Call) :
    Prop where
  entered : statusOf id (after st sv₀ before).db ≠ some .abandoned
  stayed : ∀ calls, calls <+: later → statusOf id (after st sv₀ (before ++ x :: calls)).db = some .abandoned

/-- The stamp is that of the latest call that abandoned the session. -/
def Stamped (st : AppState) (sv₀ : Sv Unit) (calls : List Call) (s : Session) : Prop :=
  ∃ before x later, calls = before ++ x :: later ∧ Abandons st sv₀ s.id before x later ∧
    s.abandonedAt = some (x.env 0).now

section
variable {st : AppState} {sv₀ : Sv Unit} {calls : List Call} {x : Call}

theorem Stamped.later {s s' : Session} (h : Stamped st sv₀ calls s) (hid : s'.id = s.id)
    (hat : s'.abandonedAt = s.abandonedAt)
    (hs : statusOf s.id (after st sv₀ (calls ++ [x])).db = some .abandoned) : Stamped st sv₀ (calls ++ [x]) s' := by
  obtain ⟨before, y, later, rfl, ⟨hentered, hstayed⟩, hstamp⟩ := h
  refine ⟨before, y, later ++ [x], by simp, ⟨hid ▸ hentered, fun calls hcalls => ?_⟩, hat.trans hstamp⟩
  rw [hid]
  rcases List.prefix_concat_iff.1 hcalls with rfl | hcalls
  · simpa using hs
  · exact hstayed calls hcalls

theorem after_stamped (st : AppState) (hu : KeysUnique sv₀.db) (hempty : sessionsT.rows sv₀.db = [])
    (hcalls : ∀ x ∈ calls, StatusHistory.Lifecycle x.request) :
    KeysUnique (after st sv₀ calls).db ∧
      ∀ s ∈ sessionsT.rows (after st sv₀ calls).db, Good s ∧ (s.status = .abandoned → Stamped st sv₀ calls s) := by
  induction calls using List.reverseRecOn with
  | nil =>
    refine ⟨hu, fun s hs => ?_⟩
    rw [show (after st sv₀ []).db = sv₀.db from rfl, hempty] at hs
    cases hs
  | append_singleton calls x ih =>
    obtain ⟨hu₁, hrows⟩ := ih fun y hy => hcalls y (List.mem_append_left _ hy)
    obtain ⟨hu₂, heffect⟩ := serve_effect st hu₁ (hcalls x (by simp))
    rw [← after_snoc] at hu₂ heffect
    refine ⟨hu₂, fun s hs => ?_⟩
    have hnew : lookup (Key.session s.id) (after st sv₀ (calls ++ [x])).db = some (.session s) :=
      hu₂.lookup_eq (sessionsT.mem_rows.1 hs)
    have hstatus : statusOf s.id (after st sv₀ (calls ++ [x])).db = some s.status := statusOf_eq hnew
    rcases heffect s.id with hsame | ⟨y, z, hold, hz, hturn⟩ | ⟨input, e, -, hz⟩
    · -- The row is as it was.
      have hmem : s ∈ sessionsT.rows (after st sv₀ calls).db :=
        sessionsT.mem_rows.2 (lookup_mem (hsame.symm.trans hnew)).1
      obtain ⟨hgood, hstamped⟩ := hrows s hmem
      exact ⟨hgood, fun ha => (hstamped ha).later rfl rfl (hstatus.trans (congrArg some ha))⟩
    · obtain rfl : s = z := by simpa using hnew.symm.trans hz
      obtain ⟨hgood, hstamped⟩ := hrows y (sessionsT.mem_rows.2 (lookup_mem hold).1)
      refine ⟨hturn.good hgood, fun ha => ?_⟩
      have hstamp := hturn.stamp ha
      by_cases hy : y.status = .abandoned
      · rw [if_pos hy] at hstamp
        refine (hstamped hy).later hturn.id hstamp ?_
        rw [← hturn.id, hstatus, ha]
      · rw [if_neg hy] at hstamp
        refine ⟨calls, x, [], rfl, ⟨?_, fun more hmore => ?_⟩, hstamp⟩
        · rw [statusOf_eq hold]
          exact fun h => hy (Option.some.inj h)
        · rw [List.prefix_nil.1 hmore, hstatus, ha]
    · obtain rfl : s = Sessions.createRow input e := by simpa using hnew.symm.trans hz
      exact ⟨good_created input e, fun ha => by cases ha⟩

end

/-- In every run of the lifecycle requests, whatever fails in it: the stamps
agree with the status, an abandoned session carries the time of the
transaction that last abandoned it, and a resume succeeds just inside the
window counted from that stamp (where nothing fails), leaves a recording
session, and changes nothing where it is refused. -/
theorem lifecycle_stamps (st : AppState) (sv₀ : Sv Unit) (hu : KeysUnique sv₀.db) (hempty : sessionsT.rows sv₀.db = [])
    (calls : List Call) (hcalls : ∀ x ∈ calls, StatusHistory.Lifecycle x.request) :
    (∀ s ∈ sessionsT.rows (after st sv₀ calls).db, (s.deletedAt.isSome = true ↔ s.status = .deleted) ∧
      (s.abandonedAt.isSome = true → s.status = .abandoned ∨ s.status = .deleted) ∧
      (s.status = .abandoned → Stamped st sv₀ calls s)) ∧
    ∀ svc id body x, x.request = .resume svc id body →
      (Calm x.env (after st sv₀ calls).db → ((∃ r, (serve st x (after st sv₀ calls)).1 = .ok r) ↔
        ∃ s ∈ sessionsT.rows (after st sv₀ calls).db, s.id = id ∧ s.status = .abandoned ∧
          ∃ since, s.abandonedAt = some since ∧ SessionRoutes.age (x.env 2).now since ≤ st.resumeTtl)) ∧
      (∀ r, (serve st x (after st sv₀ calls)).1 = .ok r → ∃ s ∈ sessionsT.rows (serve st x (after st sv₀ calls)).2.db,
        s.id = id ∧ s.status = .recording ∧ s.abandonedAt = none) ∧
      ∀ e, (serve st x (after st sv₀ calls)).1 = .error e →
        Transactional.Same (after st sv₀ calls) (serve st x (after st sv₀ calls)).2 := by
  obtain ⟨hu₁, hrows⟩ := after_stamped st hu hempty hcalls
  refine ⟨fun s hs => ?_, fun svc id body x hx => ?_⟩
  · obtain ⟨hgood, hstamped⟩ := hrows s hs
    exact ⟨hgood.deleted, hgood.abandonedAt, hstamped⟩
  obtain ⟨hok, herr⟩ := serve_resume st hu₁ hx
  refine ⟨fun hcalm => ⟨fun ⟨r, hr⟩ => ?_, fun ⟨s, hs, hid, hab, since, hsince, hage⟩ => ?_⟩, fun r hr => ?_, fun e he => ?_⟩
  · obtain ⟨s, hs, hid, ⟨hab, hage⟩, -⟩ := hok r hr
    obtain ⟨since, hsince⟩ := Option.isSome_iff_exists.1 ((hrows s hs).1.abandoned hab)
    rw [hsince] at hage
    exact ⟨s, hs, hid, hab, since, hsince, hage⟩
  · cases hr : (serve st x (after st sv₀ calls)).1 with
    | ok r => exact ⟨r, rfl⟩
    | error e =>
      refine absurd ⟨hab, ?_⟩ (herr e hr hcalm s hs hid)
      rw [hsince]
      exact hage
  · obtain ⟨s, -, -, -, s', hs'⟩ := hok r hr
    exact ⟨s', hs'⟩
  · have hreq : Transactional.resourceOf x.request = some ("session", id.text) := by rw [hx]; rfl
    exact Transactional.serve_error_same hreq he

/-- A session is created, abandoned, and may be resumed; each call draws its
own audit id. -/
def sampleCall (request : Request) (draw : Uuid) : Call :=
  { request := request, env := fun n => { Sample.env n with uuid := fun _ => draw } }

def sampleCalls : List Call :=
  [sampleCall (.createSession "bot" Sample.createInput) 11,
    sampleCall (.patchSession "bot" Sample.sessionId { status := some .abandoned }) 12]

def sampleResume : Call :=
  sampleCall (.resume "bot" Sample.sessionId { resumedByServiceName := "bot", reason := none }) 13

theorem lifecycle_stamps_sample :
    ∃ r, (serve Sample.state sampleResume (after Sample.state (Sample.server []) sampleCalls)).1 = .ok r := by
  have hrow : (sessionsT.rows (after Sample.state (Sample.server []) sampleCalls).db).any (fun s =>
      s.id = Sample.sessionId ∧ s.status = .abandoned ∧ s.abandonedAt = some 0) = true := by decide +kernel
  obtain ⟨s, hs, h⟩ := List.any_eq_true.1 hrow
  obtain ⟨hid, hab, hsince⟩ := of_decide_eq_true h
  have hcalm : Calm sampleResume.env (after Sample.state (Sample.server []) sampleCalls).db := by
    refine ⟨fun _ => rfl, fun _ => ?_⟩
    show ∀ r ∈ (after Sample.state (Sample.server []) sampleCalls).db, key r ≠ Key.audit 13
    decide +kernel
  refine (((lifecycle_stamps Sample.state (Sample.server []) (by decide) rfl sampleCalls ?_).2 _ _ _ sampleResume rfl).1
    hcalm).2 ⟨s, hs, hid, hab, 0, hsince, by decide⟩
  simp [sampleCalls, sampleCall, StatusHistory.Lifecycle]

end DataApi.Lifecycle
