/-
Legal status histories. The legality check and the write of a status are
separate statements; what makes their pair atomic is the row lock `get_in_tx`
takes before both. A client that holds it knows the committed status and the
status it is about to commit (`Held`), and every transaction in the log takes
each session from one status to a legal next one.
-/
import DataApi.Db.Writes
import DataApi.Rules

namespace DataApi.StatusHistory

open Relational ReadCommitted Resumption Handler

/-! ## Statuses -/

def statusOf (id : Uuid) (db : Db) : Option SessionStatus :=
  ((lookup (.session id) db).bind sessionsT.get).map (·.status)

/-- The changes a request may commit; only a resume leaves `abandoned`
otherwise than `can_transition` says. -/
def Legal (resumes : Bool) (old new : SessionStatus) : Prop :=
  old = new ∨ canTransition old new = true ∨ (resumes = true ∧ old = .abandoned ∧ new = .recording)

/-- One committed transaction, seen by one session: it appears as
`recording`, and is never gone. -/
def LegalStep (resumes : Bool) : Option SessionStatus → Option SessionStatus → Prop
  | none, none => True
  | none, some new => new = .recording
  | some old, some new => Legal resumes old new
  | some _, none => False

theorem Legal.from_deleted {resumes : Bool} {new : SessionStatus} (h : Legal resumes .deleted new) :
    new = .deleted := by
  rcases h with h | h | ⟨_, h, _⟩
  · exact h.symm
  · rw [canTransition_from_deleted] at h; cases h
  · cases h

theorem Legal.to_deleted (resumes : Bool) (old : SessionStatus) : Legal resumes old .deleted := by
  by_cases h : old = .deleted
  · exact .inl h
  · exact .inr (.inl ((canTransition_deleted old).2 h))

theorem LegalStep.refl (resumes : Bool) (s : Option SessionStatus) : LegalStep resumes s s := by
  cases s with
  | none => trivial
  | some s => exact .inl rfl

theorem statusOf_eq {id : Uuid} {db : Db} {s : Session} (h : lookup (.session id) db = some (.session s)) :
    statusOf id db = some s.status := by
  simp [statusOf, h, sessionsT]

theorem statusOf_congr {id : Uuid} {db db' : Db} (h : versions (.session id) db = versions (.session id) db') :
    statusOf id db = statusOf id db' := by
  simp only [statusOf, lookup, h]

theorem statusOf_other {id : Uuid} {ws : List (Write Row Key)} (h : ∀ w ∈ ws, w.key ≠ .session id) (db : Db) :
    statusOf id (applyAll ws db) = statusOf id db := statusOf_congr (versions_applyAll_other h db)

/-! ## The protocol -/

/-- A locked session row: its committed status, and its status in the
transaction. -/
structure Held where
  id : Uuid
  old : SessionStatus
  new : SessionStatus

def Spares (q : Sql) : Prop := Writes (· ≠ .sessions) q

/-- An UPDATE of the held row that takes its status to a legal one. -/
def MaySet (resumes : Bool) (s : Option Held) (q : Sql) : Prop :=
  ∃ (l : Held) (set : Env → Session → Session) (hk : _) (f : SessionStatus → SessionStatus), s = some l ∧ q = sessionsT.update (Sessions.byId l.id) set hk ∧
    (∀ e x, (set e x).status = f x.status) ∧ Legal resumes l.old (f l.new)

def protocol (resumes : Bool) : Protocol (@Answer Row Key Uniq Env Io World _ _) (Option Held) where
  may s
    | .begin => s = none
    | .query .pool q => s = none ∧ (Spares q ∨ ∃ input, q = Sessions.createSql input)
    | .query .tx (.forUpdate p) => s = none ∧ ∃ id, Stmt.forUpdate p = Sessions.getInTxSql id
    | .query .tx (.update p set) => MaySet resumes s (.update p set)
    | .query .tx q => Spares q
    | _ => True
  next s
    | .query .tx (.forUpdate p), .ok rows, t =>
      ((sessionsT.rows rows).head? = none → t = s) ∧ ∀ x, (sessionsT.rows rows).head? = some x →
        p (.session x) = true ∧ t = some { id := x.id, old := x.status, new := x.status }
    | .query .tx (.update _ _), .ok _, t =>
      ∀ l, s = some l → ∃ l', t = some l' ∧ l'.id = l.id ∧ Legal resumes l'.old l'.new
    | .commit, _, t => t = none
    | .rollback, _, t => t = none
    | _, _, t => t = s

/-- Client `i` has locked the row of `l`: it is committed as `l.old`, and
stands as `l.new` in the transaction, which writes no other session. -/
def Holding {ι : Type} (i : ι) (c : Conn) (sv : Sv ι) (l : Held) : Prop :=
  (i, (.row (.session l.id), .update)) ∈ sv.locks ∧ statusOf l.id sv.db = some l.old ∧
    ∃ t, c.tx = some t ∧ statusOf l.id (applyAll t.writes sv.db) = some l.new ∧
      ∀ w ∈ t.writes, (Key.table w.key) = .sessions → w.key = .session l.id

section
variable {ι : Type} {i : ι} {conn c' : Conn} {sv : Sv ι} {t : Tx Row Key Env} {l : Held}

/-- The view of a client that has not touched sessions shows them as
committed. -/
theorem view_none (h : ∀ w ∈ t.writes, (Key.table w.key) ≠ .sessions) (id : Uuid) :
    statusOf id (applyAll t.writes sv.db) = statusOf id sv.db :=
  statusOf_other (fun w hw hk => h w hw (by rw [hk]; rfl)) _

/-- Another client's move leaves a held row held. -/
theorem Holding.stays [DecidableEq ι] {c d : Clients ι Row Env Io Outcome} {e : Env} {j : ι} (ho : Orderly c)
    (hs : c.step machine i e = some d) (hj : j ≠ i) (h : Holding j (c.threads j).loc c.shared l) :
    Holding j (c.threads j).loc d.shared l := by
  obtain ⟨hl, hold, t, ht, hnew, hw⟩ := h
  have hv := ho.locked_stays hs hj hl (by decide)
  refine ⟨(locks_other hs hj).2 hl, (statusOf_congr hv).trans hold, t, ht, ?_, hw⟩
  exact (statusOf_congr (versions_applyAll_congr hv t.writes)).trans hnew

/-- Taking the row lock. -/
theorem Holding.locked (hu : KeysUnique (applyAll t.writes sv.db))
    (h : ∀ w ∈ t.writes, (Key.table w.key) ≠ .sessions) {p : Session → Bool} {alive rows : List Row}
    (hrows : rows = hits (sessionsT.is p) alive (applyAll t.writes sv.db)) {x : Session}
    (hx : (sessionsT.rows rows).head? = some x) {needs : List (Need Key Uniq)}
    (hn : ∀ r ∈ rows, (.row (key r), .update) ∈ needs) (c' : Conn) (hc : c'.tx = some t) :
    p x = true ∧ Holding i c' { sv with locks := needs.map (i, ·) ++ sv.locks }
      { id := x.id, old := x.status, new := x.status } := by
  have hmem : Row.session x ∈ rows := sessionsT.mem_rows.1 (List.mem_of_mem_head? hx)
  obtain ⟨y, hy, hcur, hpy, -⟩ := (mem_hits sessionsT).1 (hrows ▸ hmem)
  obtain rfl := sessionsT.put_inj hy
  have hview : statusOf x.id (applyAll t.writes sv.db) = some x.status := statusOf_eq (hu.lookup_eq hcur)
  refine ⟨hpy, ?_, (view_none h x.id).symm.trans hview, t, hc, hview, fun w hw hk => absurd hk (h w hw)⟩
  exact List.mem_append_left _ (List.mem_map.2 ⟨_, hn _ hmem, rfl⟩)

/-- Writing the held row: it is not seen, or is the one row that comes back. -/
theorem Holding.set (hu : KeysUnique (applyAll t.writes sv.db)) (h : Holding i conn sv l) (ht : conn.tx = some t)
    {alive rows : List Row} {env : Env} {set : Env → Session → Session}
    (hrows : rows = (sessionsT.rows (hits (sessionsT.is (Sessions.byId l.id)) alive (applyAll t.writes sv.db))).map
      fun x => sessionsT.put (set env x)) (hk : ∀ e, sessionsT.Keeps (set e))
    {locks : List (ι × Need Key Uniq)} (hlocks : ∀ k ∈ sv.locks, k ∈ locks) (c' : Conn)
    (hc : c'.tx = some { t with writes := t.writes ++ rows.map .update }) :
    (rows = [] ∧ Holding i c' { sv with locks := locks } l) ∨
    ∃ x, x.status = l.new ∧ rows = [sessionsT.put (set env x)] ∧
      Holding i c' { sv with locks := locks } { l with new := (set env x).status } := by
  obtain ⟨hl, hold, t', ht', hnew, hw⟩ := h
  obtain rfl := Option.some.inj (ht.symm.trans ht')
  have hid : ∀ x : Session, Sessions.byId l.id x = true → key (sessionsT.put x) = Key.session l.id := by
    intro x hx
    have : x.id = l.id := by simpa [Sessions.byId] using hx
    rw [← this]; rfl
  rcases hits_byKey alive hu hid with hnil | ⟨x, hone, hlook, hpx⟩
  · rw [hnil] at hrows
    subst hrows
    exact .inl ⟨rfl, hlocks _ hl, hold, _, hc, by simpa using hnew, by simpa using hw⟩
  · rw [hone] at hrows
    have hrows' : rows = [sessionsT.put (set env x)] := by
      rw [hrows]; simpa using congrArg (List.map fun x => sessionsT.put (set env x)) (sessionsT.rows_map_put [x])
    have hkey : key (sessionsT.put (set env x)) = Key.session l.id := ((hk env x).1).trans (hid x hpx)
    have hst : x.status = l.new := Option.some.inj ((statusOf_eq hlook).symm.trans hnew)
    refine .inr ⟨x, hst, hrows', hlocks _ hl, hold, _, hc, ?_, fun w hwm hwt => ?_⟩
    · rw [hrows', List.map_cons, List.map_nil, applyAll_append]
      have := @lookup_update _ _ _ _ _ (sessionsT.put (set env x)) _ _ (hkey ▸ hlook)
      rw [hkey] at this
      exact statusOf_eq this
    · rcases List.mem_append.1 hwm with hwm | hwm
      · exact hw w hwm hwt
      · rw [hrows'] at hwm
        rw [List.mem_singleton.1 hwm]; exact hkey

/-- A statement on other tables. -/
theorem Holding.spared (h : Holding i conn sv l) (ht : conn.tx = some t) {ws : List (Write Row Key)}
    (hws : ∀ w ∈ ws, (Key.table w.key) ≠ .sessions) {locks : List (ι × Need Key Uniq)} (hlocks : ∀ k ∈ sv.locks, k ∈ locks)
    (hc : c'.tx = some { t with writes := t.writes ++ ws }) : Holding i c' { sv with locks := locks } l := by
  obtain ⟨hl, hold, t', ht', hnew, hw⟩ := h
  obtain rfl := Option.some.inj (ht.symm.trans ht')
  refine ⟨hlocks _ hl, hold, _, hc, ?_, fun w hwm hwt => ?_⟩
  · rw [applyAll_append, statusOf_other fun w hw hk => hws w hw (by rw [hk]; rfl)]
    exact hnew
  · rcases List.mem_append.1 hwm with hwm | hwm
    · exact hw w hwm hwt
    · exact absurd hwt (hws w hwm)

/-- The other sessions stay as they are. -/
theorem Holding.others (h : Holding i conn sv l) (ht : conn.tx = some t) {id : Uuid} (hid : id ≠ l.id) :
    statusOf id (applyAll t.writes sv.db) = statusOf id sv.db := by
  obtain ⟨-, -, t', ht', -, hw⟩ := h
  obtain rfl := Option.some.inj (ht.symm.trans ht')
  refine statusOf_other (fun w hwm hk => ?_) _
  have := hw w hwm (by rw [hk]; rfl)
  rw [hk] at this
  cases this; exact hid rfl

end

/-- What a client's ghost state says of its transaction. -/
def Holds {ι : Type} (resumes : Bool) (i : ι) (c : Conn) (sv : Sv ι) : Option Held → Prop
  | none => ∀ t, c.tx = some t → ∀ w ∈ t.writes, (Key.table w.key) ≠ .sessions
  | some l => Legal resumes l.old l.new ∧ (i, (.row (.session l.id), .update)) ∈ sv.locks ∧
      statusOf l.id sv.db = some l.old ∧ ∃ t, c.tx = some t ∧ statusOf l.id (applyAll t.writes sv.db) = some l.new ∧
        ∀ w ∈ t.writes, (Key.table w.key) = .sessions → w.key = .session l.id

section
variable {ι : Type} [DecidableEq ι] {resumes : Bool} {i j : ι} {c c' : Clients ι Row Env Io Outcome} {e : Env}
  {s : Option Held}

omit [DecidableEq ι] in
theorem Holds.holding {conn : Conn} {sv : Sv ι} {l : Held} (h : Holds resumes i conn sv (some l)) :
    Holding i conn sv l := h.2

theorem Holds.stays (ho : Orderly c) (hs : c.step machine i e = some c') (hj : j ≠ i)
    (h : Holds resumes j (c.threads j).loc c.shared s) : Holds resumes j (c.threads j).loc c'.shared s := by
  cases s with
  | none => exact h
  | some l => exact ⟨h.1, h.holding.stays ho hs hj⟩

omit [DecidableEq ι] in
/-- What a client commits is legal for every session. -/
theorem Holds.legalStep {conn : Conn} {sv : Sv ι} (h : Holds resumes i conn sv s) (id : Uuid) :
    LegalStep resumes (statusOf id sv.db) (statusOf id (applyAll conn.writes sv.db)) := by
  cases htx : conn.tx with
  | none =>
    simp only [Client.writes, htx, Option.map_none, Option.getD_none, applyAll_nil]
    exact LegalStep.refl _ _
  | some t =>
    have hwr : conn.writes = t.writes := by simp [Client.writes, htx]
    rw [hwr]
    cases s with
    | none =>
      rw [view_none (h t htx)]
      exact LegalStep.refl _ _
    | some l =>
      by_cases hid : id = l.id
      · obtain ⟨hleg, _, hold, t', ht', hnew, _⟩ := h
        obtain rfl := Option.some.inj (htx.symm.trans ht')
        rw [hid, hold, hnew]; exact hleg
      · rw [h.holding.others htx hid]
        exact LegalStep.refl _ _

omit [DecidableEq ι] in
/-- A statement on other tables. -/
theorem Holds.spared {conn : Conn} {sv : Sv ι} {t : Tx Row Key Env} (h : Holds resumes i conn sv s)
    (ht : conn.tx = some t) {ws : List (Write Row Key)} (hws : ∀ w ∈ ws, (Key.table w.key) ≠ .sessions)
    {locks : List (ι × Need Key Uniq)} (hlocks : ∀ k ∈ sv.locks, k ∈ locks) {c' : Conn}
    (hc : c'.tx = some { t with writes := t.writes ++ ws }) :
    Holds resumes i c' { sv with locks := locks } s := by
  cases s with
  | none =>
    intro t' ht' w hw
    obtain rfl := Option.some.inj (hc.symm.trans ht')
    rcases List.mem_append.1 hw with hw | hw
    · exact h t ht w hw
    · exact hws w hw
  | some l => exact ⟨h.1, h.holding.spared ht hws hlocks hc⟩

/-- A statement in the transaction. -/
theorem Holds.query_tx {conn c' : Conn} {sv sv' : Sv ι} {q : Sql} {r : Answer (.query .tx q : Operation)}
    (hu : ∀ t, conn.tx = some t → KeysUnique (applyAll t.writes sv.db)) (h : Holds resumes i conn sv s)
    (hm : (protocol resumes).may s (.query .tx q))
    (hx : machine.exec i e conn sv (.query .tx q) = some (some r, c', sv')) :
    ∃ t, (protocol resumes).next s (.query .tx q) r t ∧ Holds resumes i c' sv' t ∧ sv'.log = sv.log := by
  rcases query_tx_done hx with ⟨err, rfl, rfl, rfl⟩ | ⟨t, snap, rows, ws, eff, ht, _, _, heff, hres, _, rfl, rfl, rfl⟩
  · refine ⟨s, ?_, ?_, rfl⟩
    · cases q <;> rfl
    · cases s <;> exact h
  · have hlocks : ∀ k ∈ sv.locks, k ∈ eff.needs.map (i, ·) ++ sv.locks := fun k hk => List.mem_append_right _ hk
    subst heff
    cases q with
    | forUpdate p =>
      obtain ⟨rfl, id, hq⟩ : s = none ∧ ∃ id, Stmt.forUpdate p = Sessions.getInTxSql id := hm
      rw [hq] at hres hlocks ⊢
      obtain ⟨hrows, rfl, hn⟩ := forUpdate_ok hres
      obtain rfl : p = sessionsT.is (Sessions.byId id) := by
        simpa [Sessions.getInTxSql, Table.forUpdate] using hq
      cases hhead : (sessionsT.rows rows).head? with
      | none =>
        refine ⟨none, ⟨fun _ => rfl, fun x hx' => ?_⟩, ?_, rfl⟩
        · rw [hhead] at hx'; cases hx'
        · exact Holds.spared h ht (by simp) hlocks rfl
      | some x =>
        obtain ⟨hpx, hh⟩ := Holding.locked (i := i) (hu t ht) (h t ht) hrows hhead hn
          (Client.done { conn with tx := some { t with writes := t.writes ++ [] } } (.query .tx (.forUpdate _)) (.ok rows))
          (by simp [Client.done])
        refine ⟨some _, ⟨fun hno => ?_, fun y hy => ?_⟩, ⟨.inl rfl, hh⟩, rfl⟩
        · rw [hhead] at hno; cases hno
        · obtain rfl := Option.some.inj (hhead.symm.trans hy)
          exact ⟨(sessionsT.is_put _ _).trans hpx, rfl⟩
    | update p set =>
      obtain ⟨l, set', hk, f, rfl, hq, hf, hleg⟩ := hm
      rw [hq] at hres hlocks
      obtain ⟨hrows, rfl, _⟩ := update_ok hres
      have hset := h.holding.set (hu t ht) ht hrows hk hlocks
        (Client.done { conn with tx := some { t with writes := t.writes ++ rows.map .update } } (.query .tx (.update p set))
          (.ok rows)) rfl
      obtain ⟨l', hid, hh⟩ : ∃ l' : Held, l'.id = l.id ∧ Holds resumes i
          (Client.done { conn with tx := some { t with writes := t.writes ++ rows.map .update } } (.query .tx (.update p set))
            (.ok rows)) { sv with locks := _ } (some l') := by
        rcases hset with ⟨-, hh⟩ | ⟨x, hx, -, hh⟩
        · exact ⟨l, rfl, h.1, hh⟩
        · rw [hf, hx] at hh
          exact ⟨{ l with new := f l.new }, rfl, hleg, hh⟩
      refine ⟨some l', fun l₀ hl₀ => ?_, ?_, rfl⟩
      · obtain rfl := Option.some.inj hl₀
        exact ⟨l', rfl, hid, hh.1⟩
      · rw [hq]; exact hh
    | select p => exact ⟨s, rfl, Holds.spared h ht (hm _ _ _ _ _ _ hres) hlocks rfl, rfl⟩
    | insert mk => exact ⟨s, rfl, Holds.spared h ht (hm _ _ _ _ _ _ hres) hlocks rfl, rfl⟩
    | delete p => exact ⟨s, rfl, Holds.spared h ht (hm _ _ _ _ _ _ hres) hlocks rfl, rfl⟩

omit [DecidableEq ι] in
/-- A new session appears as `recording`. -/
theorem created_legalStep {sv : Sv ι} {input : Sessions.CreateSession} {env : Env} {snap alive rows : List Row} {ws}
    (h : ((Sessions.createSql input).run env snap alive sv.db).result = .ok (rows, ws)) (id : Uuid) :
    LegalStep resumes (statusOf id sv.db) (statusOf id (applyAll ws sv.db)) := by
  obtain ⟨row, hrow, _, hclash, _, _, rfl⟩ := insert_ok h
  obtain rfl := Except.ok.inj hrow
  by_cases hid : id = input.id
  · subst hid
    have hnone : lookup (key (sessionsT.put (Sessions.createRow input env))) sv.db = none :=
      lookup_none.2 (clash_slots_none hclash)
    have hlook : lookup (Key.session input.id) sv.db = none := hnone
    have hold : statusOf input.id sv.db = none := by simp [statusOf, hlook]
    rw [hold]
    have hnew := statusOf_eq (lookup_insert hnone)
    exact hnew ▸ rfl
  · rw [statusOf_other fun w hw hk => ?_]
    · exact LegalStep.refl _ _
    · rw [List.mem_singleton.1 hw] at hk
      cases hk; exact hid rfl

/-- A completed operation: the ghost state follows, and what it committed is
legal. -/
theorem Holds.done {conn c' : Conn} {sv sv' : Sv ι} {o : Operation} {r : Answer o}
    (hu : ∀ t, conn.tx = some t → KeysUnique (applyAll t.writes sv.db)) (h : Holds resumes i conn sv s)
    (hm : (protocol resumes).may s o) (hx : machine.exec i e conn sv o = some (some r, c', sv')) :
    ∃ t, (protocol resumes).next s o r t ∧ Holds resumes i c' sv' t ∧ (sv'.log = sv.log ∨
      ∃ ws, sv'.log = sv.log ++ [(i, ws)] ∧
        ∀ id, LegalStep resumes (statusOf id sv.db) (statusOf id (applyAll ws sv.db))) := by
  have hnone : ∀ (c : Conn) (sv : Sv ι), c.tx = none → Holds resumes i c sv none := by
    intro c sv hc t ht
    rw [hc] at ht; cases ht
  cases o with
  | query via q =>
    cases via with
    | tx =>
      obtain ⟨t, hn, hh, hlog⟩ := h.query_tx hu hm hx
      exact ⟨t, hn, hh, .inl hlog⟩
    | pool =>
      obtain ⟨rfl, hq⟩ := hm
      rcases query_pool_done hx with ⟨_, _, rfl, rfl⟩ | ⟨snap, rows, ws, eff, _, _, rfl, hres, _, _, rfl, rfl⟩
      · exact ⟨none, rfl, h, .inl rfl⟩
      · refine ⟨none, rfl, h, .inr ⟨ws, rfl, fun id => ?_⟩⟩
        rcases hq with hq | ⟨input, rfl⟩
        · rw [statusOf_other fun w hw hk => hq _ _ _ _ _ _ hres w hw (by rw [hk]; rfl)]
          exact LegalStep.refl _ _
        · exact created_legalStep hres id
  | begin =>
    obtain rfl : s = none := hm
    rcases begin_done hx with ⟨_, _, rfl, rfl⟩ | ⟨_, rfl, rfl⟩
    · exact ⟨none, rfl, h, .inl rfl⟩
    · refine ⟨none, rfl, fun t ht w hw => ?_, .inl rfl⟩
      cases ht; cases hw
  | commit =>
    rcases commit_done hx with ⟨_, _, rfl, rfl⟩ | ⟨_, rfl, rfl⟩
    · exact ⟨none, rfl, hnone _ _ rfl, .inl rfl⟩
    · exact ⟨none, rfl, hnone _ _ rfl, .inr ⟨_, rfl, h.legalStep⟩⟩
  | rollback =>
    obtain ⟨rfl, rfl⟩ := rollback_done hx
    exact ⟨none, rfl, hnone _ _ rfl, .inl rfl⟩
  | outer x =>
    obtain ⟨_, rfl, rfl⟩ := outer_done hx
    refine ⟨s, rfl, ?_, .inl rfl⟩
    cases s <;> exact h

end

/-! ## The handlers follow it -/

section
variable {resumes : Bool} {s : Option Held} {β : Type} {f : Session → Handler β}

theorem spares_of {q : Sql} {n : TableName} (h : Writes (· = n) q) (hn : n ≠ .sessions) : Spares q :=
  h.mono fun _ hm hs => hn (hm.symm.trans hs)

theorem spares_appendSql (e : AuditLog.Entry) : Spares (AuditLog.appendSql e) :=
  spares_of (AuditLog.appendSql_writes e) (by decide)

abbrev Follows (resumes : Bool) (s : Option Held) (p : Handler β) : Prop :=
  Prog.Follows (protocol resumes) (fun _ _ => True) s p.run

theorem follows_getInTx {id : Uuid} (h : ∀ x : Session,
      Follows resumes (some { id := id, old := x.status, new := x.status }) (f x)) :
    Follows resumes none (Sessions.getInTx id >>= f) := by
  rw [Sessions.getInTx, bind_assoc]
  refine follows_fetchOptional ⟨rfl, id, rfl⟩ (fun _ _ _ => trivial) fun rows t ht => ?_
  obtain ⟨_, hsome⟩ := ht
  cases hx : (sessionsT.rows rows).head? with
  | none => exact follows_throw trivial
  | some x =>
    obtain ⟨hp, rfl⟩ := hsome x hx
    have hid : x.id = id := by simpa [Sessions.byId] using (sessionsT.is_put _ x).symm.trans hp
    subst hid; exact h x

theorem follows_set {l : Held} {q : Sql} {g : SessionStatus → SessionStatus} {set : Env → Session → Session}
    {hk : ∀ e, sessionsT.Keeps (set e)} (hq : q = sessionsT.update (Sessions.byId l.id) set hk)
    (hg : ∀ e x, (set e x).status = g x.status) (hleg : Legal resumes l.old (g l.new))
    (h : ∀ (l' : Held) x, l'.id = l.id → Legal resumes l'.old l'.new → Follows resumes (some l') (f x)) :
    Follows resumes (some l) (fetchOne .tx sessionsT q >>= f) := by
  subst hq
  refine follows_fetchOne ⟨l, set, hk, g, rfl, rfl, hg, hleg⟩ (fun _ _ _ => trivial) (fun _ _ _ _ => trivial) ?_
  intro rows t x ht _
  obtain ⟨l', rfl, hid, hl'⟩ := ht l rfl
  exact h l' x hid hl'

theorem follows_announce {e : AuditLog.Entry} {k : Handler β} (h : Follows resumes none k) :
    Follows resumes s (AuditLog.appendTx e >>= fun _ => commit >>= fun _ => k) := by
  refine follows_appendTx (spares_appendSql e) (fun _ _ _ => trivial) fun rows t ht => ?_
  refine follows_commit trivial (fun _ _ _ => trivial) fun t' ht' => ?_
  obtain rfl : t' = none := ht'
  exact h

theorem follows_stateChanged {id : Uuid} {g : Int} {old new : SessionStatus} {k : Handler β}
    (h : Follows resumes s k) : Follows resumes s (SessionRoutes.stateChanged id g old new >>= fun _ => k) := by
  rw [SessionRoutes.stateChanged, bind_assoc]
  refine follows_utcNow trivial fun now t ht => ?_
  obtain rfl : t = s := ht
  refine follows_send trivial fun t' ht' => ?_
  obtain rfl : t' = t := ht'
  exact h

end

theorem create_follows (svc : String) (input : Sessions.CreateSession) :
    Follows false none (SessionRoutes.create svc input) := by
  rw [SessionRoutes.create, Sessions.create]
  refine follows_fetchOne ⟨rfl, .inr ⟨input, rfl⟩⟩ (fun _ _ _ => trivial) (fun _ _ _ _ => trivial) ?_
  intro rows t x ht _
  obtain rfl : t = none := ht
  refine follows_append ⟨rfl, .inl (spares_appendSql _)⟩ (fun _ _ _ => trivial) fun rows t ht => ?_
  obtain rfl : t = none := ht
  exact follows_incCounter trivial fun _ _ => follows_pure trivial

section
variable {β : Type} {l : Held} {f : Session → Handler β}

/-- Setting the other columns leaves the status. -/
theorem follows_patchFields {id : Uuid} {body : SessionRoutes.PatchSession} {x : Session} (hid : l.id = id)
    (hl : Legal false l.old l.new) (h : ∀ (l' : Held) y, Follows false (some l') (f y)) :
    Follows false (some l) (SessionRoutes.patchFields id body x >>= f) := by
  rw [SessionRoutes.patchFields]
  split
  · subst hid
    exact follows_set rfl (g := fun s => s) (fun _ _ => rfl) hl fun l' y _ _ => h l' y
  · exact h l x

theorem follows_announceChange {id : Uuid} {g : Int} {change : Option (SessionStatus × SessionStatus)}
    {s : Option Held} {k : Handler β} (h : Follows false s k) :
    Follows false s (SessionRoutes.announceChange id g change >>= fun _ => k) := by
  cases change with
  | none => exact h
  | some p =>
    rw [SessionRoutes.announceChange, bind_assoc]
    refine follows_stateChanged ?_
    refine follows_incCounter trivial fun t ht => ?_
    obtain rfl : t = s := ht
    exact h

end

theorem patch_follows (svc : String) (id : Uuid) (body : SessionRoutes.PatchSession) :
    Follows false none (SessionRoutes.patch svc id body) := by
  rw [SessionRoutes.patch]
  refine follows_begin rfl (fun _ _ _ => trivial) fun t ht => ?_
  obtain rfl : t = none := ht
  refine follows_getInTx fun existing => ?_
  have finish : ∀ (l : Held) (updated : Session) change, l.id = id → Legal false l.old l.new →
      Follows false (some l) (SessionRoutes.patchFields id body updated >>= fun updated =>
        AuditLog.appendTx (SessionRoutes.entry svc id "patched" (.obj
          [("status", .str updated.status.asStr), ("ended_at", Json.optTime updated.endedAt)])) >>= fun _ =>
        commit >>= fun _ => SessionRoutes.announceChange id updated.guildId change >>= fun _ => pure updated) := by
    intro l updated change hid hl
    refine follows_patchFields hid hl fun l' y => ?_
    refine follows_announce ?_
    exact follows_announceChange (follows_pure trivial)
  cases hs : body.status with
  | none => exact finish _ existing none rfl (.inl rfl)
  | some new =>
    rw [SessionRoutes.patchStatus, bind_assoc]
    refine follows_refuseIf (fun _ => trivial) fun hc => ?_
    rw [bind_assoc, Sessions.updateStatus]
    have hlegal : canTransition existing.status new = true := by simpa using hc
    refine follows_set rfl (g := fun _ => new) (fun _ _ => rfl) (.inr (.inl hlegal)) fun l' y hid hl' => ?_
    exact finish l' y _ hid hl'

theorem resume_follows (st : AppState) (svc : String) (id : Uuid) (body : SessionRoutes.ResumeBody) :
    Follows true none (SessionRoutes.resume st svc id body) := by
  rw [SessionRoutes.resume]
  refine follows_begin rfl (fun _ _ _ => trivial) fun t ht => ?_
  obtain rfl : t = none := ht
  refine follows_getInTx fun existing => ?_
  refine follows_refuseIf (fun _ => trivial) fun hc => ?_
  have hab : existing.status = .abandoned := by simpa using hc
  refine follows_utcNow trivial fun now t ht => ?_
  obtain rfl := ht
  refine follows_refuseIf (fun _ => trivial) fun _ => ?_
  rw [Sessions.resumeFromAbandoned]
  refine follows_set rfl (g := fun _ => .recording) (fun _ _ => rfl) (.inr (.inr ⟨rfl, hab, rfl⟩)) ?_
  intro l' y _ _
  refine follows_announce ?_
  exact follows_stateChanged (follows_pure trivial)

/-- A DELETE on another table, its count dropped. -/
theorem follows_spared {β : Type} {resumes : Bool} {s : Option Held} {q : Sql} {p : Row → Bool} (hq : q = .delete p)
    (hs : Spares q) {f : Nat → Handler β} (h : ∀ n, Follows resumes s (f n)) :
    Follows resumes s (execute .tx q >>= f) := by
  subst hq
  refine follows_execute hs (fun _ _ _ => trivial) fun rows t ht => ?_
  obtain rfl : t = s := ht
  exact h _

theorem deleteCascade_follows (svc : String) (id : Uuid) :
    Follows false none (SessionRoutes.deleteCascade svc id) := by
  rw [SessionRoutes.deleteCascade]
  refine follows_begin rfl (fun _ _ _ => trivial) fun t ht => ?_
  obtain rfl : t = none := ht
  refine follows_getInTx fun existing => ?_
  simp only [SessionRoutes.deleteChildren, Chunks.deleteForSession, Uniform.deleteAllForSession,
    MuteRanges.deleteForSession, bind_assoc]
  refine follows_fetchAll (spares_of (Chunks.deleteForSessionSql_writes id) (by decide)) (fun _ _ _ => trivial) ?_
  intro rows t ht
  obtain rfl := ht
  refine follows_spared rfl (spares_of (Uniform.deleteAllForSessionSql_writes _ id) (by decide)) fun _ => ?_
  refine follows_spared rfl (spares_of (Uniform.deleteAllForSessionSql_writes _ id) (by decide)) fun _ => ?_
  refine follows_spared rfl (spares_of (Uniform.deleteAllForSessionSql_writes _ id) (by decide)) fun _ => ?_
  refine follows_spared rfl (spares_of (MuteRanges.deleteForSessionSql_writes id) (by decide)) fun _ => ?_
  refine follows_spared rfl (spares_of (Metadata.deleteSql_writes id) (by decide)) fun _ => ?_
  have hparts : Spares (Participants.deleteForSessionSql id) :=
    (Participants.deleteForSessionSql_writes id).mono fun n hn => by rcases hn with rfl | rfl <;> decide
  refine follows_spared rfl hparts fun _ => ?_
  rw [Sessions.updateStatus]
  refine follows_set rfl (g := fun _ => .deleted) (fun _ _ => rfl) (Legal.to_deleted _ _) fun l' y _ _ => ?_
  refine follows_announce ?_
  rw [SessionRoutes.sweep]
  split
  · exact follows_stateChanged (follows_pure trivial)
  · rw [bind_assoc]
    refine follows_deleteMany trivial fun _ t ht => ?_
    obtain rfl : t = none := ht
    exact follows_stateChanged (follows_pure trivial)

/-! ## Runs -/

/-- The requests that write session rows. -/
def Lifecycle : Request → Prop
  | .createSession _ _ | .patchSession _ _ _ | .resume _ _ _ | .deleteCascade _ _ => True
  | _ => False

def isResume : Request → Bool
  | .resume _ _ _ => true
  | _ => false

theorem handle_follows (st : AppState) {r : Request} (hr : Lifecycle r) : Follows (isResume r) none (handle st r) := by
  cases r with
  | createSession svc input => exact follows_map (create_follows svc input)
  | patchSession svc id body => exact follows_map (patch_follows svc id body)
  | resume svc id body => exact follows_map (resume_follows st svc id body)
  | deleteCascade svc id => exact follows_map (deleteCascade_follows svc id)
  | _ => exact hr.elim

/-- Every session's committed status values, whatever the interleaving: a
session starts at `recording`, each transaction takes it from its status to a
legal one, and none takes it away from `deleted`. -/
theorem status_histories_legal {ι : Type} [DecidableEq ι] (st : AppState) (reqs : ι → Request)
    (hreqs : ∀ i, Lifecycle (reqs i)) (sv₀ : Sv ι) (hstart : sv₀.Quiescent) {c : Clients ι Row Env Io Outcome}
    (h : Run machine (fun _ _ _ => True) (Service.start st reqs sv₀) c) :
    c.shared.db = replay sv₀.db c.shared.log ∧
      ∀ pre i ws post, c.shared.log = pre ++ (i, ws) :: post → ∀ id,
        LegalStep (isResume (reqs i)) (statusOf id (replay sv₀.db pre)) (statusOf id (replay sv₀.db (pre ++ [(i, ws)]))) ∧
        (statusOf id (replay sv₀.db pre) = some .deleted →
          statusOf id (replay sv₀.db (pre ++ [(i, ws)])) = some .deleted) := by
  have ho : Orderly (Service.start st reqs sv₀) := Orderly.start hstart
  have hdb : c.shared.db = replay sv₀.db c.shared.log := Run.replay hstart.log ho h
  let φ : Db → ι → List (Write Row Key) → Prop := fun db i ws =>
    ∀ id, LegalStep (isResume (reqs i)) (statusOf id db) (statusOf id (applyAll ws db))
  have hlogged : Logged φ sv₀.db c.shared.log := by
    refine (Run.clients (H := fun i s l sv => Holds (isResume (reqs i)) i l sv s) (G := fun _ => none)
      (P := fun i => protocol (isResume (reqs i))) (Q := fun _ _ _ => True) hstart.log ho ?_ ?_ ?_ ?_ ?_ ?_ h).1
    · intro i t ht
      cases ht
    · exact fun i => handle_follows st (hreqs i)
    · exact fun c c' i j e s ho _ hs hj _ hH => hH.stays ho hs hj
    · intro i s l sv hH _
      cases s <;> exact hH
    · exact fun c i e o k r l sv s ho _ _ _ _ hm hH hx => hH.done (ho.view i) hm hx
    · intro i s a l sv _ _
      refine ⟨none, trivial, fun t ht => ?_⟩
      cases ht
  refine ⟨hdb, fun pre i ws post heq id => ?_⟩
  have hstep : LegalStep (isResume (reqs i)) (statusOf id (replay sv₀.db pre))
      (statusOf id (replay sv₀.db (pre ++ [(i, ws)]))) := by
    rw [replay_append]
    exact hlogged pre i ws post heq id
  refine ⟨hstep, fun hdel => ?_⟩
  rw [hdel] at hstep
  cases hnew : statusOf id (replay sv₀.db (pre ++ [(i, ws)])) with
  | none => rw [hnew] at hstep; exact hstep.elim
  | some new => rw [hnew] at hstep; rw [Legal.from_deleted hstep]

/-- Two clients: one creates a session, one moves it on. -/
def sampleRequests : Fin 2 → Request
  | 0 => .createSession "bot" Sample.createInput
  | 1 => .patchSession "bot" Sample.sessionId { status := some .uploaded }

theorem status_histories_legal_sample : ∃ c : Clients (Fin 2) Row Env Io Outcome,
    statusOf Sample.sessionId c.shared.db = some .uploaded ∧
      c.shared.db = replay [] c.shared.log ∧
      ∀ pre i ws post, c.shared.log = pre ++ (i, ws) :: post → ∀ id,
        LegalStep (isResume (sampleRequests i)) (statusOf id (replay [] pre)) (statusOf id (replay [] (pre ++ [(i, ws)]))) ∧
        (statusOf id (replay [] pre) = some .deleted → statusOf id (replay [] (pre ++ [(i, ws)])) = some .deleted) := by
  have hrun : ((Service.start Sample.state sampleRequests (Sample.server [])).play machine
      (Sample.moves 0 [(0, 2), (1, 3), (0, 3), (1, 8)])).map (fun c => statusOf Sample.sessionId c.shared.db) =
        some (some .uploaded) := by decide +kernel
  obtain ⟨c, hc, hst⟩ := Option.map_eq_some_iff.1 hrun
  refine ⟨c, hst, ?_⟩
  exact status_histories_legal Sample.state sampleRequests (by
      intro i
      match i with
      | 0 => trivial
      | 1 => trivial) (Sample.server [])
    ⟨List.nodup_nil, rfl, rfl⟩ (Run.play (Config.guarded_of_all (fun _ _ _ => trivial) _) .nil hc)

end DataApi.StatusHistory
