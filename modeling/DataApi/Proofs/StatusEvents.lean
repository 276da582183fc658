/-
Status changes and the events that announce them. A handler sends its event
after its commit, when the row lock is gone: between the two the client owes
the event (`Stage.owing`). What is on the bus are the committed changes in
commit order, less those still owed, as long as no client announces its change
before an earlier one is announced.
-/
import DataApi.Lib.Outbox
import DataApi.Proofs.StatusHistory
import Mathlib.Data.List.Chain

namespace DataApi.StatusEvents

open Relational ReadCommitted Resumption Handler StatusHistory

/-! ## Changes and events -/

/-- A status and the one after it. -/
abbrev Change := SessionStatus × SessionStatus

def changeOf : Option SessionStatus → Option SessionStatus → Option Change
  | some old, some new => if old = new then none else some (old, new)
  | _, _ => none

/-- The status changes of a session, in commit order, each with the client
that committed it. -/
def changes {ι : Type} (id : Uuid) : Db → List (ι × List (Write Row Key)) → List (ι × Change)
  | _, [] => []
  | db, (i, ws) :: rest =>
    ((changeOf (statusOf id db) (statusOf id (applyAll ws db))).map (i, ·)).toList ++ changes id (applyAll ws db) rest

/-- The changes of a session that the bus tells, in bus order. -/
def events (id : Uuid) (bus : List Event) : List Change :=
  bus.filterMap fun
    | .sessionStateChanged _ d => if d.sessionId = id then some (d.old, d.new) else none
    | _ => none

section
variable {ι : Type} {id : Uuid} {db : Db} {log : List (ι × List (Write Row Key))} {i : ι} {ws : List (Write Row Key)}

@[simp] theorem changeOf_self (a : Option SessionStatus) : changeOf a a = none := by
  cases a <;> simp [changeOf]

/-- No change is reported where the status stays. -/
theorem changeOf_none {a b : Option SessionStatus} (h : changeOf a b = none) (hs : a.isSome = b.isSome) : a = b := by
  cases a <;> cases b <;> simp [changeOf] at h hs ⊢
  exact h

theorem changeOf_some {a b : Option SessionStatus} {x : Change} (h : changeOf a b = some x) :
    a = some x.1 ∧ b = some x.2 := by
  cases a <;> cases b <;> simp [changeOf] at h ⊢
  obtain ⟨-, rfl⟩ := h
  exact ⟨rfl, rfl⟩

theorem changes_snoc : changes id db (log ++ [(i, ws)]) = changes id db log ++
    ((changeOf (statusOf id (replay db log)) (statusOf id (applyAll ws (replay db log)))).map (i, ·)).toList := by
  induction log generalizing db with
  | nil => simp [changes]
  | cons t log ih =>
    rw [List.cons_append, changes, ih, changes, List.append_assoc]
    rfl

@[simp] theorem events_append (bus bus' : List Event) : events id (bus ++ bus') = events id bus ++ events id bus' := by
  simp [events]

/-- Sessions neither come nor go. -/
def Steady (db : Db) (_ : ι) (ws : List (Write Row Key)) : Prop :=
  ∀ id, (statusOf id db).isSome = (statusOf id (applyAll ws db)).isSome

/-- Each change takes up where the one before it ended, and the last one ended
at the stored status. -/
theorem changes_chain (h : Logged Steady db log) (id : Uuid) : (changes id db log).IsChain (fun a b => a.2.2 = b.2.1) ∧
    ∀ x ∈ (changes id db log).getLast?, statusOf id (replay db log) = some x.2.2 := by
  refine h.induct (I := fun log => (changes id db log).IsChain (fun a b => a.2.2 = b.2.1) ∧
    ∀ x ∈ (changes id db log).getLast?, statusOf id (replay db log) = some x.2.2) ⟨List.IsChain.nil, by simp [changes]⟩ ?_
  intro log i ws _ ⟨hchain, hlast⟩ hsteady
  have hreplay : replay db (log ++ [(i, ws)]) = applyAll ws (replay db log) := by simp
  rw [changes_snoc, hreplay]
  cases hc : changeOf (statusOf id (replay db log)) (statusOf id (applyAll ws (replay db log))) with
  | none =>
    rw [← changeOf_none hc (hsteady id)]
    simp only [Option.map_none, Option.toList_none, List.append_nil]
    exact ⟨hchain, hlast⟩
  | some x =>
    obtain ⟨hold, hnew⟩ := changeOf_some hc
    refine ⟨List.isChain_append.2 ⟨hchain, by simp, fun a ha b hb => ?_⟩, by simp [hnew]⟩
    obtain rfl : (i, x) = b := by simpa using hb
    exact Option.some.inj ((hlast a ha).symm.trans hold)

end
/-! ## The protocol -/

/-- Where a request stands: its changes are `locked` in a transaction, then
committed and to be announced, then announced. -/
inductive Stage
  | idle
  | locked (l : Held)
  | owing (l : Held)
  | ended

def isStateChanged : Operation → Bool
  | .outer (.send (.sessionStateChanged _ _)) => true
  | _ => false

/-- The client has sent its event. -/
def told (c : Conn) : Bool := c.hist.any fun x => isStateChanged x.1

/-- The session a request deletes. -/
def cascades : Request → Option Uuid
  | .deleteCascade _ id => some id
  | _ => none

def protocol (req : Request) : Protocol (@Answer Row Key Uniq Env Io World _ _) Stage where
  may s
    | .begin => s = .idle
    | .query .pool _ => False
    | .query .tx (.forUpdate p) => s = .idle ∧ ∃ id, Stmt.forUpdate p = Sessions.getInTxSql id
    | .query .tx (.update p set) => ∃ (l : Held) (set' : Env → Session → Session) (hk : _), s = .locked l ∧
        Stmt.update p set = sessionsT.update (Sessions.byId l.id) set' hk
    | .query .tx q => Spares q
    | .commit => ∃ l, s = .locked l ∧ ∀ id, cascades req = some id → l.id = id ∧ l.new = .deleted
    | .rollback => False
    | .outer (.send (.sessionStateChanged _ d)) => ∃ l, s = .owing l ∧ l.id = d.sessionId ∧ l.old = d.old ∧
        l.new = d.new ∧ (l.old ≠ l.new ∨ (cascades req).isSome)
    | .outer (.send _) => False
    | _ => True
  next s
    | .query .tx (.forUpdate p), .ok rows, t =>
      ((sessionsT.rows rows).head? = none → t = s) ∧ ∀ x, (sessionsT.rows rows).head? = some x →
        p (.session x) = true ∧ t = .locked { id := x.id, old := x.status, new := x.status }
    | .query .tx (.update _ set), .ok rows, t => ∀ l, s = .locked l →
      ((sessionsT.rows rows).head? = none → t = s) ∧ ∀ x, (sessionsT.rows rows).head? = some x →
        t = .locked { l with new := x.status } ∧ ∃ env y, y.status = l.new ∧ .session x = (set env).set (.session y)
    | .commit, .ok _, t => ∀ l, s = .locked l → t = .owing l
    | .commit, .error _, t => t = .idle
    | .outer (.send (.sessionStateChanged _ _)), _, t => t = .ended
    | _, _, t => t = s

/-- A client that has returned owes nothing. -/
def Replies (s : Stage) (_ : Outcome) : Prop := ∀ l, s = .owing l → l.old = l.new

def Core {ι : Type} (i : ι) (c : Conn) (sv : Sv ι) : Stage → Prop
  | .idle => ∀ t, c.tx = some t → ∀ w ∈ t.writes, (Key.table w.key) ≠ .sessions
  | .locked l => Holding i c sv l
  | .owing _ | .ended => c.tx = none

/-- What a client's stage says of its transaction and of its history. -/
structure Holds {ι : Type} (i : ι) (c : Conn) (sv : Sv ι) (s : Stage) : Prop where
  core : Core i c sv s
  told : told c = true ↔ s = .ended

section
variable {ι : Type} {i j : ι} {conn c' : Conn} {sv sv' : Sv ι} {s t : Stage} {req : Request}

theorem told_snoc {o : Operation} {r : Answer o} (h : c'.hist = conn.hist ++ [⟨o, r⟩]) :
    told c' = (told conn || isStateChanged o) := by
  simp [told, h]

/-- An operation that announces nothing. -/
theorem Holds.put (h : Holds i conn sv s) {o : Operation} {r : Answer o} (hh : c'.hist = conn.hist ++ [⟨o, r⟩])
    (ho : isStateChanged o = false) (hcore : Core i c' sv' t) (hover : t = .ended ↔ s = .ended) : Holds i c' sv' t := by
  refine ⟨hcore, ?_⟩
  rw [told_snoc hh, ho, Bool.or_false, hover]
  exact h.told

/-- The core looks at the transaction and at the committed state only. -/
theorem Core.congr (h : Core i conn sv s) (htx : c'.tx = conn.tx) (hdb : sv'.db = sv.db) (hl : sv'.locks = sv.locks) :
    Core i c' sv' s := by
  cases s with
  | idle => exact fun t ht => h t (htx ▸ ht)
  | locked l =>
    obtain ⟨hlock, hold, t, ht, hnew, hw⟩ := h
    refine ⟨hl ▸ hlock, by rw [hdb]; exact hold, t, htx.trans ht, by rw [hdb]; exact hnew, hw⟩
  | owing l => exact htx.trans h
  | ended => exact htx.trans h

theorem Holds.stays [DecidableEq ι] {c d : Clients ι Row Env Io Outcome} {e : Env} (ho : Orderly c)
    (hs : c.step machine i e = some d) (hj : j ≠ i) (h : Holds j (c.threads j).loc c.shared s) :
    Holds j (c.threads j).loc d.shared s := by
  refine ⟨?_, h.told⟩
  have hcore := h.core
  cases s with
  | locked l => exact Holding.stays ho hs hj hcore
  | _ => exact hcore

/-- A statement on other tables. -/
theorem Core.spared {tx : Tx Row Key Env} (h : Core i conn sv s) (ht : conn.tx = some tx) {ws : List (Write Row Key)}
    (hws : ∀ w ∈ ws, (Key.table w.key) ≠ .sessions) {locks : List (ι × Need Key Uniq)} (hlocks : ∀ k ∈ sv.locks, k ∈ locks)
    (hc : c'.tx = some { tx with writes := tx.writes ++ ws }) : Core i c' { sv with locks := locks } s := by
  cases s with
  | idle =>
    intro t' ht' w hw
    obtain rfl := Option.some.inj (hc.symm.trans ht')
    rcases List.mem_append.1 hw with hw | hw
    · exact h tx ht w hw
    · exact hws w hw
  | locked l => exact Holding.spared h ht hws hlocks hc
  | owing l => cases ht.symm.trans h
  | ended => cases ht.symm.trans h

/-- A statement in the transaction. -/
theorem Core.query_tx [DecidableEq ι] {e : Env} {q : Sql} {r : Answer (.query .tx q : Operation)}
    (hu : ∀ t, conn.tx = some t → KeysUnique (applyAll t.writes sv.db)) (h : Core i conn sv s)
    (hm : (protocol req).may s (.query .tx q)) (hx : machine.exec i e conn sv (.query .tx q) = some (some r, c', sv')) :
    ∃ t, (protocol req).next s (.query .tx q) r t ∧ Core i c' sv' t ∧ (t = .ended ↔ s = .ended) ∧ sv'.log = sv.log := by
  rcases query_tx_done hx with ⟨err, rfl, rfl, rfl⟩ | ⟨t, snap, rows, ws, eff, ht, _, _, heff, hres, _, rfl, rfl, rfl⟩
  · refine ⟨s, ?_, h.congr rfl rfl rfl, Iff.rfl, rfl⟩
    cases q <;> rfl
  · have hlocks : ∀ k ∈ sv.locks, k ∈ eff.needs.map (i, ·) ++ sv.locks := fun k hk => List.mem_append_right _ hk
    subst heff
    cases q with
    | forUpdate p =>
      obtain ⟨rfl, id, hq⟩ : s = .idle ∧ ∃ id, Stmt.forUpdate p = Sessions.getInTxSql id := hm
      rw [hq] at hres hlocks ⊢
      obtain ⟨hrows, rfl, hn⟩ := forUpdate_ok hres
      obtain rfl : p = sessionsT.is (Sessions.byId id) := by
        simpa [Sessions.getInTxSql, Table.forUpdate] using hq
      cases hhead : (sessionsT.rows rows).head? with
      | none =>
        refine ⟨.idle, ⟨fun _ => rfl, fun x hx' => ?_⟩, Core.spared h ht (by simp) hlocks rfl, by simp, rfl⟩
        rw [hhead] at hx'; cases hx'
      | some x =>
        obtain ⟨hpx, hh⟩ := Holding.locked (i := i) (hu t ht) (h t ht) hrows hhead hn
          (Client.done { conn with tx := some { t with writes := t.writes ++ [] } } (.query .tx (.forUpdate _)) (.ok rows))
          (by simp [Client.done])
        refine ⟨.locked _, ⟨fun hno => ?_, fun y hy => ?_⟩, hh, by simp, rfl⟩
        · rw [hhead] at hno; cases hno
        · obtain rfl := Option.some.inj (hhead.symm.trans hy)
          exact ⟨(sessionsT.is_put _ _).trans hpx, rfl⟩
    | update p set =>
      obtain ⟨l, set', hk, rfl, hq⟩ := hm
      have hset : ∀ env, set env = sessionsT.setter (set' env) (hk env) := by
        intro env
        have := (Stmt.update.inj hq).2
        rw [this]
      rw [hq] at hres hlocks
      obtain ⟨hrows, rfl, _⟩ := update_ok hres
      rcases Holding.set (hu t ht) h ht hrows hk hlocks
        (Client.done { conn with tx := some { t with writes := t.writes ++ rows.map .update } } (.query .tx (.update p set))
          (.ok rows)) rfl with ⟨hnil, hh⟩ | ⟨x, hx', hone, hh⟩
      · refine ⟨.locked l, fun l' hl' => ⟨fun _ => rfl, fun y hy => ?_⟩, ?_, Iff.rfl, rfl⟩
        · rw [hnil] at hy; cases hy
        · rw [hq]; exact hh
      · have hhead : (sessionsT.rows rows).head? = some (set' (StepEnv.within t.env e) x) := by
          have := sessionsT.rows_map_put [set' (StepEnv.within t.env e) x]
          rw [List.map_singleton, ← hone] at this
          rw [this]; rfl
        refine ⟨.locked { l with new := (set' (StepEnv.within t.env e) x).status },
          fun l' hl' => ⟨fun hno => ?_, fun y hy => ?_⟩, ?_, by simp, rfl⟩
        · rw [hhead] at hno; cases hno
        · obtain rfl := Stage.locked.inj hl'
          obtain rfl := Option.some.inj (hhead.symm.trans hy)
          refine ⟨rfl, StepEnv.within t.env e, x, hx', ?_⟩
          rw [hset]
          exact (sessionsT.lift_put _ x).symm
        · rw [hq]; exact hh
    | select p => exact ⟨s, rfl, Core.spared h ht (hm _ _ _ _ _ _ hres) hlocks rfl, Iff.rfl, rfl⟩
    | insert mk => exact ⟨s, rfl, Core.spared h ht (hm _ _ _ _ _ _ hres) hlocks rfl, Iff.rfl, rfl⟩
    | delete p => exact ⟨s, rfl, Core.spared h ht (hm _ _ _ _ _ _ hres) hlocks rfl, Iff.rfl, rfl⟩

theorem Core.none (h : conn.tx = none) : Core i conn sv .idle := by
  intro t ht
  rw [h] at ht; cases ht

/-- A completed operation: the stage follows. -/
theorem Holds.done [DecidableEq ι] {e : Env} {o : Operation} {r : Answer o}
    (hu : ∀ t, conn.tx = some t → KeysUnique (applyAll t.writes sv.db)) (h : Holds i conn sv s)
    (hm : (protocol req).may s o) (hx : machine.exec i e conn sv o = some (some r, c', sv')) :
    ∃ t, (protocol req).next s o r t ∧ Holds i c' sv' t := by
  have hh := exec_hist hx
  cases o with
  | query via q =>
    cases via with
    | tx =>
      obtain ⟨t, hn, hcore, hover, -⟩ := h.core.query_tx hu hm hx
      exact ⟨t, hn, h.put hh rfl hcore hover⟩
    | pool => exact hm.elim
  | begin =>
    obtain rfl : s = .idle := hm
    refine ⟨.idle, rfl, h.put hh rfl ?_ Iff.rfl⟩
    rcases begin_done hx with ⟨_, _, rfl, rfl⟩ | ⟨_, rfl, rfl⟩
    · exact h.core
    · intro t ht w hw
      cases ht; cases hw
  | commit =>
    obtain ⟨l, rfl, -⟩ := hm
    rcases commit_done hx with ⟨_, rfl, rfl, rfl⟩ | ⟨rfl, rfl, rfl⟩
    · exact ⟨.idle, rfl, h.put hh rfl (Core.none rfl) (by simp)⟩
    · refine ⟨.owing l, fun l' hl' => ?_, h.put hh rfl rfl (by simp)⟩
      rw [Stage.locked.inj hl']
  | rollback => exact hm.elim
  | outer x =>
    obtain ⟨_, rfl, rfl⟩ := outer_done hx
    cases x with
    | send ev =>
      cases ev with
      | sessionStateChanged at_ d =>
        obtain ⟨l, rfl, -⟩ := hm
        refine ⟨.ended, rfl, h.core, ?_⟩
        rw [told_snoc hh]
        simp [isStateChanged]
      | _ => exact hm.elim
    | _ => exact ⟨s, rfl, h.put hh rfl (h.core.congr rfl rfl rfl) Iff.rfl⟩

/-! ### What changes and what is told -/

/-- Nothing is committed yet. -/
def Stage.opened : Stage → Prop
  | .idle | .locked _ => True
  | _ => False

/-- What a completed operation does to the changes and the events. -/
inductive Moved (i : ι) (o : Operation) (s t : Stage) (sv sv' : Sv ι) : Prop
  | quiet (same : t = s ∨ (s.opened ∧ t.opened)) (log : sv'.log = sv.log) (db : sv'.db = sv.db)
      (bus : sv'.world.bus = sv.world.bus)
  | changed (commits : o = .commit) (l : Held) (held : s = .locked l) (owes : t = .owing l) (ws : List (Write Row Key))
      (log : sv'.log = sv.log ++ [(i, ws)]) (old : statusOf l.id sv.db = some l.old)
      (new : statusOf l.id (applyAll ws sv.db) = some l.new)
      (others : ∀ id, id ≠ l.id → statusOf id (applyAll ws sv.db) = statusOf id sv.db)
      (bus : sv'.world.bus = sv.world.bus)
  | announced (now : Timestamp) (d : SessionStateChanged) (sends : o = .outer (.send (.sessionStateChanged now d)))
      (l : Held) (about : d.sessionId = l.id) (owed : s = .owing l) (ends : t = .ended) (log : sv'.log = sv.log)
      (bus : ∀ id, events id sv'.world.bus = events id sv.world.bus ++ if id = l.id then [(l.old, l.new)] else [])

theorem next_opened {q : Sql} {r : Answer (.query .tx q : Operation)} (hm : (protocol req).may s (.query .tx q))
    (hn : (protocol req).next s (.query .tx q) r t) : t = s ∨ (s.opened ∧ t.opened) := by
  cases q with
  | forUpdate p =>
    cases r with
    | error err => exact .inl hn
    | ok rows =>
      cases hx : (sessionsT.rows rows).head? with
      | none => exact .inl (hn.1 hx)
      | some x =>
        obtain rfl := hm.1
        obtain ⟨-, rfl⟩ := hn.2 x hx
        exact .inr ⟨trivial, trivial⟩
  | update p set =>
    cases r with
    | error err => exact .inl hn
    | ok rows =>
      obtain ⟨l, _, _, rfl, -⟩ := hm
      obtain ⟨hno, hsome⟩ := hn l rfl
      cases hx : (sessionsT.rows rows).head? with
      | none => exact .inl (hno hx)
      | some x =>
        obtain ⟨rfl, -⟩ := hsome x hx
        exact .inr ⟨trivial, trivial⟩
  | _ => exact .inl hn

theorem Holds.moved [DecidableEq ι] {e : Env} {o : Operation} {r : Answer o} (h : Holds i conn sv s)
    (hm : (protocol req).may s o) (hx : machine.exec i e conn sv o = some (some r, c', sv'))
    (hn : (protocol req).next s o r t) : Moved i o s t sv sv' := by
  cases o with
  | query via q =>
    cases via with
    | tx =>
      have hsame := next_opened hm hn
      rcases query_tx_done hx with ⟨_, rfl, rfl, rfl⟩ | ⟨_, _, _, _, _, _, _, _, _, _, _, rfl, rfl, rfl⟩ <;>
        exact .quiet hsame rfl rfl rfl
    | pool => exact hm.elim
  | begin =>
    rcases begin_done hx with ⟨_, rfl, rfl, rfl⟩ | ⟨rfl, rfl, rfl⟩ <;> exact .quiet (.inl hn) rfl rfl rfl
  | commit =>
    obtain ⟨l, rfl, -⟩ := hm
    rcases commit_done hx with ⟨_, rfl, rfl, rfl⟩ | ⟨rfl, rfl, rfl⟩
    · obtain rfl : t = .idle := hn
      exact .quiet (.inr ⟨trivial, trivial⟩) rfl rfl rfl
    · have hhold : Holding i conn sv l := h.core
      obtain ⟨-, hold, tx, htx, hnew, -⟩ := hhold
      have hw : conn.writes = tx.writes := by simp [Client.writes, htx]
      refine .changed rfl l rfl (hn l rfl) conn.writes rfl hold (hw ▸ hnew) (fun id hid => ?_) rfl
      rw [hw]
      exact Holding.others h.core htx hid
  | rollback => exact hm.elim
  | outer x =>
    obtain ⟨_, rfl, rfl⟩ := outer_done hx
    cases x with
    | send ev =>
      cases ev with
      | sessionStateChanged at_ d =>
        obtain ⟨l, rfl, hid, hold, hnew, -⟩ := hm
        refine .announced at_ d rfl l hid.symm rfl hn rfl fun id => ?_
        show events id (sv.world.bus ++ [.sessionStateChanged at_ d]) = _
        rw [events_append, hid, hold, hnew]
        by_cases hd : d.sessionId = id
        · simp [events, hd]
        · simp [events, hd, Ne.symm hd]
      | _ => exact hm.elim
    | _ => exact .quiet (.inl hn) rfl rfl rfl

/-- What it commits takes no session away. -/
theorem Moved.steady {o : Operation} (h : Moved i o s t sv sv') :
    sv'.log = sv.log ∨ ∃ ws, sv'.log = sv.log ++ [(i, ws)] ∧ Steady sv.db i ws := by
  cases h with
  | quiet _ log _ _ => exact .inl log
  | announced _ _ _ _ _ _ _ log _ => exact .inl log
  | changed _ l _ _ ws log old new others _ =>
    refine .inr ⟨ws, log, fun id => ?_⟩
    by_cases hid : id = l.id
    · rw [hid, old, new]; rfl
    · rw [others id hid]

end

/-! ## The handlers follow it -/

section
variable {β : Type} {req : Request} {f : Session → Handler β}

/-- `Replies`, of any answer. -/
def Settled {β : Type} (s : Stage) (_ : Except AppError β) : Prop := ∀ l, s = .owing l → l.old = l.new

abbrev Follows (req : Request) (s : Stage) (p : Handler β) : Prop := Prog.Follows (protocol req) Settled s p.run

theorem settled_idle {o : Except AppError β} : Settled .idle o := by
  intro l h; cases h

theorem settled_locked {l : Held} {o : Except AppError β} : Settled (.locked l) o := by
  intro l h; cases h

theorem settled_over {o : Except AppError β} : Settled .ended o := by
  intro l h; cases h

theorem follows_start {k : Unit → Handler β} (h : Follows req .idle (k ())) : Follows req .idle (begin >>= k) := by
  refine follows_begin rfl (fun _ t ht => ?_) fun t ht => ?_
  · obtain rfl : t = .idle := ht
    exact settled_idle
  · obtain rfl : t = .idle := ht
    exact h

theorem follows_getInTx {id : Uuid} (h : ∀ x : Session,
      Follows req (.locked { id := id, old := x.status, new := x.status }) (f x)) :
    Follows req .idle (Sessions.getInTx id >>= f) := by
  rw [Sessions.getInTx, bind_assoc]
  refine follows_fetchOptional ⟨rfl, id, rfl⟩ (fun _ t ht => ?_) fun rows t ht => ?_
  · obtain rfl : t = .idle := ht
    exact settled_idle
  · obtain ⟨hnone, hsome⟩ := ht
    cases hx : (sessionsT.rows rows).head? with
    | none =>
      obtain rfl := hnone hx
      exact follows_throw settled_idle
    | some x =>
      obtain ⟨hp, rfl⟩ := hsome x hx
      have hid : x.id = id := by simpa [Sessions.byId] using (sessionsT.is_put _ x).symm.trans hp
      subst hid; exact h x

/-- An UPDATE of the held row that sets the status by `g`. -/
theorem follows_set {l : Held} {q : Sql} {g : SessionStatus → SessionStatus} {set : Env → Session → Session}
    {hk : ∀ e, sessionsT.Keeps (set e)} (hq : q = sessionsT.update (Sessions.byId l.id) set hk)
    (hg : ∀ e x, (set e x).status = g x.status) (h : ∀ x, Follows req (.locked { l with new := g l.new }) (f x)) :
    Follows req (.locked l) (fetchOne .tx sessionsT q >>= f) := by
  subst hq
  refine follows_fetchOne ⟨l, set, hk, rfl, rfl⟩ (fun _ t ht => ?_) (fun rows t ht hno => ?_) fun rows t x ht hx => ?_
  · obtain rfl : t = .locked l := ht
    exact settled_locked
  · obtain rfl := (ht l rfl).1 hno
    exact settled_locked
  · obtain ⟨rfl, env, y, hy, hput⟩ := (ht l rfl).2 x hx
    have hset : x = set env y := sessionsT.put_inj (hput.trans (sessionsT.lift_put (set env) y))
    have hst : x.status = g l.new := by rw [hset, hg, hy]
    rw [hst]
    exact h x

/-- The audit row and the commit. -/
theorem follows_commits {l : Held} {e : AuditLog.Entry} {k : Handler β}
    (hc : ∀ id, cascades req = some id → l.id = id ∧ l.new = .deleted) (h : Follows req (.owing l) k) :
    Follows req (.locked l) (AuditLog.appendTx e >>= fun _ => commit >>= fun _ => k) := by
  refine follows_appendTx (spares_appendSql e) (fun _ t ht => ?_) fun rows t ht => ?_
  · obtain rfl : t = .locked l := ht
    exact settled_locked
  · obtain rfl : t = .locked l := ht
    refine follows_commit ⟨l, rfl, hc⟩ (fun _ t ht => ?_) fun t ht => ?_
    · obtain rfl : t = .idle := ht
      exact settled_idle
    · obtain rfl := ht l rfl
      exact h

theorem follows_stateChanged {l : Held} {id : Uuid} {g : Int} {old new : SessionStatus} {k : Handler β} (hid : l.id = id)
    (hold : l.old = old) (hnew : l.new = new) (hchange : l.old ≠ l.new ∨ (cascades req).isSome) (h : Follows req .ended k) :
    Follows req (.owing l) (SessionRoutes.stateChanged id g old new >>= fun _ => k) := by
  rw [SessionRoutes.stateChanged, bind_assoc]
  refine follows_utcNow trivial fun now t ht => ?_
  obtain rfl : t = .owing l := ht
  refine follows_send ⟨l, rfl, hid, hold, hnew, hchange⟩ fun t ht => ?_
  obtain rfl : t = .ended := ht
  exact h

/-- A DELETE on another table. -/
theorem follows_spared {l : Held} {q : Sql} {p : Row → Bool} (hq : q = .delete p) (hs : Spares q) {k : List Row → Handler β}
    (h : ∀ rows, Follows req (.locked l) (k rows)) : Follows req (.locked l) (query .tx q >>= k) := by
  subst hq
  refine follows_query hs (fun _ t ht => ?_) fun rows t ht => ?_
  · obtain rfl : t = .locked l := ht
    exact settled_locked
  · obtain rfl : t = .locked l := ht
    exact h rows

end

section
variable {β : Type} {l : Held} {f : Session → Handler β} {svc : String} {id : Uuid} {body : SessionRoutes.PatchSession}

theorem follows_patchFields {x : Session} (hid : l.id = id)
    (h : ∀ y, Follows (.patchSession svc id body) (.locked l) (f y)) :
    Follows (.patchSession svc id body) (.locked l) (SessionRoutes.patchFields id body x >>= f) := by
  rw [SessionRoutes.patchFields]
  split
  · subst hid
    exact follows_set (l := l) (g := fun s => s) rfl (fun _ _ => rfl) h
  · exact h x

end

theorem patch_follows (svc : String) (id : Uuid) (body : SessionRoutes.PatchSession) :
    Follows (.patchSession svc id body) .idle (SessionRoutes.patch svc id body) := by
  rw [SessionRoutes.patch]
  refine follows_start (follows_getInTx fun existing => ?_)
  -- `change` is what the transaction has changed.
  have finish : ∀ (l : Held) (updated : Session) (change : Option Change), l.id = id →
      (change = none → l.old = l.new) → (∀ c, change = some c → l.old = c.1 ∧ l.new = c.2 ∧ c.1 ≠ c.2) →
      Follows (.patchSession svc id body) (.locked l) (SessionRoutes.patchFields id body updated >>= fun updated =>
        AuditLog.appendTx (SessionRoutes.entry svc id "patched" (.obj
          [("status", .str updated.status.asStr), ("ended_at", Json.optTime updated.endedAt)])) >>= fun _ =>
        commit >>= fun _ => SessionRoutes.announceChange id updated.guildId change >>= fun _ => pure updated) := by
    intro l updated change hid hsame hchange
    refine follows_patchFields hid fun y => follows_commits (fun id h => by cases h) ?_
    cases change with
    | none =>
      refine follows_pure fun l' hl' => ?_
      cases hl'
      exact hsame rfl
    | some c =>
      obtain ⟨hold, hnew, hne⟩ := hchange c rfl
      rw [SessionRoutes.announceChange, bind_assoc]
      refine follows_stateChanged hid hold hnew (.inl (by rw [hold, hnew]; exact hne)) ?_
      refine follows_incCounter trivial fun t ht => ?_
      obtain rfl : t = .ended := ht
      exact follows_pure settled_over
  cases hs : body.status with
  | none => exact finish _ existing none rfl (fun _ => rfl) fun c hc => by cases hc
  | some new =>
    rw [SessionRoutes.patchStatus, bind_assoc]
    refine follows_refuseIf (fun _ => settled_locked) fun _ => ?_
    rw [bind_assoc, Sessions.updateStatus]
    refine follows_set rfl (g := fun _ => new) (fun _ _ => rfl) fun y => ?_
    refine finish _ y _ rfl (fun hnone => ?_) fun c hc => ?_
    · by_contra hne
      simp [show existing.status ≠ new from hne] at hnone
    · by_cases hne : existing.status = new
      · simp [hne] at hc
      · rw [if_pos (by simpa using hne)] at hc
        obtain rfl := Option.some.inj hc
        exact ⟨rfl, rfl, hne⟩

theorem resume_follows (st : AppState) (svc : String) (id : Uuid) (body : SessionRoutes.ResumeBody) :
    Follows (.resume svc id body) .idle (SessionRoutes.resume st svc id body) := by
  rw [SessionRoutes.resume]
  refine follows_start (follows_getInTx fun existing => ?_)
  refine follows_refuseIf (fun _ => settled_locked) fun hc => ?_
  have hab : existing.status = .abandoned := by simpa using hc
  refine follows_utcNow trivial fun now t ht => ?_
  obtain rfl := ht
  refine follows_refuseIf (fun _ => settled_locked) fun _ => ?_
  rw [Sessions.resumeFromAbandoned]
  refine follows_set rfl (g := fun _ => .recording) (fun _ _ => rfl) fun y => ?_
  refine follows_commits (fun id h => by cases h) ?_
  exact follows_stateChanged rfl hab rfl (.inl (by simp [hab])) (follows_pure settled_over)

theorem deleteCascade_follows (svc : String) (id : Uuid) :
    Follows (.deleteCascade svc id) .idle (SessionRoutes.deleteCascade svc id) := by
  rw [SessionRoutes.deleteCascade]
  refine follows_start (follows_getInTx fun existing => ?_)
  simp only [SessionRoutes.deleteChildren, Chunks.deleteForSession, Uniform.deleteAllForSession,
    MuteRanges.deleteForSession, fetchAll, execute, bind_assoc, pure_bind]
  refine follows_spared rfl (spares_of (Chunks.deleteForSessionSql_writes id) (by decide)) fun _ => ?_
  refine follows_spared rfl (spares_of (Uniform.deleteAllForSessionSql_writes _ id) (by decide)) fun _ => ?_
  refine follows_spared rfl (spares_of (Uniform.deleteAllForSessionSql_writes _ id) (by decide)) fun _ => ?_
  refine follows_spared rfl (spares_of (Uniform.deleteAllForSessionSql_writes _ id) (by decide)) fun _ => ?_
  refine follows_spared rfl (spares_of (MuteRanges.deleteForSessionSql_writes id) (by decide)) fun _ => ?_
  refine follows_spared rfl (spares_of (Metadata.deleteSql_writes id) (by decide)) fun _ => ?_
  have hparts : Spares (Participants.deleteForSessionSql id) :=
    (Participants.deleteForSessionSql_writes id).mono fun n hn => by rcases hn with rfl | rfl <;> decide
  refine follows_spared rfl hparts fun _ => ?_
  rw [Sessions.updateStatus]
  refine follows_set rfl (g := fun _ => .deleted) (fun _ _ => rfl) fun y => ?_
  refine follows_commits (fun id' h => ⟨Option.some.inj h, rfl⟩) ?_
  rw [SessionRoutes.sweep]
  split
  · exact follows_stateChanged rfl rfl rfl (.inr rfl) (follows_pure settled_over)
  · rw [bind_assoc]
    refine follows_deleteMany trivial fun _ t ht => ?_
    obtain rfl := ht
    exact follows_stateChanged rfl rfl rfl (.inr rfl) (follows_pure settled_over)

/-- The requests that move a session on. -/
def MovesOn : Request → Prop
  | .patchSession _ _ _ | .resume _ _ _ | .deleteCascade _ _ => True
  | _ => False

theorem handle_follows (st : AppState) {r : Request} (hr : MovesOn r) :
    Prog.Follows (protocol r) Replies .idle (handle st r).run := by
  cases r with
  | patchSession svc id body => exact follows_map (patch_follows svc id body)
  | resume svc id body => exact follows_map (resume_follows st svc id body)
  | deleteCascade svc id => exact follows_map (deleteCascade_follows svc id)
  | _ => exact hr.elim

/-! ## Runs -/

/-- The change of session `id` that a client owes the bus. -/
def owes (id : Uuid) : Stage → Option Change
  | .owing l => if l.id = id ∧ l.old ≠ l.new then some (l.old, l.new) else none
  | _ => none

theorem owes_opened {s : Stage} (h : s.opened) (id : Uuid) : owes id s = none := by
  cases s with
  | idle => rfl
  | locked l => rfl
  | _ => exact h.elim

theorem changeOf_held {l : Held} {a b : Option SessionStatus} (ha : a = some l.old) (hb : b = some l.new) :
    changeOf a b = owes l.id (.owing l) := by
  subst ha hb
  by_cases h : l.old = l.new <;> simp [changeOf, owes, h]

/-- The event a client is about to send. -/
def announcing : Code Outcome → Option SessionStateChanged
  | .op (.outer (.send (.sessionStateChanged _ d))) _ => some d
  | _ => none

def committing : Code Outcome → Bool
  | .op .commit _ => true
  | _ => false

section
variable {ι : Type} [DecidableEq ι] {st : AppState} {reqs : ι → Request}

/-- No deletion of a session that is deleted already. -/
def DeletesOnce (reqs : ι → Request) (c : Clients ι Row Env Io Outcome) (i : ι) (_ : Env) : Prop :=
  ∀ id ∈ cascades (reqs i), committing (c.threads i).prog = true → statusOf id c.shared.db ≠ some .deleted

/-- No event before those of the session's earlier changes. -/
def InOrder (db₀ : Db) (c : Clients ι Row Env Io Outcome) (i : ι) (_ : Env) : Prop :=
  ∀ d ∈ announcing (c.threads i).prog, ∀ x ∈ (changes d.sessionId db₀ c.shared.log).takeWhile (fun x => x.1 ≠ i),
    told (c.threads x.1).loc = true

/-- The bus against the log, session by session; a deletion changed the status. -/
structure Tells (reqs : ι → Request) (db₀ : Db) (g : ι → Stage) (c : Clients ι Row Env Io Outcome) : Prop where
  outbox : ∀ id, Outbox (fun i => owes id (g i)) (fun i => g i = .ended) (changes id db₀ c.shared.log)
    (events id c.shared.world.bus)
  deleted : ∀ i l, g i = .owing l → (cascades (reqs i)).isSome → l.old ≠ l.new

variable {db₀ : Db} {c : Clients ι Row Env Io Outcome} {g : ι → Stage} {i : ι} {t : Stage}

/-- A client's stage changes, but not what it owes or has told. -/
theorem Tells.still (h : Tells reqs db₀ g c) {d : Clients ι Row Env Io Outcome} (hlog : d.shared.log = c.shared.log)
    (hbus : d.shared.world.bus = c.shared.world.bus) (ht : t = g i ∨ ((g i).opened ∧ t.opened)) :
    Tells reqs db₀ (Function.update g i t) d := by
  rcases ht with rfl | ⟨hs, ht⟩
  · rw [Function.update_eq_self]
    exact ⟨fun id => by rw [hlog, hbus]; exact h.outbox id, h.deleted⟩
  · refine ⟨fun id => ?_, fun j l hj => ?_⟩
    · rw [hlog, hbus]
      refine (h.outbox id).quiet (fun j => ?_) (fun j hj => ?_) fun j hj => ?_ <;> by_cases hji : j = i
      · subst hji
        simp [owes_opened hs, owes_opened ht]
      · simp [Function.update_of_ne hji]
      · rw [hji] at hj
        rw [hj] at hs; exact hs.elim
      · rw [Function.update_of_ne hji]; exact hj
      · rw [hji]; exact owes_opened hs id
      · rw [Function.update_of_ne hji] at hj
        exact (h.outbox id).apart j hj
    · by_cases hji : j = i
      · subst hji
        rw [Function.update_self] at hj
        rw [hj] at ht; exact ht.elim
      · rw [Function.update_of_ne hji] at hj
        exact h.deleted j l hj

/-- A completed operation. -/
theorem Tells.done (h : Tells reqs db₀ g c) (hdb : c.shared.db = replay db₀ c.shared.log)
    (hH : ∀ j, Holds j (c.threads j).loc c.shared (g j)) {o : Operation} {k : Answer o → Code Outcome} {r : Answer o}
    {l : Conn} {sv : Sv ι} {e : Env} (hd : DeletesOnce reqs c i e) (hin : InOrder db₀ c i e)
    (hp : (c.threads i).prog = .op o k) (hm : (protocol (reqs i)).may (g i) o)
    (hx : machine.exec i e (c.threads i).loc c.shared o = some (some r, l, sv)) (hn : (protocol (reqs i)).next (g i) o r t) :
    Tells reqs db₀ (Function.update g i t) (c.put i ⟨k r, l⟩ sv) := by
  have hself : ∀ j, j ≠ i → Function.update g i t j = g j := fun j hj => Function.update_of_ne hj _ _
  cases (hH i).moved hm hx hn with
  | quiet same log db bus => exact h.still log bus same
  | changed commits l' held owed ws log old new others bus =>
    subst commits owed
    obtain ⟨l₁, hl₁, hcascade⟩ := hm
    obtain rfl := Stage.locked.inj (held.symm.trans hl₁)
    refine ⟨fun id => ?_, fun j l₂ hj hc => ?_⟩
    · -- What it commits is what it owes from now on.
      have hchange : changeOf (statusOf id c.shared.db) (statusOf id (applyAll ws c.shared.db)) = owes id (.owing l') := by
        by_cases hid : id = l'.id
        · rw [hid]; exact changeOf_held old new
        · rw [others id hid, changeOf_self]
          simp [owes, Ne.symm hid]
      show Outbox _ _ (changes id db₀ sv.log) (events id sv.world.bus)
      rw [bus, log, changes_snoc, ← hdb, hchange]
      cases ha : owes id (.owing l') with
      | none =>
        simp only [Option.map_none, Option.toList_none, List.append_nil]
        refine (h.outbox id).quiet (fun j => ?_) (fun j hj => ?_) fun j hj => ?_ <;> by_cases hji : j = i
        · rw [hji, Function.update_self, ha, held]; rfl
        · rw [hself j hji]
        · rw [hji, held] at hj; cases hj
        · rw [hself j hji]; exact hj
        · rw [hji, held]; rfl
        · exact (h.outbox id).apart j (hself j hji ▸ hj)
      | some a =>
        refine (h.outbox id).make (by rw [held]; rfl) (by rw [Function.update_self]; exact ha) (fun j hji => by rw [hself j hji])
          (fun j hj => ?_) fun j hj => ?_
        · have hji : j ≠ i := by
            rintro rfl
            simp at hj
          exact ⟨hself j hji ▸ hj, hji⟩
        · have hji : j ≠ i := by
            rintro rfl
            rw [held] at hj; cases hj
          rw [hself j hji]; exact hj
    · by_cases hji : j = i
      · subst hji
        rw [Function.update_self] at hj
        obtain rfl := Stage.owing.inj hj
        obtain ⟨id, hid⟩ := Option.isSome_iff_exists.1 hc
        obtain ⟨rfl, hdel⟩ := hcascade id hid
        intro heq
        refine hd l'.id hid (by rw [hp]; rfl) ?_
        rw [old, heq, hdel]
      · exact h.deleted j l₂ (hself j hji ▸ hj) hc
  | announced now d sends l' about owed ends log bus =>
    subst sends ends
    obtain ⟨l₁, hl₁, -, -, -, hne⟩ := hm
    obtain rfl := Stage.owing.inj (owed.symm.trans hl₁)
    have hne : l'.old ≠ l'.new := hne.elim (fun hne => hne) fun hc => h.deleted i l' owed hc
    refine ⟨fun id => ?_, fun j l₂ hj hc => ?_⟩
    · show Outbox _ _ (changes id db₀ sv.log) (events id sv.world.bus)
      rw [log, bus]
      by_cases hid : id = l'.id
      · subst hid
        rw [if_pos rfl]
        refine (h.outbox l'.id).tell (i := i) (by simp [owed, owes, hne]) (fun x hx => ?_) (by simp [owes])
          (fun j hji => by rw [hself j hji]) (by simp) (fun j hji => by rw [hself j hji])
        exact (hH x.1).told.1 (hin d (by rw [hp]; rfl) x (about ▸ hx))
      · have hnone : owes id (.owing l') = none := by simp [owes, Ne.symm hid]
        rw [if_neg hid, List.append_nil]
        refine (h.outbox id).quiet (fun j => ?_) (fun j hj => ?_) fun j hj => ?_ <;> by_cases hji : j = i
        · rw [hji, Function.update_self, owed, hnone]; rfl
        · rw [hself j hji]
        · rw [hji, Function.update_self]
        · rw [hself j hji]; exact hj
        · rw [hji, owed]; exact hnone
        · exact (h.outbox id).apart j (hself j hji ▸ hj)
    · have hji : j ≠ i := by
        rintro rfl
        simp at hj
      exact h.deleted j l₂ (hself j hji ▸ hj) hc

theorem Holds.close {conn : Conn} {sv : Sv ι} {s : Stage} (h : Holds i conn sv s) {a : Outcome} (ha : Replies s a) :
    ∃ t, Replies t a ∧ (t = s ∨ (s.opened ∧ t.opened)) ∧ Holds i { conn with tx := none } (sv.release i) t := by
  cases s with
  | idle => exact ⟨.idle, ha, .inl rfl, Core.none rfl, h.told⟩
  | locked l => exact ⟨.idle, (fun l h => by cases h), .inr ⟨trivial, trivial⟩, Core.none rfl, h.told.trans (by simp)⟩
  | owing l => exact ⟨.owing l, ha, .inl rfl, rfl, h.told⟩
  | ended => exact ⟨.ended, ha, .inl rfl, rfl, h.told⟩

variable {sv₀ : Sv ι}

theorem run_tells (hreqs : ∀ i, MovesOn (reqs i)) (hstart : sv₀.Quiescent) (hbus : sv₀.world.bus = [])
    (h : Run machine (fun c i e => DeletesOnce reqs c i e ∧ InOrder sv₀.db c i e) (Service.start st reqs sv₀) c) :
    Logged Steady sv₀.db c.shared.log ∧ ∃ g, Tells reqs sv₀.db g c ∧
      ∀ i, (c.threads i).prog.Follows (protocol (reqs i)) Replies (g i) := by
  have hstartK : Tells reqs sv₀.db (fun _ => .idle) (Service.start st reqs sv₀) := by
    refine ⟨fun id => ?_, fun i l hl => by cases hl⟩
    show Outbox _ _ (changes id sv₀.db sv₀.log) (events id sv₀.world.bus)
    rw [hbus, hstart.log]
    exact Outbox.start _ fun i => rfl
  obtain ⟨hL, g, hK, hg⟩ := Run.clientsWith (H := fun i s l sv => Holds i l sv s) (G := fun _ => .idle)
    (P := fun i => protocol (reqs i)) (Q := fun _ => Replies) (R := fun s t => t = s ∨ (s.opened ∧ t.opened))
    (φ := Steady) (K := Tells reqs sv₀.db) hstart.log (Orderly.start hstart)
    (fun i => ⟨Core.none rfl, by simp [told]⟩) hstartK (fun i => handle_follows st (hreqs i))
    (fun c c' i j e s ho _ hs hj _ hH => hH.stays ho hs hj)
    (fun c i s _ _ hH _ => ⟨hH.core.congr rfl rfl rfl, hH.told⟩)
    (fun c i e o k r l sv s ho _ _ _ _ hm hH hx => by
      obtain ⟨t, hn, hHt⟩ := hH.done (ho.view i) hm hx
      exact ⟨t, hn, hHt, (hH.moved hm hx hn).steady⟩)
    (fun i s a l sv hH hQ => hH.close hQ)
    (fun c g i e o k hK _ _ _ _ => ⟨hK.outbox, hK.deleted⟩)
    (fun c g i e o k r l sv t _ hdb _ hH _ hK hg hp hm hx hn _ => hK.done hdb hH hg.1 hg.2 hp hm hx hn)
    (fun c g i e a t _ hK _ _ _ _ hR => hK.still rfl rfl hR) h
  exact ⟨hL, g, hK, fun i => (hg i).2⟩

/-- In every run in which no session is deleted twice and no event overtakes
one of the session's earlier changes: the events of each session are its
committed changes, in commit order, up to those not announced yet. Each takes
up where the one before it ended; once all requests are over the events are
all the changes, and the last of them ended at the stored status. -/
theorem events_tell_history (st : AppState) (reqs : ι → Request) (hreqs : ∀ i, MovesOn (reqs i)) (sv₀ : Sv ι)
    (hstart : sv₀.Quiescent) (hbus : sv₀.world.bus = []) {c : Clients ι Row Env Io Outcome}
    (h : Run machine (fun c i e => DeletesOnce reqs c i e ∧ InOrder sv₀.db c i e) (Service.start st reqs sv₀) c) (id : Uuid) :
    events id c.shared.world.bus <+: (changes id sv₀.db c.shared.log).map Prod.snd ∧
      (events id c.shared.world.bus).IsChain (fun a b => a.2 = b.1) ∧
      ((∀ i, (c.returned i).isSome) →
        events id c.shared.world.bus = (changes id sv₀.db c.shared.log).map Prod.snd ∧
          ∀ x ∈ (events id c.shared.world.bus).getLast?, statusOf id c.shared.db = some x.2) := by
  obtain ⟨hL, g, hK, hF⟩ := run_tells hreqs hstart hbus h
  obtain ⟨hchain, hlast⟩ := changes_chain hL id
  have hpre := (hK.outbox id).isPrefix
  have hchain' : ((changes id sv₀.db c.shared.log).map Prod.snd).IsChain (fun a b => a.2 = b.1) :=
    (List.isChain_map _).2 hchain
  refine ⟨hpre, hchain'.prefix hpre, fun hall => ?_⟩
  have hsettled : events id c.shared.world.bus = (changes id sv₀.db c.shared.log).map Prod.snd := by
    refine (hK.outbox id).settled fun i => ?_
    obtain ⟨a, ha⟩ := Option.isSome_iff_exists.1 (hall i)
    have hret := hF i
    rw [Config.returned_iff.1 ha] at hret
    cases hs : g i with
    | owing l => simp [owes, hret l hs]
    | _ => rfl
  refine ⟨hsettled, fun x hx => ?_⟩
  rw [hsettled, List.getLast?_map] at hx
  obtain ⟨y, hy, rfl⟩ := Option.map_eq_some_iff.1 hx
  rw [Run.replay hstart.log (Orderly.start hstart) h]
  exact hlast y hy

end

/-! ### Samples -/

instance {n : Nat} (reqs : Fin n → Request) (c : Clients (Fin n) Row Env Io Outcome) (i : Fin n) (e : Env) :
    Decidable (DeletesOnce reqs c i e) :=
  match h : cascades (reqs i) with
  | none => .isTrue fun id hid => by rw [h] at hid; cases hid
  | some id => decidable_of_iff (committing (c.threads i).prog = true → statusOf id c.shared.db ≠ some .deleted)
      (by simp [DeletesOnce, h])

instance {n : Nat} (db₀ : Db) (c : Clients (Fin n) Row Env Io Outcome) (i : Fin n) (e : Env) :
    Decidable (InOrder db₀ c i e) :=
  inferInstanceAs (Decidable (∀ d ∈ announcing (c.threads i).prog, ∀ x ∈ _, _))

/-- A session moves on twice and is deleted. -/
def sampleRequests : Fin 3 → Request
  | 0 => .patchSession "bot" Sample.sessionId { status := some .uploaded }
  | 1 => .patchSession "bot" Sample.sessionId { status := some .transcribing }
  | 2 => .deleteCascade "bot" Sample.sessionId

def sampleStart (reqs : Fin 3 → Request) : Clients (Fin 3) Row Env Io Outcome :=
  Service.start Sample.state reqs (Sample.server [.session Sample.session])

theorem sample_movesOn : ∀ i, MovesOn (sampleRequests i) := by
  intro i
  match i with
  | 0 => trivial
  | 1 => trivial
  | 2 => trivial

/-- The second change is committed and announced between the first one's event
and the return of its request. -/
theorem events_tell_history_sample : ∃ c : Clients (Fin 3) Row Env Io Outcome,
    events Sample.sessionId c.shared.world.bus = (changes Sample.sessionId [.session Sample.session] c.shared.log).map Prod.snd ∧
      (changes Sample.sessionId [.session Sample.session] c.shared.log).map Prod.fst = [0, 1, 2] ∧
      statusOf Sample.sessionId c.shared.db = some .deleted := by
  have hrun : ((sampleStart sampleRequests).play machine (Sample.moves 0 [(0, 10), (1, 11), (0, 1), (2, 24)])).map (fun c =>
      ((List.finRange 3).all fun i => (c.returned i).isSome,
        (changes Sample.sessionId [.session Sample.session] c.shared.log).map Prod.fst,
        (events Sample.sessionId c.shared.world.bus).getLast?)) =
      some (true, [0, 1, 2], some (.transcribing, .deleted)) := by decide +kernel
  have hguard : (sampleStart sampleRequests).Guarded machine
      (fun c i e => DeletesOnce sampleRequests c i e ∧ InOrder [.session Sample.session] c i e)
      (Sample.moves 0 [(0, 10), (1, 11), (0, 1), (2, 24)]) := by decide +kernel
  obtain ⟨c, hc, hr⟩ := Option.map_eq_some_iff.1 hrun
  simp only [Prod.mk.injEq, List.all_eq_true] at hr
  obtain ⟨hall, hmade, hlast⟩ := hr
  have htold := events_tell_history Sample.state sampleRequests sample_movesOn (Sample.server [.session Sample.session])
    ⟨by decide, rfl, rfl⟩ rfl (Run.play hguard .nil hc) Sample.sessionId
  obtain ⟨hevents, hstored⟩ := htold.2.2 fun i => hall i (List.mem_finRange i)
  exact ⟨c, hevents, hmade, hstored _ hlast⟩

/-- The same session is deleted twice. -/
def sampleTwice : Fin 3 → Request
  | 0 => .patchSession "bot" Sample.sessionId { status := some .uploaded }
  | 1 => .deleteCascade "bot" Sample.sessionId
  | 2 => .deleteCascade "bot" Sample.sessionId

/-- What the bus tells and what was committed, once all requests are over. -/
def history (c : Clients (Fin 3) Row Env Io Outcome) : Bool × List Change × List Change :=
  ((List.finRange 3).all fun i => (c.returned i).isSome, events Sample.sessionId c.shared.world.bus,
    (changes Sample.sessionId [.session Sample.session] c.shared.log).map Prod.snd)

/-- One request after another, and the second deletion tells of a change that
was none. Two at a time, and the deletion's event overtakes that of the change
before it. -/
theorem events_mislead :
    (∃ c : Clients (Fin 3) Row Env Io Outcome,
      Run machine Service.Sequential (sampleStart sampleTwice) c ∧
      history c = (true, [(.recording, .uploaded), (.uploaded, .deleted), (.deleted, .deleted)],
        [(.recording, .uploaded), (.uploaded, .deleted)])) ∧
    ∃ c : Clients (Fin 3) Row Env Io Outcome,
      Run machine (fun _ _ e => e.fails = false ∧ ∀ key, e.storeFails key = false) (sampleStart sampleRequests) c ∧
      history c = (true, [(.recording, .uploaded), (.transcribing, .deleted), (.uploaded, .transcribing)],
        [(.recording, .uploaded), (.uploaded, .transcribing), (.transcribing, .deleted)]) := by
  have htwice : ((sampleStart sampleTwice).play machine (Sample.moves 0 [(0, 11), (1, 24), (2, 24)])).map history =
      some (true, [(.recording, .uploaded), (.uploaded, .deleted), (.deleted, .deleted)],
        [(.recording, .uploaded), (.uploaded, .deleted)]) := by decide +kernel
  have hturn := Sample.sequential (c := sampleStart sampleTwice) (n := 0) (l := [(0, 11), (1, 24), (2, 24)])
    (by decide +kernel)
  have hswap : ((sampleStart sampleRequests).play machine (Sample.moves 0 [(0, 11), (1, 9), (2, 24), (1, 2)])).map history =
      some (true, [(.recording, .uploaded), (.transcribing, .deleted), (.uploaded, .transcribing)],
        [(.recording, .uploaded), (.uploaded, .transcribing), (.transcribing, .deleted)]) := by decide +kernel
  have hworks : (sampleStart sampleRequests).Guarded machine (fun _ _ e => e.fails = false ∧ ∀ key, e.storeFails key = false)
      (Sample.moves 0 [(0, 11), (1, 9), (2, 24), (1, 2)]) := by
    refine (Config.guarded_of_all (fun _ _ _ => trivial) _ : (sampleStart sampleRequests).Guarded machine
      (fun _ _ _ => True) _).mono fun c m hm _ => ?_
    obtain ⟨k, hk⟩ := Sample.moves_env hm
    rw [hk]
    exact ⟨rfl, fun _ => rfl⟩
  obtain ⟨c, hc, hr⟩ := Option.map_eq_some_iff.1 htwice
  obtain ⟨d, hd, hs⟩ := Option.map_eq_some_iff.1 hswap
  exact ⟨⟨c, Run.play hturn .nil hc, hr⟩, d, Run.play hworks .nil hd, hs⟩

end DataApi.StatusEvents
