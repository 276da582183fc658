/-
What locks buy under READ COMMITTED. `Moved` says once what a move of a
client does to its transaction, the locks and the log; `Run.orderly` derives
from it the invariant every run keeps: locks exclude each other, an open
transaction has locked what it wrote, primary keys are single, and a locked
row stays as the snapshots taken under the lock saw it.
-/
import DataApi.Lib.ReadCommitted
import DataApi.Lib.Versions
import Mathlib.Data.List.Induction

namespace ReadCommitted

open Resumption Relational

variable {ι Row Key Uniq Env X World α : Type}

/-! ## Locks -/

section
variable [Schema Row Key Uniq] {sv : Server ι Row Key Uniq World} {i j : ι} {w : Write Row Key}

/-- No other client's lock is in the way of `w`. -/
def Server.Free (sv : Server ι Row Key Uniq World) (i : ι) (w : Write Row Key) : Prop :=
  ∃ needs : List (Need Key Uniq), Covered needs w ∧
    ∀ n ∈ needs, ∀ l ∈ sv.locks, l.1 ≠ i → l.2.1 = n.1 → l.2.2.conflicts n.2 = false

theorem conflicts_comm (a b : Mode) : a.conflicts b = b.conflicts a := by
  cases a <;> cases b <;> rfl

theorem conflicts_writers {a b : Mode} (ha : a ≠ .keyShare) (hb : b ≠ .keyShare) : a.conflicts b = true := by
  revert ha hb; cases a <;> cases b <;> decide

theorem conflicts_update (a : Mode) : a.conflicts .update = true := by
  cases a <;> rfl

/-- A row another client has locked is not written. -/
theorem Server.Free.row_ne (h : sv.Free i w) {k : Key} {m : Mode} (hl : (j, (.row k, m)) ∈ sv.locks)
    (hj : j ≠ i) (hm : m ≠ .keyShare) : w.key ≠ k := by
  rintro rfl
  obtain ⟨needs, hc, hf⟩ := h
  obtain ⟨m', hm', hn⟩ := hc.row
  have := hf _ hn _ hl hj rfl
  rw [conflicts_writers hm hm'] at this
  cases this

/-- A row another client references is not deleted. -/
theorem Server.Free.delete_ne (h : sv.Free i w) {k : Key} {m : Mode} (hl : (j, (.row k, m)) ∈ sv.locks)
    (hj : j ≠ i) : w.deletes ≠ some k := by
  intro hd
  obtain ⟨needs, hc, hf⟩ := h
  cases w with
  | delete k' =>
    cases hd
    have := hf _ hc _ hl hj rfl
    rw [conflicts_update] at this
    cases this
  | insert r => cases hd
  | update r => cases hd

/-- A row is not entered under an index entry another client holds. -/
theorem Server.Free.slot_ne (h : sv.Free i w) {l : Lockable Key Uniq} {m : Mode} (hl : (j, (l, m)) ∈ sv.locks)
    (hj : j ≠ i) {r : Row} (hw : w = .insert r) : l ∉ slots r := by
  subst hw
  intro hs
  obtain ⟨needs, hc, hf⟩ := h
  have := hf _ (hc.2.1 l hs) _ hl hj rfl
  rw [conflicts_update] at this
  cases this

/-- A child is not entered under a row another client has locked FOR UPDATE. -/
theorem Server.Free.ref_ne (h : sv.Free i w) {k : Key} (hl : (j, (.row k, .update)) ∈ sv.locks)
    (hj : j ≠ i) {r : Row} (hw : w = .insert r) : k ∉ refs r := by
  subst hw
  intro hr
  obtain ⟨needs, hc, hf⟩ := h
  have := hf _ (hc.2.2 k hr) _ hl hj rfl
  cases this

end

theorem blocks_eq_false [DecidableEq Key] [DecidableEq Uniq] [DecidableEq ι]
    {sv : Server ι Row Key Uniq World} {i : ι} {via : Via} {needs : List (Need Key Uniq)} :
    sv.blocks i via needs = false ↔ ∀ n ∈ needs, ∀ l ∈ sv.locks, via = .pool ∨ l.1 ≠ i → l.2.1 = n.1 →
      l.2.2.conflicts n.2 = false := by
  simp only [Server.blocks, List.any_eq_false, Bool.not_eq_true, Bool.and_eq_false_iff, Bool.or_eq_false_iff,
    decide_eq_false_iff_not]
  refine forall₄_congr fun n _ l _ => ?_
  by_cases h0 : via = .pool <;> by_cases h1 : l.1 = i <;> by_cases h2 : l.2.1 = n.1 <;> simp [h0, h1, h2]

/-! ## One move -/

variable [Schema Row Key Uniq] [DecidableEq Key] [DecidableEq Uniq] [DecidableEq ι] [StepEnv Env]
  [Outer X World Env]

/-- What a move of client `i` does. -/
inductive Moved (i : ι) (c : Client Row Env X) (sv : Server ι Row Key Uniq World) (c' : Client Row Env X)
    (sv' : Server ι Row Key Uniq World) : Prop
  | quiet (tx : c'.tx = c.tx) (snap : c'.snap = none) (db : sv'.db = sv.db) (log : sv'.log = sv.log)
      (locks : sv'.locks = sv.locks)
  | looked (tx : c'.tx = c.tx) (snap : c'.snap = some sv.look) (server : sv' = sv)
  | opened (e : Env) (tx : c'.tx = some { env := e, writes := [] }) (snap : c'.snap = none) (server : sv' = sv)
  | wrote (t : Tx Row Key Env) (needs : List (Need Key Uniq)) (ws : List (Write Row Key)) (was : c.tx = some t)
      (tx : c'.tx = some { t with writes := t.writes ++ ws }) (snap : c'.snap = none)
      (server : sv' = { sv with locks := needs.map (i, ·) ++ sv.locks }) (free : sv.blocks i .tx needs = false)
      (covered : ∀ w ∈ ws, Covered needs w)
      (unique : KeysUnique (applyAll t.writes sv.db) → KeysUnique (applyAll (t.writes ++ ws) sv.db))
  | autocommitted (needs : List (Need Key Uniq)) (ws : List (Write Row Key)) (tx : c'.tx = c.tx)
      (snap : c'.snap = none) (server : sv' = sv.apply i ws) (free : sv.blocks i .pool needs = false)
      (covered : ∀ w ∈ ws, Covered needs w) (unique : KeysUnique sv.db → KeysUnique (applyAll ws sv.db))
  | committed (tx : c'.tx = none) (snap : c'.snap = none) (server : sv' = (sv.apply i c.writes).release i)
  | dropped (tx : c'.tx = none) (snap : c'.snap = none ∨ c'.snap = c.snap) (server : sv' = sv.release i)

section
variable {i : ι} {e : Env} {c c' : Client Row Env X} {sv sv' : Server ι Row Key Uniq World}

/-- An inner move takes the snapshot of a statement. -/
theorem exec_inner {o : Op Row Env X} (h : machine.exec i e c sv o = some (none, c', sv')) :
    (∃ via s, o = .query via s) ∧ c.snap = none ∧ c' = { c with snap := some sv.look } ∧ sv' = sv := by
  cases o with
  | query via s =>
    simp only [machine] at h
    split at h
    · next hs =>
      simp only [Option.some.injEq, Prod.mk.injEq, true_and] at h
      exact ⟨⟨via, s, rfl⟩, hs, h.1.symm, h.2.symm⟩
    · split at h <;> simp at h
  | _ => simp [machine] at h

/-- A completed operation was performed, a statement on its own snapshot and
with no lock in its way. -/
theorem exec_done {o : Op Row Env X} {r : Answer o} (h : machine.exec i e c sv o = some (some r, c', sv')) :
    ∃ snap, perform i e snap c sv o = (r, c', sv') ∧
      ∀ via s, o = .query via s → c.snap = some snap ∧
        (StepEnv.fails e = true ∨ sv.blocks i via (plan e snap c sv via s).needs = false) := by
  cases o with
  | query via s =>
    simp only [machine] at h
    split at h
    · cases h
    · next snap hs =>
      split at h
      · cases h
      · next hb =>
        simp only [Option.some.injEq, Prod.mk.injEq] at h
        refine ⟨snap, ?_, ?_⟩
        · obtain ⟨rfl, rfl, rfl⟩ := h
          rfl
        · intro via' s' ho
          cases ho
          refine ⟨hs, ?_⟩
          simpa [Bool.and_eq_true, or_iff_not_imp_left] using hb
  | begin =>
    simp only [machine, Option.some.injEq, Prod.mk.injEq] at h
    obtain ⟨rfl, rfl, rfl⟩ := h
    exact ⟨sv.look, rfl, fun _ _ ho => by cases ho⟩
  | commit =>
    simp only [machine, Option.some.injEq, Prod.mk.injEq] at h
    obtain ⟨rfl, rfl, rfl⟩ := h
    exact ⟨sv.look, rfl, fun _ _ ho => by cases ho⟩
  | rollback =>
    simp only [machine, Option.some.injEq, Prod.mk.injEq] at h
    obtain ⟨rfl, rfl, rfl⟩ := h
    exact ⟨sv.look, rfl, fun _ _ ho => by cases ho⟩
  | outer x =>
    simp only [machine, Option.some.injEq, Prod.mk.injEq] at h
    obtain ⟨rfl, rfl, rfl⟩ := h
    exact ⟨sv.look, rfl, fun _ _ ho => by cases ho⟩

/-! ### Completed operations, read back -/

theorem query_tx_done {q : Stmt Row Env} {r : Answer (.query .tx q : Op Row Env X)}
    (h : machine.exec i e c sv (.query .tx q) = some (some r, c', sv')) :
    (∃ err, r = .error err ∧ c' = c.done _ r ∧ sv' = sv) ∨
    ∃ t snap rows ws eff, c.tx = some t ∧ c.snap = some snap ∧ StepEnv.fails e = false ∧
      q.run (StepEnv.within t.env e) (applyAll t.writes snap.rows) (applyAll t.writes (sv.alive snap))
        (applyAll t.writes sv.db) = eff ∧ eff.result = .ok (rows, ws) ∧ sv.blocks i .tx eff.needs = false ∧
      r = .ok rows ∧ c' = Client.done { c with tx := some { t with writes := t.writes ++ ws } } _ r ∧
      sv' = { sv with locks := eff.needs.map (i, ·) ++ sv.locks } := by
  obtain ⟨snap, hp, hq⟩ := exec_done h
  obtain ⟨hs, hb⟩ := hq _ _ rfl
  simp only [perform, act] at hp
  by_cases hf : StepEnv.fails e = true
  · simp only [hf, if_true, Prod.mk.injEq] at hp
    obtain ⟨rfl, rfl, rfl⟩ := hp
    exact .inl ⟨_, rfl, rfl, rfl⟩
  · simp only [hf, Bool.false_eq_true, if_false, false_or] at hp hb
    split at hp
    · simp only [Prod.mk.injEq] at hp
      obtain ⟨rfl, rfl, rfl⟩ := hp
      exact .inl ⟨_, rfl, rfl, rfl⟩
    · next rows ws hres =>
      simp only [Prod.mk.injEq] at hp
      obtain ⟨rfl, rfl, rfl⟩ := hp
      cases ht : c.tx with
      | none => simp [plan, ht] at hres
      | some t =>
        simp only [plan, ht] at hres hb
        exact .inr ⟨t, snap, rows, ws, _, rfl, hs, by simpa using hf, rfl, hres, hb, rfl, by simp, by simp [plan, ht]⟩

theorem query_pool_done {q : Stmt Row Env} {r : Answer (.query .pool q : Op Row Env X)}
    (h : machine.exec i e c sv (.query .pool q) = some (some r, c', sv')) :
    (∃ err, r = .error err ∧ c' = c.done _ r ∧ sv' = sv) ∨
    ∃ snap rows ws eff, c.snap = some snap ∧ StepEnv.fails e = false ∧
      q.run e snap.rows (sv.alive snap) sv.db = eff ∧ eff.result = .ok (rows, ws) ∧
      sv.blocks i .pool eff.needs = false ∧ r = .ok rows ∧ c' = c.done _ r ∧ sv' = sv.apply i ws := by
  obtain ⟨snap, hp, hq⟩ := exec_done h
  obtain ⟨hs, hb⟩ := hq _ _ rfl
  simp only [perform, act] at hp
  by_cases hf : StepEnv.fails e = true
  · simp only [hf, if_true, Prod.mk.injEq] at hp
    obtain ⟨rfl, rfl, rfl⟩ := hp
    exact .inl ⟨_, rfl, rfl, rfl⟩
  · simp only [hf, Bool.false_eq_true, if_false, false_or] at hp hb
    split at hp
    · simp only [Prod.mk.injEq] at hp
      obtain ⟨rfl, rfl, rfl⟩ := hp
      exact .inl ⟨_, rfl, rfl, rfl⟩
    · next rows ws hres =>
      simp only [Prod.mk.injEq] at hp
      obtain ⟨rfl, rfl, rfl⟩ := hp
      exact .inr ⟨snap, rows, ws, _, hs, by simpa using hf, rfl, hres, hb, rfl, rfl, rfl⟩

theorem begin_done {r : Answer (.begin : Op Row Env X)} (h : machine.exec i e c sv .begin = some (some r, c', sv')) :
    (∃ err, r = .error err ∧ c' = c.done _ r ∧ sv' = sv) ∨
    (r = .ok () ∧ c' = Client.done { c with tx := some { env := e, writes := [] } } _ r ∧ sv' = sv) := by
  obtain ⟨snap, hp, -⟩ := exec_done h
  simp only [perform, act] at hp
  split at hp <;> (simp only [Prod.mk.injEq] at hp; obtain ⟨rfl, rfl, rfl⟩ := hp)
  · exact .inl ⟨_, rfl, rfl, rfl⟩
  · exact .inr ⟨rfl, rfl, rfl⟩

theorem commit_done {r : Answer (.commit : Op Row Env X)} (h : machine.exec i e c sv .commit = some (some r, c', sv')) :
    (∃ err, r = .error err ∧ c' = Client.done { c with tx := none } _ r ∧ sv' = sv.release i) ∨
    (r = .ok () ∧ c' = Client.done { c with tx := none } _ r ∧ sv' = (sv.apply i c.writes).release i) := by
  obtain ⟨snap, hp, -⟩ := exec_done h
  simp only [perform, act] at hp
  split at hp <;> (simp only [Prod.mk.injEq] at hp; obtain ⟨rfl, rfl, rfl⟩ := hp)
  · exact .inl ⟨_, rfl, rfl, rfl⟩
  · exact .inr ⟨rfl, rfl, rfl⟩

theorem rollback_done {r : Answer (.rollback : Op Row Env X)}
    (h : machine.exec i e c sv .rollback = some (some r, c', sv')) :
    c' = Client.done { c with tx := none } _ r ∧ sv' = sv.release i := by
  obtain ⟨snap, hp, -⟩ := exec_done h
  simp only [perform, act, Prod.mk.injEq] at hp
  obtain ⟨rfl, rfl, rfl⟩ := hp
  exact ⟨rfl, rfl⟩

theorem outer_done {x : X} {r : Answer (.outer x : Op Row Env X)}
    (h : machine.exec i e c sv (.outer x) = some (some r, c', sv')) :
    r = (Outer.act x e sv.world).1 ∧ c' = c.done _ r ∧ sv' = { sv with world := (Outer.act x e sv.world).2 } := by
  obtain ⟨snap, hp, -⟩ := exec_done h
  simp only [perform, act, Prod.mk.injEq] at hp
  obtain ⟨rfl, rfl, rfl⟩ := hp
  exact ⟨rfl, rfl, rfl⟩

/-! What an error was. -/

theorem query_tx_error {q : Stmt Row Env} {err : DbError Key Uniq}
    (h : machine.exec i e c sv (.query .tx q) = some (some (.error err), c', sv')) :
    (err = .failure ∧ (StepEnv.fails e = true ∨ c.tx = none)) ∨
    ∃ t snap, c.tx = some t ∧ c.snap = some snap ∧ (q.run (StepEnv.within t.env e) (applyAll t.writes snap.rows)
      (applyAll t.writes (sv.alive snap)) (applyAll t.writes sv.db)).result = .error err := by
  obtain ⟨snap, hp, hq⟩ := exec_done h
  obtain ⟨hs, -⟩ := hq _ _ rfl
  simp only [perform, act] at hp
  by_cases hf : StepEnv.fails e = true
  · simp only [hf, if_true, Prod.mk.injEq, Except.error.injEq] at hp
    exact .inl ⟨hp.1.symm, .inl hf⟩
  · simp only [hf, Bool.false_eq_true, if_false] at hp
    cases ht : c.tx with
    | none =>
      simp only [plan, ht, Prod.mk.injEq, Except.error.injEq] at hp
      exact .inl ⟨hp.1.symm, .inr rfl⟩
    | some t =>
      simp only [plan, ht] at hp
      split at hp
      · next err' hres =>
        simp only [Prod.mk.injEq, Except.error.injEq] at hp
        exact .inr ⟨t, snap, rfl, hs, hp.1 ▸ hres⟩
      · simp at hp

theorem begin_error {err : DbError Key Uniq}
    (h : machine.exec i e c sv (.begin : Op Row Env X) = some (some (.error err), c', sv')) :
    err = .failure ∧ StepEnv.fails e = true := by
  obtain ⟨snap, hp, -⟩ := exec_done h
  simp only [perform, act] at hp
  split at hp
  · next hf =>
    simp only [Prod.mk.injEq, Except.error.injEq] at hp
    exact ⟨hp.1.symm, hf⟩
  · simp at hp

theorem commit_error {err : DbError Key Uniq}
    (h : machine.exec i e c sv (.commit : Op Row Env X) = some (some (.error err), c', sv')) :
    err = .failure ∧ StepEnv.fails e = true := by
  obtain ⟨snap, hp, -⟩ := exec_done h
  simp only [perform, act] at hp
  split at hp
  · next hf =>
    simp only [Prod.mk.injEq, Except.error.injEq] at hp
    exact ⟨hp.1.symm, hf⟩
  · simp at hp

theorem rollback_error {err : DbError Key Uniq}
    (h : machine.exec i e c sv (.rollback : Op Row Env X) = some (some (.error err), c', sv')) :
    err = .failure ∧ StepEnv.fails e = true := by
  obtain ⟨snap, hp, -⟩ := exec_done h
  simp only [perform, act, Prod.mk.injEq] at hp
  split at hp
  · next hf => exact ⟨(Except.error.inj hp.1).symm, hf⟩
  · cases hp.1

/-! What makes an operation succeed. -/

theorem begin_runs {r : Answer (.begin : Op Row Env X)} (hf : StepEnv.fails e = false)
    (h : machine.exec i e c sv .begin = some (some r, c', sv')) :
    r = .ok () ∧ c' = Client.done { c with tx := some { env := e, writes := [] } } _ r ∧ sv' = sv := by
  rcases begin_done h with ⟨err, rfl, -, -⟩ | hok
  · have := (begin_error h).2
    rw [hf] at this; cases this
  · exact hok

theorem commit_runs {r : Answer (.commit : Op Row Env X)} (hf : StepEnv.fails e = false)
    (h : machine.exec i e c sv .commit = some (some r, c', sv')) :
    r = .ok () ∧ c' = Client.done { c with tx := none } _ r ∧ sv' = (sv.apply i c.writes).release i := by
  rcases commit_done h with ⟨err, rfl, -, -⟩ | hok
  · have := (commit_error h).2
    rw [hf] at this; cases this
  · exact hok

theorem rollback_runs {r : Answer (.rollback : Op Row Env X)} (hf : StepEnv.fails e = false)
    (h : machine.exec i e c sv .rollback = some (some r, c', sv')) :
    r = .ok () ∧ c' = Client.done { c with tx := none } _ r ∧ sv' = sv.release i := by
  obtain ⟨hc, hsv⟩ := rollback_done h
  cases r with
  | ok u => exact ⟨rfl, hc, hsv⟩
  | error err =>
    have := (rollback_error h).2
    rw [hf] at this; cases this

/-- A statement whose effect is known has it. -/
theorem query_tx_runs {q : Stmt Row Env} {r : Answer (.query .tx q : Op Row Env X)} (hf : StepEnv.fails e = false)
    {t : Tx Row Key Env} (ht : c.tx = some t) (rows : List Row) (ws : List (Write Row Key))
    (hq : ∀ snap, c.snap = some snap → (q.run (StepEnv.within t.env e) (applyAll t.writes snap.rows)
      (applyAll t.writes (sv.alive snap)) (applyAll t.writes sv.db)).result = .ok (rows, ws))
    (h : machine.exec i e c sv (.query .tx q) = some (some r, c', sv')) :
    r = .ok rows ∧ c' = Client.done { c with tx := some { t with writes := t.writes ++ ws } } _ r ∧
      ∃ snap, c.snap = some snap ∧ sv' = { sv with
        locks := (q.run (StepEnv.within t.env e) (applyAll t.writes snap.rows) (applyAll t.writes (sv.alive snap))
          (applyAll t.writes sv.db)).needs.map (i, ·) ++ sv.locks } := by
  rcases query_tx_done h with ⟨err, rfl, -, -⟩ | ⟨t', snap, rows', ws', eff, ht', hs, -, rfl, hres, -, rfl, rfl, rfl⟩
  · rcases query_tx_error h with ⟨-, hf' | hnone⟩ | ⟨t', snap, ht', hs, hres⟩
    · rw [hf] at hf'; cases hf'
    · rw [ht] at hnone; cases hnone
    · obtain rfl := Option.some.inj (ht.symm.trans ht')
      rw [hq snap hs] at hres; cases hres
  · obtain rfl := Option.some.inj (ht.symm.trans ht')
    have heq := (hq snap hs).symm.trans hres
    simp only [Except.ok.injEq, Prod.mk.injEq] at heq
    obtain ⟨rfl, rfl⟩ := heq
    exact ⟨rfl, rfl, snap, hs, rfl⟩

omit [DecidableEq Uniq] [DecidableEq ι] [StepEnv Env] [Outer X World Env] in
/-- Nothing a snapshot of this moment saw is gone. -/
theorem alive_now {snap : Snapshot Row} (h : snap.time = sv.log.length) : sv.alive snap = snap.rows := by
  refine List.filter_eq_self.2 fun r _ => ?_
  simp [Server.deletedSince, h]

/-- A client can move unless a lock is in the way of its statement. -/
theorem exec_unblocked {o : Op Row Env X} (h : ∀ via q snap, o = .query via q → c.snap = some snap →
    sv.blocks i via (plan e snap c sv via q).needs = false) : (machine.exec i e c sv o).isSome = true := by
  cases o with
  | query via q =>
    simp only [machine]
    split
    · rfl
    · next snap hs =>
      rw [h via q snap rfl hs]; simp
  | _ => rfl

/-- With no other client's lock in the way, a client in its transaction can move. -/
theorem exec_moves {o : Op Row Env X} (hl : ∀ l ∈ sv.locks, l.1 = i) (ho : ∀ s, o ≠ .query .pool s) :
    (machine.exec i e c sv o).isSome = true := by
  refine exec_unblocked fun via q snap hq _ => blocks_eq_false.2 fun n _ l hl' hne => ?_
  cases via with
  | pool => exact absurd hq (ho q)
  | tx => exact absurd (hl l hl') (hne.resolve_left (by simp))

theorem close_done (h : machine.close i c sv = some (c', sv')) :
    c' = { c with tx := none } ∧ sv' = sv.release i := by
  simp only [machine, Option.map_eq_some_iff, Prod.mk.injEq] at h
  obtain ⟨_, _, rfl, rfl⟩ := h
  exact ⟨rfl, rfl⟩

theorem act_hist {snap : Snapshot Row} {o : Op Row Env X} : (act i e snap c sv o).2.1.hist = c.hist := by
  cases o with
  | query via q =>
    cases via <;> simp only [act] <;> split <;> try rfl
    all_goals split <;> rfl
  | begin => simp only [act]; split <;> rfl
  | commit => simp only [act]; split <;> rfl
  | rollback => rfl
  | outer x => rfl

/-- A completed operation is the last of the history. -/
theorem exec_hist {o : Op Row Env X} {r : Answer o} (h : machine.exec i e c sv o = some (some r, c', sv')) :
    c'.hist = c.hist ++ [⟨o, r⟩] := by
  obtain ⟨snap, hp, -⟩ := exec_done h
  simp only [perform] at hp
  have hh : (act i e snap c sv o).2.1.hist = c.hist := act_hist
  simp only [Prod.mk.injEq] at hp
  obtain ⟨rfl, rfl, -⟩ := hp
  simp [Client.done, hh]

/-! ### Every move -/

theorem moved_exec {o : Op Row Env X} {r : Option (Answer o)}
    (h : machine.exec i e c sv o = some (r, c', sv')) : Moved i c sv c' sv' := by
  cases r with
  | none =>
    obtain ⟨_, -, rfl, rfl⟩ := exec_inner h
    exact .looked rfl rfl rfl
  | some r =>
    cases o with
    | query via q =>
      cases via with
      | tx =>
        rcases query_tx_done h with ⟨_, _, rfl, rfl⟩ | ⟨t, _, _, ws, _, ht, _, _, rfl, hres, hb, _, rfl, rfl⟩
        · exact .quiet rfl rfl rfl rfl rfl
        · obtain ⟨hc, hu⟩ := Stmt.run_spec hres
          refine .wrote t _ ws ht rfl rfl rfl hb hc fun h => ?_
          rw [applyAll_append]; exact hu h
      | pool =>
        rcases query_pool_done h with ⟨_, _, rfl, rfl⟩ | ⟨_, _, ws, _, _, _, rfl, hres, hb, _, rfl, rfl⟩
        · exact .quiet rfl rfl rfl rfl rfl
        · obtain ⟨hc, hu⟩ := Stmt.run_spec hres
          exact .autocommitted _ ws rfl rfl rfl hb hc hu
    | begin =>
      rcases begin_done h with ⟨_, _, rfl, rfl⟩ | ⟨_, rfl, rfl⟩
      · exact .quiet rfl rfl rfl rfl rfl
      · exact .opened e rfl rfl rfl
    | commit =>
      rcases commit_done h with ⟨_, _, rfl, rfl⟩ | ⟨_, rfl, rfl⟩
      · exact .dropped rfl (.inl rfl) rfl
      · exact .committed rfl rfl rfl
    | rollback =>
      obtain ⟨rfl, rfl⟩ := rollback_done h
      exact .dropped rfl (.inl rfl) rfl
    | outer x =>
      obtain ⟨_, rfl, rfl⟩ := outer_done h
      exact .quiet rfl rfl rfl rfl rfl

theorem moved_close (h : machine.close i c sv = some (c', sv')) : Moved i c sv c' sv' := by
  obtain ⟨rfl, rfl⟩ := close_done h
  exact .dropped rfl (.inr rfl) rfl

end

/-- The configurations of clients of one server. -/
abbrev Clients (ι Row Env X α : Type) {Key Uniq World : Type} [Schema Row Key Uniq] [Outer X World Env] : Type :=
  Config ι (@Answer Row Key Uniq Env X World _ _) (Client Row Env X) (Server ι Row Key Uniq World) α

/-- One move of a run: one client moved, the others stand still. -/
theorem step_moved {c c' : Clients ι Row Env X α} {i : ι} {e : Env} (h : c.step machine i e = some c') :
    Moved i (c.threads i).loc c.shared (c'.threads i).loc c'.shared ∧
      ∀ j, j ≠ i → c'.threads j = c.threads j := by
  rcases Config.step_cases h with ⟨a, l, s, _, hc, rfl⟩ | ⟨o, k, r, l, s, _, hx, rfl⟩
  · refine ⟨?_, fun j hj => Config.put_other _ _ _ hj⟩
    simpa using moved_close hc
  · refine ⟨?_, fun j hj => Config.put_other _ _ _ hj⟩
    simpa using moved_exec hx

/-- The history of the client that moved: as before, or one operation longer. -/
theorem step_hist {c c' : Clients ι Row Env X α} {i : ι} {e : Env} (h : c.step machine i e = some c') :
    (c'.threads i).loc.hist = (c.threads i).loc.hist ∨ ∃ o k r, (c.threads i).prog = .op o k ∧
      machine.exec i e (c.threads i).loc c.shared o = some (some r, (c'.threads i).loc, c'.shared) ∧
      (c'.threads i).loc.hist = (c.threads i).loc.hist ++ [⟨o, r⟩] := by
  rcases Config.step_cases h with ⟨a, l, s, _, hc, rfl⟩ | ⟨o, k, r, l, s, hp, hx, rfl⟩
  · obtain ⟨rfl, -⟩ := close_done hc
    exact .inl (by simp)
  · cases r with
    | none =>
      obtain ⟨-, -, rfl, -⟩ := exec_inner hx
      exact .inl (by simp)
    | some r => exact .inr ⟨o, k, r, hp, by simpa using hx, by simpa using exec_hist hx⟩

/-! ## The invariant of every run -/

/-- What client `i` knows under its locks: its snapshot is not newer than the
log, and sees the rows it has locked as they are. -/
structure SnapshotOk (i : ι) (s : Snapshot Row) (sv : Server ι Row Key Uniq World) : Prop where
  time : s.time ≤ sv.log.length
  locked : ∀ k m, (i, (.row k, m)) ∈ sv.locks → m ≠ .keyShare →
    versions k s.rows = versions k sv.db ∧ sv.deletedSince s.time k = false

omit [DecidableEq Uniq] [DecidableEq ι] in
/-- What was not deleted of the snapshot shows a locked row as it is. -/
theorem SnapshotOk.alive_versions {s : Snapshot Row} {sv : Server ι Row Key Uniq World} {i : ι} (h : SnapshotOk i s sv)
    {k : Key} {m : Mode} (hl : (i, (.row k, m)) ∈ sv.locks) (hm : m ≠ .keyShare) :
    versions k (sv.alive s) = versions k sv.db := by
  obtain ⟨hv, hd⟩ := h.locked k m hl hm
  rw [← hv, versions, versions, Server.alive, List.filter_filter]
  refine List.filter_congr fun r _ => ?_
  by_cases hr : key r = k
  · simp [hr, hd]
  · simp [hr]

structure Orderly (c : Clients ι Row Env X α) : Prop where
  unique : KeysUnique c.shared.db
  exclusive : ∀ l ∈ c.shared.locks, ∀ l' ∈ c.shared.locks, l.1 ≠ l'.1 → l.2.1 = l'.2.1 →
    l.2.2.conflicts l'.2.2 = false
  covered : ∀ i t, (c.threads i).loc.tx = some t → ∀ w ∈ t.writes,
    Covered ((c.shared.locks.filter fun l => l.1 = i).map (·.2)) w
  view : ∀ i t, (c.threads i).loc.tx = some t → KeysUnique (applyAll t.writes c.shared.db)
  snapshot : ∀ i s, (c.threads i).loc.snap = some s → SnapshotOk i s c.shared

section
variable {c c' : Clients ι Row Env X α} {i j : ι} {e : Env}

omit [DecidableEq Uniq] [StepEnv Env] in
/-- What an open transaction wrote, no other client's lock is in the way of. -/
theorem Orderly.free (h : Orderly c) {t : Tx Row Key Env} (ht : (c.threads i).loc.tx = some t) :
    ∀ w ∈ t.writes, c.shared.Free i w := by
  intro w hw
  refine ⟨_, h.covered i t ht w hw, fun n hn l hl hli hln => ?_⟩
  obtain ⟨l', hl', rfl⟩ := List.mem_map.1 hn
  obtain ⟨hl'm, hl'i⟩ := List.mem_filter.1 hl'
  have hi : l'.1 = i := by simpa using hl'i
  exact h.exclusive l hl l' hl'm (by rw [hi]; exact hli) hln

omit [DecidableEq Uniq] [StepEnv Env] in
theorem Orderly.free_writes (h : Orderly c) (i : ι) : ∀ w ∈ (c.threads i).loc.writes, c.shared.Free i w := by
  intro w hw
  cases ht : (c.threads i).loc.tx with
  | none => simp [Client.writes, ht] at hw
  | some t => exact h.free ht w (by simpa [Client.writes, ht] using hw)

/-- The log grows by what a move commits, and only by writes no other
client's lock is in the way of. -/
theorem Orderly.log_cases (h : Orderly c) (hs : c.step machine i e = some c') :
    (c'.shared.db = c.shared.db ∧ c'.shared.log = c.shared.log) ∨
      ∃ ws, c'.shared.db = applyAll ws c.shared.db ∧ c'.shared.log = c.shared.log ++ [(i, ws)] ∧
        ∀ w ∈ ws, c.shared.Free i w := by
  obtain ⟨hm, -⟩ := step_moved hs
  cases hm with
  | quiet _ _ db log _ => exact .inl ⟨db, log⟩
  | looked _ _ server => exact .inl (by rw [server]; exact ⟨rfl, rfl⟩)
  | opened _ _ _ server => exact .inl (by rw [server]; exact ⟨rfl, rfl⟩)
  | wrote _ _ _ _ _ _ server => exact .inl (by rw [server]; exact ⟨rfl, rfl⟩)
  | autocommitted needs ws _ _ server free covered _ =>
    refine .inr ⟨ws, by rw [server]; rfl, by rw [server]; rfl, fun w hw => ?_⟩
    exact ⟨needs, covered w hw, fun n hn l hl _ hk => blocks_eq_false.1 free n hn l hl (.inl rfl) hk⟩
  | committed _ _ server => exact .inr ⟨_, by rw [server]; rfl, by rw [server]; rfl, h.free_writes i⟩
  | dropped _ _ server => exact .inl (by rw [server]; exact ⟨rfl, rfl⟩)

/-- A move never takes from the log. -/
theorem Config.log_grows (h : Orderly c) (hs : c.step machine i e = some c') : c.shared.log <+: c'.shared.log := by
  rcases h.log_cases hs with ⟨-, hlog⟩ | ⟨ws, -, hlog, -⟩
  · simp [hlog]
  · rw [hlog]
    exact List.prefix_append _ _

/-- Another client's locks are still held after a move. -/
theorem locks_other (hs : c.step machine i e = some c') (hj : j ≠ i) {n : Need Key Uniq} :
    (j, n) ∈ c'.shared.locks ↔ (j, n) ∈ c.shared.locks := by
  obtain ⟨hm, -⟩ := step_moved hs
  cases hm with
  | quiet _ _ _ _ locks => rw [locks]
  | looked _ _ server => rw [server]
  | opened _ _ _ server => rw [server]
  | wrote _ _ _ _ _ _ server => rw [server]; simp [Ne.symm hj]
  | autocommitted _ _ _ _ server _ _ _ => rw [server]; rfl
  | committed _ _ server => rw [server]; simp [Server.release, Server.apply, hj]
  | dropped _ _ server => rw [server]; simp [Server.release, hj]

/-- A row another client has locked stays as it is, and is not deleted. -/
theorem Orderly.locked_stays (h : Orderly c) (hs : c.step machine i e = some c') (hj : j ≠ i) {k : Key} {m : Mode}
    (hl : (j, (.row k, m)) ∈ c.shared.locks) (hm : m ≠ .keyShare) :
    versions k c'.shared.db = versions k c.shared.db := by
  rcases h.log_cases hs with ⟨hdb, -⟩ | ⟨ws, hdb, -, hfree⟩
  · rw [hdb]
  · rw [hdb]
    exact versions_applyAll_other (fun w hw => (hfree w hw).row_ne hl hj hm) _

omit [Schema Row Key Uniq] [DecidableEq Uniq] [DecidableEq ι] in
theorem deletedSince_append {sv : Server ι Row Key Uniq World} {time : Nat} (ht : time ≤ sv.log.length) {k : Key}
    {ws : List (Write Row Key)} (hw : ∀ w ∈ ws, w.deletes ≠ some k) {sv' : Server ι Row Key Uniq World}
    (hlog : sv'.log = sv.log ++ [(i, ws)]) : sv'.deletedSince time k = sv.deletedSince time k := by
  have hany : (ws.any fun w => decide (w.deletes = some k)) = false := by simpa using hw
  rw [Server.deletedSince, hlog, List.drop_append_of_le_length ht]
  simp [Server.deletedSince, hany]

theorem Orderly.snapshot_stays (h : Orderly c) (hs : c.step machine i e = some c') (hj : j ≠ i) {s : Snapshot Row}
    (hok : SnapshotOk j s c.shared) : SnapshotOk j s c'.shared := by
  refine ⟨?_, fun k m hl hm => ?_⟩
  · rcases h.log_cases hs with ⟨-, hlog⟩ | ⟨ws, -, hlog, -⟩
    · rw [hlog]; exact hok.time
    · rw [hlog, List.length_append]; exact Nat.le_add_right_of_le hok.time
  · rw [locks_other hs hj] at hl
    obtain ⟨hv, hd⟩ := hok.locked k m hl hm
    refine ⟨hv.trans (h.locked_stays hs hj hl hm).symm, ?_⟩
    rcases h.log_cases hs with ⟨-, hlog⟩ | ⟨ws, -, hlog, hfree⟩
    · rw [Server.deletedSince, hlog]; exact hd
    · rw [deletedSince_append hok.time (fun w hw => (hfree w hw).delete_ne hl hj) hlog]; exact hd

/-- What client `i` itself keeps, move by move. -/
theorem Orderly.unique_step (h : Orderly c) (hs : c.step machine i e = some c') : KeysUnique c'.shared.db := by
  obtain ⟨hm, -⟩ := step_moved hs
  cases hm with
  | quiet _ _ db _ _ => rw [db]; exact h.unique
  | looked _ _ server => rw [server]; exact h.unique
  | opened _ _ _ server => rw [server]; exact h.unique
  | wrote _ _ _ _ _ _ server => rw [server]; exact h.unique
  | autocommitted _ _ _ _ server _ _ unique => rw [server]; exact unique h.unique
  | committed _ _ server =>
    rw [server]
    cases ht : (c.threads i).loc.tx with
    | none => simpa [Server.release, Server.apply, Client.writes, ht] using h.unique
    | some t => simpa [Server.release, Server.apply, Client.writes, ht] using h.view i t ht
  | dropped _ _ server => rw [server]; exact h.unique

theorem Orderly.exclusive_step (h : Orderly c) (hs : c.step machine i e = some c') :
    ∀ l ∈ c'.shared.locks, ∀ l' ∈ c'.shared.locks, l.1 ≠ l'.1 → l.2.1 = l'.2.1 →
      l.2.2.conflicts l'.2.2 = false := by
  obtain ⟨hm, -⟩ := step_moved hs
  have hrel : ∀ sv : Server ι Row Key Uniq World, sv.locks = (c.shared.release i).locks →
      ∀ l ∈ sv.locks, ∀ l' ∈ sv.locks, l.1 ≠ l'.1 → l.2.1 = l'.2.1 → l.2.2.conflicts l'.2.2 = false := by
    intro sv hsv l hl l' hl'
    rw [hsv] at hl hl'
    exact h.exclusive l (List.mem_filter.1 hl).1 l' (List.mem_filter.1 hl').1
  cases hm with
  | quiet _ _ _ _ locks => rw [locks]; exact h.exclusive
  | looked _ _ server => rw [server]; exact h.exclusive
  | opened _ _ _ server => rw [server]; exact h.exclusive
  | autocommitted _ _ _ _ server _ _ _ => rw [server]; exact h.exclusive
  | committed _ _ server => exact hrel _ (by rw [server]; rfl)
  | dropped _ _ server => exact hrel _ (by rw [server])
  | wrote t needs ws _ _ _ server free _ _ =>
    have hfree := fun n hn l hl hne => blocks_eq_false.1 free n hn l hl (.inr hne)
    rw [server]
    intro l hl l' hl' hne heq
    rcases List.mem_append.1 hl with hl | hl <;> rcases List.mem_append.1 hl' with hl' | hl'
    · obtain ⟨n, _, rfl⟩ := List.mem_map.1 hl
      obtain ⟨n', _, rfl⟩ := List.mem_map.1 hl'
      exact absurd rfl hne
    · obtain ⟨n, hn, rfl⟩ := List.mem_map.1 hl
      rw [conflicts_comm]
      exact hfree n hn l' hl' (Ne.symm hne) heq.symm
    · obtain ⟨n, hn, rfl⟩ := List.mem_map.1 hl'
      exact hfree n hn l hl hne heq
    · exact h.exclusive l hl l' hl' hne heq

omit [Schema Row Key Uniq] [DecidableEq Key] [DecidableEq Uniq] in
/-- The locks client `i` holds. -/
theorem mem_own_locks {sv : Server ι Row Key Uniq World} {n : Need Key Uniq} :
    n ∈ (sv.locks.filter fun l => l.1 = i).map (·.2) ↔ (i, n) ∈ sv.locks := by
  constructor
  · intro hn
    obtain ⟨⟨i', n'⟩, hl, rfl⟩ := List.mem_map.1 hn
    obtain ⟨hm, hi⟩ := List.mem_filter.1 hl
    have : i' = i := by simpa using hi
    subst this; exact hm
  · intro hl
    exact List.mem_map.2 ⟨(i, n), List.mem_filter.2 ⟨hl, by simp⟩, rfl⟩

theorem Orderly.covered_step (h : Orderly c) (hs : c.step machine i e = some c') :
    ∀ j t, (c'.threads j).loc.tx = some t → ∀ w ∈ t.writes,
      Covered ((c'.shared.locks.filter fun l => l.1 = j).map (·.2)) w := by
  obtain ⟨hm, hother⟩ := step_moved hs
  intro j t ht w hw
  by_cases hj : j = i
  · subst hj
    have keep : (c'.threads j).loc.tx = (c.threads j).loc.tx → c'.shared.locks = c.shared.locks →
        Covered ((c'.shared.locks.filter fun l => l.1 = j).map (·.2)) w := by
      intro htx hlocks
      rw [hlocks]; exact h.covered j t (htx ▸ ht) w hw
    cases hm with
    | quiet tx _ _ _ locks => exact keep tx locks
    | looked tx _ server => exact keep tx (by rw [server])
    | opened _ tx _ _ => rw [tx] at ht; cases ht; cases hw
    | autocommitted _ _ tx _ server _ _ _ => exact keep tx (by rw [server]; rfl)
    | committed tx _ _ => rw [tx] at ht; cases ht
    | dropped tx _ _ => rw [tx] at ht; cases ht
    | wrote t₀ needs ws was tx _ server _ covered _ =>
      rw [tx] at ht
      obtain rfl := Option.some.inj ht
      rcases List.mem_append.1 hw with hw | hw
      · refine (h.covered j t₀ was w hw).mono fun n hn => ?_
        rw [mem_own_locks] at hn ⊢
        rw [server]; exact List.mem_append_right _ hn
      · refine (covered w hw).mono fun n hn => ?_
        rw [mem_own_locks, server]
        exact List.mem_append_left _ (List.mem_map.2 ⟨n, hn, rfl⟩)
  · rw [hother j hj] at ht
    refine (h.covered j t ht w hw).mono fun n hn => ?_
    rw [mem_own_locks] at hn ⊢
    exact (locks_other hs hj).2 hn

theorem Orderly.view_step (h : Orderly c) (hs : c.step machine i e = some c') :
    ∀ j t, (c'.threads j).loc.tx = some t → KeysUnique (applyAll t.writes c'.shared.db) := by
  have hunique := h.unique_step hs
  obtain ⟨hm, hother⟩ := step_moved hs
  intro j t ht
  by_cases hj : j = i
  · subst hj
    cases hm with
    | quiet tx _ db _ _ => rw [db]; exact h.view j t (tx ▸ ht)
    | looked tx _ server => rw [server]; exact h.view j t (tx ▸ ht)
    | opened _ tx _ _ => rw [tx] at ht; cases ht; exact hunique
    | committed tx _ _ => rw [tx] at ht; cases ht
    | dropped tx _ _ => rw [tx] at ht; cases ht
    | wrote t₀ _ _ was tx _ server _ _ unique =>
      rw [tx] at ht
      obtain rfl := Option.some.inj ht
      rw [server]; exact unique (h.view j t₀ was)
    | autocommitted needs ws tx _ server free covered _ =>
      -- Outside the transaction the client's own locks are in the way too.
      rw [tx] at ht
      refine (h.view j t ht).rebase hunique fun w hw => ?_
      obtain ⟨m, hm', hl⟩ := (h.covered j t ht w hw).row
      rw [server]
      refine versions_applyAll_other (fun v hv hk => ?_) _
      obtain ⟨m', hm'', hn⟩ := (covered v hv).row
      have := blocks_eq_false.1 free _ hn _ (mem_own_locks.1 hl) (.inl rfl) (by rw [hk])
      rw [conflicts_writers hm' hm''] at this
      cases this
  · rw [hother j hj] at ht
    refine (h.view j t ht).rebase hunique fun w hw => ?_
    obtain ⟨m, hm', hl⟩ := (h.covered j t ht w hw).row
    exact h.locked_stays hs hj (mem_own_locks.1 hl) hm'

theorem Orderly.snapshot_step (h : Orderly c) (hs : c.step machine i e = some c') :
    ∀ j s, (c'.threads j).loc.snap = some s → SnapshotOk j s c'.shared := by
  obtain ⟨hm, hother⟩ := step_moved hs
  intro j s hsnap
  by_cases hj : j = i
  · subst hj
    cases hm with
    | quiet _ snap _ _ _ => rw [snap] at hsnap; cases hsnap
    | opened _ _ snap _ => rw [snap] at hsnap; cases hsnap
    | wrote _ _ _ _ _ snap _ _ _ _ => rw [snap] at hsnap; cases hsnap
    | autocommitted _ _ _ snap _ _ _ _ => rw [snap] at hsnap; cases hsnap
    | committed _ snap _ => rw [snap] at hsnap; cases hsnap
    | looked _ snap server =>
      rw [snap] at hsnap
      obtain rfl := Option.some.inj hsnap
      rw [server]
      exact ⟨Nat.le_refl _, fun k m _ _ => ⟨rfl, by simp [Server.deletedSince, Server.look]⟩⟩
    | dropped _ snap server =>
      rcases snap with snap | snap
      · rw [snap] at hsnap; cases hsnap
      · rw [snap] at hsnap
        rw [server]
        refine ⟨(h.snapshot j s hsnap).time, fun k m hl _ => ?_⟩
        simp [Server.release] at hl
  · rw [hother j hj] at hsnap
    exact h.snapshot_stays hs hj (h.snapshot j s hsnap)

theorem Orderly.step (h : Orderly c) (hs : c.step machine i e = some c') : Orderly c' where
  unique := h.unique_step hs
  exclusive := h.exclusive_step hs
  covered := h.covered_step hs
  view := h.view_step hs
  snapshot := h.snapshot_step hs

/-- Every configuration a run reaches from one in order is in order. -/
theorem Run.orderly {guard : Clients ι Row Env X α → ι → Env → Prop} {c₀ : Clients ι Row Env X α}
    (h₀ : Orderly c₀) (h : Run machine guard c₀ c) : Orderly c :=
  Run.invariant Orderly h₀ (fun _ _ _ _ _ h _ hs => h.step hs) h

/-- A server between transactions: primary keys are single, nothing is
locked, and the log begins here. -/
structure Server.Quiescent (sv : Server ι Row Key Uniq World) : Prop where
  keys : KeysUnique sv.db
  locks : sv.locks = []
  log : sv.log = []

omit [DecidableEq Uniq] [StepEnv Env] in
/-- Clients that have not begun, at a server without locks. -/
theorem Orderly.start {prog : ι → Prog (@Answer Row Key Uniq Env X World _ _) α}
    {sv : Server ι Row Key Uniq World} (h : sv.Quiescent) :
    Orderly ({ threads := fun i => ⟨prog i, {}⟩, shared := sv } : Clients ι Row Env X α) where
  unique := h.keys
  exclusive := by simp [h.locks]
  covered := by simp
  view := by simp
  snapshot := by simp

end
/-! ## The log -/

/-- The store after the transactions of a log. -/
def replay (db₀ : List Row) (log : List (ι × List (Write Row Key))) : List Row :=
  log.foldl (fun db t => applyAll t.2 db) db₀

/-- Every transaction of the log is as `φ` says of the store it met. -/
def Logged (φ : List Row → ι → List (Write Row Key) → Prop) (db₀ : List Row)
    (log : List (ι × List (Write Row Key))) : Prop :=
  ∀ pre i ws post, log = pre ++ (i, ws) :: post → φ (replay db₀ pre) i ws

section
variable {φ : List Row → ι → List (Write Row Key) → Prop} {db₀ : List Row} {log : List (ι × List (Write Row Key))}
  {i : ι} {ws : List (Write Row Key)}

omit [DecidableEq Uniq] [DecidableEq ι] in
@[simp] theorem replay_append (log' : List (ι × List (Write Row Key))) :
    replay db₀ (log ++ log') = replay (replay db₀ log) log' := List.foldl_append

omit [DecidableEq Uniq] [DecidableEq ι] in
@[simp] theorem replay_cons : replay db₀ ((i, ws) :: log) = replay (applyAll ws db₀) log := rfl

omit [DecidableEq Uniq] [DecidableEq ι] in
@[simp] theorem replay_nil : replay db₀ ([] : List (ι × List (Write Row Key))) = db₀ := rfl

/-- How often client `i` has committed. -/
def commits (i : ι) (log : List (ι × List (Write Row Key))) : Nat := (log.map Prod.fst).count i

omit [DecidableEq Uniq] [DecidableEq Key] [Schema Row Key Uniq] in
theorem commits_append (i j : ι) (ws : List (Write Row Key)) (log : List (ι × List (Write Row Key))) :
    commits i (log ++ [(j, ws)]) = commits i log + if j = i then 1 else 0 := by
  simp [commits, List.count_append, List.count_singleton]

omit [DecidableEq Uniq] [DecidableEq Key] [Schema Row Key Uniq] in
theorem commits_eq_zero : commits i log = 0 ↔ ∀ ws, (i, ws) ∉ log := by
  simp [commits, List.count_eq_zero]

omit [DecidableEq Uniq] [DecidableEq ι] in
theorem Logged.nil : Logged φ db₀ [] := by
  intro pre i ws post h
  simp at h

omit [DecidableEq Uniq] [DecidableEq ι] in
theorem Logged.snoc (h : Logged φ db₀ log) (hφ : φ (replay db₀ log) i ws) : Logged φ db₀ (log ++ [(i, ws)]) := by
  intro pre j vs post heq
  rcases List.eq_nil_or_concat post with rfl | ⟨post', last, rfl⟩
  · obtain ⟨rfl, hl⟩ := List.append_inj_left' heq rfl, List.append_inj_right' heq rfl
    cases hl; exact hφ
  · rw [List.concat_eq_append, ← List.cons_append, ← List.append_assoc] at heq
    exact h pre j vs post' (List.append_inj_left' heq rfl)

omit [DecidableEq Uniq] [DecidableEq ι] in
theorem Logged.last (h : Logged φ db₀ (log ++ [(i, ws)])) : φ (replay db₀ log) i ws := h log i ws [] rfl

omit [DecidableEq Uniq] [DecidableEq ι] in
theorem Logged.init {log' : List (ι × List (Write Row Key))} (h : Logged φ db₀ (log ++ log')) : Logged φ db₀ log :=
  fun pre i ws post heq => h pre i ws (post ++ log') (by rw [heq]; simp)

omit [DecidableEq Uniq] [DecidableEq ι] in
/-- Induction along the log. -/
theorem Logged.induct {I : List (ι × List (Write Row Key)) → Prop} (h : Logged φ db₀ log) (nil : I [])
    (snoc : ∀ log i ws, Logged φ db₀ log → I log → φ (replay db₀ log) i ws → I (log ++ [(i, ws)])) : I log := by
  induction log using List.reverseRecOn with
  | nil => exact nil
  | append_singleton log t ih => exact snoc log t.1 t.2 h.init (ih h.init) h.last

end

/-- Client `i` entered `k` in a transaction it committed, and none since has
deleted it. -/
def EnteredBy (log : List (ι × List (Write Row Key))) (i : ι) (k : Key) : Prop :=
  ∃ pre ws post r, log = pre ++ (i, ws) :: post ∧ .insert r ∈ ws ∧ key r = k ∧
    ∀ t ∈ post, ∀ w ∈ t.2, w.deletes ≠ some k

section
variable {log : List (ι × List (Write Row Key))} {i j : ι} {ws : List (Write Row Key)} {k : Key}

omit [DecidableEq Key] [DecidableEq Uniq] [DecidableEq ι] in
theorem EnteredBy.last {r : Row} (h : .insert r ∈ ws) : EnteredBy (log ++ [(i, ws)]) i (key r) :=
  ⟨log, ws, [], r, rfl, h, rfl, by simp⟩

omit [DecidableEq Key] [DecidableEq Uniq] [DecidableEq ι] in
theorem EnteredBy.snoc (h : EnteredBy log i k) (hws : ∀ w ∈ ws, w.deletes ≠ some k) :
    EnteredBy (log ++ [(j, ws)]) i k := by
  obtain ⟨pre, vs, post, r, rfl, hins, hk, hpost⟩ := h
  refine ⟨pre, vs, post ++ [(j, ws)], r, by simp, hins, hk, fun t ht => ?_⟩
  rcases List.mem_append.1 ht with ht | ht
  · exact hpost t ht
  · rw [List.mem_singleton.1 ht]
    exact hws

end

/-- What one client commits does not count for another. -/
theorem commits_other {c c' : Clients ι Row Env X α} {i j : ι} {e : Env} (h : Orderly c)
    (hs : c.step machine i e = some c') (hj : j ≠ i) : commits j c'.shared.log = commits j c.shared.log := by
  rcases h.log_cases hs with ⟨-, hlog⟩ | ⟨ws, -, hlog, -⟩
  · rw [hlog]
  · rw [hlog, commits_append, if_neg (Ne.symm hj), Nat.add_zero]

/-- The store is what the log made of the first one. -/
theorem Run.replay {guard : Clients ι Row Env X α → ι → Env → Prop} {c₀ c : Clients ι Row Env X α}
    (hlog : c₀.shared.log = []) (h₀ : Orderly c₀) (h : Run machine guard c₀ c) :
    c.shared.db = replay c₀.shared.db c.shared.log := by
  refine Run.invariant (fun c => c.shared.db = ReadCommitted.replay c₀.shared.db c.shared.log)
    (by rw [hlog]; rfl) (fun c i e c' hr hc _ hs => ?_) h
  rcases (Run.orderly h₀ hr).log_cases hs with ⟨hdb, hl⟩ | ⟨ws, hdb, hl, -⟩
  · rw [hdb, hl]; exact hc
  · rw [hdb, hl, hc, replay_append]; rfl

/-- The invariant rule for clients of one server, each with a ghost state: `H`
says what a ghost state means for its client, `φ` what may be committed, `K`
what relates the clients to each other and to the world. `H` has to survive
the moves of others, which commit as `φ` says (`stays`), a snapshot (`look`),
the client's completed operations (`done`) and the end of the client
(`close`), and so has `K`. -/
theorem Run.clientsWith {σ : Type} {guard : Clients ι Row Env X α → ι → Env → Prop} {c₀ c : Clients ι Row Env X α}
    {P : ι → Protocol (@Answer Row Key Uniq Env X World _ _) σ} {Q : ι → σ → α → Prop}
    {H : ι → σ → Client Row Env X → Server ι Row Key Uniq World → Prop}
    {K : (ι → σ) → Clients ι Row Env X α → Prop} {R : σ → σ → Prop}
    {φ : List Row → ι → List (Write Row Key) → Prop} {G : ι → σ} (hlog : c₀.shared.log = []) (h₀ : Orderly c₀)
    (start : ∀ i, H i (G i) (c₀.threads i).loc c₀.shared) (startK : K G c₀)
    (follows : ∀ i, (c₀.threads i).prog.Follows (P i) (Q i) (G i))
    (stays : ∀ c c' i j e s, Orderly c → guard c i e → c.step machine i e = some c' → j ≠ i →
      (∀ ws, c'.shared.log = c.shared.log ++ [(i, ws)] → φ c.shared.db i ws) →
      H j s (c.threads j).loc c.shared → H j s (c.threads j).loc c'.shared)
    (look : ∀ (c : Clients ι Row Env X α) i s, c.shared.db = ReadCommitted.replay c₀.shared.db c.shared.log →
      Logged φ c₀.shared.db c.shared.log → H i s (c.threads i).loc c.shared → (c.threads i).loc.snap = none →
      H i s { (c.threads i).loc with snap := some c.shared.look } c.shared)
    (done : ∀ c i e o k r l sv s, Orderly c → c.shared.db = ReadCommitted.replay c₀.shared.db c.shared.log →
      Logged φ c₀.shared.db c.shared.log → guard c i e → (c.threads i).prog = .op o k → (P i).may s o →
      H i s (c.threads i).loc c.shared → machine.exec i e (c.threads i).loc c.shared o = some (some r, l, sv) →
      ∃ t, (P i).next s o r t ∧ H i t l sv ∧
        (sv.log = c.shared.log ∨ ∃ ws, sv.log = c.shared.log ++ [(i, ws)] ∧ φ c.shared.db i ws))
    (close : ∀ i s a l (sv : Server ι Row Key Uniq World), H i s l sv → Q i s a →
      ∃ t, Q i t a ∧ R s t ∧ H i t { l with tx := none } (sv.release i))
    (lookK : ∀ c g i e o k, K g c → guard c i e → (c.threads i).prog = .op o k → (P i).may (g i) o →
      (c.threads i).loc.snap = none →
      K g (c.put i ⟨.op o k, { (c.threads i).loc with snap := some c.shared.look }⟩ c.shared))
    (doneK : ∀ c g i e o k r l sv t, Orderly c → c.shared.db = ReadCommitted.replay c₀.shared.db c.shared.log →
      Logged φ c₀.shared.db c.shared.log → (∀ j, H j (g j) (c.threads j).loc c.shared) →
      (∀ j, (c.threads j).prog.Follows (P j) (Q j) (g j)) → K g c → guard c i e → (c.threads i).prog = .op o k →
      (P i).may (g i) o → machine.exec i e (c.threads i).loc c.shared o = some (some r, l, sv) →
      (P i).next (g i) o r t → H i t l sv → K (Function.update g i t) (c.put i ⟨k r, l⟩ sv))
    (closeK : ∀ c g i e a t, (∀ j, H j (g j) (c.threads j).loc c.shared) → K g c → guard c i e →
      (c.threads i).prog = .ret a → Q i (g i) a → Q i t a → R (g i) t →
      K (Function.update g i t) (c.put i ⟨.ret a, { (c.threads i).loc with tx := none }⟩ (c.shared.release i)))
    (h : Run machine guard c₀ c) :
    Logged φ c₀.shared.db c.shared.log ∧
      ∃ g : ι → σ, K g c ∧ ∀ i, H i (g i) (c.threads i).loc c.shared ∧ (c.threads i).prog.Follows (P i) (Q i) (g i) := by
  obtain ⟨g, ⟨hH, hL, hK, -⟩, hF⟩ : Ghosted P Q (fun g c => (∀ i, H i (g i) (c.threads i).loc c.shared) ∧
      Logged φ c₀.shared.db c.shared.log ∧ K g c ∧ ∀ i, (c.threads i).prog.Follows (P i) (Q i) (g i)) c := by
    have others : ∀ (c : Clients ι Row Env X α) (g : ι → σ) i e l sv p, Run machine guard c₀ c →
        (∀ j, H j (g j) (c.threads j).loc c.shared) → guard c i e →
        c.step machine i e = some (c.put i ⟨p, l⟩ sv) → (∀ ws, sv.log = c.shared.log ++ [(i, ws)] → φ c.shared.db i ws) →
        ∀ j, j ≠ i → H j (g j) (c.threads j).loc sv :=
      fun c g i e l sv p hr hH hg hs hφ j hj => stays c _ i j e (g j) (Run.orderly h₀ hr) hg hs hj hφ (hH j)
    -- The programs of the other clients stand still.
    have follow : ∀ (c : Clients ι Row Env X α) (g : ι → σ) i t p l sv,
        (∀ j, (c.threads j).prog.Follows (P j) (Q j) (g j)) → p.Follows (P i) (Q i) t →
        ∀ j, ((c.put i ⟨p, l⟩ sv).threads j).prog.Follows (P j) (Q j) (Function.update g i t j) := by
      intro c g i t p l sv hF hp j
      by_cases hj : j = i
      · subst hj; simpa using hp
      · rw [Config.put_other _ _ _ hj, Function.update_of_ne hj]; exact hF j
    refine Run.ghost ⟨G, ⟨start, by rw [hlog]; exact Logged.nil, startK, follows⟩, follows⟩ ?_ ?_ ?_ h
    · intro c g i e o k l sv hr ⟨hH, hL, hK, hF⟩ hp hm hg hx
      obtain ⟨-, hsnap, rfl, rfl⟩ := exec_inner hx
      refine ⟨fun j => ?_, hL, lookK c g i e o k hK hg hp hm hsnap, ?_⟩
      · by_cases hj : j = i
        · subst hj
          simpa using look c j (g j) (Run.replay hlog h₀ hr) hL (hH j) hsnap
        · rw [Config.put_other _ _ _ hj]; exact hH j
      · have := follow c g i (g i) (.op o k) { (c.threads i).loc with snap := some c.shared.look } c.shared hF (hp ▸ hF i)
        rwa [Function.update_eq_self] at this
    · intro c g i e o k r l sv hr ⟨hH, hL, hK, hF⟩ hp hm hg hx
      have hs : c.step machine i e = some (c.put i ⟨k r, l⟩ sv) := Config.step_op hp hx
      have hdb := Run.replay hlog h₀ hr
      obtain ⟨t, hn, hHt, hlogs⟩ := done c i e o k r l sv (g i) (Run.orderly h₀ hr) hdb hL hg hp hm (hH i) hx
      have hFi := hF i
      rw [hp] at hFi
      refine ⟨t, hn, fun j => ?_, ?_, doneK c g i e o k r l sv t (Run.orderly h₀ hr) hdb hL hH hF hK hg hp hm hx hn hHt,
        follow c g i t _ l sv hF (hFi.2 r t hn)⟩
      · by_cases hj : j = i
        · subst hj; simpa using hHt
        · rw [Config.put_other _ _ _ hj, Function.update_of_ne hj]
          refine others c g i e l sv _ hr hH hg hs (fun ws hws => ?_) j hj
          rcases hlogs with hlogs | ⟨ws', hlogs, hφ⟩
          · simp [hlogs] at hws
          · rw [hlogs] at hws
            cases List.append_cancel_left hws
            exact hφ
      · rcases hlogs with hlogs | ⟨ws, hlogs, hφ⟩
        · rw [Config.put_shared, hlogs]; exact hL
        · rw [Config.put_shared, hlogs]
          refine hL.snoc ?_
          rw [← hdb]; exact hφ
    · intro c g i e a l sv hr ⟨hH, hL, hK, hF⟩ hp hq hg hx
      have hs : c.step machine i e = some (c.put i ⟨.ret a, l⟩ sv) := Config.step_ret hp hx
      obtain ⟨rfl, rfl⟩ := close_done hx
      obtain ⟨t, ht, hR, hHt⟩ := close i (g i) a _ _ (hH i) hq
      refine ⟨t, ht, fun j => ?_, hL, closeK c g i e a t hH hK hg hp hq ht hR,
        follow c g i t (.ret a) { (c.threads i).loc with tx := none } _ hF ht⟩
      by_cases hj : j = i
      · subst hj; simpa using hHt
      · rw [Config.put_other _ _ _ hj, Function.update_of_ne hj]
        exact others c g i e _ _ _ hr hH hg hs (fun ws hws => by simp [Server.release] at hws) j hj
  exact ⟨hL, g, hK, fun i => ⟨hH i, hF i⟩⟩

/-- The same, where nothing relates the clients. -/
theorem Run.clients {σ : Type} {guard : Clients ι Row Env X α → ι → Env → Prop} {c₀ c : Clients ι Row Env X α}
    {P : ι → Protocol (@Answer Row Key Uniq Env X World _ _) σ} {Q : ι → σ → α → Prop}
    {H : ι → σ → Client Row Env X → Server ι Row Key Uniq World → Prop}
    {φ : List Row → ι → List (Write Row Key) → Prop} {G : ι → σ} (hlog : c₀.shared.log = []) (h₀ : Orderly c₀)
    (start : ∀ i, H i (G i) (c₀.threads i).loc c₀.shared)
    (follows : ∀ i, (c₀.threads i).prog.Follows (P i) (Q i) (G i))
    (stays : ∀ c c' i j e s, Orderly c → guard c i e → c.step machine i e = some c' → j ≠ i →
      (∀ ws, c'.shared.log = c.shared.log ++ [(i, ws)] → φ c.shared.db i ws) →
      H j s (c.threads j).loc c.shared → H j s (c.threads j).loc c'.shared)
    (look : ∀ i s l (sv : Server ι Row Key Uniq World), H i s l sv → l.snap = none →
      H i s { l with snap := some sv.look } sv)
    (done : ∀ c i e o k r l sv s, Orderly c → c.shared.db = ReadCommitted.replay c₀.shared.db c.shared.log →
      Logged φ c₀.shared.db c.shared.log → guard c i e → (c.threads i).prog = .op o k → (P i).may s o →
      H i s (c.threads i).loc c.shared → machine.exec i e (c.threads i).loc c.shared o = some (some r, l, sv) →
      ∃ t, (P i).next s o r t ∧ H i t l sv ∧
        (sv.log = c.shared.log ∨ ∃ ws, sv.log = c.shared.log ++ [(i, ws)] ∧ φ c.shared.db i ws))
    (close : ∀ i s a l (sv : Server ι Row Key Uniq World), H i s l sv → Q i s a →
      ∃ t, Q i t a ∧ H i t { l with tx := none } (sv.release i))
    (h : Run machine guard c₀ c) :
    Logged φ c₀.shared.db c.shared.log ∧
      ∃ g : ι → σ, ∀ i, H i (g i) (c.threads i).loc c.shared ∧ (c.threads i).prog.Follows (P i) (Q i) (g i) := by
  obtain ⟨hL, g, -, hg⟩ := Run.clientsWith (K := fun _ _ => True) (R := fun _ _ => True) hlog h₀ start trivial follows stays
    (fun c i s _ _ => look i s _ _) done
    (fun i s a l sv hH hQ => (close i s a l sv hH hQ).imp fun t ht => ⟨ht.1, trivial, ht.2⟩)
    (fun _ _ _ _ _ _ _ _ _ _ _ => trivial) (fun _ _ _ _ _ _ _ _ _ _ _ _ _ _ _ _ _ _ _ _ _ _ => trivial)
    (fun _ _ _ _ _ _ _ _ _ _ _ _ _ => trivial) h
  exact ⟨hL, g, hg⟩

end ReadCommitted
