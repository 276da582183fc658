/-
A program run to its end with no other client: what each operation does
(`performed_*`), and the rule by which a program that follows a protocol
keeps an invariant to its return (`exec_follows`). A statement sees what is
committed and what its own transaction wrote.
-/
import DataApi.Lib.Locking

namespace ReadCommitted

open Resumption Relational

variable {ι Row Key Uniq Env X World α σ : Type} [Schema Row Key Uniq] [DecidableEq Key] [DecidableEq Uniq]
  [DecidableEq ι] [StepEnv Env] [Outer X World Env]

section
variable {i : ι} {e : Env} {c c' : Client Row Env X} {sv sv' : Server ι Row Key Uniq World}

/-- The store as a transaction sees it. -/
def Tx.view (t : Tx Row Key Env) (sv : Server ι Row Key Uniq World) : List Row := applyAll t.writes sv.db

theorem performed_query_tx {q : Stmt Row Env} {r : Answer (.query .tx q : Op Row Env X)}
    (h : perform i e sv.look c sv (.query .tx q) = (r, c', sv')) :
    (∃ err, r = .error err ∧ c' = c.done _ r ∧ sv' = sv) ∨
    ∃ t rows ws needs, c.tx = some t ∧
      (q.run (StepEnv.within t.env e) (t.view sv) (t.view sv) (t.view sv)).result = .ok (rows, ws) ∧
      r = .ok rows ∧ c' = Client.done { c with tx := some { t with writes := t.writes ++ ws } } _ r ∧
      sv' = { sv with locks := needs } := by
  have ha : sv.alive sv.look = sv.db := alive_now rfl
  simp only [perform, act] at h
  split at h
  · simp only [Prod.mk.injEq] at h
    obtain ⟨rfl, rfl, rfl⟩ := h
    exact .inl ⟨_, rfl, rfl, rfl⟩
  · split at h
    · simp only [Prod.mk.injEq] at h
      obtain ⟨rfl, rfl, rfl⟩ := h
      exact .inl ⟨_, rfl, rfl, rfl⟩
    · next rows ws hres =>
      simp only [Prod.mk.injEq] at h
      obtain ⟨rfl, rfl, rfl⟩ := h
      cases ht : c.tx with
      | none => simp [plan, ht] at hres
      | some t =>
        simp only [plan, ht, ha] at hres
        exact .inr ⟨t, rows, ws, _, rfl, hres, rfl, by simp, rfl⟩

theorem performed_query_pool {q : Stmt Row Env} {r : Answer (.query .pool q : Op Row Env X)}
    (h : perform i e sv.look c sv (.query .pool q) = (r, c', sv')) :
    (∃ err, r = .error err ∧ c' = c.done _ r ∧ sv' = sv) ∨
    ∃ rows ws, (q.run e sv.db sv.db sv.db).result = .ok (rows, ws) ∧ r = .ok rows ∧ c' = c.done _ r ∧
      sv' = sv.apply i ws := by
  have ha : sv.alive sv.look = sv.db := alive_now rfl
  simp only [perform, act] at h
  split at h
  · simp only [Prod.mk.injEq] at h
    obtain ⟨rfl, rfl, rfl⟩ := h
    exact .inl ⟨_, rfl, rfl, rfl⟩
  · split at h
    · simp only [Prod.mk.injEq] at h
      obtain ⟨rfl, rfl, rfl⟩ := h
      exact .inl ⟨_, rfl, rfl, rfl⟩
    · next rows ws hres =>
      simp only [Prod.mk.injEq] at h
      obtain ⟨rfl, rfl, rfl⟩ := h
      simp only [plan, ha] at hres
      exact .inr ⟨rows, ws, hres, rfl, rfl, rfl⟩

theorem performed_begin {r : Answer (.begin : Op Row Env X)} (h : perform i e sv.look c sv .begin = (r, c', sv')) :
    (∃ err, r = .error err ∧ c' = c.done _ r ∧ sv' = sv) ∨
    (r = .ok () ∧ c' = Client.done { c with tx := some { env := e, writes := [] } } _ r ∧ sv' = sv) := by
  simp only [perform, act] at h
  split at h <;> (simp only [Prod.mk.injEq] at h; obtain ⟨rfl, rfl, rfl⟩ := h)
  · exact .inl ⟨_, rfl, rfl, rfl⟩
  · exact .inr ⟨rfl, rfl, rfl⟩

theorem performed_commit {r : Answer (.commit : Op Row Env X)} (h : perform i e sv.look c sv .commit = (r, c', sv')) :
    (∃ err, r = .error err ∧ c' = Client.done { c with tx := none } _ r ∧ sv' = sv.release i) ∨
    (r = .ok () ∧ c' = Client.done { c with tx := none } _ r ∧ sv' = (sv.apply i c.writes).release i) := by
  simp only [perform, act] at h
  split at h <;> (simp only [Prod.mk.injEq] at h; obtain ⟨rfl, rfl, rfl⟩ := h)
  · exact .inl ⟨_, rfl, rfl, rfl⟩
  · exact .inr ⟨rfl, rfl, rfl⟩

theorem performed_rollback {r : Answer (.rollback : Op Row Env X)}
    (h : perform i e sv.look c sv .rollback = (r, c', sv')) :
    c' = Client.done { c with tx := none } _ r ∧ sv' = sv.release i := by
  simp only [perform, act, Prod.mk.injEq] at h
  obtain ⟨rfl, rfl, rfl⟩ := h
  exact ⟨rfl, rfl⟩

theorem performed_outer {x : X} {r : Answer (.outer x : Op Row Env X)}
    (h : perform i e sv.look c sv (.outer x) = (r, c', sv')) :
    r = (Outer.act x e sv.world).1 ∧ c' = c.done _ r ∧ sv' = { sv with world := (Outer.act x e sv.world).2 } := by
  simp only [perform, act, Prod.mk.injEq] at h
  obtain ⟨rfl, rfl, rfl⟩ := h
  exact ⟨rfl, rfl, rfl⟩

end

/-- The rule: `H` says what a ghost state means for the client and the
server before operation `n`; every allowed operation keeps it, and so it
holds at the return. -/
theorem exec_follows {P : Protocol (@Answer Row Key Uniq Env X World _ _) σ} {Q : σ → α → Prop}
    {H : σ → Nat → Client Row Env X → Server ι Row Key Uniq World → Prop} {i : ι} {env : Nat → Env}
    (done : ∀ s n o r c sv c' sv', P.may s o → H s n c sv → perform i (env n) sv.look c sv o = (r, c', sv') →
      ∃ t, P.next s o r t ∧ H t (n + 1) c' sv')
    {p : Program Row Env X α} : ∀ {s : σ} {n : Nat} {c : Client Row Env X} {sv : Server ι Row Key Uniq World},
    p.Follows P Q s → H s n c sv → ∃ t, Q t (exec i env n c sv p).1 ∧
      H t (exec i env n c sv p).2.1 (exec i env n c sv p).2.2.1 (exec i env n c sv p).2.2.2 := by
  induction p with
  | ret a => exact fun hf h => ⟨_, hf, h⟩
  | op o k ih =>
    intro s n c sv hf h
    cases hx : perform i (env n) sv.look c sv o with
    | mk r rest =>
      obtain ⟨c', sv'⟩ := rest
      obtain ⟨t, hn, ht⟩ := done s n o r c sv c' sv' hf.1 h hx
      simp only [exec, hx]
      exact ih r (hf.2 r t hn) ht

/-! ## What every program keeps -/

/-- Primary keys are single, in the store and as the transaction sees it. -/
structure Unique (c : Client Row Env X) (sv : Server ι Row Key Uniq World) : Prop where
  db : KeysUnique sv.db
  view : ∀ t, c.tx = some t → KeysUnique (t.view sv)

theorem Unique.performed {i : ι} {e : Env} {c c' : Client Row Env X} {sv sv' : Server ι Row Key Uniq World}
    (h : Unique c sv) {o : Op Row Env X} {r : Answer o} (hx : perform i e sv.look c sv o = (r, c', sv'))
    (hpool : ∀ q, o = .query .pool q → c.tx = none) : Unique c' sv' := by
  have closed : ∀ {c : Client Row Env X} {sv : Server ι Row Key Uniq World}, c.tx = none → KeysUnique sv.db →
      Unique c sv := fun hc hu => ⟨hu, fun t ht => by rw [hc] at ht; cases ht⟩
  cases o with
  | query via q =>
    cases via with
    | tx =>
      rcases performed_query_tx hx with ⟨err, rfl, rfl, rfl⟩ | ⟨t, rows, ws, needs, ht, hres, rfl, rfl, rfl⟩
      · exact ⟨h.db, h.view⟩
      · refine ⟨h.db, fun t' ht' => ?_⟩
        obtain rfl := Option.some.inj ht'
        have := (Stmt.run_spec hres).2 (h.view t ht)
        simpa [Tx.view] using this
    | pool =>
      have htx := hpool q rfl
      rcases performed_query_pool hx with ⟨err, rfl, rfl, rfl⟩ | ⟨rows, ws, hres, rfl, rfl, rfl⟩
      · exact closed htx h.db
      · exact closed htx ((Stmt.run_spec hres).2 h.db)
  | begin =>
    rcases performed_begin hx with ⟨err, rfl, rfl, rfl⟩ | ⟨rfl, rfl, rfl⟩
    · exact ⟨h.db, h.view⟩
    · refine ⟨h.db, fun t ht => ?_⟩
      obtain rfl := Option.some.inj ht
      exact h.db
  | commit =>
    rcases performed_commit hx with ⟨err, rfl, rfl, rfl⟩ | ⟨rfl, rfl, rfl⟩
    · exact closed rfl h.db
    · refine closed rfl ?_
      cases ht : c.tx with
      | none => simpa [Server.release, Server.apply, Client.writes, ht] using h.db
      | some t => simpa [Server.release, Server.apply, Client.writes, ht, Tx.view] using h.view t ht
  | rollback =>
    obtain ⟨rfl, rfl⟩ := performed_rollback hx
    exact closed rfl h.db
  | outer x =>
    obtain ⟨rfl, rfl, rfl⟩ := performed_outer hx
    exact ⟨h.db, h.view⟩

end ReadCommitted
