/-
Facts of single rows that every committed row satisfies. A statement keeps
such a fact of itself (`Stmt.Preserves`), or its caller looks at the rows it
returned before it commits: the rows a statement writes are among those it
returns. `Run.rows_told` is the rule for clients that do one or the other.
-/
import DataApi.Lib.Locking
import DataApi.Lib.Statements

namespace Relational

variable {Row Key Uniq Env τ : Type} [Schema Row Key Uniq] [DecidableEq Key] [DecidableEq Uniq]
  {env : Env} {snap alive cur rows : List Row} {ws : List (Write Row Key)} {P : Row → Prop} {T : Table Row τ}

omit [DecidableEq Key] [DecidableEq Uniq] in
/-- `r` is a row that `ws` enters or changes. -/
def Written (ws : List (Write Row Key)) (r : Row) : Prop := .insert r ∈ ws ∨ .update r ∈ ws

omit [DecidableEq Key] [DecidableEq Uniq] in
theorem Written.append {vs : List (Write Row Key)} {r : Row} (h : Written (ws ++ vs) r) : Written ws r ∨ Written vs r := by
  rcases h with h | h <;> rcases List.mem_append.1 h with h | h
  · exact .inl (.inl h)
  · exact .inr (.inl h)
  · exact .inl (.inr h)
  · exact .inr (.inr h)

/-- What an INSERT writes it returns, and it is checked. -/
theorem insertRows_written {xs : List (Row × OnConflict Row)} : ∀ {db : List Row} {touched : List Key} {rows ws},
    (insertRows db touched xs).result = .ok (rows, ws) →
    (∀ r, Written ws r ↔ r ∈ rows) ∧ ∀ r ∈ rows, check r = true := by
  induction xs with
  | nil =>
    intro db touched rows ws h
    simp only [insertRows, Except.ok.injEq, Prod.mk.injEq] at h
    obtain ⟨rfl, rfl⟩ := h
    simp [Written]
  | cons x rest ih =>
    intro db touched rows ws h
    obtain ⟨r, oc⟩ := x
    obtain ⟨rows₁, ws₁, rows₂, ws₂, h₁, h₂, rfl, rfl, -⟩ := insertRows_cons h
    obtain ⟨hw₂, hc₂⟩ := ih h₂
    have h₁' : (∀ r, Written ws₁ r ↔ r ∈ rows₁) ∧ ∀ r ∈ rows₁, check r = true := by
      obtain ⟨hck, ⟨rfl, rfl, _⟩ | ⟨rfl, rfl, _⟩ | ⟨a, set, l, e, -, -, -, hce, rfl, rfl, -⟩⟩ := insertRow_cases h₁
      · exact ⟨by simp [Written], by simpa using hck⟩
      · exact ⟨by simp [Written], by simp⟩
      · exact ⟨by simp [Written], by simpa using hce⟩
    obtain ⟨hw₁, hc₁⟩ := h₁'
    refine ⟨fun y => ?_, fun y hy => (List.mem_append.1 hy).elim (hc₁ y) (hc₂ y)⟩
    rw [List.mem_append, ← hw₁, ← hw₂]
    simp only [Written, List.mem_append]
    tauto

/-- What a statement writes it returns, and it is checked; what else it
returns was there. -/
theorem Stmt.run_written {q : Stmt Row Env} (h : (q.run env snap alive cur).result = .ok (rows, ws)) :
    (∀ r, Written ws r → r ∈ rows ∧ check r = true) ∧ ∀ r ∈ rows, Written ws r ∨ r ∈ snap ∨ r ∈ cur := by
  cases q with
  | select p =>
    simp only [Stmt.run, Except.ok.injEq, Prod.mk.injEq] at h
    obtain ⟨rfl, rfl⟩ := h
    exact ⟨by simp [Written], fun r hr => .inr (.inl (List.mem_filter.1 hr).1)⟩
  | forUpdate p =>
    simp only [Stmt.run, Except.ok.injEq, Prod.mk.injEq] at h
    obtain ⟨rfl, rfl⟩ := h
    exact ⟨by simp [Written], fun r hr => .inr (.inr (List.mem_filter.1 hr).1)⟩
  | insert mk =>
    cases hmk : mk env snap with
    | error e => simp [Stmt.run, hmk] at h
    | ok xs =>
      simp only [Stmt.run, hmk] at h
      obtain ⟨hw, hc⟩ := insertRows_written h
      exact ⟨fun r hr => ⟨(hw r).1 hr, hc r ((hw r).1 hr)⟩, fun r hr => .inl ((hw r).2 hr)⟩
  | update p set =>
    simp only [Stmt.run] at h
    split at h
    · next hall =>
      simp only [Except.ok.injEq, Prod.mk.injEq] at h
      obtain ⟨rfl, rfl⟩ := h
      refine ⟨fun r hr => ?_, fun r hr => .inl (.inr (List.mem_map.2 ⟨r, hr, rfl⟩))⟩
      have hr : r ∈ (hits p alive cur).map (set env).set := by simpa [Written] using hr
      exact ⟨hr, List.all_eq_true.1 hall r hr⟩
    · cases h
  | delete p =>
    simp only [Stmt.run, Except.ok.injEq, Prod.mk.injEq] at h
    obtain ⟨rfl, rfl⟩ := h
    refine ⟨fun r hr => ?_, fun r hr => .inr (.inr (List.mem_filter.1 hr).1)⟩
    simp [Written] at hr

/-- Among rows that satisfy `P`, the statement writes and returns such rows. -/
def Stmt.Preserves (P : Row → Prop) (q : Stmt Row Env) : Prop :=
  ∀ env snap alive cur rows ws, (∀ r ∈ snap, P r) → (∀ r ∈ cur, P r) → (q.run env snap alive cur).result = .ok (rows, ws) →
    ∀ r ∈ rows, P r

theorem preserves_of_written {q : Stmt Row Env} (h : ∀ env snap alive cur rows ws, (∀ r ∈ cur, P r) →
      (q.run env snap alive cur).result = .ok (rows, ws) → ∀ r, Written ws r → P r) : q.Preserves P := by
  intro env snap alive cur rows ws hsnap hcur hrun r hr
  rcases (Stmt.run_written hrun).2 r hr with hw | hr | hr
  · exact h env snap alive cur rows ws hcur hrun r hw
  · exact hsnap r hr
  · exact hcur r hr

/-- What the CHECK constraints of the written tables say is enough. -/
theorem preserves_of_checked {D : Key → Prop} {q : Stmt Row Env} (hq : q.WritesIn D)
    (h : ∀ r, D (key r) → check r = true → P r) : q.Preserves P := by
  refine preserves_of_written fun env snap alive cur rows ws _ hrun r hw => ?_
  refine h r ?_ ((Stmt.run_written hrun).1 r hw).2
  rcases hw with hw | hw <;> exact hq env snap alive cur rows ws hrun _ hw

theorem select_preserves (p : Env → Row → Bool) : (Stmt.select p : Stmt Row Env).Preserves P := by
  refine preserves_of_written fun env snap alive cur rows ws _ hrun r hw => ?_
  simp only [Stmt.run, Except.ok.injEq, Prod.mk.injEq] at hrun
  rw [← hrun.2] at hw
  simp [Written] at hw

theorem forUpdate_preserves (p : Row → Bool) : (Stmt.forUpdate p : Stmt Row Env).Preserves P := by
  refine preserves_of_written fun env snap alive cur rows ws _ hrun r hw => ?_
  simp only [Stmt.run, Except.ok.injEq, Prod.mk.injEq] at hrun
  rw [← hrun.2] at hw
  simp [Written] at hw

theorem delete_preserves (p : Row → Bool) : (Stmt.delete p : Stmt Row Env).Preserves P := by
  refine preserves_of_written fun env snap alive cur rows ws _ hrun r hw => ?_
  simp only [Stmt.run, Except.ok.injEq, Prod.mk.injEq] at hrun
  rw [← hrun.2] at hw
  simp [Written] at hw

theorem update_preserves {p : τ → Bool} {set : Env → τ → τ} {hk : ∀ e, T.Keeps (set e)}
    (h : ∀ e t, P (T.put t) → check (T.put (set e t)) = true → P (T.put (set e t))) : (T.update p set hk).Preserves P := by
  refine preserves_of_written fun env snap alive cur rows ws hcur hrun r hw => ?_
  have hck := ((Stmt.run_written hrun).1 r hw).2
  rcases hw with hw | hw
  · obtain ⟨t, -, -, heq, -⟩ := update_ok_write hrun hw
    cases heq
  · obtain ⟨t, ht, -, heq, -⟩ := update_ok_write hrun hw
    obtain rfl := Write.update.inj heq
    exact h env t (hcur _ ht) hck

/-- A row enters with its parents there. -/
theorem tableInsert_preserves {mk : Env → List Row → Except (DbError Key Uniq) τ}
    (h : ∀ env snap t, mk env snap = .ok t → check (T.put t) = true → ∀ cur : List Row, (∀ r ∈ cur, P r) →
      (∀ k ∈ refs (T.put t), ∃ x ∈ cur, key x = k) → P (T.put t)) : (T.insert mk : Stmt Row Env).Preserves P := by
  refine preserves_of_written fun env snap alive cur rows ws hcur hrun r hw => ?_
  obtain ⟨t, hmk, hck, -, hrefs, -, rfl⟩ := insert_ok hrun
  obtain rfl : r = T.put t := by simpa [Written] using hw
  exact h env snap t hmk hck cur hcur hrefs

/-- The same with an `ON CONFLICT` clause: the row in the way satisfies `P`. -/
theorem insertOne_preserves {mk : Env → List Row → Row × OnConflict Row}
    (h : ∀ env snap, check (mk env snap).1 = true → ∀ cur : List Row, (∀ r ∈ cur, P r) →
      (∀ k ∈ refs (mk env snap).1, ∃ x ∈ cur, key x = k) → P (mk env snap).1)
    (hset : ∀ env snap a set, (mk env snap).2 = .doUpdate a set → ∀ e, P e → P (set.set e)) :
    (Stmt.insert fun env snap => .ok [mk env snap]).Preserves P := by
  refine preserves_of_written fun env snap alive cur rows ws hcur hrun r hw => ?_
  simp only [Stmt.run] at hrun
  obtain ⟨hck, ⟨-, rfl, -, hrefs, -⟩ | ⟨-, rfl, -⟩ | ⟨a, set, l, e, hoc, hclash, -, -, -, rfl, -⟩⟩ :=
    insertRow_cases (insertRows_singleton hrun)
  · obtain rfl : r = (mk env snap).1 := by simpa [Written] using hw
    exact h env snap hck cur hcur hrefs
  · simp [Written] at hw
  · obtain rfl : r = set.set e := by simpa [Written] using hw
    exact hset env snap a set hoc e (hcur e (clash_some hclash).2.1)

end Relational

/-! ## Runs -/

namespace ReadCommitted

open Resumption Relational

variable {ι Row Key Uniq Env X World α : Type} [Schema Row Key Uniq] [DecidableEq Key] [DecidableEq Uniq] [DecidableEq ι]
  [StepEnv Env] [Outer X World Env]

/-- `rows` may be what `q` returned. -/
def Returns (q : Stmt Row Env) (rows : List Row) : Prop :=
  ∃ (env : Env) (snap alive cur : List Row) (ws : List (Write Row Key)),
    (q.run env snap alive cur).result = .ok (rows, ws)

omit [DecidableEq ι] [StepEnv Env] in
/-- A row that was to be entered has passed its CHECK, also where another was
in its way. -/
theorem Returns.checked {mk : Env → List Row → Row × OnConflict Row} {rows : List Row}
    (h : Returns (.insert fun env snap => .ok [mk env snap]) rows) : ∃ env snap, check (mk env snap).1 = true := by
  obtain ⟨env, snap, alive, cur, ws, hrun⟩ := h
  simp only [Stmt.run] at hrun
  exact ⟨env, snap, (insertRow_cases (insertRows_singleton hrun)).1⟩

/-- The ghost state says whether the transaction may hold a row that `P` does
not hold of; such a transaction does nothing more but end. -/
def rowProtocol (P : Row → Prop) : Protocol (@Answer Row Key Uniq Env X World _ _) Bool where
  may s
    | .query .pool q => s = false ∧ q.Preserves P
    | .query .tx _ => s = false
    | .begin => s = false
    | .commit => s = false
    | _ => True
  next s
    | .query _ q, .ok rows, t => Returns q rows ∧ (q.Preserves P → ∀ r ∈ rows, P r) ∧ ((∀ r ∈ rows, P r) → t = false)
    | _, _, t => t = s

/-- What the ghost state says of a client. -/
structure RowsKept (P : Row → Prop) (c : Client Row Env X) (s : Bool) : Prop where
  snap : ∀ snap, c.snap = some snap → ∀ r ∈ snap.rows, P r
  writes : s = false → ∀ t, c.tx = some t → ∀ r, Written t.writes r → P r

section
variable {P : Row → Prop} {c c' : Client Row Env X} {sv sv' : Server ι Row Key Uniq World} {s : Bool} {i : ι} {e : Env}

omit [DecidableEq ι] [DecidableEq Uniq] [StepEnv Env] in
theorem kept_applyAll {ws : List (Write Row Key)} {db : List Row} (hdb : ∀ r ∈ db, P r) (hws : ∀ r, Written ws r → P r) :
    ∀ r ∈ applyAll ws db, P r := by
  intro r hr
  rcases mem_applyAll hr with hr | hr
  · exact hdb r hr
  · exact hws r hr

omit [DecidableEq ι] [DecidableEq Key] [DecidableEq Uniq] [StepEnv Env] in
theorem RowsKept.unsnapped (hsnap : c'.snap = none)
    (h : s = false → ∀ t, c'.tx = some t → ∀ r, Written t.writes r → P r) : RowsKept P c' s where
  snap snap hs := by rw [hsnap] at hs; cases hs
  writes := h

omit [DecidableEq ι] [DecidableEq Key] [DecidableEq Uniq] [StepEnv Env] in
theorem RowsKept.closed (hsnap : c'.snap = none) (htx : c'.tx = none) : RowsKept P c' s := by
  refine .unsnapped hsnap fun _ t ht => ?_
  rw [htx] at ht; cases ht

theorem RowsKept.done {o : Op Row Env X} {r : Answer o} (h : RowsKept P c s) (hdb : ∀ r ∈ sv.db, P r)
    (hm : (rowProtocol P).may s o) (hx : machine.exec i e c sv o = some (some r, c', sv')) :
    ∃ t, (rowProtocol P).next s o r t ∧ RowsKept P c' t ∧ ∀ r ∈ sv'.db, P r := by
  cases o with
  | query via q =>
    cases via with
    | tx =>
      obtain rfl : s = false := hm
      rcases query_tx_done hx with ⟨err, rfl, rfl, rfl⟩ | ⟨t, snap, rows, ws, eff, ht, hs, _, heff, hres, _, rfl, rfl, rfl⟩
      · exact ⟨false, rfl, .unsnapped rfl h.writes, hdb⟩
      · subst heff
        have hview : ∀ db : List Row, (∀ r ∈ db, P r) → ∀ r ∈ applyAll t.writes db, P r :=
          fun db hdb => kept_applyAll hdb (h.writes rfl t ht)
        by_cases hall : ∀ r ∈ rows, P r
        · refine ⟨false, ⟨⟨_, _, _, _, _, hres⟩, fun _ => hall, fun _ => rfl⟩, .unsnapped rfl fun _ t' ht' r hr => ?_, hdb⟩
          cases ht'
          rcases hr.append with hr | hr
          · exact h.writes rfl t ht r hr
          · exact hall r ((Stmt.run_written hres).1 r hr).1
        · refine ⟨true, ⟨⟨_, _, _, _, _, hres⟩, fun hq => ?_, fun h => absurd h hall⟩,
            .unsnapped rfl (by simp), hdb⟩
          exact hq _ _ _ _ _ _ (hview _ (h.snap snap hs)) (hview _ hdb) hres
    | pool =>
      obtain ⟨rfl, hq⟩ := hm
      rcases query_pool_done hx with ⟨err, rfl, rfl, rfl⟩ | ⟨snap, rows, ws, eff, hs, _, heff, hres, _, rfl, rfl, rfl⟩
      · exact ⟨false, rfl, .unsnapped rfl h.writes, hdb⟩
      · subst heff
        have hall := hq _ _ _ _ _ _ (h.snap snap hs) hdb hres
        refine ⟨false, ⟨⟨_, _, _, _, _, hres⟩, fun _ => hall, fun _ => rfl⟩, .unsnapped rfl h.writes, ?_⟩
        exact kept_applyAll hdb fun r hr => hall r ((Stmt.run_written hres).1 r hr).1
  | begin =>
    obtain rfl : s = false := hm
    rcases begin_done hx with ⟨_, _, rfl, rfl⟩ | ⟨_, rfl, rfl⟩
    · exact ⟨false, rfl, .unsnapped rfl h.writes, hdb⟩
    · refine ⟨false, rfl, .unsnapped rfl fun _ t ht r hr => ?_, hdb⟩
      cases ht
      simp [Written] at hr
  | commit =>
    obtain rfl : s = false := hm
    rcases commit_done hx with ⟨_, _, rfl, rfl⟩ | ⟨_, rfl, rfl⟩
    · exact ⟨false, rfl, .closed rfl rfl, hdb⟩
    · refine ⟨false, rfl, .closed rfl rfl, ?_⟩
      refine kept_applyAll hdb fun r hr => ?_
      cases ht : c.tx with
      | none => simp [Client.writes, ht, Written] at hr
      | some t => exact h.writes rfl t ht r (by simpa [Client.writes, ht] using hr)
  | rollback =>
    obtain ⟨rfl, rfl⟩ := rollback_done hx
    exact ⟨s, rfl, .closed rfl rfl, hdb⟩
  | outer x =>
    obtain ⟨_, rfl, rfl⟩ := outer_done hx
    exact ⟨s, rfl, .unsnapped rfl h.writes, hdb⟩

/-- Clients that follow the protocol commit rows that satisfy `P` only. What
they are told of an answer the guard has seen to. -/
theorem Run.rows_told {guard : Clients ι Row Env X α → ι → Env → Prop} {c₀ c : Clients ι Row Env X α}
    {tells : ι → (o : Op Row Env X) → Answer o → Prop} (hdb : ∀ r ∈ c₀.shared.db, P r)
    (hstart : ∀ i, RowsKept P (c₀.threads i).loc false)
    (htells : ∀ c i e o k (r : Answer o) l sv, guard c i e → (c.threads i).prog = .op o k →
      machine.exec i e (c.threads i).loc c.shared o = some (some r, l, sv) → tells i o r)
    (follows : ∀ i, (c₀.threads i).prog.Follows ((rowProtocol P).told (tells i)) (fun _ _ => True) false)
    (h : Run machine guard c₀ c) : ∀ r ∈ c.shared.db, P r := by
  obtain ⟨g, ⟨hrows, -⟩, -⟩ : Ghosted (fun i => (rowProtocol P).told (tells i)) (fun _ _ _ => True)
      (fun g c => (∀ r ∈ c.shared.db, P r) ∧ ∀ i, RowsKept P (c.threads i).loc (g i)) c := by
    refine Run.ghost ⟨fun _ => false, ⟨hdb, hstart⟩, follows⟩ ?_ ?_ ?_ h
    · intro c g i e o k l sv _ ⟨hdb, hH⟩ hp hm _ hx
      obtain ⟨-, -, rfl, rfl⟩ := exec_inner hx
      refine ⟨hdb, fun j => ?_⟩
      by_cases hj : j = i
      · subst hj
        rw [Config.put_self]
        refine ⟨fun snap hsnap => ?_, (hH j).writes⟩
        cases hsnap
        exact hdb
      · rw [Config.put_other _ _ _ hj]; exact hH j
    · intro c g i e o k r l sv _ ⟨hdb, hH⟩ hp hm hg hx
      obtain ⟨t, hn, hHt, hdb'⟩ := (hH i).done hdb hm hx
      refine ⟨t, ⟨hn, htells c i e o k r l sv hg hp hx⟩, hdb', fun j => ?_⟩
      by_cases hj : j = i
      · subst hj; simpa using hHt
      · rw [Config.put_other _ _ _ hj, Function.update_of_ne hj]; exact hH j
    · intro c g i e a l sv _ ⟨hdb, hH⟩ hp hq _ hx
      obtain ⟨rfl, rfl⟩ := close_done hx
      refine ⟨g i, trivial, hdb, fun j => ?_⟩
      by_cases hj : j = i
      · subst hj
        rw [Config.put_self]
        refine ⟨(hH j).snap, fun _ t ht => ?_⟩
        cases ht
      · rw [Config.put_other _ _ _ hj, Function.update_of_ne hj]; exact hH j
  exact hrows

end
end ReadCommitted
