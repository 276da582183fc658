/-
Handlers that audit through the pool. Their statements commit one by one, so
an error finds what came before it in the tables. A handler is followed
statement by statement: each either goes on, or ends it, and then otherwise
than claimed exactly if something was changed by then (`Spoils`).
-/
import DataApi.Lib.Changes
import DataApi.Verdicts

namespace DataApi.ErrorsUnchanged

open Relational ReadCommitted Resumption Handler

/-! ## What is claimed of a request -/

/-- The rows of the domain tables that came, went or changed are in the audit
log: a new audit row tells of each. -/
def Recorded (tells : Row → AuditRow → Prop) (db db' : Db) : Prop :=
  ∀ r, (key r).table ≠ .audit → Changed db db' r → ∃ a, Row.audit a ∈ db' ∧ Row.audit a ∉ db ∧ tells r a

/-- An error left every table as it was, and a success is recorded. -/
def Sound {α : Type} (tells : Row → AuditRow → Prop) (db : Db) (a : Except AppError α) (db' : Db) : Prop :=
  match a with
  | .ok _ => Recorded tells db db'
  | .error _ => db' = db

/-- A row of a domain table that an audit row of this entry tells of. -/
def Told (tells : Row → AuditRow → Prop) (entry : AuditLog.Entry) (r : Row) : Prop :=
  (key r).table ≠ .audit ∧ ∀ e, tells r (AuditLog.row entry e)

/-! ## What can be refused -/

/-- The INSERT of an audit row is refused: the database fails it, or the id
it draws is taken. -/
def Unaudited (e : Env) (db : Db) : Prop := e.fails = true ∨ Present (Key.audit (e.uuid 0)) db

/-- The lookup of a session's guild is refused. -/
def NoGuild (e : Env) (id : Uuid) (db : Db) : Prop := e.fails = true ∨ ¬Present (Key.session id) db

section
variable {db db' : Db} {e : Env}

theorem decided_append (entry : AuditLog.Entry) (b e : Env) (db : Db) :
    Decided (¬Unaudited e db) (AuditLog.appendSql entry) b e db [.audit (AuditLog.row entry { e with now := b.now })]
      [.insert (.audit (AuditLog.row entry { e with now := b.now }))] := by
  refine (decided_insert rfl).congr ⟨?_, fun h => ?_⟩
  · rintro hl (hf | ⟨x, hx, hk⟩)
    · rw [hl.works] at hf; cases hf
    · exact hl.free (.pk (.audit (e.uuid 0))) (by exact List.mem_singleton.2 rfl) x hx (pk_mem_slots.2 hk)
  · refine ⟨Bool.eq_false_iff.2 fun hf => h (.inl hf), rfl, fun l hl x hx hlx => ?_, fun k hk => by cases hk⟩
    obtain rfl : l = .pk (.audit (e.uuid 0)) := List.mem_singleton.1 hl
    exact h (.inr ⟨x, hx, slots_key hlx⟩)

theorem not_works {c : Bool} : ¬c = false ↔ c = true := by cases c <;> simp

/-- An id in the audit log is taken there only. -/
theorem unaudited_spared {ws : List (Write Row Key)} (h : ∀ w ∈ ws, (Key.table w.key) ≠ .audit) :
    Unaudited e (applyAll ws db) ↔ Unaudited e db := by
  refine or_congr_right (present_congr (versions_applyAll_other (fun w hw hk => h w hw ?_) db))
  rw [hk]; rfl

theorem audit_changed {P : Row → Prop} (h : ChangesOnly P db db') (hP : ∀ r, P r → (key r).table ≠ .audit) (id : Uuid) :
    Present (Key.audit id) db' ↔ Present (Key.audit id) db := by
  constructor
  · rintro ⟨r, hr, hk⟩
    by_contra hno
    exact hP r (h r (.inl ⟨hr, fun hold => hno ⟨r, hold, hk⟩⟩)) (by rw [hk]; rfl)
  · rintro ⟨r, hr, hk⟩
    by_contra hno
    exact hP r (h r (.inr ⟨hr, fun hnew => hno ⟨r, hnew, hk⟩⟩)) (by rw [hk]; rfl)

theorem unaudited_changed {P : Row → Prop} (h : ChangesOnly P db db') (hP : ∀ r, P r → (key r).table ≠ .audit) :
    Unaudited e db' ↔ Unaudited e db := or_congr_right (audit_changed h hP _)

theorem recorded_append {tells : Row → AuditRow → Prop} {entry : AuditLog.Entry} (h : ChangesOnly (Told tells entry) db db')
    (hfree : ¬Unaudited e db) : Recorded tells db (db' ++ [.audit (AuditLog.row entry e)]) := by
  intro r hr hchanged
  refine ⟨AuditLog.row entry e, List.mem_append_right _ (List.mem_singleton.2 rfl), fun hmem => hfree (.inr ⟨_, hmem, rfl⟩), ?_⟩
  rcases hchanged with ⟨hnew, hold⟩ | ⟨hold, hnew⟩
  · rcases List.mem_append.1 hnew with hnew | hnew
    · exact (h r (.inl ⟨hnew, hold⟩)).2 e
    · rw [List.mem_singleton.1 hnew] at hr
      exact absurd rfl hr
  · exact (h r (.inr ⟨hold, fun hmem => hnew (List.mem_append_left _ hmem)⟩)).2 e

theorem append_new {r : Row} (hr : r ∉ db) : db' ++ [r] ≠ db := by
  intro heq
  exact hr (heq ▸ List.mem_append_right _ (List.mem_singleton.2 rfl))

/-- A session in the audit log is no session. -/
theorem noGuild_append {sid : Uuid} {a : AuditRow} : NoGuild e sid (db ++ [.audit a]) ↔ NoGuild e sid db := by
  refine or_congr_right (not_congr (present_congr (versions_apply_other (w := .insert (Row.audit a)) ?_ db)))
  rintro ⟨⟩

end

/-! ## The rules -/

section
variable {α β τ : Type} {tells : Row → AuditRow → Prop} {db db₁ rows : Db} {env : Nat → Env} {n : Nat} {s : Moment}
  {w : World} {b : Env} {vs ws : List (Write Row Key)} {C : Prop} {q : Sql} {T : Table Row τ}

/-- The handler ends otherwise than claimed. -/
def Spoils (tells : Row → AuditRow → Prop) (db : Db) (env : Nat → Env) (n : Nat) (s : Moment) (p : Handler β) : Prop :=
  Ends env n s p fun a s => ¬Sound tells db a s.db

theorem not_spoils_pure {a : β} (h : Recorded tells db s.db) : ¬Spoils tells db env n s (pure a) := fun hs => hs h

theorem spoils_map {f : α → β} {p : Handler α} : Spoils tells db env n s (f <$> p) ↔ Spoils tells db env n s p := by
  rw [Spoils, ends_map]
  exact Iff.of_eq (congrArg (Ends env n s p) (funext fun a => by cases a <;> rfl))

/-- Nothing has changed before the first change. -/
theorem at_first {p q : Prop} : (db ≠ db ∧ p) ∨ q ↔ q := or_iff_right fun h => h.1 rfl

theorem spoils_ofResult {x : Except AppError α} {f : α → Handler β} :
    Spoils tells db env n ⟨none, db₁, w⟩ (ofResult x >>= f) ↔
      (db₁ ≠ db ∧ x.isOk = false) ∨ ∃ a, x = .ok a ∧ Spoils tells db env n ⟨none, db₁, w⟩ (f a) := by
  rw [Spoils, ends_ofResult]
  cases x with
  | error err => simp [Sound, Except.isOk, Except.toBool]
  | ok a => simp [Spoils, Except.isOk, Except.toBool]

theorem spoils_refuseIf {c : Bool} {err : AppError} {f : Unit → Handler β} :
    Spoils tells db env n ⟨none, db₁, w⟩ (refuseIf c err >>= f) ↔
      (db₁ ≠ db ∧ c = true) ∨ (c = false ∧ Spoils tells db env n ⟨none, db₁, w⟩ (f ())) := by
  rw [Spoils, ends_refuseIf]
  cases c <;> simp [Sound, Spoils]

/-- A pseudonym in the path, before anything is done. -/
theorem spoils_pseudoId {raw : String} {f : PseudoId → Handler β} :
    Spoils tells db env n ⟨none, db, w⟩ (pseudoId raw >>= f) ↔
      ∃ pid, PseudoId.new raw = .ok pid ∧ Spoils tells db env n ⟨none, db, w⟩ (f pid) := by
  rw [pseudoId, spoils_ofResult, at_first]
  cases PseudoId.new raw <;> simp [Except.mapError]

/-! ### Statements through the pool -/

theorem spoils_pool {f : List Row → Handler β} (h : Decided C q (env n) (env n) db₁ rows ws) :
    Spoils tells db env n ⟨none, db₁, w⟩ (query .pool q >>= f) ↔
      (db₁ ≠ db ∧ ¬C) ∨ (C ∧ Spoils tells db env (n + 1) ⟨none, applyAll ws db₁, w⟩ (f rows)) := by
  rw [Spoils, ends_pool]
  by_cases hc : C
  · rw [h.ok hc]; simp [Spoils, hc]
  · obtain ⟨err, herr⟩ := h.error hc
    rw [herr]; simp [Sound, hc]

theorem spoils_fetchOne {f : τ → Handler β} {x : τ} (h : Decided C q (env n) (env n) db₁ rows ws)
    (hx : (T.rows rows).head? = some x) : Spoils tells db env n ⟨none, db₁, w⟩ (fetchOne .pool T q >>= f) ↔
      (db₁ ≠ db ∧ ¬C) ∨ (C ∧ Spoils tells db env (n + 1) ⟨none, applyAll ws db₁, w⟩ (f x)) := by
  rw [fetchOne, bind_assoc, spoils_pool h, hx]
  exact Iff.rfl

theorem spoils_fetchOptional {f : Option τ → Handler β} {x : Option τ} (h : Decided C q (env n) (env n) db₁ rows ws)
    (hx : (T.rows rows).head? = x) : Spoils tells db env n ⟨none, db₁, w⟩ (fetchOptional .pool T q >>= f) ↔
      (db₁ ≠ db ∧ ¬C) ∨ (C ∧ Spoils tells db env (n + 1) ⟨none, applyAll ws db₁, w⟩ (f x)) := by
  rw [fetchOptional, bind_assoc, spoils_pool h, hx]
  exact Iff.rfl

/-- The audit row enters, or not. -/
theorem spoils_append {entry : AuditLog.Entry} {f : Unit → Handler β} :
    Spoils tells db env n ⟨none, db₁, w⟩ (AuditLog.append entry >>= f) ↔
      (db₁ ≠ db ∧ Unaudited (env n) db₁) ∨ (¬Unaudited (env n) db₁ ∧
        Spoils tells db env (n + 1) ⟨none, db₁ ++ [.audit (AuditLog.row entry (env n))], w⟩ (f ())) := by
  rw [AuditLog.append, execute, bind_assoc, bind_assoc, spoils_pool (decided_append entry (env n) (env n) db₁), not_not]
  exact Iff.rfl

/-- The audit row, where the handler has nothing left that can be refused. -/
theorem spoils_last {entry : AuditLog.Entry} {k : Unit → Handler β} (hdb₁ : ChangesOnly (Told tells entry) db db₁)
    (hk : ∀ db₂, Recorded tells db db₂ → ¬Spoils tells db env (n + 1) ⟨none, db₂, w⟩ (k ())) :
    Spoils tells db env n ⟨none, db₁, w⟩ (AuditLog.append entry >>= k) ↔ db₁ ≠ db ∧ Unaudited (env n) db := by
  rw [spoils_append, unaudited_changed hdb₁ fun r hr => hr.1]
  refine or_iff_left ?_
  rintro ⟨hfree, h⟩
  exact hk _ (recorded_append hdb₁ hfree) h

theorem spoils_answered {entry : AuditLog.Entry} {a : β} (hdb₁ : ChangesOnly (Told tells entry) db db₁) :
    Spoils tells db env n ⟨none, db₁, w⟩ (AuditLog.append entry >>= fun _ => pure a) ↔ db₁ ≠ db ∧ Unaudited (env n) db :=
  spoils_last hdb₁ fun _ h => not_spoils_pure h

/-- A session is looked up after everything is recorded. -/
theorem spoils_session {id : Uuid} {k : List Row → Handler β} (hne : db₁ ≠ db)
    (hnone : ∀ rows, (sessionsT.rows rows).head? = none → ∃ err, k rows = throw err)
    (hk : ∀ rows x, (sessionsT.rows rows).head? = some x → ¬Spoils tells db env (n + 1) ⟨none, db₁, w⟩ (k rows)) :
    Spoils tells db env n ⟨none, db₁, w⟩ (query .pool (Sessions.getSql id) >>= k) ↔ NoGuild (env n) id db₁ := by
  have hhead : (sessionsT.rows (db₁.filter (sessionsT.is (Sessions.byId id)))).head? =
      (sessionsT.rows db₁).find? (Sessions.byId id) := head_filter_is
  rw [Sessions.getSql, spoils_pool decided_select, and_iff_right hne, not_works, NoGuild, present_iff key_session]
  cases hs : (sessionsT.rows db₁).find? (Sessions.byId id) with
  | none =>
    obtain ⟨err, herr⟩ := hnone _ (hhead.trans hs)
    rw [herr, applyAll_nil]
    have hend : Spoils tells db env (n + 1) ⟨none, db₁, w⟩ (throw err : Handler β) := hne
    cases (env n).fails <;> simp [hend]
  | some x =>
    have hend := hk _ x (hhead.trans hs)
    simp [hend]

theorem spoils_guildIdForSession {id : Uuid} {f : Int → Handler β} (hne : db₁ ≠ db)
    (hf : ∀ g, ¬Spoils tells db env (n + 1) ⟨none, db₁, w⟩ (f g)) :
    Spoils tells db env n ⟨none, db₁, w⟩ (Sessions.guildIdForSession id >>= f) ↔ NoGuild (env n) id db₁ := by
  rw [Sessions.guildIdForSession, fetchOptional]
  simp only [bind_assoc, pure_bind]
  refine spoils_session hne (fun rows hx => ?_) fun rows x hx => ?_
  · rw [hx]
    exact ⟨_, rfl⟩
  · rw [hx]
    exact hf _

/-- The audit row, then the guild and what is told of it. -/
theorem spoils_announced {sid : Uuid} {entry : AuditLog.Entry} {f : Int → Handler β}
    (hdb₁ : ChangesOnly (Told tells entry) db db₁)
    (hf : ∀ g db₂, Recorded tells db db₂ → ¬Spoils tells db env (n + 2) ⟨none, db₂, w⟩ (f g)) :
    Spoils tells db env n ⟨none, db₁, w⟩ (AuditLog.append entry >>= fun _ => Sessions.guildIdForSession sid >>= f) ↔
      (db₁ ≠ db ∧ Unaudited (env n) db) ∨ (¬Unaudited (env n) db ∧ NoGuild (env (n + 1)) sid db₁) := by
  rw [spoils_append, unaudited_changed hdb₁ fun r hr => hr.1]
  refine or_congr_right (and_congr_right fun hfree => ?_)
  rw [spoils_guildIdForSession (append_new fun hmem => hfree (.inr ⟨_, hmem, rfl⟩)) fun g => hf g _ (recorded_append hdb₁ hfree),
    noGuild_append]

/-! ### One transaction -/

theorem spoils_begin {f : Unit → Handler β} : Spoils tells db env n ⟨none, db₁, w⟩ (begin >>= f) ↔
    (db₁ ≠ db ∧ (env n).fails = true) ∨
    ((env n).fails = false ∧ Spoils tells db env (n + 1) ⟨some ⟨env n, []⟩, db₁, w⟩ (f ())) := by
  rw [Spoils, ends_begin]
  cases (env n).fails <;> simp [Sound, Spoils]

theorem spoils_tx {f : List Row → Handler β} (h : Decided C q b (env n) (applyAll vs db) rows ws) :
    Spoils tells db env n ⟨some ⟨b, vs⟩, db, w⟩ (query .tx q >>= f) ↔
      C ∧ Spoils tells db env (n + 1) ⟨some ⟨b, vs ++ ws⟩, db, w⟩ (f rows) := by
  rw [Spoils, ends_tx]
  by_cases hc : C
  · rw [h.ok hc]; simp [Spoils, hc]
  · obtain ⟨err, herr⟩ := h.error hc
    rw [herr]; simp [Sound, hc]

theorem spoils_fetchOne_tx {f : τ → Handler β} {x : τ} (h : Decided C q b (env n) (applyAll vs db) rows ws)
    (hx : (T.rows rows).head? = some x) : Spoils tells db env n ⟨some ⟨b, vs⟩, db, w⟩ (fetchOne .tx T q >>= f) ↔
      C ∧ Spoils tells db env (n + 1) ⟨some ⟨b, vs ++ ws⟩, db, w⟩ (f x) := by
  rw [fetchOne, bind_assoc, spoils_tx h, hx]
  exact Iff.rfl

/-- A locking read. -/
theorem spoils_lock {p : τ → Bool} {f : Option τ → Handler β} :
    Spoils tells db env n ⟨some ⟨b, []⟩, db, w⟩ (fetchOptional .tx T (T.forUpdate p) >>= f) ↔
      (env n).fails = false ∧ Spoils tells db env (n + 1) ⟨some ⟨b, []⟩, db, w⟩ (f ((T.rows db).find? p)) := by
  have hhead : (T.rows (db.filter (T.is p))).head? = (T.rows db).find? p := head_filter_is
  rw [fetchOptional, bind_assoc, spoils_tx decided_forUpdate, applyAll_nil, ← hhead]
  exact Iff.rfl

theorem spoils_ofResult_tx {t : Tx Row Key Env} {x : Except AppError α} {f : α → Handler β} :
    Spoils tells db env n ⟨some t, db, w⟩ (ofResult x >>= f) ↔ ∃ a, x = .ok a ∧ Spoils tells db env n ⟨some t, db, w⟩ (f a) := by
  rw [Spoils, ends_ofResult]
  cases x <;> simp [Sound, Spoils]

theorem spoils_refuseIf_tx {t : Tx Row Key Env} {c : Bool} {err : AppError} {f : Unit → Handler β} :
    Spoils tells db env n ⟨some t, db, w⟩ (refuseIf c err >>= f) ↔
      c = false ∧ Spoils tells db env n ⟨some t, db, w⟩ (f ()) := by
  rw [Spoils, ends_refuseIf]
  cases c <;> simp [Sound, Spoils]

theorem spoils_commit {f : Unit → Handler β} : Spoils tells db env n ⟨some ⟨b, vs⟩, db, w⟩ (commit >>= f) ↔
    (env n).fails = false ∧ Spoils tells db env (n + 1) ⟨none, applyAll vs db, w⟩ (f ()) := by
  rw [Spoils, ends_commit]
  cases (env n).fails <;> simp [Sound, Spoils]

end
end DataApi.ErrorsUnchanged
