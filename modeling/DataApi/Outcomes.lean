/-
The rules for a handler that has the service to itself: whether it ends in an
answer and a state that satisfy `Q`, operation by operation.
-/
import DataApi.Lib.Solo
import DataApi.Lib.Statements
import DataApi.Serial

namespace DataApi

open Relational ReadCommitted Resumption

/-- The open transaction, the committed rows and the world. -/
abbrev Moment := Solo Row Key Env World

/-- What `q` answers and writes on the rows `db`. A transaction's clock is
that of its `BEGIN`, `b`. -/
def answer (q : Sql) (b e : Env) (db : Db) : Except (DbError Key Uniq) (List Row × List (Write Row Key)) :=
  if e.fails then .error .failure else (q.run { e with now := b.now } db db db).result

theorem answer_ok {q : Sql} {b e : Env} {db rows : Db} {ws : List (Write Row Key)} (h : answer q b e db = .ok (rows, ws)) :
    e.fails = false ∧ (q.run { e with now := b.now } db db db).result = .ok (rows, ws) := by
  cases hf : e.fails with
  | true => simp [answer, hf] at h
  | false => exact ⟨rfl, by simpa [answer, hf] using h⟩

theorem answer_error {q : Sql} {b e : Env} {db : Db} {err : DbError Key Uniq} (h : answer q b e db = .error err) :
    e.fails = true ∨ (q.run { e with now := b.now } db db db).result = .error err := by
  cases hf : e.fails with
  | true => exact .inl rfl
  | false => exact .inr (by simpa [answer, hf] using h)

/-! What a statement on one table answers. -/

section
variable {τ : Type} {T : Table Row τ} {p : τ → Bool} {b e : Env} {db rows : Db} {ws : List (Write Row Key)}

theorem answer_select (hf : e.fails = false) : answer (T.select p) b e db = .ok (db.filter (T.is p), []) := by
  rw [answer, hf]; rfl

theorem answer_forUpdate (hf : e.fails = false) : answer (T.forUpdate p) b e db = .ok (db.filter (T.is p), []) := by
  rw [answer, hf, ← hits_self]; rfl

theorem select_answer (h : answer (T.select p) b e db = .ok (rows, ws)) :
    (T.rows rows).head? = (T.rows db).find? p ∧ ws = [] := by
  obtain ⟨hrows, rfl⟩ := select_ok (answer_ok h).2
  rw [hrows, List.head?_filter]
  exact ⟨rfl, rfl⟩

theorem selectAt_answer {p : Env → τ → Bool} (h : answer (T.selectAt p) b e db = .ok (rows, ws)) :
    (T.rows rows).head? = (T.rows db).find? (p { e with now := b.now }) ∧ ws = [] := by
  obtain ⟨hrows, rfl⟩ := selectAt_ok (answer_ok h).2
  rw [hrows, List.head?_filter]
  exact ⟨rfl, rfl⟩

theorem forUpdate_answer (h : answer (T.forUpdate p) b e db = .ok (rows, ws)) :
    (T.rows rows).head? = (T.rows db).find? p ∧ ws = [] := by
  obtain ⟨rfl, rfl, -⟩ := forUpdate_ok (answer_ok h).2
  rw [hits_self, T.rows_filter_is, List.head?_filter]
  exact ⟨rfl, rfl⟩

theorem update_answer {set : Env → τ → τ} {hk : ∀ e, T.Keeps (set e)} (h : answer (T.update p set hk) b e db = .ok (rows, ws)) :
    T.rows rows = ((T.rows db).filter p).map (set { e with now := b.now }) ∧ ws = rows.map .update ∧
      ∀ r ∈ rows, check r = true := by
  obtain ⟨hrows, hws, hck⟩ := update_ok (answer_ok h).2
  refine ⟨?_, hws, hck⟩
  have hput : rows = ((T.rows (hits (T.is p) db db)).map (set { e with now := b.now })).map T.put := by
    rw [hrows, List.map_map]; rfl
  rw [hput, T.rows_map_put, hits_self, T.rows_filter_is]

/-- An UPDATE by primary key. -/
theorem answer_update {set : Env → τ → τ} {hk : ∀ e, T.Keeps (set e)} {t : τ} {k : Key} (hf : e.fails = false)
    (hu : KeysUnique db) (hp : ∀ t, p t = true → key (T.put t) = k) (ht : (T.rows db).find? p = some t)
    (hck : check (T.put (set { e with now := b.now } t)) = true) : answer (T.update p set hk) b e db =
      .ok ([T.put (set { e with now := b.now } t)], [.update (T.put (set { e with now := b.now } t))]) := by
  have hmem : T.put t ∈ db := T.mem_rows.1 (List.mem_of_find?_eq_some ht)
  have hone : hits (T.is p) db db = [T.put t] := hits_one hu hp (List.find?_some ht) hmem hmem
  rw [answer, if_neg (by simp [hf])]
  exact update_run hone hck

/-- An UPDATE whose rows pass their CHECK. -/
theorem answer_update_ok {set : Env → τ → τ} {hk : ∀ e, T.Keeps (set e)} (hf : e.fails = false)
    (hck : ∀ t, T.put t ∈ db → p t = true → check (T.put (set { e with now := b.now } t)) = true) :
    ∃ rows ws, answer (T.update p set hk) b e db = .ok (rows, ws) := by
  have hall : ((hits (T.is p) db db).map (T.setter (set { e with now := b.now }) (hk _)).set).all check = true := by
    refine List.all_eq_true.2 fun r hr => ?_
    obtain ⟨y, hy, rfl⟩ := List.mem_map.1 hr
    obtain ⟨t, rfl, hmem, hp, -⟩ := (mem_hits T).1 hy
    rw [show (T.setter (set { e with now := b.now }) (hk _)).set (T.put t) = T.put (set { e with now := b.now } t) from
      T.lift_put _ _]
    exact hck t hmem hp
  rw [answer, if_neg (by simp [hf])]
  exact ⟨_, _, if_pos hall⟩

theorem delete_answer (h : answer (T.delete p) b e db = .ok (rows, ws)) : T.rows rows = (T.rows db).filter p := by
  obtain ⟨rfl, -⟩ := delete_ok (answer_ok h).2
  rw [hits_self, T.rows_filter_is]

end

/-- The handler's answer and the state at its end satisfy `Q`. -/
def Ends {α : Type} (env : Nat → Env) (n : Nat) (s : Moment) (p : Handler α) (Q : Except AppError α → Moment → Prop) : Prop :=
  Q (solo env n s p.run).1 (solo env n s p.run).2

section
variable {α β τ : Type} {env : Nat → Env} {n : Nat} {s : Moment} {Q : Except AppError β → Moment → Prop} {via : Via}
  {q : Sql} {T : Table Row τ} {tx : Option (Tx Row Key Env)} {db : Db} {w : World} {b : Env} {vs : List (Write Row Key)}

/-- A call, from the state it finds. -/
theorem serve_ends {st : AppState} {x : Call} {sv : Sv Unit} {Q : Outcome → Db → World → Prop} :
    Q (serve st x sv).1 (serve st x sv).2.db (serve st x sv).2.world ↔
      Ends x.env 0 ⟨none, sv.db, sv.world⟩ (handle st x.request) fun a s => Q a s.db s.world := by
  have h : solo x.env 0 (sv.alone ({} : Conn)) (handle st x.request).run =
      ((exec () x.env 0 {} sv (handle st x.request).run).1,
        (exec () x.env 0 {} sv (handle st x.request).run).2.2.2.alone
          (exec () x.env 0 {} sv (handle st x.request).run).2.2.1) := exec_solo
  simp only [Ends, serve]
  rw [show (⟨none, sv.db, sv.world⟩ : Moment) = sv.alone ({} : Conn) from rfl, h]
  rfl

theorem ends_map {f : α → β} {p : Handler α} : Ends env n s (f <$> p) Q ↔ Ends env n s p fun a s => Q (a.map f) s := by
  have h : ∀ (p : Code (Except AppError α)) n s, solo env n s (p >>= fun a => Prog.ret (a.map f)) =
      ((solo env n s p).1.map f, (solo env n s p).2) := by
    intro p
    induction p with
    | ret a => exact fun _ _ => rfl
    | op o k ih => exact fun n s => ih _ _ _
  have hrun : (f <$> p).run = p.run >>= fun a => Prog.ret (a.map f) := by
    rw [ExceptT.run_map, map_eq_pure_bind]
    rfl
  rw [Ends, hrun, h]; rfl

theorem ends_perform {o : Operation} {f : Answer o → Handler β} : Ends env n s (Handler.perform o >>= f) Q ↔
    Ends env (n + 1) (s.act (env n) o).2 (f (s.act (env n) o).1) Q := Iff.rfl

theorem ends_ofDb {x : Except (DbError Key Uniq) α} {f : α → Handler β} : Ends env n s (Handler.ofDb x >>= f) Q ↔
    match x with | .ok a => Ends env n s (f a) Q | .error err => Q (.error (.database err)) s := by
  cases x <;> exact Iff.rfl

theorem ends_ofResult {x : Except AppError α} {f : α → Handler β} : Ends env n s (Handler.ofResult x >>= f) Q ↔
    match x with | .ok a => Ends env n s (f a) Q | .error e => Q (.error e) s := by
  cases x <;> exact Iff.rfl

theorem ends_refuseIf {c : Bool} {e : AppError} {f : Unit → Handler β} : Ends env n s (Handler.refuseIf c e >>= f) Q ↔
    if c then Q (.error e) s else Ends env n s (f ()) Q := by
  cases c <;> exact Iff.rfl

/-- A statement outside a transaction. -/
theorem ends_pool {f : List Row → Handler β} : Ends env n ⟨tx, db, w⟩ (Handler.query .pool q >>= f) Q ↔
    match answer q (env n) (env n) db with
    | .ok (rows, ws) => Ends env (n + 1) ⟨tx, applyAll ws db, w⟩ (f rows) Q
    | .error err => Q (.error (.database err)) ⟨tx, db, w⟩ := by
  have hask : Solo.ask (env n) ⟨tx, db, w⟩ .pool q = answer q (env n) (env n) db := rfl
  rw [Handler.query, bind_assoc, ends_perform, ends_ofDb]
  simp only [Solo.act, hask]
  cases answer q (env n) (env n) db <;> exact Iff.rfl

/-- A statement of an open transaction. -/
theorem ends_tx {f : List Row → Handler β} : Ends env n ⟨some ⟨b, vs⟩, db, w⟩ (Handler.query .tx q >>= f) Q ↔
    match answer q b (env n) (applyAll vs db) with
    | .ok (rows, ws) => Ends env (n + 1) ⟨some ⟨b, vs ++ ws⟩, db, w⟩ (f rows) Q
    | .error err => Q (.error (.database err)) ⟨some ⟨b, vs⟩, db, w⟩ := by
  have hask : Solo.ask (env n) ⟨some ⟨b, vs⟩, db, w⟩ .tx q = answer q b (env n) (applyAll vs db) := rfl
  rw [Handler.query, bind_assoc, ends_perform, ends_ofDb]
  simp only [Solo.act, hask]
  cases answer q b (env n) (applyAll vs db) <;> exact Iff.rfl

theorem ends_begin {f : Unit → Handler β} : Ends env n ⟨tx, db, w⟩ (Handler.begin >>= f) Q ↔
    if (env n).fails then Q (.error (.database .failure)) ⟨tx, db, w⟩
    else Ends env (n + 1) ⟨some ⟨env n, []⟩, db, w⟩ (f ()) Q := by
  rw [Handler.begin, bind_assoc, ends_perform, ends_ofDb]
  simp only [Solo.act, StepEnv.fails]
  cases (env n).fails <;> exact Iff.rfl

theorem ends_commit {f : Unit → Handler β} : Ends env n ⟨some ⟨b, vs⟩, db, w⟩ (Handler.commit >>= f) Q ↔
    if (env n).fails then Q (.error (.database .failure)) ⟨none, db, w⟩
    else Ends env (n + 1) ⟨none, applyAll vs db, w⟩ (f ()) Q := by
  rw [Handler.commit, bind_assoc, ends_perform, ends_ofDb]
  simp only [Solo.act, StepEnv.fails]
  cases (env n).fails <;> exact Iff.rfl

theorem ends_rollback {f : Unit → Handler β} : Ends env n ⟨tx, db, w⟩ (Handler.rollback >>= f) Q ↔
    if (env n).fails then Q (.error (.database .failure)) ⟨none, db, w⟩ else Ends env (n + 1) ⟨none, db, w⟩ (f ()) Q := by
  have hact : ∀ c : Bool, (env n).fails = c → Ends env n ⟨tx, db, w⟩ (Handler.rollback >>= f) Q =
      Ends env (n + 1) ⟨none, db, w⟩ (Handler.ofDb (if c then .error .failure else .ok ()) >>= f) Q := by
    rintro c rfl
    rfl
  cases h : (env n).fails with
  | true => rw [hact true h]; exact Iff.rfl
  | false => rw [hact false h]; exact Iff.rfl

theorem ends_outer {x : Io} {f : x.Ans → Handler β} : Ends env n ⟨tx, db, w⟩ (Handler.perform (.outer x) >>= f) Q ↔
    Ends env (n + 1) ⟨tx, db, (x.act (env n) w).2⟩ (f (x.act (env n) w).1) Q := Iff.rfl


/-! ## Forward -/

theorem Ends.query_pool {f : List Row → Handler β}
    (herr : ∀ err, answer q (env n) (env n) db = .error err → Q (.error (.database err)) ⟨tx, db, w⟩)
    (hok : ∀ rows ws, answer q (env n) (env n) db = .ok (rows, ws) → Ends env (n + 1) ⟨tx, applyAll ws db, w⟩ (f rows) Q) :
    Ends env n ⟨tx, db, w⟩ (Handler.query .pool q >>= f) Q := by
  rw [ends_pool]
  cases h : answer q (env n) (env n) db with
  | error err => exact herr err h
  | ok x => exact hok x.1 x.2 h

theorem Ends.query_tx {f : List Row → Handler β}
    (herr : ∀ err, answer q b (env n) (applyAll vs db) = .error err → Q (.error (.database err)) ⟨some ⟨b, vs⟩, db, w⟩)
    (hok : ∀ rows ws, answer q b (env n) (applyAll vs db) = .ok (rows, ws) →
      Ends env (n + 1) ⟨some ⟨b, vs ++ ws⟩, db, w⟩ (f rows) Q) :
    Ends env n ⟨some ⟨b, vs⟩, db, w⟩ (Handler.query .tx q >>= f) Q := by
  rw [ends_tx]
  cases h : answer q b (env n) (applyAll vs db) with
  | error err => exact herr err h
  | ok x => exact hok x.1 x.2 h

theorem Ends.answered_tx {rows : List Row} {ws : List (Write Row Key)} {f : List Row → Handler β}
    (h : answer q b (env n) (applyAll vs db) = .ok (rows, ws))
    (hf : Ends env (n + 1) ⟨some ⟨b, vs ++ ws⟩, db, w⟩ (f rows) Q) :
    Ends env n ⟨some ⟨b, vs⟩, db, w⟩ (Handler.query .tx q >>= f) Q := by
  rw [ends_tx, h]
  exact hf

theorem Ends.answered_pool {rows : List Row} {ws : List (Write Row Key)} {f : List Row → Handler β}
    (h : answer q (env n) (env n) db = .ok (rows, ws)) (hf : Ends env (n + 1) ⟨tx, applyAll ws db, w⟩ (f rows) Q) :
    Ends env n ⟨tx, db, w⟩ (Handler.query .pool q >>= f) Q := by
  rw [ends_pool, h]
  exact hf

theorem Ends.fetchedOne_tx {rows : List Row} {ws : List (Write Row Key)} {x : τ} {f : τ → Handler β}
    (h : answer q b (env n) (applyAll vs db) = .ok (rows, ws)) (hx : (T.rows rows).head? = some x)
    (hf : Ends env (n + 1) ⟨some ⟨b, vs ++ ws⟩, db, w⟩ (f x) Q) :
    Ends env n ⟨some ⟨b, vs⟩, db, w⟩ (Handler.fetchOne .tx T q >>= f) Q := by
  rw [Handler.fetchOne, bind_assoc]
  refine .answered_tx h ?_
  rw [hx]
  exact hf

theorem Ends.fetched_tx {rows : List Row} {ws : List (Write Row Key)} {x : Option τ} {f : Option τ → Handler β}
    (h : answer q b (env n) (applyAll vs db) = .ok (rows, ws)) (hx : (T.rows rows).head? = x)
    (hf : Ends env (n + 1) ⟨some ⟨b, vs ++ ws⟩, db, w⟩ (f x) Q) :
    Ends env n ⟨some ⟨b, vs⟩, db, w⟩ (Handler.fetchOptional .tx T q >>= f) Q := by
  rw [Handler.fetchOptional, bind_assoc]
  refine .answered_tx h ?_
  rw [hx]
  exact hf

theorem Ends.ofOk {x : Except AppError α} {a : α} {f : α → Handler β} (h : x = .ok a) (hf : Ends env n s (f a) Q) :
    Ends env n s (Handler.ofResult x >>= f) Q := by
  rw [h]
  exact hf

theorem Ends.passed {c : Bool} {e : AppError} {f : Unit → Handler β} (h : c = false) (hf : Ends env n s (f ()) Q) :
    Ends env n s (Handler.refuseIf c e >>= f) Q := by
  rw [h]
  exact hf

theorem Ends.begun {f : Unit → Handler β} (h : (env n).fails = false)
    (hf : Ends env (n + 1) ⟨some ⟨env n, []⟩, db, w⟩ (f ()) Q) : Ends env n ⟨tx, db, w⟩ (Handler.begin >>= f) Q := by
  rw [ends_begin, h]
  exact hf

theorem Ends.committed {f : Unit → Handler β} (h : (env n).fails = false)
    (hf : Ends env (n + 1) ⟨none, applyAll vs db, w⟩ (f ()) Q) :
    Ends env n ⟨some ⟨b, vs⟩, db, w⟩ (Handler.commit >>= f) Q := by
  rw [ends_commit, h]
  exact hf

theorem Ends.begin {f : Unit → Handler β} (herr : (env n).fails = true → Q (.error (.database .failure)) ⟨tx, db, w⟩)
    (hok : (env n).fails = false → Ends env (n + 1) ⟨some ⟨env n, []⟩, db, w⟩ (f ()) Q) :
    Ends env n ⟨tx, db, w⟩ (Handler.begin >>= f) Q := by
  rw [ends_begin]
  cases h : (env n).fails with
  | true => exact herr h
  | false => exact hok h

theorem Ends.commit {f : Unit → Handler β} (herr : (env n).fails = true → Q (.error (.database .failure)) ⟨none, db, w⟩)
    (hok : (env n).fails = false → Ends env (n + 1) ⟨none, applyAll vs db, w⟩ (f ()) Q) :
    Ends env n ⟨some ⟨b, vs⟩, db, w⟩ (Handler.commit >>= f) Q := by
  rw [ends_commit]
  cases h : (env n).fails with
  | true => exact herr h
  | false => exact hok h

theorem Ends.ofResult {x : Except AppError α} {f : α → Handler β} (herr : ∀ e, x = .error e → Q (.error e) s)
    (hok : ∀ a, x = .ok a → Ends env n s (f a) Q) : Ends env n s (Handler.ofResult x >>= f) Q := by
  cases x with
  | ok a => exact hok a rfl
  | error e => exact herr e rfl

theorem Ends.refuseIf {c : Bool} {e : AppError} {f : Unit → Handler β} (herr : c = true → Q (.error e) s)
    (hok : c = false → Ends env n s (f ()) Q) : Ends env n s (Handler.refuseIf c e >>= f) Q := by
  cases c with
  | true => exact herr rfl
  | false => exact hok rfl

theorem Ends.fetchOne_pool {f : τ → Handler β}
    (herr : ∀ err, answer q (env n) (env n) db = .error err → Q (.error (.database err)) ⟨tx, db, w⟩)
    (hnone : ∀ rows ws, answer q (env n) (env n) db = .ok (rows, ws) → (T.rows rows).head? = none →
      Q (.error (.database .rowNotFound)) ⟨tx, applyAll ws db, w⟩)
    (hok : ∀ rows ws x, answer q (env n) (env n) db = .ok (rows, ws) → (T.rows rows).head? = some x →
      Ends env (n + 1) ⟨tx, applyAll ws db, w⟩ (f x) Q) :
    Ends env n ⟨tx, db, w⟩ (Handler.fetchOne .pool T q >>= f) Q := by
  rw [Handler.fetchOne, bind_assoc]
  refine .query_pool herr fun rows ws h => ?_
  cases hx : (T.rows rows).head? with
  | none => exact hnone rows ws h hx
  | some x => exact hok rows ws x h hx

theorem Ends.fetchOne_tx {f : τ → Handler β}
    (herr : ∀ err, answer q b (env n) (applyAll vs db) = .error err → Q (.error (.database err)) ⟨some ⟨b, vs⟩, db, w⟩)
    (hnone : ∀ rows ws, answer q b (env n) (applyAll vs db) = .ok (rows, ws) → (T.rows rows).head? = none →
      Q (.error (.database .rowNotFound)) ⟨some ⟨b, vs ++ ws⟩, db, w⟩)
    (hok : ∀ rows ws x, answer q b (env n) (applyAll vs db) = .ok (rows, ws) → (T.rows rows).head? = some x →
      Ends env (n + 1) ⟨some ⟨b, vs ++ ws⟩, db, w⟩ (f x) Q) :
    Ends env n ⟨some ⟨b, vs⟩, db, w⟩ (Handler.fetchOne .tx T q >>= f) Q := by
  rw [Handler.fetchOne, bind_assoc]
  refine .query_tx herr fun rows ws h => ?_
  cases hx : (T.rows rows).head? with
  | none => exact hnone rows ws h hx
  | some x => exact hok rows ws x h hx

theorem Ends.fetchOptional_pool {f : Option τ → Handler β}
    (herr : ∀ err, answer q (env n) (env n) db = .error err → Q (.error (.database err)) ⟨tx, db, w⟩)
    (hok : ∀ rows ws, answer q (env n) (env n) db = .ok (rows, ws) →
      Ends env (n + 1) ⟨tx, applyAll ws db, w⟩ (f (T.rows rows).head?) Q) :
    Ends env n ⟨tx, db, w⟩ (Handler.fetchOptional .pool T q >>= f) Q := by
  rw [Handler.fetchOptional, bind_assoc]
  exact .query_pool herr hok

theorem Ends.fetchOptional_tx {f : Option τ → Handler β}
    (herr : ∀ err, answer q b (env n) (applyAll vs db) = .error err → Q (.error (.database err)) ⟨some ⟨b, vs⟩, db, w⟩)
    (hok : ∀ rows ws, answer q b (env n) (applyAll vs db) = .ok (rows, ws) →
      Ends env (n + 1) ⟨some ⟨b, vs ++ ws⟩, db, w⟩ (f (T.rows rows).head?) Q) :
    Ends env n ⟨some ⟨b, vs⟩, db, w⟩ (Handler.fetchOptional .tx T q >>= f) Q := by
  rw [Handler.fetchOptional, bind_assoc]
  exact .query_tx herr hok

theorem Ends.fetchAll_tx {f : List τ → Handler β}
    (herr : ∀ err, answer q b (env n) (applyAll vs db) = .error err → Q (.error (.database err)) ⟨some ⟨b, vs⟩, db, w⟩)
    (hok : ∀ rows ws, answer q b (env n) (applyAll vs db) = .ok (rows, ws) →
      Ends env (n + 1) ⟨some ⟨b, vs ++ ws⟩, db, w⟩ (f (T.rows rows)) Q) :
    Ends env n ⟨some ⟨b, vs⟩, db, w⟩ (Handler.fetchAll .tx T q >>= f) Q := by
  rw [Handler.fetchAll, bind_assoc]
  exact .query_tx herr hok

theorem Ends.execute_tx {f : Nat → Handler β}
    (herr : ∀ err, answer q b (env n) (applyAll vs db) = .error err → Q (.error (.database err)) ⟨some ⟨b, vs⟩, db, w⟩)
    (hok : ∀ rows ws, answer q b (env n) (applyAll vs db) = .ok (rows, ws) →
      Ends env (n + 1) ⟨some ⟨b, vs ++ ws⟩, db, w⟩ (f rows.length) Q) :
    Ends env n ⟨some ⟨b, vs⟩, db, w⟩ (Handler.execute .tx q >>= f) Q := by
  rw [Handler.execute, bind_assoc]
  exact .query_tx herr hok

theorem Ends.execute_pool {f : Nat → Handler β}
    (herr : ∀ err, answer q (env n) (env n) db = .error err → Q (.error (.database err)) ⟨tx, db, w⟩)
    (hok : ∀ rows ws, answer q (env n) (env n) db = .ok (rows, ws) →
      Ends env (n + 1) ⟨tx, applyAll ws db, w⟩ (f rows.length) Q) :
    Ends env n ⟨tx, db, w⟩ (Handler.execute .pool q >>= f) Q := by
  rw [Handler.execute, bind_assoc]
  exact .query_pool herr hok

theorem answer_fails (h : (env n).fails = true) : answer q b (env n) db = .error .failure := by
  rw [answer, h]; rfl

/-- A locking read by itself. -/
theorem Ends.lock_tx {p : τ → Bool} {f : Option τ → Handler β}
    (herr : (env n).fails = true → Q (.error (.database .failure)) ⟨some ⟨b, vs⟩, db, w⟩)
    (hok : (env n).fails = false → Ends env (n + 1) ⟨some ⟨b, vs⟩, db, w⟩ (f ((T.rows (applyAll vs db)).find? p)) Q) :
    Ends env n ⟨some ⟨b, vs⟩, db, w⟩ (Handler.fetchOptional .tx T (T.forUpdate p) >>= f) Q := by
  rw [Handler.fetchOptional, bind_assoc, ends_tx]
  cases hf : (env n).fails with
  | true => rw [answer_fails hf]; exact herr hf
  | false =>
    rw [answer_forUpdate hf]
    simpa only [List.append_nil, T.rows_filter_is, List.head?_filter, pure_bind] using hok hf

/-- A read by itself. -/
theorem Ends.select_tx {p : τ → Bool} {f : Option τ → Handler β}
    (herr : (env n).fails = true → Q (.error (.database .failure)) ⟨some ⟨b, vs⟩, db, w⟩)
    (hok : (env n).fails = false → Ends env (n + 1) ⟨some ⟨b, vs⟩, db, w⟩ (f ((T.rows (applyAll vs db)).find? p)) Q) :
    Ends env n ⟨some ⟨b, vs⟩, db, w⟩ (Handler.fetchOptional .tx T (T.select p) >>= f) Q := by
  rw [Handler.fetchOptional, bind_assoc, ends_tx]
  cases hf : (env n).fails with
  | true => rw [answer_fails hf]; exact herr hf
  | false =>
    rw [answer_select hf]
    simpa only [List.append_nil, T.rows_filter_is, List.head?_filter, pure_bind] using hok hf

theorem Ends.selectAll_tx {p : τ → Bool} {f : List τ → Handler β}
    (herr : (env n).fails = true → Q (.error (.database .failure)) ⟨some ⟨b, vs⟩, db, w⟩)
    (hok : (env n).fails = false → Ends env (n + 1) ⟨some ⟨b, vs⟩, db, w⟩ (f ((T.rows (applyAll vs db)).filter p)) Q) :
    Ends env n ⟨some ⟨b, vs⟩, db, w⟩ (Handler.fetchAll .tx T (T.select p) >>= f) Q := by
  rw [Handler.fetchAll, bind_assoc, ends_tx]
  cases hf : (env n).fails with
  | true => rw [answer_fails hf]; exact herr hf
  | false =>
    rw [answer_select hf]
    simpa only [List.append_nil, T.rows_filter_is, pure_bind] using hok hf

theorem Ends.select_pool {p : τ → Bool} {f : Option τ → Handler β}
    (herr : (env n).fails = true → Q (.error (.database .failure)) ⟨tx, db, w⟩)
    (hok : (env n).fails = false → Ends env (n + 1) ⟨tx, db, w⟩ (f ((T.rows db).find? p)) Q) :
    Ends env n ⟨tx, db, w⟩ (Handler.fetchOptional .pool T (T.select p) >>= f) Q := by
  rw [Handler.fetchOptional, bind_assoc, ends_pool]
  cases hf : (env n).fails with
  | true => rw [answer_fails hf]; exact herr hf
  | false =>
    rw [answer_select hf]
    simpa only [applyAll_nil, T.rows_filter_is, List.head?_filter, pure_bind] using hok hf

/-- Two handlers in a row: the second runs on the first one's answer, from
where the first left off. -/
theorem ends_bind {p : Handler α} {f : α → Handler β} : Ends env n s (p >>= f) Q ↔
    match (solo env n s p.run).1 with
    | .ok a => Ends env (soloNext env n s p.run) (solo env n s p.run).2 (f a) Q
    | .error e => Q (.error e) (solo env n s p.run).2 := by
  have hrun : solo env n s (p >>= f).run = solo env (soloNext env n s p.run) (solo env n s p.run).2
      (ExceptT.bindCont f (solo env n s p.run).1) := solo_bind
  rw [Ends, hrun]
  cases (solo env n s p.run).1 <;> exact Iff.rfl

/-- Two handlers in a row, wherever the operations of the second begin. -/
theorem Ends.bind {p : Handler α} {f : α → Handler β} {R : Except AppError α → Moment → Prop} (h : Ends env n s p R)
    (hok : ∀ a s m, R (.ok a) s → Ends env m s (f a) Q) (herr : ∀ e s, R (.error e) s → Q (.error e) s) :
    Ends env n s (p >>= f) Q := by
  rw [ends_bind]
  unfold Ends at h
  cases ha : (solo env n s p.run).1 with
  | ok a => exact hok a _ _ (ha ▸ h)
  | error e => exact herr e _ (ha ▸ h)

theorem Ends.mono {Q' : Except AppError β → Moment → Prop} {p : Handler β} (h : Ends env n s p Q)
    (hQ : ∀ a s, Q a s → Q' a s) : Ends env n s p Q' := hQ _ _ h

end

/-! ## The audit log -/

/-- The audit log grew, and nothing else changed. -/
structure Logged (db db' : Db) : Prop where
  rows : ∃ as : List AuditRow, db' = db ++ as.map .audit
  keys : KeysUnique db → KeysUnique db'

section
variable {β : Type} {env : Nat → Env} {n : Nat} {Q : Except AppError β → Moment → Prop} {tx : Option (Tx Row Key Env)}
  {db db' : Db} {w : World}

theorem Logged.refl (db : Db) : Logged db db := ⟨⟨[], by simp⟩, id⟩

/-- Other rows are where they were. -/
theorem Logged.mem (h : Logged db db') {r : Row} (hr : ∀ a, r ≠ .audit a) : r ∈ db' ↔ r ∈ db := by
  obtain ⟨as, rfl⟩ := h.rows
  rw [List.mem_append, List.mem_map]
  exact ⟨fun h => h.elim id fun ⟨a, _, ha⟩ => absurd ha.symm (hr a), .inl⟩

theorem Logged.lookup (h : Logged db db') {k : Key} (hk : k.table ≠ .audit) : lookup k db' = lookup k db := by
  obtain ⟨as, rfl⟩ := h.rows
  have hnone : (as.map Row.audit).filter (fun r => key r = k) = [] := by
    rw [List.filter_eq_nil_iff]
    intro r hr heq
    obtain ⟨a, -, rfl⟩ := List.mem_map.1 hr
    rw [decide_eq_true_eq] at heq
    exact hk (heq ▸ rfl)
  unfold Relational.lookup versions
  rw [List.filter_append, hnone, List.append_nil]

theorem appendSql_logged {e : AuditLog.Entry} {b e' : Env} {rows : Db} {ws : List (Write Row Key)}
    (h : answer (AuditLog.appendSql e) b e' db = .ok (rows, ws)) : Logged db (applyAll ws db) := by
  obtain ⟨a, -, -, -, -, -, rfl⟩ := insert_ok (answer_ok h).2
  exact ⟨⟨[a], rfl⟩, (Stmt.run_spec (answer_ok h).2).2⟩

theorem Ends.append {e : AuditLog.Entry} {f : Unit → Handler β} (herr : ∀ err, Q (.error err) ⟨tx, db, w⟩)
    (hok : ∀ db', Logged db db' → Ends env (n + 1) ⟨tx, db', w⟩ (f ()) Q) :
    Ends env n ⟨tx, db, w⟩ (AuditLog.append e >>= f) Q := by
  rw [AuditLog.append, bind_assoc]
  exact Ends.execute_pool (fun _ _ => herr _) fun _ _ happend => hok _ (appendSql_logged happend)

end
end DataApi
