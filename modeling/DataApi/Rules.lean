/-
The rules for handlers: how a handler follows a protocol, statement by
statement, and which table each statement of the repository writes.
-/
import DataApi.Lib.Locking
import DataApi.Lib.Statements
import DataApi.Routes.Service

namespace DataApi

open Relational ReadCommitted Resumption

/-! ## `?` on a result -/

theorem bind_ok {ε α β : Type} {x : Except ε α} {f : α → Except ε β} {b : β} (h : (x >>= f) = .ok b) :
    ∃ a, x = .ok a ∧ f a = .ok b := by
  cases x with
  | error e => cases h
  | ok a => exact ⟨a, rfl, h⟩

theorem bind_error {ε α β : Type} {x : Except ε α} {f : α → Except ε β} {e : ε} (h : (x >>= f) = .error e) :
    x = .error e ∨ ∃ a, x = .ok a ∧ f a = .error e := by
  cases x with
  | error e' => exact .inl (congrArg _ (Except.error.inj h))
  | ok a => exact .inr ⟨a, rfl, h⟩

theorem mapError_ok {ε ε' α : Type} {x : Except ε α} {f : ε → ε'} {a : α} (h : x.mapError f = .ok a) : x = .ok a := by
  cases x with
  | error e => cases h
  | ok b => exact congrArg _ (Except.ok.inj h)

/-- A row reads back under its id and session. -/
theorem rowFromPg_ids {r : UniformPgRow} {u : Uniform.UniformRow} (h : Uniform.rowFromPg r = .ok u) :
    r.id = u.id ∧ r.sessionId = u.sessionId := by
  obtain ⟨p, -, h⟩ := bind_ok h
  obtain ⟨a, -, h⟩ := bind_ok h
  obtain rfl := Except.ok.inj h
  exact ⟨rfl, rfl⟩

namespace Handler

variable {σ α β τ : Type} {P : Protocol (@Answer Row Key Uniq Env Io World _ _) σ}
  {Q : σ → Except AppError β → Prop} {s : σ}

theorem follows_pure {b : β} (h : Q s (.ok b)) : Prog.Follows P Q s (pure b : Handler β).run := h

theorem follows_throw {e : AppError} (h : Q s (.error e)) : Prog.Follows P Q s (throw e : Handler β).run := h

theorem follows_perform {o : Operation} {f : Answer o → Handler β} (hm : P.may s o)
    (hf : ∀ r t, P.next s o r t → Prog.Follows P Q t (f r).run) : Prog.Follows P Q s (perform o >>= f).run :=
  ⟨hm, hf⟩

theorem follows_query {via : Via} {q : Sql} {f : List Row → Handler β} (hm : P.may s (.query via q))
    (herr : ∀ e t, P.next s (.query via q) (.error e) t → Q t (.error (.database e)))
    (hok : ∀ rows t, P.next s (.query via q) (.ok rows) t → Prog.Follows P Q t (f rows).run) :
    Prog.Follows P Q s (query via q >>= f).run := by
  rw [query, bind_assoc]
  refine follows_perform hm fun r t ht => ?_
  cases r with
  | ok rows => exact hok rows t ht
  | error e => exact herr e t ht

theorem follows_fetchAll {via : Via} {T : Table Row τ} {q : Sql} {f : List τ → Handler β}
    (hm : P.may s (.query via q))
    (herr : ∀ e t, P.next s (.query via q) (.error e) t → Q t (.error (.database e)))
    (hok : ∀ rows t, P.next s (.query via q) (.ok rows) t → Prog.Follows P Q t (f (T.rows rows)).run) :
    Prog.Follows P Q s (fetchAll via T q >>= f).run := by
  rw [fetchAll, bind_assoc]
  exact follows_query hm herr hok

theorem follows_fetchOptional {via : Via} {T : Table Row τ} {q : Sql} {f : Option τ → Handler β}
    (hm : P.may s (.query via q))
    (herr : ∀ e t, P.next s (.query via q) (.error e) t → Q t (.error (.database e)))
    (hok : ∀ rows t, P.next s (.query via q) (.ok rows) t → Prog.Follows P Q t (f (T.rows rows).head?).run) :
    Prog.Follows P Q s (fetchOptional via T q >>= f).run := by
  rw [fetchOptional, bind_assoc]
  exact follows_query hm herr hok

theorem follows_fetchOne {via : Via} {T : Table Row τ} {q : Sql} {f : τ → Handler β}
    (hm : P.may s (.query via q))
    (herr : ∀ e t, P.next s (.query via q) (.error e) t → Q t (.error (.database e)))
    (hnone : ∀ rows t, P.next s (.query via q) (.ok rows) t → (T.rows rows).head? = none →
      Q t (.error (.database .rowNotFound)))
    (hok : ∀ rows t x, P.next s (.query via q) (.ok rows) t → (T.rows rows).head? = some x →
      Prog.Follows P Q t (f x).run) :
    Prog.Follows P Q s (fetchOne via T q >>= f).run := by
  rw [fetchOne, bind_assoc]
  refine follows_query hm herr fun rows t ht => ?_
  cases hx : (T.rows rows).head? with
  | none => exact hnone rows t ht hx
  | some x => exact hok rows t x ht hx

theorem follows_execute {via : Via} {q : Sql} {f : Nat → Handler β} (hm : P.may s (.query via q))
    (herr : ∀ e t, P.next s (.query via q) (.error e) t → Q t (.error (.database e)))
    (hok : ∀ rows t, P.next s (.query via q) (.ok rows) t → Prog.Follows P Q t (f rows.length).run) :
    Prog.Follows P Q s (execute via q >>= f).run := by
  rw [execute, bind_assoc]
  exact follows_query hm herr hok

theorem follows_append {e : AuditLog.Entry} {f : Unit → Handler β} (hm : P.may s (.query .pool (AuditLog.appendSql e)))
    (herr : ∀ err t, P.next s (.query .pool (AuditLog.appendSql e)) (.error err) t → Q t (.error (.database err)))
    (hok : ∀ rows t, P.next s (.query .pool (AuditLog.appendSql e)) (.ok rows) t → Prog.Follows P Q t (f ()).run) :
    Prog.Follows P Q s (AuditLog.append e >>= f).run := by
  rw [AuditLog.append, bind_assoc]
  exact follows_execute hm herr hok

theorem follows_appendTx {e : AuditLog.Entry} {f : Unit → Handler β} (hm : P.may s (.query .tx (AuditLog.appendSql e)))
    (herr : ∀ err t, P.next s (.query .tx (AuditLog.appendSql e)) (.error err) t → Q t (.error (.database err)))
    (hok : ∀ rows t, P.next s (.query .tx (AuditLog.appendSql e)) (.ok rows) t → Prog.Follows P Q t (f ()).run) :
    Prog.Follows P Q s (AuditLog.appendTx e >>= f).run := by
  rw [AuditLog.appendTx, bind_assoc]
  exact follows_execute hm herr hok

theorem follows_begin {f : Unit → Handler β} (hm : P.may s .begin)
    (herr : ∀ e t, P.next s .begin (.error e) t → Q t (.error (.database e)))
    (hok : ∀ t, P.next s .begin (.ok ()) t → Prog.Follows P Q t (f ()).run) :
    Prog.Follows P Q s (begin >>= f).run := by
  rw [begin, bind_assoc]
  refine follows_perform hm fun r t ht => ?_
  cases r with
  | ok u => exact hok t ht
  | error e => exact herr e t ht

theorem follows_commit {f : Unit → Handler β} (hm : P.may s .commit)
    (herr : ∀ e t, P.next s .commit (.error e) t → Q t (.error (.database e)))
    (hok : ∀ t, P.next s .commit (.ok ()) t → Prog.Follows P Q t (f ()).run) :
    Prog.Follows P Q s (commit >>= f).run := by
  rw [commit, bind_assoc]
  refine follows_perform hm fun r t ht => ?_
  cases r with
  | ok u => exact hok t ht
  | error e => exact herr e t ht

theorem follows_rollback {f : Unit → Handler β} (hm : P.may s .rollback)
    (herr : ∀ e t, P.next s .rollback (.error e) t → Q t (.error (.database e)))
    (hok : ∀ t, P.next s .rollback (.ok ()) t → Prog.Follows P Q t (f ()).run) :
    Prog.Follows P Q s (rollback >>= f).run := by
  rw [rollback, bind_assoc]
  refine follows_perform hm fun r t ht => ?_
  cases r with
  | ok u => exact hok t ht
  | error e => exact herr e t ht

theorem follows_ofResult {x : Except AppError α} {f : α → Handler β} (herr : ∀ e, x = .error e → Q s (.error e))
    (hok : ∀ a, x = .ok a → Prog.Follows P Q s (f a).run) : Prog.Follows P Q s (ofResult x >>= f).run := by
  cases x with
  | ok a => exact hok a rfl
  | error e => exact herr e rfl

theorem follows_refuseIf {b : Bool} {e : AppError} {f : Unit → Handler β} (herr : b = true → Q s (.error e))
    (hok : b = false → Prog.Follows P Q s (f ()).run) : Prog.Follows P Q s (refuseIf b e >>= f).run := by
  cases b with
  | true => exact herr rfl
  | false => exact hok rfl

theorem follows_send {ev : Event} {f : Unit → Handler β} (hm : P.may s (.outer (.send ev)))
    (hf : ∀ t, P.next s (.outer (.send ev)) () t → Prog.Follows P Q t (f ()).run) :
    Prog.Follows P Q s (send ev >>= f).run := follows_perform hm fun _ t ht => hf t ht

theorem follows_utcNow {f : Timestamp → Handler β} (hm : P.may s (.outer .utcNow))
    (hf : ∀ now t, P.next s (.outer .utcNow) now t → Prog.Follows P Q t (f now).run) :
    Prog.Follows P Q s (utcNow >>= f).run := follows_perform hm hf

theorem follows_newEtag {f : ETag → Handler β} (hm : P.may s (.outer .newEtag))
    (hf : ∀ tag t, P.next s (.outer .newEtag) tag t → Prog.Follows P Q t (f tag).run) :
    Prog.Follows P Q s (newEtag >>= f).run := follows_perform hm hf

theorem follows_incCounter {name : String} {n : Nat} {f : Unit → Handler β}
    (hm : P.may s (.outer (.incCounter name n)))
    (hf : ∀ t, P.next s (.outer (.incCounter name n)) () t → Prog.Follows P Q t (f ()).run) :
    Prog.Follows P Q s (incCounter name n >>= f).run := follows_perform hm fun _ t ht => hf t ht

theorem follows_deleteMany {keys : List String} {f : Except AppError Nat → Handler β}
    (hm : P.may s (.outer (.deleteMany keys)))
    (hf : ∀ r t, P.next s (.outer (.deleteMany keys)) r t → Prog.Follows P Q t (f r).run) :
    Prog.Follows P Q s (deleteMany keys >>= f).run := follows_perform hm hf

theorem follows_put {key : String} {body : Bytes} {ct : String} {f : Unit → Handler β}
    (hm : P.may s (.outer (.put key body ct)))
    (herr : ∀ e t, P.next s (.outer (.put key body ct)) (.error e) t → Q t (.error e))
    (hok : ∀ t, P.next s (.outer (.put key body ct)) (.ok ()) t → Prog.Follows P Q t (f ()).run) :
    Prog.Follows P Q s (put key body ct >>= f).run := by
  rw [put, bind_assoc]
  refine follows_perform hm fun r t ht => ?_
  cases r with
  | ok u => exact hok t ht
  | error e => exact herr e t ht

theorem follows_toBytes {body : Bytes} {limit : Nat} {f : Bytes → Handler β}
    (hm : P.may s (.outer (.toBytes body limit)))
    (herr : ∀ e t, P.next s (.outer (.toBytes body limit)) (.error e) t → Q t (.error (.badRequest s!"read body: {e}")))
    (hok : ∀ bytes t, P.next s (.outer (.toBytes body limit)) (.ok bytes) t → Prog.Follows P Q t (f bytes).run) :
    Prog.Follows P Q s (toBytes body limit >>= f).run := by
  rw [toBytes, bind_assoc]
  refine follows_perform hm fun r t ht => ?_
  cases r with
  | ok bytes => exact hok bytes t ht
  | error e => exact herr e t ht

theorem follows_map {f : α → β} {p : Handler α} (h : Prog.Follows P (fun t r => Q t (r.map f)) s p.run) :
    Prog.Follows P Q s (f <$> p).run := by
  have hmap : f <$> p = p >>= fun a => pure (f a) := (bind_pure_comp f p).symm
  rw [hmap]
  exact Prog.Follows.bindE h (fun t a ha => ha) (fun t e he => he)

end Handler

/-- A server with one session, before any request. -/
theorem Sample.quiescent {ι : Type} : (Sample.server [.session Sample.session] : Sv ι).Quiescent where
  keys := by simp [Sample.server, KeysUnique]
  locks := rfl
  log := rfl

end DataApi
