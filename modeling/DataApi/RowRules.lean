/-
The rules for a handler that keeps a fact of single rows: every statement
keeps it, or what follows runs only if the rows it returned satisfy it.
-/
import DataApi.Lib.RowInvariant
import DataApi.Rules

namespace DataApi.RowRules

open Relational ReadCommitted Resumption Handler

variable {P : Row → Prop} {tells : (o : Operation) → Answer o → Prop}

/-- What a client must follow that is told `tells` of its answers. -/
abbrev Keeps (P : Row → Prop) (tells : (o : Operation) → Answer o → Prop) {β : Type} (p : Handler β) : Prop :=
  Prog.Follows ((rowProtocol P).told tells) (fun _ _ => True) false p.run

section
variable {α β τ : Type} {via : Via} {q : Sql} {T : Table Row τ}

theorem keeps_pure {b : β} : Keeps P tells (pure b : Handler β) := trivial

theorem keeps_throw {e : AppError} : Keeps P tells (throw e : Handler β) := trivial

theorem keeps_query (hq : q.Preserves P) {f : List Row → Handler β}
    (hf : ∀ rows, (Returns q rows ∧ ∀ r ∈ rows, P r) → tells (.query via q) (.ok rows) → Keeps P tells (f rows)) :
    Keeps P tells (query via q >>= f) := by
  refine Handler.follows_query ?_ (fun _ _ _ => trivial) fun rows t ht => ?_
  · cases via
    · rfl
    · exact ⟨rfl, hq⟩
  · obtain ⟨⟨hret, hrows, hclean⟩, htold⟩ := ht
    obtain rfl := hclean (hrows hq)
    exact hf rows ⟨hret, hrows hq⟩ htold

theorem keeps_fetchAll (hq : q.Preserves P) {f : List τ → Handler β}
    (hf : ∀ xs, (∀ x ∈ xs, P (T.put x)) → Keeps P tells (f xs)) : Keeps P tells (fetchAll via T q >>= f) := by
  rw [fetchAll, bind_assoc]
  exact keeps_query hq fun rows hrows _ => hf _ fun x hx => hrows.2 _ (T.mem_rows.1 hx)

/-- A row that may be missing, and what was told of the answer it is in. -/
theorem keeps_told (hq : q.Preserves P) {f : Option τ → Handler β} (hnone : Keeps P tells (f none))
    (hf : ∀ x rows, T.put x ∈ rows → tells (.query via q) (.ok rows) → P (T.put x) → Keeps P tells (f (some x))) :
    Keeps P tells (fetchOptional via T q >>= f) := by
  rw [fetchOptional, bind_assoc]
  refine keeps_query hq fun rows hrows htold => ?_
  show Keeps P tells (f (T.rows rows).head?)
  cases hx : (T.rows rows).head? with
  | none => exact hnone
  | some x =>
    have hmem := T.mem_rows.1 (List.mem_of_mem_head? hx)
    exact hf x rows hmem htold (hrows.2 _ hmem)

theorem keeps_fetchOptional (hq : q.Preserves P) {f : Option τ → Handler β} (hnone : Keeps P tells (f none))
    (hf : ∀ x, P (T.put x) → Keeps P tells (f (some x))) : Keeps P tells (fetchOptional via T q >>= f) :=
  keeps_told hq hnone fun x _ _ _ hx => hf x hx

theorem keeps_returned (hq : q.Preserves P) {f : τ → Handler β}
    (hf : ∀ x rows, Returns q rows → T.put x ∈ rows → P (T.put x) → Keeps P tells (f x)) :
    Keeps P tells (fetchOne via T q >>= f) := by
  rw [fetchOne, bind_assoc]
  refine keeps_query hq fun rows hrows _ => ?_
  cases hx : (T.rows rows).head? with
  | none => exact keeps_throw
  | some x =>
    have hmem := T.mem_rows.1 (List.mem_of_mem_head? hx)
    exact hf x rows hrows.1 hmem (hrows.2 _ hmem)

theorem keeps_fetchOne (hq : q.Preserves P) {f : τ → Handler β} (hf : ∀ x, P (T.put x) → Keeps P tells (f x)) :
    Keeps P tells (fetchOne via T q >>= f) := keeps_returned hq fun x _ _ _ hx => hf x hx

theorem keeps_execute (hq : q.Preserves P) {f : Nat → Handler β} (hf : ∀ n, Keeps P tells (f n)) :
    Keeps P tells (execute via q >>= f) := by
  rw [execute, bind_assoc]
  exact keeps_query hq fun rows _ _ => hf _

theorem keeps_append {e : AuditLog.Entry} (hq : (AuditLog.appendSql e).Preserves P) {f : Unit → Handler β}
    (hf : Keeps P tells (f ())) : Keeps P tells (AuditLog.append e >>= f) := by
  rw [AuditLog.append, bind_assoc]
  exact keeps_execute hq fun _ => hf

theorem keeps_appendTx {e : AuditLog.Entry} (hq : (AuditLog.appendSql e).Preserves P) {f : Unit → Handler β}
    (hf : Keeps P tells (f ())) : Keeps P tells (AuditLog.appendTx e >>= f) := by
  rw [AuditLog.appendTx, bind_assoc]
  exact keeps_execute hq fun _ => hf

theorem keeps_begin {f : Unit → Handler β} (hf : Keeps P tells (f ())) : Keeps P tells (begin >>= f) := by
  refine Handler.follows_begin rfl (fun _ _ _ => trivial) fun t ht => ?_
  obtain rfl : t = false := ht.1
  exact hf

theorem keeps_commit {f : Unit → Handler β} (hf : Keeps P tells (f ())) : Keeps P tells (commit >>= f) := by
  refine Handler.follows_commit rfl (fun _ _ _ => trivial) fun t ht => ?_
  obtain rfl : t = false := ht.1
  exact hf

theorem keeps_rollback {f : Unit → Handler β} (hf : Keeps P tells (f ())) : Keeps P tells (rollback >>= f) := by
  refine Handler.follows_rollback trivial (fun _ _ _ => trivial) fun t ht => ?_
  obtain rfl : t = false := ht.1
  exact hf

theorem keeps_outer {x : Io} {f : x.Ans → Handler β} (hf : ∀ r, Keeps P tells (f r)) :
    Keeps P tells (perform (.outer x) >>= f) := by
  refine Handler.follows_perform trivial fun r t ht => ?_
  obtain rfl : t = false := ht.1
  exact hf r

theorem keeps_ofResult {x : Except AppError α} {f : α → Handler β} (hf : ∀ a, x = .ok a → Keeps P tells (f a)) :
    Keeps P tells (ofResult x >>= f) := Handler.follows_ofResult (fun _ _ => trivial) hf

theorem keeps_refuseIf {b : Bool} {e : AppError} {f : Unit → Handler β} (hf : b = false → Keeps P tells (f ())) :
    Keeps P tells (refuseIf b e >>= f) := Handler.follows_refuseIf (fun _ => trivial) hf

theorem keeps_map {f : α → β} {p : Handler α} (h : Keeps P tells p) : Keeps P tells (f <$> p) := Handler.follows_map h

end

section
variable {β : Type}

theorem keeps_send {ev : Event} : Keeps P tells (send ev) := by
  rw [← bind_pure (send ev)]
  exact keeps_outer fun _ => keeps_pure

theorem keeps_stateChanged {id : Uuid} {g : Int} {old new : SessionStatus} {k : Handler β} (h : Keeps P tells k) :
    Keeps P tells (SessionRoutes.stateChanged id g old new >>= fun _ => k) := by
  rw [SessionRoutes.stateChanged, bind_assoc]
  exact keeps_outer fun _ => keeps_outer fun _ => h

theorem keeps_getInTx {id : Uuid} {f : Session → Handler β} (h : ∀ x, Keeps P tells (f x)) :
    Keeps P tells (Sessions.getInTx id >>= f) := by
  rw [Sessions.getInTx, bind_assoc]
  exact keeps_fetchOptional (forUpdate_preserves _) keeps_throw fun x _ => h x

theorem keeps_guildId {id : Uuid} {f : Int → Handler β} (h : ∀ g, Keeps P tells (f g)) :
    Keeps P tells (Sessions.guildIdForSession id >>= f) := by
  rw [Sessions.guildIdForSession, bind_assoc]
  exact keeps_fetchOptional (select_preserves _) keeps_throw fun x _ => h _

theorem keeps_sweep {keys : List String} {k : Handler β} (h : Keeps P tells k) :
    Keeps P tells (SessionRoutes.sweep keys >>= fun _ => k) := by
  rw [SessionRoutes.sweep]
  split
  · exact h
  · rw [bind_assoc]
    exact keeps_outer fun _ => h

end
end DataApi.RowRules
