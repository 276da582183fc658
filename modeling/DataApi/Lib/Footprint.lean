/-
What a program sends to its server, and what follows from it alone: where
every statement it may send keeps a fact of the stored rows, so does the
program, however it ends.
-/
import DataApi.Lib.Solo

namespace Relational

variable {Row Key Uniq Env : Type} [Schema Row Key Uniq] [DecidableEq Key] [DecidableEq Uniq]

/-- Run by itself, `q` keeps `I`. -/
def Stmt.Maintains (I : List Row → Prop) (q : Stmt Row Env) : Prop :=
  ∀ env db rows ws, I db → (q.run env db db db).result = .ok (rows, ws) → I (applyAll ws db)

end Relational

namespace ReadCommitted

open Resumption Relational

variable {Row Key Uniq Env X World α : Type} [Schema Row Key Uniq] [DecidableEq Key] [DecidableEq Uniq] [StepEnv Env]
  [Outer X World Env]

/-- The protocol of a program whose statements are all in `S`. The ghost state
says whether a transaction may be open: no statement goes past one through
the pool. -/
def sending (S : Stmt Row Env → Prop) : Protocol (@Answer Row Key Uniq Env X World _ _) Bool where
  may opened
    | .query .tx q => S q
    | .query .pool q => opened = false ∧ S q
    | _ => True
  next opened
    | .begin, .ok _, t => t = true
    | .commit, _, t | .rollback, _, t => t = false
    | _, _, t => t = opened

omit [DecidableEq Key] [DecidableEq Uniq] [StepEnv Env] in
/-- What is known of the statements of a program, put together. -/
theorem sending_both {S S' R : Stmt Row Env → Prop} {tells : (o : Op Row Env X) → Answer o → Prop}
    (hR : ∀ q, S q → S' q → R q) {Q : Bool → α → Prop} {p : Program Row Env X α} : ∀ {opened : Bool},
      p.Follows ((sending S).told tells) Q opened → p.Follows ((sending S').told tells) Q opened →
        p.Follows ((sending R).told tells) Q opened := by
  induction p with
  | ret a => exact fun h _ => h
  | op o k ih =>
    intro opened h h'
    refine ⟨?_, fun r t ht => ?_⟩
    · cases o with
      | query via q =>
        cases via with
        | tx => exact hR q h.1 h'.1
        | pool => exact ⟨h.1.1, hR q h.1.2 h'.1.2⟩
      | _ => trivial
    · have hnext : ∀ S : Stmt Row Env → Prop, (sending S).next opened o r t := by
        cases o with
        | query via q => cases via <;> exact fun _ => ht.1
        | begin => cases r <;> exact fun _ => ht.1
        | _ => exact fun _ => ht.1
      exact ih r (h.2 r t ⟨hnext S, ht.2⟩) (h'.2 r t ⟨hnext S', ht.2⟩)

section
variable {S : Stmt Row Env → Prop} {I : List Row → Prop} {s : Solo Row Key Env World}

/-- `I` holds of the committed rows, and of the rows the transaction sees. -/
structure Solo.Holds (I : List Row → Prop) (s : Solo Row Key Env World) : Prop where
  db : I s.db
  view : I (s.view .tx)

omit [DecidableEq Uniq] [StepEnv Env] in
theorem Solo.Holds.closed (h : I s.db) (htx : s.tx = none) : s.Holds I := ⟨h, by rwa [Solo.view, htx]⟩

/-- A statement that is answered. -/
theorem Solo.Holds.wrote {e : Env} {via : Via} {q : Stmt Row Env} {rows : List Row} {ws : List (Write Row Key)}
    (hq : q.Maintains I) (hpool : via = .pool → s.tx = none) (h : s.Holds I) (hask : s.ask e via q = .ok (rows, ws)) :
    (s.write ws via).Holds I := by
  unfold Solo.ask at hask
  split at hask
  · cases hask
  · cases via with
    | pool => exact .closed (hq e s.db rows ws h.db hask) (hpool rfl)
    | tx =>
      simp only at hask
      split at hask
      · next t ht =>
        have hview := hq _ _ rows ws h.view hask
        exact ⟨h.db, by simpa [Solo.write, Solo.view, ht] using hview⟩
      · cases hask

theorem Solo.Holds.act {opened : Bool} {e : Env} {o : Op Row Env X} (hS : ∀ q, S q → q.Maintains I)
    (hmay : (sending S).may opened o) (hopen : s.tx.isSome → opened = true) (h : s.Holds I) :
    ∃ t, (sending S).next opened o (s.act e o).1 t ∧ ((s.act e o).2.tx.isSome → t = true) ∧ (s.act e o).2.Holds I := by
  have closed : ∀ {s' : Solo Row Key Env World}, s'.tx = none → s'.tx.isSome → false = true := by
    intro s' htx hs
    rw [htx] at hs
    cases hs
  cases o with
  | query via q =>
    refine ⟨opened, by cases via <;> exact rfl, ?_⟩
    rw [Solo.act]
    split
    · exact ⟨hopen, h⟩
    · next rows ws hask =>
      cases via with
      | pool =>
        obtain ⟨rfl, hq⟩ := hmay
        have htx : s.tx = none := by simpa using hopen
        exact ⟨hopen, h.wrote (hS q hq) (fun _ => htx) hask⟩
      | tx =>
        refine ⟨fun hs => hopen (by simpa [Solo.write] using hs), h.wrote (hS q hmay) (fun hv => by cases hv) hask⟩
  | begin =>
    rw [Solo.act]
    split
    · exact ⟨opened, rfl, hopen, h⟩
    · exact ⟨true, rfl, fun _ => rfl, h.db, h.db⟩
  | commit =>
    rw [Solo.act]
    split
    · exact ⟨false, rfl, closed rfl, .closed h.db rfl⟩
    · exact ⟨false, rfl, closed rfl, .closed h.view rfl⟩
  | rollback => exact ⟨false, rfl, closed rfl, .closed h.db rfl⟩
  | outer x => exact ⟨opened, rfl, hopen, h.db, h.view⟩

/-- A program alone that sends statements of `S` only keeps what each of them
keeps. -/
theorem solo_maintains {Q : Bool → α → Prop} {env : Nat → Env} (hS : ∀ q, S q → q.Maintains I) {p : Program Row Env X α} :
    ∀ {opened : Bool} {n : Nat} {s : Solo Row Key Env World}, p.Follows (sending S) Q opened →
      (s.tx.isSome → opened = true) → s.Holds I → I (solo env n s p).2.db := by
  induction p with
  | ret a => exact fun _ _ h => h.db
  | op o k ih =>
    intro opened n s hf hopen h
    obtain ⟨t, hnext, htx, hholds⟩ := h.act (e := env n) hS hf.1 hopen
    exact ih _ (hf.2 _ t hnext) htx hholds

end
end ReadCommitted
