/-
What a program does that has the server to itself, for its answer, the rows
and the world it leaves. Locks, logs and histories do not matter then: the
state is the open transaction, the committed rows and the world
(`exec_solo`), and each operation is one equation.
-/
import DataApi.Lib.Alone

namespace ReadCommitted

open Resumption Relational

structure Solo (Row Key Env World : Type) where
  tx : Option (Tx Row Key Env)
  db : List Row
  world : World

variable {ι Row Key Uniq Env X World α : Type} [Schema Row Key Uniq] [DecidableEq Key] [DecidableEq Uniq]
  [DecidableEq ι] [StepEnv Env] [Outer X World Env]

/-- The rows a statement reads. -/
def Solo.view (s : Solo Row Key Env World) : Via → List Row
  | .tx => applyAll ((s.tx.map (·.writes)).getD []) s.db
  | .pool => s.db

/-- What a statement answers and writes. -/
def Solo.ask (e : Env) (s : Solo Row Key Env World) (via : Via) (q : Stmt Row Env) :
    Except (DbError Key Uniq) (List Row × List (Write Row Key)) :=
  if StepEnv.fails e then .error .failure
  else match via with
    | .pool => (q.run e s.db s.db s.db).result
    | .tx => match s.tx with
      | some t => (q.run (StepEnv.within t.env e) (s.view .tx) (s.view .tx) (s.view .tx)).result
      | none => .error .failure

/-- The state with these writes. -/
def Solo.write (s : Solo Row Key Env World) (ws : List (Write Row Key)) : Via → Solo Row Key Env World
  | .tx => { s with tx := s.tx.map fun t => { t with writes := t.writes ++ ws } }
  | .pool => { s with db := applyAll ws s.db }

/-- One operation. -/
def Solo.act (e : Env) (s : Solo Row Key Env World) : (o : Op Row Env X) → Answer o × Solo Row Key Env World
  | .begin =>
    if StepEnv.fails e then (.error .failure, s) else (.ok (), { s with tx := some { env := e, writes := [] } })
  | .query via q =>
    match s.ask e via q with
    | .error err => (.error err, s)
    | .ok (rows, ws) => (.ok rows, s.write ws via)
  | .commit =>
    if StepEnv.fails e then (.error .failure, { s with tx := none })
    else (.ok (), { s with tx := none, db := s.view .tx })
  | .rollback => (if StepEnv.fails e then .error .failure else .ok (), { s with tx := none })
  | .outer x => ((Outer.act x e s.world).1, { s with world := (Outer.act x e s.world).2 })

/-- The program run to its end; operation `n` meets `env n`. -/
def solo (env : Nat → Env) : Nat → Solo Row Key Env World → Program Row Env X α → α × Solo Row Key Env World
  | _, s, .ret a => (a, s)
  | n, s, .op o k => solo env (n + 1) (s.act (env n) o).2 (k (s.act (env n) o).1)

/-- The number of the operation that comes after the program's last. -/
def soloNext (env : Nat → Env) : Nat → Solo Row Key Env World → Program Row Env X α → Nat
  | n, _, .ret _ => n
  | n, s, .op o k => soloNext env (n + 1) (s.act (env n) o).2 (k (s.act (env n) o).1)

/-- Two programs in a row: the second runs where the first left off. -/
theorem solo_bind {β : Type} {env : Nat → Env} {p : Program Row Env X α} {f : α → Program Row Env X β} :
    ∀ {n : Nat} {s : Solo Row Key Env World}, solo env n s (p >>= f) =
      solo env (soloNext env n s p) (solo env n s p).2 (f (solo env n s p).1) := by
  induction p with
  | ret a => exact rfl
  | op o k ih => exact ih _

/-- What of a client and its server matters when nobody else is there. -/
def Server.alone (sv : Server ι Row Key Uniq World) (c : Client Row Env X) : Solo Row Key Env World :=
  { tx := c.tx, db := sv.db, world := sv.world }

theorem perform_solo {i : ι} {e : Env} {c c' : Client Row Env X} {sv sv' : Server ι Row Key Uniq World}
    {o : Op Row Env X} {r : Answer o} (h : perform i e sv.look c sv o = (r, c', sv')) :
    (sv.alone c).act e o = (r, sv'.alone c') := by
  have ha : sv.alive sv.look = sv.db := alive_now rfl
  have hl : sv.look.rows = sv.db := rfl
  cases o with
  | query via q =>
    simp only [perform, act] at h
    cases hf : StepEnv.fails e with
    | true =>
      rw [hf, if_pos rfl] at h
      cases h
      simp [Solo.act, Solo.ask, hf, Server.alone, Client.done]
    | false =>
      rw [hf, if_neg (by simp)] at h
      have hask : (plan e sv.look c sv via q).result = (sv.alone c).ask e via q := by
        cases via with
        | pool => simp [plan, Solo.ask, hf, Server.alone, ha, hl]
        | tx => cases ht : c.tx <;> simp [plan, Solo.ask, Solo.view, hf, Server.alone, ht, ha, hl]
      rw [hask] at h
      simp only [Solo.act]
      cases hres : (sv.alone c).ask e via q with
      | error err =>
        rw [hres] at h
        cases h; rfl
      | ok x =>
        obtain ⟨rows, ws⟩ := x
        rw [hres] at h
        cases via <;> cases h <;> rfl
  | begin =>
    simp only [perform, act] at h
    cases hf : StepEnv.fails e <;> simp only [hf, Bool.false_eq_true, if_false, if_true] at h <;> cases h <;>
      simp [Solo.act, hf, Server.alone, Client.done]
  | commit =>
    simp only [perform, act] at h
    cases hf : StepEnv.fails e <;> simp only [hf, Bool.false_eq_true, if_false, if_true] at h <;> cases h <;>
      simp [Solo.act, Solo.view, hf, Server.alone, Client.done, Server.release, Server.apply, Client.writes]
  | rollback =>
    simp only [perform, act] at h
    cases h; rfl
  | outer x =>
    simp only [perform, act] at h
    cases h; rfl

/-- A program alone: its answer and what it leaves, from the state. -/
theorem exec_solo {i : ι} {env : Nat → Env} {p : Program Row Env X α} :
    ∀ {n : Nat} {c : Client Row Env X} {sv : Server ι Row Key Uniq World},
      solo env n (sv.alone c) p = ((exec i env n c sv p).1, (exec i env n c sv p).2.2.2.alone (exec i env n c sv p).2.2.1) := by
  induction p with
  | ret a => exact rfl
  | op o k ih =>
    intro n c sv
    cases hx : perform i (env n) sv.look c sv o with
    | mk r rest =>
      obtain ⟨c', sv'⟩ := rest
      simp only [solo, exec, hx, perform_solo hx]
      exact ih r

end ReadCommitted
