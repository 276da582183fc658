/-
A database server under READ COMMITTED, and the clients of it.

A client is a program of database operations and of operations on an outer
world (`Outer`). A statement is two moves: it takes its snapshot (what is
committed now), and later, once no lock it needs is held by another client,
it acts on the latest versions. Locks are kept to the end of the transaction,
whose writes are seen by itself alone until they are committed. Every commit
appends to the log.

`perform` is one operation with nobody in the way; `Prog.exec` runs a whole
program so. `machine` puts the same operations behind the locks.
-/
import DataApi.Lib.Interleave
import DataApi.Lib.Relational

namespace ReadCommitted

open Resumption Relational

/-- What the environment supplies to an operation: whether the database
fails it, and the environment of a statement inside a transaction (whose
clock stands still since `BEGIN`). -/
class StepEnv (Env : Type) where
  fails : Env → Bool
  within : Env → Env → Env

/-- Operations on the world outside the database. -/
class Outer (X : Type) (World Env : outParam Type) where
  Ans : X → Type
  act : (x : X) → Env → World → Ans x × World

/-- Where a statement runs: in the client's open transaction, or on its own. -/
inductive Via
  | tx
  | pool
  deriving DecidableEq

variable {ι Row Key Uniq Env X World α β : Type}

inductive Op (Row Env X : Type) [Schema Row Key Uniq]
  | begin
  | query (via : Via) (s : Stmt Row Env)
  | commit
  | rollback
  | outer (x : X)

@[reducible] def Answer [Schema Row Key Uniq] [Outer X World Env] : Op Row Env X → Type
  | .query _ _ => Except (DbError Key Uniq) (List Row)
  | .outer x => Outer.Ans x
  | _ => Except (DbError Key Uniq) Unit

abbrev Program (Row Env X : Type) [Schema Row Key Uniq] [Outer X World Env] : Type → Type :=
  Prog (@Answer Row Key Uniq Env X World _ _)

/-- An open transaction: the environment it began in, and its writes. -/
structure Tx (Row Key Env : Type) where
  env : Env
  writes : List (Write Row Key)

/-- What was committed when `time` transactions had been. -/
structure Snapshot (Row : Type) where
  rows : List Row
  time : Nat

/-- A client: its open transaction, the snapshot of the statement it is in,
and the operations it has completed, oldest first. -/
structure Client (Row Env X : Type) [Schema Row Key Uniq] [Outer X World Env] where
  tx : Option (Tx Row Key Env) := none
  snap : Option (Snapshot Row) := none
  hist : List ((o : Op Row Env X) × Answer o) := []

/-- The server and the outer world. `log` holds the committed transactions
in commit order. -/
structure Server (ι Row Key Uniq World : Type) where
  db : List Row
  log : List (ι × List (Write Row Key)) := []
  locks : List (ι × Need Key Uniq) := []
  world : World

section
variable [Schema Row Key Uniq] [DecidableEq Key] [DecidableEq Uniq] [DecidableEq ι] [StepEnv Env] [Outer X World Env]

def Server.release (sv : Server ι Row Key Uniq World) (i : ι) : Server ι Row Key Uniq World :=
  { sv with locks := sv.locks.filter fun l => l.1 ≠ i }

def Server.apply (sv : Server ι Row Key Uniq World) (i : ι) (ws : List (Write Row Key)) :
    Server ι Row Key Uniq World :=
  { sv with db := applyAll ws sv.db, log := sv.log ++ [(i, ws)] }

/-- A lock that conflicts with one of `needs` is held by another client, or,
for a statement outside the transaction, by anyone. -/
def Server.blocks (sv : Server ι Row Key Uniq World) (i : ι) (via : Via) (needs : List (Need Key Uniq)) : Bool :=
  needs.any fun n => sv.locks.any fun l =>
    (via = .pool || l.1 ≠ i) && l.2.1 = n.1 && l.2.2.conflicts n.2

/-- A snapshot of this very moment. -/
def Server.look (sv : Server ι Row Key Uniq World) : Snapshot Row := { rows := sv.db, time := sv.log.length }

/-- A transaction committed since `time` deleted `k`. -/
def Server.deletedSince (sv : Server ι Row Key Uniq World) (time : Nat) (k : Key) : Bool :=
  (sv.log.drop time).any fun t => t.2.any fun w => w.deletes = some k

/-- The rows of the snapshot that are still there. -/
def Server.alive (sv : Server ι Row Key Uniq World) (snap : Snapshot Row) : List Row :=
  snap.rows.filter fun r => !sv.deletedSince snap.time (key r)

/-- The writes of the open transaction. -/
def Client.writes (c : Client Row Env X) : List (Write Row Key) := (c.tx.map (·.writes)).getD []

/-- The effect of a statement, given its snapshot of the committed rows. -/
def plan (e : Env) (snap : Snapshot Row) (c : Client Row Env X) (sv : Server ι Row Key Uniq World) :
    Via → Stmt Row Env → Effect Row Key Uniq
  | .tx, s => match c.tx with
    | some t => s.run (StepEnv.within t.env e) (applyAll t.writes snap.rows)
        (applyAll t.writes (sv.alive snap)) (applyAll t.writes sv.db)
    | none => { needs := [], result := .error .failure }
  | .pool, s => s.run e snap.rows (sv.alive snap) sv.db

/-- One operation of client `i`, with nobody in the way. -/
def act (i : ι) (e : Env) (snap : Snapshot Row) (c : Client Row Env X) (sv : Server ι Row Key Uniq World) :
    (o : Op Row Env X) → Answer o × Client Row Env X × Server ι Row Key Uniq World
  | .begin =>
    if StepEnv.fails e then (.error .failure, c, sv)
    else (.ok (), { c with tx := some { env := e, writes := [] } }, sv)
  | .query via s =>
    if StepEnv.fails e then (.error .failure, c, sv) else
    let p := plan e snap c sv via s
    match p.result with
    | .error err => (.error err, c, sv)
    | .ok (rows, ws) =>
      match via with
      | .tx => (.ok rows, { c with tx := c.tx.map fun t => { t with writes := t.writes ++ ws } },
          { sv with locks := p.needs.map (i, ·) ++ sv.locks })
      | .pool => (.ok rows, c, sv.apply i ws)
  | .commit =>
    if StepEnv.fails e then (.error .failure, { c with tx := none }, sv.release i)
    else (.ok (), { c with tx := none }, (sv.apply i c.writes).release i)
  | .rollback =>
    (if StepEnv.fails e then .error .failure else .ok (), { c with tx := none }, sv.release i)
  | .outer x =>
    let (r, w) := Outer.act x e sv.world
    (r, c, { sv with world := w })

/-- The operation is over: it goes to the history, and its snapshot is gone. -/
def Client.done (c : Client Row Env X) (o : Op Row Env X) (r : Answer o) :
    Client Row Env X :=
  { c with snap := none, hist := c.hist ++ [⟨o, r⟩] }

def perform (i : ι) (e : Env) (snap : Snapshot Row) (c : Client Row Env X) (sv : Server ι Row Key Uniq World)
    (o : Op Row Env X) : Answer o × Client Row Env X × Server ι Row Key Uniq World :=
  let (r, c, sv) := act i e snap c sv o
  (r, c.done o r, sv)

/-! ## Alone -/

/-- A program run to its end with no other client; operation `n` meets the
environment `env n`. -/
def exec (i : ι) (env : Nat → Env) : Nat → Client Row Env X → Server ι Row Key Uniq World →
    Program Row Env X α → α × Nat × Client Row Env X × Server ι Row Key Uniq World
  | n, c, sv, .ret a => (a, n, c, sv)
  | n, c, sv, .op o k =>
    let (r, c, sv) := perform i (env n) sv.look c sv o
    exec i env (n + 1) c sv (k r)

/-! ## Among others -/

/-- A statement takes its snapshot, and acts when no lock is in its way; a
failure needs no lock. The other operations are one move. A returned program
drops its transaction. -/
def machine : Machine ι (@Answer Row Key Uniq Env X World _ _) Env
    (Client Row Env X) (Server ι Row Key Uniq World) where
  exec i e c sv o :=
    match o with
    | .query via s =>
      match c.snap with
      | none => some (none, { c with snap := some sv.look }, sv)
      | some snap =>
        if !StepEnv.fails e && sv.blocks i via (plan e snap c sv via s).needs then none
        else
          let (r, c, sv) := perform i e snap c sv (.query via s)
          some (some r, c, sv)
    | o =>
      let (r, c, sv) := perform i e sv.look c sv o
      some (some r, c, sv)
  close i c sv := c.tx.map fun _ => ({ c with tx := none }, sv.release i)

end
end ReadCommitted
