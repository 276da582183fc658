/-
The service's world: the database server (`ReadCommitted`), the object
store, the event bus, the counters, the clock and the random draws; and the
handler monad, where `?` on a statement is `query`.
-/
import DataApi.Events
import DataApi.ObjectStore
import DataApi.Lib.ReadCommitted

namespace DataApi

open Relational ReadCommitted Resumption

/-- What one operation meets: the clock, the draws of `gen_random_uuid()`
and of `ETag::new_random()`, and what fails. -/
structure Env where
  now : Timestamp
  uuid : Nat → Uuid
  etag : ETag
  fails : Bool
  storeFails : String → Bool

instance : StepEnv Env where
  fails := Env.fails
  within b e := { e with now := b.now }

structure World where
  store : ObjectStore
  bus : List Event
  counters : String → Nat

/-- What handlers do outside the database. -/
inductive Io
  | put (key : String) (body : Bytes) (contentType : String)
  | get (key : String)
  | deleteMany (keys : List String)
  | send (ev : Event)
  | utcNow
  | newEtag
  | incCounter (name : String) («by» : Nat)
  | toBytes (body : Bytes) (limit : Nat)

@[reducible] def Io.Ans : Io → Type
  | .put _ _ _ => Except AppError Unit
  | .get _ => Except AppError Bytes
  | .deleteMany _ => Except AppError Nat
  | .send _ => Unit
  | .utcNow => Timestamp
  | .newEtag => ETag
  | .incCounter _ _ => Unit
  | .toBytes _ _ => Except String Bytes

def Io.act : (x : Io) → Env → World → x.Ans × World
  | .put key body _, e, w =>
    let (r, st) := w.store.put e.storeFails key body
    (r, { w with store := st })
  | .get key, e, w => (w.store.get e.storeFails key, w)
  | .deleteMany keys, e, w =>
    let (r, st) := w.store.deleteMany e.storeFails keys 0
    (r, { w with store := st })
  | .send ev, _, w => ((), { w with bus := w.bus ++ [ev] })
  | .utcNow, e, w => (e.now, w)
  | .newEtag, e, w => (e.etag, w)
  | .incCounter name n, _, w =>
    ((), { w with counters := fun x => if x = name then (w.counters x + n) % 2 ^ 64 else w.counters x })
  -- `axum::body::to_bytes`: the body breaks off, or is longer than the limit.
  | .toBytes body limit, e, w =>
    (if e.fails then .error "connection error" else if limit < body.length then .error "length limit exceeded"
      else .ok body, w)

@[reducible] instance : Outer Io World Env where
  Ans := Io.Ans
  act := Io.act

abbrev Sql := Stmt Row Env

abbrev Operation := Op Row Env Io

abbrev Code : Type → Type := Program Row Env Io

/-- A handler: its `?` returns early with an `AppError`. -/
abbrev Handler : Type → Type := ExceptT AppError Code

abbrev Conn := Client Row Env Io

abbrev Sv (ι : Type) := Server ι Row Key Uniq World

namespace Handler

def perform (o : Operation) : Handler (Answer o) := ExceptT.lift (Prog.perform o)

/-- `?` on a database call: `sqlx::Error` becomes `AppError::Database`. -/
def ofDb {α : Type} : Except (DbError Key Uniq) α → Handler α
  | .ok a => pure a
  | .error e => throw (.database e)

def query (via : Via) (s : Sql) : Handler (List Row) := perform (.query via s) >>= ofDb

def begin : Handler Unit := perform .begin >>= ofDb

def commit : Handler Unit := perform .commit >>= ofDb

def rollback : Handler Unit := perform .rollback >>= ofDb

/-- `?` on anything that is an `AppError` already. -/
def ofResult {α : Type} : Except AppError α → Handler α
  | .ok a => pure a
  | .error e => throw e

/-- `if b { return Err(e) }`. -/
def refuseIf (b : Bool) (e : AppError) : Handler Unit := if b then throw e else pure ()

/-! ## `fetch_all`, `fetch_optional`, `fetch_one`, `execute` -/

variable {τ : Type}

def fetchAll (via : Via) (T : Table Row τ) (s : Sql) : Handler (List τ) := do
  return T.rows (← query via s)

def fetchOptional (via : Via) (T : Table Row τ) (s : Sql) : Handler (Option τ) := do
  return (T.rows (← query via s)).head?

def fetchOne (via : Via) (T : Table Row τ) (s : Sql) : Handler τ := do
  match (T.rows (← query via s)).head? with
  | some t => return t
  | none => throw (.database .rowNotFound)

/-- `rows_affected`. -/
def execute (via : Via) (s : Sql) : Handler Nat := do
  return (← query via s).length

/-! ## The outer world -/

def put (key : String) (body : Bytes) (contentType : String) : Handler Unit := do
  ofResult (← perform (.outer (.put key body contentType)))

/-- `store.get`. -/
def storeGet (key : String) : Handler Bytes := do
  ofResult (← perform (.outer (.get key)))

/-- The answer as it is: no caller returns early on it. -/
def deleteMany (keys : List String) : Handler (Except AppError Nat) := perform (.outer (.deleteMany keys))

def send (ev : Event) : Handler Unit := perform (.outer (.send ev))

def utcNow : Handler Timestamp := perform (.outer .utcNow)

def newEtag : Handler ETag := perform (.outer .newEtag)

def incCounter (name : String) (n : Nat) : Handler Unit := perform (.outer (.incCounter name n))

def toBytes (body : Bytes) (limit : Nat) : Handler Bytes := do
  match ← perform (.outer (.toBytes body limit)) with
  | .ok bytes => return bytes
  | .error e => throw (.badRequest s!"read body: {e}")

end Handler

/-! ## `db::audit_log` -/

namespace AuditLog

open Handler

structure Entry where
  actorService : String
  actorPseudo : Option String
  sessionId : Option Uuid
  resourceType : String
  resourceId : String
  action : String
  detail : Option Json

def row (e : Entry) (env : Env) : AuditRow :=
  { id := env.uuid 0, atTs := env.now, actorService := e.actorService, actorPseudo := e.actorPseudo
    sessionId := e.sessionId, resourceType := e.resourceType, resourceId := e.resourceId
    action := e.action, detail := e.detail }

def appendSql (e : Entry) : Sql := auditT.insert fun env _ => .ok (row e env)

/-- `append`, through the pool. -/
def append (e : Entry) : Handler Unit := do
  let _ ← execute .pool (appendSql e)

/-- `append_tx`, in the caller's transaction. -/
def appendTx (e : Entry) : Handler Unit := do
  let _ ← execute .tx (appendSql e)

end AuditLog
end DataApi
