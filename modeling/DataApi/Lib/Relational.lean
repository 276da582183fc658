/-
A relational store as the list of its rows, and what one SQL statement does
to it.

A statement is evaluated against three stores: `snap`, what its snapshot
sees, `alive`, the rows of the snapshot that were not deleted since, and
`cur`, the latest versions. A query reads the snapshot; a statement that
locks, changes or deletes rows finds them in the snapshot and acts on the
latest versions of those still alive (READ COMMITTED); uniqueness and foreign
keys are judged by the latest versions. Its effect is the locks it needs, its
answer, and the row versions it writes.
-/
import Mathlib.Data.List.Basic

namespace Relational

/-- What the table definitions say of a row: its primary key, its UNIQUE
values, the rows it references (every reference is ON DELETE CASCADE), and
whether its CHECK constraints hold. -/
class Schema (Row : Type) (Key Uniq : outParam Type) where
  key : Row → Key
  uniques : Row → List Uniq
  refs : Row → List Key
  check : Row → Bool

export Schema (key uniques refs check)

/-- What a transaction can lock: a row, and the index entries that keep a
primary key or a UNIQUE value single. -/
inductive Lockable (Key Uniq : Type)
  | row (k : Key)
  | pk (k : Key)
  | uniq (u : Uniq)
  deriving DecidableEq

inductive Mode
  | keyShare
  | noKeyUpdate
  | update
  deriving DecidableEq

def Mode.conflicts : Mode → Mode → Bool
  | .keyShare, .update | .update, .keyShare => true
  | .keyShare, _ | _, .keyShare => false
  | _, _ => true

/-- Why a statement fails. `failure` is everything outside the model: the
connection, a cancelled statement, a value the server refuses. -/
inductive DbError (Key Uniq : Type)
  | failure
  | unique (l : Lockable Key Uniq)
  | foreignKey (k : Key)
  | check
  | cardinality
  | outOfRange
  | rowNotFound
  deriving DecidableEq

inductive Write (Row Key : Type)
  | insert (r : Row)
  | update (r : Row)
  | delete (k : Key)

section
variable (Row : Type) {Key Uniq : Type} [Schema Row Key Uniq]

/-- A SET clause: it leaves key, UNIQUE and reference columns alone. -/
structure Setter where
  set : Row → Row
  key_set : ∀ r, key (set r) = key r
  uniques_set : ∀ r, uniques (set r) = uniques r
  refs_set : ∀ r, refs (set r) = refs r

/-- `ON CONFLICT`: the arbiter says on which index the clause applies. -/
inductive OnConflict
  | error
  | doNothing (arbiter : Lockable Key Uniq → Bool)
  | doUpdate (arbiter : Lockable Key Uniq → Bool) (set : Setter Row)

/-- SQL statements, by shape. `insert` computes its rows from the snapshot. -/
inductive Stmt (Env : Type)
  | select (p : Env → Row → Bool)
  | forUpdate (p : Row → Bool)
  | insert (rows : Env → List Row → Except (DbError Key Uniq) (List (Row × OnConflict Row)))
  | update (p : Row → Bool) (set : Env → Setter Row)
  | delete (p : Row → Bool)

end

variable {Row Key Uniq Env : Type} [Schema Row Key Uniq] [DecidableEq Key]

abbrev Need (Key Uniq : Type) := Lockable Key Uniq × Mode

/-! ## Writes -/

def Write.key : Write Row Key → Key
  | .insert r | .update r => Schema.key r
  | .delete k => k

def Write.apply (db : List Row) : Write Row Key → List Row
  | .insert r => db ++ [r]
  | .update r => db.map fun x => if Schema.key x = Schema.key r then r else x
  | .delete k => db.filter fun x => Schema.key x ≠ k

/-- The key a write removes. -/
def Write.deletes : Write Row Key → Option Key
  | .delete k => some k
  | _ => none

def applyAll (ws : List (Write Row Key)) (db : List Row) : List Row := ws.foldl Write.apply db

@[simp] theorem applyAll_nil (db : List Row) : applyAll ([] : List (Write Row Key)) db = db := rfl

@[simp] theorem applyAll_cons (w : Write Row Key) (ws : List (Write Row Key)) (db : List Row) :
    applyAll (w :: ws) db = applyAll ws (w.apply db) := rfl

@[simp] theorem applyAll_append (ws vs : List (Write Row Key)) (db : List Row) :
    applyAll (ws ++ vs) db = applyAll vs (applyAll ws db) := by simp [applyAll]

/-! ## Statements -/

variable [DecidableEq Uniq]

/-- The index entries a row occupies. -/
def slots (r : Row) : List (Lockable Key Uniq) := .pk (key r) :: (uniques r).map .uniq

/-- The rows a locking statement acts on: seen by the snapshot, not deleted
since, and still matching in their latest version. -/
def hits (p : Row → Bool) (alive cur : List Row) : List Row :=
  cur.filter fun r => p r && alive.any fun x => p x && key x = key r

/-- The first of `ls` that some row occupies already, and that row. -/
def clash (db : List Row) (ls : List (Lockable Key Uniq)) : Option (Lockable Key Uniq × Row) :=
  ls.findSome? fun l => (db.find? fun e => l ∈ slots e).map (l, ·)

/-- The rows that reference one of `dead`. -/
def dependents (db dead : List Row) : List Row :=
  db.filter fun r => (refs r).any fun k => dead.any fun d => key d = k

/-- `dead` and, level by level, what references it. -/
def cascade : Nat → List Row → List Row → List Row
  | 0, _, _ => []
  | n + 1, db, dead => dead ++ cascade n db (dependents db dead)

structure Effect (Row Key Uniq : Type) where
  needs : List (Need Key Uniq)
  result : Except (DbError Key Uniq) (List Row × List (Write Row Key))

/-- Enter a row no index entry of which is taken: its parents must exist. -/
def enter (db : List Row) (r : Row) : Effect Row Key Uniq where
  needs := (.row (key r), .update) :: (slots r).map (·, .update) ++ (refs r).map (.row ·, .keyShare)
  result := match (refs r).find? fun k => !db.any fun x => key x = k with
    | some k => .error (.foreignKey k)
    | none => .ok ([r], [.insert r])

/-- Insert one row. A taken index entry is an error, unless the arbiter of
the `ON CONFLICT` clause covers it; `touched` are the keys this very
statement wrote already. -/
def insertRow (db : List Row) (touched : List Key) (r : Row) (oc : OnConflict Row) :
    Effect Row Key Uniq :=
  let wait := (slots r).map (·, Mode.update)
  let plain := match clash db (slots r) with
    | some (l, _) => { needs := wait, result := .error (.unique l) }
    | none => enter db r
  if !check r then { needs := [], result := .error .check }
  else match oc with
  | .error => plain
  | .doNothing arbiter =>
    match clash db ((slots r).filter arbiter) with
    | some _ => { needs := wait, result := .ok ([], []) }
    | none => plain
  | .doUpdate arbiter set =>
    match clash db ((slots r).filter arbiter) with
    | some (_, e) =>
      { needs := (.row (key e), .noKeyUpdate) :: wait
        result :=
          if key e ∈ touched then .error .cardinality
          else if check (set.set e) then .ok ([set.set e], [.update (set.set e)])
          else .error .check }
    | none => plain

/-- The rows of one INSERT, each seeing those before it. -/
def insertRows : List Row → List Key → List (Row × OnConflict Row) → Effect Row Key Uniq
  | _, _, [] => { needs := [], result := .ok ([], []) }
  | db, touched, (r, oc) :: rest =>
    let e := insertRow db touched r oc
    match e.result with
    | .error err => { needs := e.needs, result := .error err }
    | .ok (rows, ws) =>
      let e' := insertRows (applyAll ws db) (ws.map Write.key ++ touched) rest
      { needs := e.needs ++ e'.needs
        result := e'.result.map fun (rows', ws') => (rows ++ rows', ws ++ ws') }

/-- What a statement does. -/
def Stmt.run (env : Env) (snap alive cur : List Row) : Stmt Row Env → Effect Row Key Uniq
  | .select p => { needs := [], result := .ok (snap.filter (p env), []) }
  | .forUpdate p =>
    { needs := (hits p alive cur).map fun r => (.row (key r), .update)
      result := .ok (hits p alive cur, []) }
  | .insert rows =>
    match rows env snap with
    | .error e => { needs := [], result := .error e }
    | .ok xs => insertRows cur [] xs
  | .update p set =>
    let new := (hits p alive cur).map (set env).set
    { needs := (hits p alive cur).map fun r => (.row (key r), .noKeyUpdate)
      result := if new.all check then .ok (new, new.map .update) else .error .check }
  | .delete p =>
    let dead := cascade (cur.length + 1) cur (hits p alive cur)
    { needs := dead.flatMap fun r => (.row (key r), .update) :: (slots r).map (·, .update)
      result := .ok (hits p alive cur, dead.map fun r => .delete (key r)) }

end Relational
