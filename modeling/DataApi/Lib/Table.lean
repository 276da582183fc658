/-
Typed tables of a relational store: the rows of one kind, and the SQL
statements on them.
-/
import DataApi.Lib.Relational

namespace Relational

/-- A table: which rows of the store are its, and as what. -/
structure Table (Row τ : Type) where
  get : Row → Option τ
  put : τ → Row
  get_eq : ∀ {r t}, get r = some t ↔ r = put t

variable {Row Key Uniq Env τ : Type} [Schema Row Key Uniq] [DecidableEq Key]

namespace Table

variable (T : Table Row τ)

def rows (db : List Row) : List τ := db.filterMap T.get

/-- The rows of the table that satisfy a WHERE clause. -/
def is (p : τ → Bool) (r : Row) : Bool := (T.get r).any p

@[simp] theorem get_put (t : τ) : T.get (T.put t) = some t := T.get_eq.2 rfl

@[simp] theorem is_put (p : τ → Bool) (t : τ) : T.is p (T.put t) = p t := by simp [is]

def select (p : τ → Bool) : Stmt Row Env := .select fun _ => T.is p

/-- A query whose WHERE clause reads the environment. -/
def selectAt (p : Env → τ → Bool) : Stmt Row Env := .select fun env => T.is (p env)

def forUpdate (p : τ → Bool) : Stmt Row Env := .forUpdate (T.is p)

def insert (mk : Env → List Row → Except (DbError Key Uniq) τ) (oc : OnConflict Row := .error) : Stmt Row Env :=
  .insert fun env snap => (mk env snap).map fun t => [(T.put t, oc)]

/-- `f` on the rows of the table. -/
def lift (f : τ → τ) (r : Row) : Row := ((T.get r).map (T.put ∘ f)).getD r

@[simp] theorem lift_put (f : τ → τ) (t : τ) : T.lift f (T.put t) = T.put (f t) := by simp [lift]

theorem lift_other (f : τ → τ) {r : Row} (h : T.get r = none) : T.lift f r = r := by simp [lift, h]

/-- `f` does not touch the columns an UPDATE may not set. -/
def Keeps (f : τ → τ) : Prop :=
  ∀ t, key (T.put (f t)) = key (T.put t) ∧ uniques (T.put (f t)) = uniques (T.put t) ∧
    refs (T.put (f t)) = refs (T.put t)

def setter (f : τ → τ) (h : T.Keeps f := by intro; exact ⟨rfl, rfl, rfl⟩) : Setter Row where
  set := T.lift f
  key_set r := by
    cases hr : T.get r with
    | none => rw [lift_other T f hr]
    | some t => rw [T.get_eq.1 hr, lift_put]; exact (h t).1
  uniques_set r := by
    cases hr : T.get r with
    | none => rw [lift_other T f hr]
    | some t => rw [T.get_eq.1 hr, lift_put]; exact (h t).2.1
  refs_set r := by
    cases hr : T.get r with
    | none => rw [lift_other T f hr]
    | some t => rw [T.get_eq.1 hr, lift_put]; exact (h t).2.2

def update (p : τ → Bool) (set : Env → τ → τ)
    (h : ∀ e, T.Keeps (set e) := by intro e t; exact ⟨rfl, rfl, rfl⟩) : Stmt Row Env :=
  .update (T.is p) fun env => T.setter (set env) (h env)

def delete (p : τ → Bool) : Stmt Row Env := .delete (T.is p)

end Table
end Relational
