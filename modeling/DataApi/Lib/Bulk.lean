/-
A DELETE or an UPDATE of many rows, as a function of the stored rows: what it
deletes is filtered out, what it updates is mapped.
-/
import DataApi.Lib.Statements

namespace Relational

variable {Row Key Uniq : Type} [Schema Row Key Uniq]

theorem KeysUnique.filter {db : List Row} (h : KeysUnique db) (p : Row → Bool) : KeysUnique (db.filter p) :=
  h.sublist (List.filter_sublist.map _)

/-- The first row's key is no other row's. -/
theorem KeysUnique.head {x : Row} {db : List Row} (h : KeysUnique (x :: db)) :
    KeysUnique db ∧ ∀ r ∈ db, key r ≠ key x := by
  have hcons := List.nodup_cons.1 h
  exact ⟨hcons.2, fun r hr hk => hcons.1 (hk ▸ List.mem_map_of_mem hr)⟩

variable [DecidableEq Key]

/-- Writes to other rows pass over the first. -/
theorem applyAll_cons_other {ws : List (Write Row Key)} {x : Row} (h : ∀ w ∈ ws, w.key ≠ key x) :
    ∀ db : List Row, applyAll ws (x :: db) = x :: applyAll ws db := by
  induction ws with
  | nil => exact fun db => rfl
  | cons w ws ih =>
    intro db
    have hw : key x ≠ w.key := Ne.symm (h w (by simp))
    have hstep : w.apply (x :: db) = x :: w.apply db := by
      cases w with
      | insert r => rfl
      | update r =>
        have hx : key x ≠ key r := hw
        simp only [Write.apply, List.map_cons, if_neg hx]
      | delete k =>
        have hx : key x ≠ k := hw
        simp [Write.apply, hx]
    rw [applyAll_cons, applyAll_cons, hstep, ih fun v hv => h v (List.mem_cons_of_mem _ hv)]

theorem applyAll_deletes (p : Row → Bool) {db : List Row} (hu : KeysUnique db) :
    applyAll ((db.filter p).map fun r => Write.delete (key r)) db = db.filter fun r => !p r := by
  induction db with
  | nil => rfl
  | cons x db ih =>
    obtain ⟨htail, hx⟩ := hu.head
    have hother : ∀ w ∈ (db.filter p).map fun r => (.delete (key r) : Write Row Key), w.key ≠ key x := by
      intro w hw
      obtain ⟨r, hr, rfl⟩ := List.mem_map.1 hw
      exact hx r (List.mem_of_mem_filter hr)
    cases hp : p x with
    | true =>
      have hgone : Write.apply (x :: db) (.delete (key x)) = db := by
        rw [Write.apply, List.filter_cons_of_neg (by simp)]
        exact List.filter_eq_self.2 fun r hr => by simpa using hx r hr
      rw [List.filter_cons_of_pos hp, List.map_cons, applyAll_cons, hgone, ih htail,
        List.filter_cons_of_neg (by simp [hp])]
    | false =>
      rw [List.filter_cons_of_neg (by simp [hp]), applyAll_cons_other hother, ih htail,
        List.filter_cons_of_pos (by simp [hp])]

theorem applyAll_updates (p : Row → Bool) {f : Row → Row} (hf : ∀ r, key (f r) = key r) {db : List Row}
    (hu : KeysUnique db) : applyAll ((db.filter p).map fun r => Write.update (f r)) db =
      db.map fun r => if p r then f r else r := by
  induction db with
  | nil => rfl
  | cons x db ih =>
    obtain ⟨htail, hx⟩ := hu.head
    have hother : ∀ w ∈ (db.filter p).map fun r => (.update (f r) : Write Row Key), w.key ≠ key x := by
      intro w hw
      obtain ⟨r, hr, rfl⟩ := List.mem_map.1 hw
      exact fun hk => hx r (List.mem_of_mem_filter hr) ((hf r).symm.trans hk)
    cases hp : p x with
    | true =>
      have hset : Write.apply (x :: db) (.update (f x)) = f x :: db := by
        rw [Write.apply, List.map_cons, if_pos (hf x).symm]
        refine congrArg _ ((List.map_congr_left fun r hr => ?_).trans (List.map_id db))
        exact if_neg fun hk => hx r hr (hk.trans (hf x))
      have hother' : ∀ w ∈ (db.filter p).map fun r => (.update (f r) : Write Row Key), w.key ≠ key (f x) := by
        rw [hf]
        exact hother
      rw [List.filter_cons_of_pos hp, List.map_cons, applyAll_cons, hset, applyAll_cons_other hother', ih htail,
        List.map_cons, if_pos hp]
    | false =>
      rw [List.filter_cons_of_neg (by simp [hp]), applyAll_cons_other hother, ih htail, List.map_cons,
        if_neg (by simp [hp])]

/-! ## Rows nothing references -/

theorem cascade_nil (n : Nat) (db : List Row) : cascade n db [] = [] := by
  induction n with
  | zero => rfl
  | succ n ih =>
    have hnone : dependents db ([] : List Row) = [] := List.filter_eq_nil_iff.2 fun r _ => by simp
    rw [cascade, hnone, ih]
    rfl

theorem cascade_leaf {db dead : List Row} (h : dependents db dead = []) (n : Nat) : cascade (n + 1) db dead = dead := by
  rw [cascade, h, cascade_nil, List.append_nil]

end Relational
