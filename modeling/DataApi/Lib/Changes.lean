/-
Which rows differ between two stores: those that came, went or were changed,
the last as what they were and as what they are.
-/
import DataApi.Lib.Versions

namespace Relational

section
variable {Row : Type}

/-- A row of one of the two stores only. -/
def Changed (db db' : List Row) (r : Row) : Prop := (r ∈ db' ∧ r ∉ db) ∨ (r ∈ db ∧ r ∉ db')

/-- The rows that changed are all such. -/
def ChangesOnly (P : Row → Prop) (db db' : List Row) : Prop := ∀ r, Changed db db' r → P r

variable {P Q : Row → Prop} {db db' db'' : List Row} {r : Row}

theorem Changed.trans (h : Changed db db'' r) : Changed db db' r ∨ Changed db' db'' r := by
  by_cases hr : r ∈ db'
  · rcases h with ⟨-, hold⟩ | ⟨-, hnew⟩
    · exact .inl (.inl ⟨hr, hold⟩)
    · exact .inr (.inr ⟨hr, hnew⟩)
  · rcases h with ⟨hnew, -⟩ | ⟨hold, -⟩
    · exact .inr (.inl ⟨hnew, hr⟩)
    · exact .inl (.inr ⟨hold, hr⟩)

namespace ChangesOnly

theorem refl (P : Row → Prop) (db : List Row) : ChangesOnly P db db := by
  rintro r (⟨hr, hno⟩ | ⟨hr, hno⟩) <;> exact absurd hr hno

theorem trans (h : ChangesOnly P db db') (h' : ChangesOnly P db' db'') : ChangesOnly P db db'' :=
  fun r hr => hr.trans.elim (h r) (h' r)

theorem mono (h : ChangesOnly P db db') (hPQ : ∀ r, P r → Q r) : ChangesOnly Q db db' := fun r hr => hPQ r (h r hr)

theorem append {rs : List Row} (h : ∀ r ∈ rs, P r) : ChangesOnly P db (db ++ rs) := by
  rintro r (⟨hr, hno⟩ | ⟨hr, hno⟩)
  · exact h r ((List.mem_append.1 hr).resolve_left hno)
  · exact absurd (List.mem_append_left _ hr) hno

theorem filter {keep : Row → Bool} (h : ∀ r ∈ db, keep r = false → P r) : ChangesOnly P db (db.filter keep) := by
  rintro r (⟨hr, hno⟩ | ⟨hr, hno⟩)
  · exact absurd (List.mem_of_mem_filter hr) hno
  · exact h r hr (Bool.eq_false_iff.2 fun hk => hno (List.mem_filter.2 ⟨hr, hk⟩))

theorem map {f : Row → Row} (h : ∀ r ∈ db, f r ≠ r → P r ∧ P (f r)) : ChangesOnly P db (db.map f) := by
  have hmoved : ∀ x ∈ db, x ∉ db.map f → f x ≠ x := by
    rintro x hx hno heq
    exact hno (List.mem_map.2 ⟨x, hx, heq⟩)
  rintro r (⟨hr, hno⟩ | ⟨hr, hno⟩)
  · obtain ⟨x, hx, rfl⟩ := List.mem_map.1 hr
    refine (h x hx fun heq => hno ?_).2
    rw [heq]
    exact hx
  · exact (h r hr (hmoved r hr hno)).1

end ChangesOnly
end

variable {Row Key Uniq : Type} [Schema Row Key Uniq] [DecidableEq Key] {P : Row → Prop} {db : List Row} {r x : Row}

theorem KeysUnique.row_eq {y : Row} (hu : KeysUnique db) (hx : x ∈ db) (hy : y ∈ db) (hk : key x = key y) : x = y := by
  have hlookup := hu.lookup_eq hx
  rw [hk, hu.lookup_eq hy] at hlookup
  exact (Option.some.inj hlookup).symm

theorem ChangesOnly.insert (h : P r) : ChangesOnly P db (Write.apply db (.insert r)) :=
  .append fun y hy => by rwa [List.mem_singleton.1 hy]

/-- A row as it was and as it is. -/
theorem ChangesOnly.update (hu : KeysUnique db) (hx : x ∈ db) (hk : key r = key x) (hPx : P x) (hPr : P r) :
    ChangesOnly P db (Write.apply db (.update r)) := by
  refine .map fun y hy hne => ?_
  by_cases hyk : key y = key r
  · rw [if_pos hyk]
    obtain rfl : y = x := hu.row_eq hy hx (hyk.trans hk)
    exact ⟨hPx, hPr⟩
  · rw [if_neg hyk] at hne
    exact absurd rfl hne

/-- A write set changes rows of its own keys only. -/
theorem applyAll_changes (ws : List (Write Row Key)) (db : List Row) :
    ChangesOnly (fun r => ∃ w ∈ ws, w.key = key r) db (applyAll ws db) := by
  intro r hchanged
  by_contra hno
  have hkept : versions (key r) (applyAll ws db) = versions (key r) db :=
    versions_applyAll_other (fun w hw hk => hno ⟨w, hw, hk⟩) db
  have hmem : r ∈ applyAll ws db ↔ r ∈ db := by
    have := congrArg (r ∈ ·) hkept
    simpa using this
  rcases hchanged with ⟨hnew, hold⟩ | ⟨hold, hnew⟩
  · exact hold (hmem.1 hnew)
  · exact hnew (hmem.2 hold)

theorem insert_ne : Write.apply db (.insert r) ≠ db := by
  intro h
  have := congrArg List.length h
  simp [Write.apply] at this

/-- A row written as it stands. -/
theorem apply_same (hu : KeysUnique db) (hr : r ∈ db) : Write.apply db (.update r) = db := by
  refine (List.map_congr_left fun x hx => ?_).trans (List.map_id db)
  rw [id]
  split
  · next hk => exact hu.row_eq hr hx hk.symm
  · rfl

theorem update_eq_iff (hu : KeysUnique db) (hx : x ∈ db) (hk : key r = key x) :
    Write.apply db (.update r) = db ↔ r = x := by
  constructor
  · intro h
    have hmem : r ∈ Write.apply db (.update r) := List.mem_map.2 ⟨x, hx, if_pos hk.symm⟩
    rw [h] at hmem
    exact hu.row_eq hmem hx hk
  · rintro rfl
    exact apply_same hu hx

/-- The later version of a row is the one that counts. -/
theorem update_update {r r' : Row} (hk : key r' = key r) :
    Write.apply (Write.apply db (.update r)) (.update r') = Write.apply db (.update r') := by
  rw [Write.apply, Write.apply, List.map_map]
  refine List.map_congr_left fun y _ => ?_
  rw [Function.comp_apply]
  by_cases hy : key y = key r
  · rw [if_pos hy, if_pos hk.symm, if_pos (hy.trans hk.symm)]
  · rw [if_neg hy]

section
variable [DecidableEq Uniq] {touched : List Key} {oc : OnConflict Row} {rows : List Row} {ws : List (Write Row Key)}

/-- A row of an INSERT changes that row, or the one in its way. -/
theorem insertRow_changes (hu : KeysUnique db) (h : (insertRow db touched r oc).result = .ok (rows, ws)) (hr : P r)
    (hset : ∀ a (set : Setter Row) l x, oc = .doUpdate a set → l ∈ (slots r).filter a → x ∈ db → l ∈ slots x →
      P x ∧ P (set.set x)) : ChangesOnly P db (applyAll ws db) := by
  obtain ⟨-, ⟨-, rfl, -⟩ | ⟨-, rfl, -⟩ | ⟨a, set, l, x, ho, hc, -, -, -, rfl, -⟩⟩ := insertRow_cases h
  · exact .insert hr
  · exact .refl P db
  · obtain ⟨hl, hx, hlx⟩ := clash_some hc
    obtain ⟨hPx, hPset⟩ := hset a set l x ho hl hx hlx
    exact .update hu hx (set.key_set x) hPx hPset

/-- Rows that change nothing, one by one, change nothing together. -/
theorem insertRows_same {xs : List (Row × OnConflict Row)} : ∀ {touched : List Key} {rows : List Row} {ws : List (Write Row Key)},
    (∀ x ∈ xs, ∀ touched rows ws, (insertRow db touched x.1 x.2).result = .ok (rows, ws) → applyAll ws db = db) →
    (insertRows db touched xs).result = .ok (rows, ws) → applyAll ws db = db := by
  induction xs with
  | nil =>
    intro touched rows ws _ hrun
    simp only [insertRows, Except.ok.injEq, Prod.mk.injEq] at hrun
    rw [← hrun.2, applyAll_nil]
  | cons x rest ih =>
    intro touched rows ws h hrun
    obtain ⟨rows₁, ws₁, rows₂, ws₂, h₁, h₂, -, rfl, -⟩ := insertRows_cons hrun
    rw [applyAll_append]
    rw [h x (by simp) _ _ _ h₁] at h₂ ⊢
    exact ih (fun y hy => h y (List.mem_cons_of_mem _ hy)) h₂

end
end Relational
