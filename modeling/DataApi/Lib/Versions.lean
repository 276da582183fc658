/-
What writes and statements do to the row versions at one key. Writes act
locally (`versions_applyAll`), a statement locks every row it writes
(`Stmt.run_covered`), and primary keys stay single (`Stmt.run_keysUnique`).
-/
import DataApi.Lib.Relational
import Mathlib.Data.List.Nodup
import Mathlib.Data.List.Count

namespace Relational

variable {Row Key Uniq Env : Type} [Schema Row Key Uniq] [DecidableEq Key]

/-- The rows under a key. -/
def versions (k : Key) (db : List Row) : List Row := db.filter fun r => key r = k

/-- The row under a key. -/
def lookup (k : Key) (db : List Row) : Option Row := (versions k db).head?

def KeysUnique (db : List Row) : Prop := (db.map key).Nodup

instance (db : List Row) : Decidable (KeysUnique db) := inferInstanceAs (Decidable (db.map key).Nodup)

@[simp] theorem mem_versions {k : Key} {db : List Row} {r : Row} : r ∈ versions k db ↔ r ∈ db ∧ key r = k := by
  simp [versions]

theorem keysUnique_iff {db : List Row} : KeysUnique db ↔ ∀ k, (versions k db).length ≤ 1 := by
  have hcount : ∀ k, (db.map key).count k = (versions k db).length := by
    intro k
    rw [List.count, List.countP_map, List.countP_eq_length_filter]
    rfl
  simp only [KeysUnique, List.nodup_iff_count_le_one, hcount]

theorem KeysUnique.versions_eq {db : List Row} (h : KeysUnique db) {r : Row} (hr : r ∈ db) :
    versions (key r) db = [r] := by
  have hlen := keysUnique_iff.1 h (key r)
  have hmem : r ∈ versions (key r) db := by simp [hr]
  match hv : versions (key r) db, hlen, hmem with
  | [x], _, hx => rw [List.mem_singleton.1 hx]

theorem KeysUnique.lookup_eq {db : List Row} (h : KeysUnique db) {r : Row} (hr : r ∈ db) :
    lookup (key r) db = some r := by
  rw [lookup, h.versions_eq hr]; rfl

theorem lookup_mem {k : Key} {db : List Row} {r : Row} (h : lookup k db = some r) : r ∈ db ∧ key r = k :=
  mem_versions.1 (List.mem_of_mem_head? h)

theorem KeysUnique.lookup_iff {db : List Row} (h : KeysUnique db) {k : Key} {r : Row} :
    lookup k db = some r ↔ r ∈ db ∧ key r = k := by
  refine ⟨lookup_mem, ?_⟩
  rintro ⟨hr, rfl⟩
  exact h.lookup_eq hr

theorem lookup_none {k : Key} {db : List Row} : lookup k db = none ↔ ∀ r ∈ db, key r ≠ k := by
  simp [lookup, versions]

/-! ## Writes are local -/

theorem versions_apply_self (w : Write Row Key) (db : List Row) :
    versions w.key (w.apply db) = w.apply (versions w.key db) := by
  cases w with
  | insert r => simp [versions, Write.apply, Write.key]
  | update r =>
    simp only [versions, Write.apply, Write.key, List.filter_map]
    congr 1
    refine List.filter_congr fun x _ => ?_
    by_cases hx : key x = key r <;> simp [hx]
  | delete k =>
    simp only [versions, Write.apply, Write.key, List.filter_filter]
    refine List.filter_congr fun x _ => ?_
    exact Bool.and_comm _ _

theorem versions_apply_other {k : Key} {w : Write Row Key} (h : w.key ≠ k) (db : List Row) :
    versions k (w.apply db) = versions k db := by
  cases w with
  | insert r =>
    have hr : key r ≠ k := h
    simp [versions, Write.apply, hr]
  | update r =>
    have hr : key r ≠ k := h
    induction db with
    | nil => rfl
    | cons x db ih =>
      by_cases hx : key x = key r
      · simpa [versions, Write.apply, hx, hr] using ih
      · by_cases hk : key x = k
        · simpa [versions, Write.apply, hk, Ne.symm hr] using ih
        · simpa [versions, Write.apply, hx, hk] using ih
  | delete k' =>
    simp only [versions, Write.apply, List.filter_filter]
    refine List.filter_congr fun x _ => ?_
    by_cases hx : key x = k
    · have : key x ≠ k' := fun hxk => h (hxk.symm.trans hx)
      simp [hx, hx ▸ this]
    · simp [hx]

/-- A row of the store was there before, or was just written. -/
theorem mem_applyAll {ws : List (Write Row Key)} : ∀ {db : List Row} {r : Row}, r ∈ applyAll ws db →
    r ∈ db ∨ .insert r ∈ ws ∨ .update r ∈ ws := by
  induction ws with
  | nil => exact fun h => .inl h
  | cons w ws ih =>
    intro db r h
    rcases ih h with h | h | h
    · cases w with
      | insert x =>
        rcases List.mem_append.1 h with h | h
        · exact .inl h
        · exact .inr (.inl (by simp [List.mem_singleton.1 h]))
      | update x =>
        obtain ⟨y, hy, hyr⟩ := List.mem_map.1 h
        by_cases hk : key y = key x
        · rw [if_pos hk] at hyr
          exact .inr (.inr (by simp [hyr]))
        · rw [if_neg hk] at hyr
          exact .inl (hyr ▸ hy)
      | delete k => exact .inl (List.mem_filter.1 h).1
    · exact .inr (.inl (List.mem_cons_of_mem _ h))
    · exact .inr (.inr (List.mem_cons_of_mem _ h))

theorem versions_applyAll (k : Key) (ws : List (Write Row Key)) (db : List Row) :
    versions k (applyAll ws db) = applyAll (ws.filter fun w => w.key = k) (versions k db) := by
  induction ws generalizing db with
  | nil => rfl
  | cons w ws ih =>
    by_cases hw : w.key = k
    · rw [applyAll_cons, ih, List.filter_cons_of_pos (by simpa using hw), applyAll_cons]
      subst hw; rw [versions_apply_self]
    · rw [applyAll_cons, ih, List.filter_cons_of_neg (by simpa using hw), versions_apply_other hw]

theorem versions_applyAll_other {k : Key} {ws : List (Write Row Key)} (h : ∀ w ∈ ws, w.key ≠ k) (db : List Row) :
    versions k (applyAll ws db) = versions k db := by
  rw [versions_applyAll, List.filter_eq_nil_iff.2 (by simpa using h), applyAll_nil]

theorem lookup_applyAll_other {k : Key} {ws : List (Write Row Key)} (h : ∀ w ∈ ws, w.key ≠ k) (db : List Row) :
    lookup k (applyAll ws db) = lookup k db := by
  rw [lookup, versions_applyAll_other h]; rfl

theorem lookup_insert {r : Row} {db : List Row} (h : lookup (key r) db = none) :
    lookup (key r) (Write.apply db (.insert r)) = some r := by
  have hv : versions (key r) db = [] := List.head?_eq_none_iff.1 h
  rw [lookup, show key r = (Write.insert r : Write Row Key).key from rfl, versions_apply_self]
  simp [Write.key, hv, Write.apply]

theorem lookup_update {r x : Row} {db : List Row} (h : lookup (key r) db = some x) :
    lookup (key r) (Write.apply db (.update r)) = some r := by
  have hx : key x = key r := (lookup_mem h).2
  obtain ⟨rest, hv⟩ := List.head?_eq_some_iff.1 h
  rw [lookup, show key r = (Write.update r : Write Row Key).key from rfl, versions_apply_self]
  simp [Write.key, hv, Write.apply, hx]

/-- Some row has key `k`. -/
def Present (k : Key) (db : List Row) : Prop := ∃ r ∈ db, key r = k

theorem lookup_eq_none {k : Key} {db : List Row} : lookup k db = none ↔ ¬Present k db := by
  simp [lookup_none, Present]

theorem present_congr {k : Key} {db db' : List Row} (h : versions k db = versions k db') :
    Present k db ↔ Present k db' := by
  rw [← not_iff_not, ← lookup_eq_none, ← lookup_eq_none, lookup, lookup, h]

@[simp] theorem present_insert {k : Key} {r : Row} {db : List Row} :
    Present k (Write.apply db (.insert r)) ↔ Present k db ∨ key r = k := by
  simp [Present, Write.apply, or_and_right, exists_or]

@[simp] theorem present_update {k : Key} {r : Row} {db : List Row} :
    Present k (Write.apply db (.update r)) ↔ Present k db := by
  simp only [Present, Write.apply, List.mem_map]
  constructor
  · rintro ⟨_, ⟨x, hx, rfl⟩, hk⟩
    refine ⟨x, hx, ?_⟩
    by_cases hxr : key x = key r
    · rw [if_pos hxr] at hk; exact hxr.trans hk
    · rw [if_neg hxr] at hk; exact hk
  · rintro ⟨x, hx, hk⟩
    refine ⟨_, ⟨x, hx, rfl⟩, ?_⟩
    by_cases hxr : key x = key r
    · rw [if_pos hxr]; exact hxr.symm.trans hk
    · rw [if_neg hxr]; exact hk

/-- Writes that do not delete `k` leave what is there, and add what they
insert. -/
theorem present_applyAll {k : Key} {ws : List (Write Row Key)} : ∀ {db : List Row},
    (∀ w ∈ ws, w.deletes ≠ some k) →
    (Present k (applyAll ws db) ↔ Present k db ∨ ∃ r, .insert r ∈ ws ∧ key r = k) := by
  induction ws with
  | nil => intro db _; simp
  | cons w ws ih =>
    intro db h
    rw [applyAll_cons, ih fun v hv => h v (List.mem_cons_of_mem _ hv)]
    cases w with
    | insert r =>
      rw [present_insert]
      simp only [List.mem_cons, Write.insert.injEq, or_and_right, exists_or, exists_eq_left, or_assoc]
    | update r => simp
    | delete k' =>
      have hk : k' ≠ k := fun hk => h (.delete k') (by simp) (by rw [hk]; rfl)
      have : Present k (Write.apply db (.delete k')) ↔ Present k db :=
        present_congr (versions_apply_other (w := .delete k') hk db)
      rw [this]; simp

/-- Two stores that agree at a key still do after the same writes. -/
theorem versions_applyAll_congr {k : Key} {db db' : List Row} (h : versions k db = versions k db')
    (ws : List (Write Row Key)) : versions k (applyAll ws db) = versions k (applyAll ws db') := by
  rw [versions_applyAll, versions_applyAll, h]

/-! ## Writes and unique keys -/

theorem KeysUnique.insert {db : List Row} (h : KeysUnique db) {r : Row} (hr : ∀ x ∈ db, key x ≠ key r) :
    KeysUnique (Write.apply db (.insert r)) := by
  simp only [KeysUnique, Write.apply, List.map_append, List.map_cons, List.map_nil]
  refine List.nodup_append.2 ⟨h, by simp, ?_⟩
  intro k hk k' hk' hkk
  obtain ⟨x, hx, rfl⟩ := List.mem_map.1 hk
  exact hr x hx (hkk.trans (List.mem_singleton.1 hk'))

theorem KeysUnique.update {db : List Row} (h : KeysUnique db) (r : Row) :
    KeysUnique (Write.apply db (.update r)) := by
  have hmap : (Write.apply db (.update r)).map key = db.map key := by
    simp only [Write.apply, List.map_map]
    refine List.map_congr_left fun x _ => ?_
    by_cases hx : key x = key r <;> simp [hx]
  rw [KeysUnique, hmap]; exact h

theorem KeysUnique.delete {db : List Row} (h : KeysUnique db) (k : Key) :
    KeysUnique (Write.apply db (.delete k)) := h.sublist (List.filter_sublist.map _)

theorem KeysUnique.deletes {db : List Row} (h : KeysUnique db) (dead : List Row) :
    KeysUnique (applyAll (dead.map fun r => .delete (key r)) db) := by
  induction dead generalizing db with
  | nil => exact h
  | cons r dead ih => exact ih (h.delete (key r))

theorem KeysUnique.updates {db : List Row} (h : KeysUnique db) (new : List Row) :
    KeysUnique (applyAll (new.map .update) db) := by
  induction new generalizing db with
  | nil => exact h
  | cons r new ih => exact ih (h.update r)

/-- Pending writes keep keys unique over a store that changed elsewhere only. -/
theorem KeysUnique.rebase {db db' : List Row} {ws : List (Write Row Key)} (h : KeysUnique (applyAll ws db))
    (h' : KeysUnique db') (hw : ∀ w ∈ ws, versions w.key db' = versions w.key db) :
    KeysUnique (applyAll ws db') := by
  rw [keysUnique_iff] at h h' ⊢
  intro k
  by_cases hk : ∃ w ∈ ws, w.key = k
  · obtain ⟨w, hws, rfl⟩ := hk
    rw [versions_applyAll_congr (hw w hws)]; exact h _
  · rw [versions_applyAll_other (by simpa using hk)]; exact h' k

/-! ## What a statement locks -/

variable [DecidableEq Uniq]

/-- The locks a write needs. -/
def Covered (needs : List (Need Key Uniq)) : Write Row Key → Prop
  | .insert r => (.row (key r), .update) ∈ needs ∧ (∀ l ∈ slots r, (l, .update) ∈ needs) ∧
      ∀ k ∈ refs r, (.row k, .keyShare) ∈ needs
  | .update r => ∃ m, m ≠ .keyShare ∧ (.row (key r), m) ∈ needs
  | .delete k => (.row k, .update) ∈ needs

omit [DecidableEq Key] [DecidableEq Uniq] in
theorem Covered.mono {needs needs' : List (Need Key Uniq)} (h : ∀ n ∈ needs, n ∈ needs') {w : Write Row Key}
    (hw : Covered needs w) : Covered needs' w := by
  cases w with
  | insert r => exact ⟨h _ hw.1, fun l hl => h _ (hw.2.1 l hl), fun k hk => h _ (hw.2.2 k hk)⟩
  | update r =>
    obtain ⟨m, hm, hn⟩ := hw
    exact ⟨m, hm, h _ hn⟩
  | delete k => exact h _ hw

omit [DecidableEq Key] [DecidableEq Uniq] in
/-- Every write locks its row against other writers. -/
theorem Covered.row {needs : List (Need Key Uniq)} {w : Write Row Key} (h : Covered needs w) :
    ∃ m, m ≠ .keyShare ∧ (.row w.key, m) ∈ needs := by
  cases w with
  | insert r => exact ⟨.update, by decide, h.1⟩
  | update r => exact h
  | delete k => exact ⟨.update, by decide, h⟩

omit [DecidableEq Key] [DecidableEq Uniq] in
theorem pk_mem_slots {k : Key} {r : Row} : Lockable.pk k ∈ slots r ↔ key r = k := by
  simp [slots, eq_comm]

theorem clash_none {db : List Row} {ls : List (Lockable Key Uniq)} (h : clash db ls = none) {l} (hl : l ∈ ls)
    {e : Row} (he : e ∈ db) : l ∉ slots e := by
  simp only [clash, List.findSome?_eq_none_iff, Option.map_eq_none_iff, List.find?_eq_none,
    decide_eq_true_eq] at h
  exact h l hl e he

theorem clash_eq_none {db : List Row} {ls : List (Lockable Key Uniq)} :
    clash db ls = none ↔ ∀ l ∈ ls, ∀ e ∈ db, l ∉ slots e := by
  refine ⟨fun h l hl e he => clash_none h hl he, fun h => ?_⟩
  simp only [clash, List.findSome?_eq_none_iff, Option.map_eq_none_iff, List.find?_eq_none, decide_eq_true_eq]
  exact h

theorem clash_some {db : List Row} {ls : List (Lockable Key Uniq)} {l e} (h : clash db ls = some (l, e)) :
    l ∈ ls ∧ e ∈ db ∧ l ∈ slots e := by
  obtain ⟨l', hl', hf⟩ := List.exists_of_findSome?_eq_some h
  simp only [Option.map_eq_some_iff, Prod.mk.injEq] at hf
  obtain ⟨e', hfind, rfl, rfl⟩ := hf
  exact ⟨hl', List.mem_of_find?_eq_some hfind, by simpa using List.find?_some hfind⟩

/-- What one row of an INSERT can do: enter the table where every index entry
is free, leave everything as it is, or update the row in its way. -/
theorem insertRow_cases {db : List Row} {touched : List Key} {r : Row} {oc : OnConflict Row} {rows ws}
    (h : (insertRow db touched r oc).result = .ok (rows, ws)) :
    check r = true ∧
    ((rows = [r] ∧ ws = [.insert r] ∧ clash db (slots r) = none ∧
        (∀ k ∈ refs r, ∃ x ∈ db, key x = k) ∧ (insertRow db touched r oc).needs = (enter db r).needs) ∨
      (rows = [] ∧ ws = [] ∧ ∃ a, oc = .doNothing a ∧ clash db ((slots r).filter a) ≠ none) ∨
      (∃ a set l e, oc = .doUpdate a set ∧ clash db ((slots r).filter a) = some (l, e) ∧ key e ∉ touched ∧
        check (set.set e) = true ∧ rows = [set.set e] ∧ ws = [.update (set.set e)] ∧
        (.row (key e), .noKeyUpdate) ∈ (insertRow db touched r oc).needs)) := by
  have entered : (enter db r).result = .ok (rows, ws) →
      rows = [r] ∧ ws = [.insert r] ∧ (∀ k ∈ refs r, ∃ x ∈ db, key x = k) := by
    intro h
    simp only [enter] at h
    split at h
    · cases h
    · next hf =>
      simp only [Except.ok.injEq, Prod.mk.injEq] at h
      refine ⟨h.1.symm, h.2.symm, fun k hk => ?_⟩
      simpa using List.find?_eq_none.1 hf k hk
  unfold insertRow at h ⊢
  by_cases hck : check r = true
  · simp only [hck, Bool.not_true, Bool.false_eq_true, if_false] at h ⊢
    refine ⟨trivial, ?_⟩
    cases oc with
    | error =>
      cases hc : clash db (slots r) with
      | some p => simp [hc] at h
      | none =>
        simp only [hc] at h
        obtain ⟨hr, hw, hrefs⟩ := entered h
        exact .inl ⟨hr, hw, rfl, hrefs, rfl⟩
    | doNothing a =>
      cases ha : clash db ((slots r).filter a) with
      | some p =>
        simp only [ha, Except.ok.injEq, Prod.mk.injEq] at h
        exact .inr (.inl ⟨h.1.symm, h.2.symm, a, rfl, by simp [ha]⟩)
      | none =>
        cases hc : clash db (slots r) with
        | some p => simp [ha, hc] at h
        | none =>
          simp only [ha, hc] at h
          obtain ⟨hr, hw, hrefs⟩ := entered h
          exact .inl ⟨hr, hw, rfl, hrefs, by simp [ha]⟩
    | doUpdate a set =>
      cases ha : clash db ((slots r).filter a) with
      | some p =>
        obtain ⟨l, e⟩ := p
        simp only [ha] at h ⊢
        split at h
        · cases h
        · next ht =>
          split at h
          · next hce =>
            simp only [Except.ok.injEq, Prod.mk.injEq] at h
            exact .inr (.inr ⟨a, set, l, e, rfl, ha, ht, hce, h.1.symm, h.2.symm, by simp⟩)
          · cases h
      | none =>
        cases hc : clash db (slots r) with
        | some p => simp [ha, hc] at h
        | none =>
          simp only [ha, hc] at h
          obtain ⟨hr, hw, hrefs⟩ := entered h
          exact .inl ⟨hr, hw, rfl, hrefs, by simp [ha]⟩
  · simp [hck] at h

theorem insertRow_covered {db : List Row} {touched : List Key} {r : Row} {oc : OnConflict Row} {rows ws}
    (h : (insertRow db touched r oc).result = .ok (rows, ws)) {w} (hw : w ∈ ws) :
    Covered (insertRow db touched r oc).needs w := by
  obtain ⟨_, ⟨_, rfl, _, _, hn⟩ | ⟨_, rfl, _⟩ | ⟨a, set, l, e, _, _, _, _, _, rfl, hn⟩⟩ := insertRow_cases h
  · rw [List.mem_singleton.1 hw, hn]
    refine ⟨by simp [enter], fun l hl => ?_, fun k hk => ?_⟩
    · have : (l, Mode.update) ∈ (slots r).map (·, Mode.update) := List.mem_map.2 ⟨l, hl, rfl⟩
      exact List.mem_append_left _ (List.mem_cons_of_mem _ this)
    · exact List.mem_append_right _ (List.mem_map.2 ⟨k, hk, rfl⟩)
  · cases hw
  · rw [List.mem_singleton.1 hw]
    refine ⟨.noKeyUpdate, by decide, ?_⟩
    rw [set.key_set]; exact hn

theorem clash_slots_none {db : List Row} {r : Row} (h : clash db (slots r) = none) : ∀ x ∈ db, key x ≠ key r :=
  fun _ hx hk => clash_none h (pk_mem_slots.2 rfl) hx (pk_mem_slots.2 hk)

/-- A unique violation is of an index entry of the row, and somebody has it. -/
theorem insertRow_unique {db : List Row} {touched : List Key} {r : Row} {oc : OnConflict Row} {l : Lockable Key Uniq}
    (h : (insertRow db touched r oc).result = .error (.unique l)) : l ∈ slots r ∧ ∃ e ∈ db, l ∈ slots e := by
  have entered : (enter db r).result ≠ .error (.unique l) := by
    intro h
    simp only [enter] at h
    split at h <;> cases h
  have clashed : ∀ {p}, clash db (slots r) = some p → p.1 = l → l ∈ slots r ∧ ∃ e ∈ db, l ∈ slots e := by
    rintro p hc rfl
    obtain ⟨hl, he, hle⟩ := clash_some hc
    exact ⟨hl, p.2, he, hle⟩
  unfold insertRow at h
  by_cases hck : check r = true
  · simp only [hck, Bool.not_true, Bool.false_eq_true, if_false] at h
    cases oc with
    | error =>
      cases hc : clash db (slots r) with
      | some p => exact clashed hc (by simpa [hc] using h)
      | none => exact absurd (by simpa [hc] using h) entered
    | doNothing a =>
      cases ha : clash db ((slots r).filter a) with
      | some p => simp [ha] at h
      | none =>
        cases hc : clash db (slots r) with
        | some p => exact clashed hc (by simpa [ha, hc] using h)
        | none => exact absurd (by simpa [ha, hc] using h) entered
    | doUpdate a set =>
      cases ha : clash db ((slots r).filter a) with
      | some p =>
        simp only [ha] at h
        split at h
        · cases h
        · split at h <;> cases h
      | none =>
        cases hc : clash db (slots r) with
        | some p => exact clashed hc (by simpa [ha, hc] using h)
        | none => exact absurd (by simpa [ha, hc] using h) entered
  · simp [hck] at h

theorem insertRow_keysUnique {db : List Row} {touched : List Key} {r : Row} {oc : OnConflict Row} {rows ws}
    (h : (insertRow db touched r oc).result = .ok (rows, ws)) (hu : KeysUnique db) :
    KeysUnique (applyAll ws db) := by
  obtain ⟨_, ⟨_, rfl, hc, _⟩ | ⟨_, rfl, _⟩ | ⟨a, set, l, e, _, _, _, _, _, rfl, _⟩⟩ := insertRow_cases h
  · exact hu.insert (clash_slots_none hc)
  · exact hu
  · exact hu.update _

/-- One row after another: a successful INSERT is a successful first row and
a successful rest. -/
theorem insertRows_cons {db : List Row} {touched : List Key} {r : Row} {oc : OnConflict Row}
    {rest : List (Row × OnConflict Row)} {rows ws}
    (h : (insertRows db touched ((r, oc) :: rest)).result = .ok (rows, ws)) :
    ∃ rows₁ ws₁ rows₂ ws₂, (insertRow db touched r oc).result = .ok (rows₁, ws₁) ∧
      (insertRows (applyAll ws₁ db) (ws₁.map Write.key ++ touched) rest).result = .ok (rows₂, ws₂) ∧
      rows = rows₁ ++ rows₂ ∧ ws = ws₁ ++ ws₂ ∧
      (insertRows db touched ((r, oc) :: rest)).needs = (insertRow db touched r oc).needs ++
        (insertRows (applyAll ws₁ db) (ws₁.map Write.key ++ touched) rest).needs := by
  simp only [insertRows] at h ⊢
  split at h
  · cases h
  · next rows₁ ws₁ h₁ =>
    generalize hrest : insertRows (applyAll ws₁ db) (ws₁.map Write.key ++ touched) rest = e at h ⊢
    cases h₂ : e.result with
    | error err => simp [h₂, Except.map] at h
    | ok p =>
      obtain ⟨rows₂, ws₂⟩ := p
      simp only [h₂, Except.map, Except.ok.injEq, Prod.mk.injEq] at h
      exact ⟨rows₁, ws₁, rows₂, ws₂, h₁, hrest ▸ h₂, h.1.symm, h.2.symm, by rw [hrest]⟩

theorem insertRows_spec {xs : List (Row × OnConflict Row)} : ∀ {db : List Row} {touched : List Key} {rows ws},
    (insertRows db touched xs).result = .ok (rows, ws) →
    (∀ w ∈ ws, Covered (insertRows db touched xs).needs w) ∧ (KeysUnique db → KeysUnique (applyAll ws db)) := by
  induction xs with
  | nil =>
    intro db touched rows ws h
    simp only [insertRows, Except.ok.injEq, Prod.mk.injEq] at h
    rw [← h.2]
    exact ⟨by simp, fun hu => hu⟩
  | cons x rest ih =>
    intro db touched rows ws h
    obtain ⟨r, oc⟩ := x
    obtain ⟨rows₁, ws₁, rows₂, ws₂, h₁, h₂, rfl, rfl, hn⟩ := insertRows_cons h
    obtain ⟨hc, hu⟩ := ih h₂
    refine ⟨fun w hw => ?_, fun hdb => ?_⟩
    · rw [hn]
      rcases List.mem_append.1 hw with hw | hw
      · exact (insertRow_covered h₁ hw).mono fun n hn => List.mem_append_left _ hn
      · exact (hc w hw).mono fun n hn => List.mem_append_right _ hn
    · rw [applyAll_append]
      exact hu (insertRow_keysUnique h₁ hdb)

/-- A statement locks what it writes, and keeps primary keys single. -/
theorem Stmt.run_spec {env : Env} {snap alive cur : List Row} {s : Stmt Row Env} {rows ws}
    (h : (s.run env snap alive cur).result = .ok (rows, ws)) :
    (∀ w ∈ ws, Covered (s.run env snap alive cur).needs w) ∧
      (KeysUnique cur → KeysUnique (applyAll ws cur)) := by
  cases s with
  | select p =>
    simp only [Stmt.run, Except.ok.injEq, Prod.mk.injEq] at h
    rw [← h.2]; exact ⟨by simp, fun hu => hu⟩
  | forUpdate p =>
    simp only [Stmt.run, Except.ok.injEq, Prod.mk.injEq] at h
    rw [← h.2]; exact ⟨by simp, fun hu => hu⟩
  | insert mk =>
    cases hmk : mk env snap with
    | error e => simp [Stmt.run, hmk] at h
    | ok xs =>
      simp only [Stmt.run, hmk] at h ⊢
      exact insertRows_spec h
  | update p set =>
    simp only [Stmt.run] at h ⊢
    split at h
    · simp only [Except.ok.injEq, Prod.mk.injEq] at h
      obtain ⟨-, rfl⟩ := h
      refine ⟨fun w hw => ?_, fun hu => hu.updates _⟩
      obtain ⟨r, hr, rfl⟩ : ∃ r ∈ hits p alive cur, Write.update ((set env).set r) = w := by
        simpa using hw
      refine ⟨.noKeyUpdate, by decide, ?_⟩
      rw [(set env).key_set]
      exact List.mem_map.2 ⟨r, hr, rfl⟩
    · cases h
  | delete p =>
    simp only [Stmt.run, Except.ok.injEq, Prod.mk.injEq] at h ⊢
    obtain ⟨-, rfl⟩ := h
    refine ⟨fun w hw => ?_, fun hu => hu.deletes _⟩
    obtain ⟨r, hr, rfl⟩ := List.mem_map.1 hw
    exact List.mem_flatMap.2 ⟨r, hr, by simp⟩

end Relational
