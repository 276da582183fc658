/-
Every statement keeps what the table definitions promise. An UPDATE leaves
keys, UNIQUE values and references alone. A DELETE takes along, level by
level, whatever references a deleted row: where references only lead to rows
of a lower rank, the levels run out before the fuel does.
-/
import DataApi.Lib.Bulk
import DataApi.Lib.Intact
import Mathlib.Data.List.Perm.Subperm

namespace Relational

variable {Row Key Uniq Env : Type} [Schema Row Key Uniq]

/-- References lead to a lower rank. -/
def Ranks (Row : Type) {Key Uniq : Type} [Schema Row Key Uniq] (rank : Key → Nat) : Prop :=
  ∀ r : Row, ∀ k ∈ refs r, rank k < rank (key r)

variable [DecidableEq Key]

/-! ## Levels of a cascade -/

/-- What references a deleted row through a chain of `n`. -/
def level (db dead : List Row) : Nat → List Row
  | 0 => dead
  | n + 1 => dependents db (level db dead n)

section
variable {db dead : List Row} {r d : Row} {rank : Key → Nat}

theorem mem_dependents : r ∈ dependents db dead ↔ r ∈ db ∧ ∃ k ∈ refs r, ∃ d ∈ dead, key d = k := by
  simp [dependents]

theorem level_dependents (n : Nat) : level db (dependents db dead) n = level db dead (n + 1) := by
  induction n with
  | zero => rfl
  | succ n ih => rw [level, ih]; rfl

theorem mem_cascade_level {n : Nat} : r ∈ cascade n db dead ↔ ∃ i < n, r ∈ level db dead i := by
  induction n generalizing dead with
  | zero => simp [cascade]
  | succ n ih =>
    rw [cascade, List.mem_append, ih]
    constructor
    · rintro (h | ⟨i, hi, h⟩)
      · exact ⟨0, by omega, h⟩
      · exact ⟨i + 1, by omega, by rwa [← level_dependents]⟩
    · rintro ⟨i, hi, h⟩
      cases i with
      | zero => exact .inl h
      | succ i => exact .inr ⟨i, by omega, by rwa [level_dependents]⟩

/-- Under a row of level `n` there are `n` others. -/
theorem level_chain (hrank : Ranks Row rank) (hdead : ∀ d ∈ dead, d ∈ db) {n : Nat} : ∀ {r : Row}, r ∈ level db dead n →
    r ∈ db ∧ ∃ l : List Row, l.length = n ∧ l.Nodup ∧ ∀ x ∈ l, x ∈ db ∧ rank (key x) < rank (key r) := by
  induction n with
  | zero => exact fun {r} h => ⟨hdead r h, [], rfl, List.nodup_nil, by simp⟩
  | succ n ih =>
    intro r h
    obtain ⟨hr, k, hk, d, hd, rfl⟩ := mem_dependents.1 h
    obtain ⟨hd, l, hlen, hnodup, hl⟩ := ih hd
    have hlt : rank (key d) < rank (key r) := hrank r _ hk
    refine ⟨hr, d :: l, by simp [hlen], List.nodup_cons.2 ⟨fun hmem => ?_, hnodup⟩, fun x hx => ?_⟩
    · exact absurd (hl d hmem).2 (Nat.lt_irrefl _)
    · rcases List.mem_cons.1 hx with rfl | hx
      · exact ⟨hd, hlt⟩
      · exact ⟨(hl x hx).1, Nat.lt_trans (hl x hx).2 hlt⟩

theorem level_end (hrank : Ranks Row rank) (hdead : ∀ d ∈ dead, d ∈ db) : r ∉ level db dead db.length := by
  intro h
  obtain ⟨hr, l, hlen, hnodup, hl⟩ := level_chain hrank hdead h
  have hcons : (r :: l).Nodup := List.nodup_cons.2 ⟨fun hmem => absurd (hl r hmem).2 (Nat.lt_irrefl _), hnodup⟩
  have hsub : r :: l ⊆ db := by
    intro x hx
    rcases List.mem_cons.1 hx with rfl | hx
    · exact hr
    · exact (hl x hx).1
  have hle : (r :: l).length ≤ db.length := (List.subperm_of_subset hcons hsub).length_le
  rw [List.length_cons, hlen] at hle
  omega

/-- A cascade leaves no row behind that references what it deletes. -/
theorem cascade_closed (hrank : Ranks Row rank) (hdead : ∀ d ∈ dead, d ∈ db) (hr : r ∈ db) {k : Key} (hk : k ∈ refs r)
    (hd : d ∈ cascade (db.length + 1) db dead) (hdk : key d = k) : r ∈ cascade (db.length + 1) db dead := by
  obtain ⟨i, hi, hd⟩ := mem_cascade_level.1 hd
  have hne : i ≠ db.length := by
    rintro rfl
    exact level_end hrank hdead hd
  exact mem_cascade_level.2 ⟨i + 1, by omega, mem_dependents.2 ⟨hr, k, hk, d, hd, hdk⟩⟩

end

/-! ## Statements -/

theorem hits_all (p : Row → Bool) (db : List Row) : hits p db db = db.filter p := by
  refine List.filter_congr fun r hr => ?_
  cases hp : p r with
  | false => rfl
  | true =>
    rw [Bool.true_and, List.any_eq_true]
    exact ⟨r, hr, by simp [hp]⟩

theorem applyAll_deleteKeys (ks : List Key) (db : List Row) :
    applyAll (ks.map fun k => (.delete k : Write Row Key)) db = db.filter fun r => key r ∉ ks := by
  induction ks generalizing db with
  | nil => exact (List.filter_eq_self.2 fun _ _ => by simp).symm
  | cons k ks ih =>
    rw [List.map_cons, applyAll_cons, ih, Write.apply, List.filter_filter]
    refine List.filter_congr fun r _ => ?_
    simp [not_or, Bool.and_comm]

variable [DecidableEq Uniq] {db : List Row}

omit [DecidableEq Key] [DecidableEq Uniq] in
/-- Rows that a SET clause may have changed keep their columns. -/
theorem Setter.columns (set : Setter Row) (p : Row → Bool) (r : Row) : key (if p r then set.set r else r) = key r ∧
    uniques (if p r then set.set r else r) = uniques r ∧ refs (if p r then set.set r else r) = refs r := by
  split
  · exact ⟨set.key_set r, set.uniques_set r, set.refs_set r⟩
  · exact ⟨rfl, rfl, rfl⟩

omit [DecidableEq Key] [DecidableEq Uniq] in
theorem Intact.updates (h : Intact db) (p : Row → Bool) (set : Setter Row)
    (hck : ∀ r ∈ db, p r = true → check (set.set r) = true) : Intact (db.map fun r => if p r then set.set r else r) := by
  have hslots : ∀ r, slots (if p r then set.set r else r) = slots r := by
    intro r
    obtain ⟨hkey, huniques, -⟩ := set.columns p r
    rw [slots, slots, hkey, huniques]
  refine ⟨?_, fun y hy => ?_, fun y hy k hk => ?_⟩
  · rw [List.pairwise_map]
    refine h.single.imp fun {x y} hxy l hl hl' => ?_
    rw [hslots] at hl hl'
    exact hxy l hl hl'
  · obtain ⟨r, hr, rfl⟩ := List.mem_map.1 hy
    split
    · next hp => exact hck r hr hp
    · exact h.checked r hr
  · obtain ⟨r, hr, rfl⟩ := List.mem_map.1 hy
    rw [(set.columns p r).2.2] at hk
    obtain ⟨x, hx, hxk⟩ := h.referenced r hr k hk
    exact ⟨_, List.mem_map_of_mem hx, (set.columns p x).1.trans hxk⟩

omit [DecidableEq Uniq] in
theorem Intact.deletes (h : Intact db) {ks : List Key}
    (hclosed : ∀ r ∈ db, ∀ k ∈ refs r, k ∈ ks → key r ∈ ks) : Intact (db.filter fun r => key r ∉ ks) where
  single := h.single.filter _
  checked r hr := h.checked r (List.mem_of_mem_filter hr)
  referenced r hr k hk := by
    obtain ⟨hr, hkept⟩ := List.mem_filter.1 hr
    obtain ⟨x, hx, rfl⟩ := h.referenced r hr k hk
    refine ⟨x, List.mem_filter.2 ⟨hx, ?_⟩, rfl⟩
    have hnot : key r ∉ ks := by simpa using hkept
    simpa using fun hmem => hnot (hclosed r hr _ hk hmem)

/-- What an UPDATE leaves, as a map on the rows. -/
theorem update_applied (hu : KeysUnique db) {p : Row → Bool} {set : Env → Setter Row} {env : Env} {rows : List Row}
    {ws : List (Write Row Key)} (hrun : ((Stmt.update p set).run env db db db).result = .ok (rows, ws)) :
    applyAll ws db = db.map (fun r => if p r then (set env).set r else r) ∧
      ∀ r ∈ db, p r = true → check ((set env).set r) = true := by
  simp only [Stmt.run, hits_all] at hrun
  split at hrun
  · next hall =>
    simp only [Except.ok.injEq, Prod.mk.injEq] at hrun
    rw [← hrun.2, List.map_map]
    refine ⟨applyAll_updates p (set env).key_set hu, fun r hr hp => ?_⟩
    exact List.all_eq_true.1 hall _ (List.mem_map_of_mem (List.mem_filter.2 ⟨hr, hp⟩))
  · cases hrun

omit [DecidableEq Key] in
/-- A table after an UPDATE of some of its rows. -/
theorem Table.rows_updated {τ : Type} (T : Table Row τ) (p : τ → Bool) (f : τ → τ) (db : List Row) :
    T.rows (db.map fun r => if T.is p r then T.lift f r else r) = (T.rows db).map fun t => if p t then f t else t := by
  rw [Table.rows, Table.rows, List.filterMap_map, List.map_filterMap]
  refine List.filterMap_congr fun r _ => ?_
  rw [Function.comp_apply]
  cases hr : T.get r with
  | none => simp [Table.is, hr]
  | some t =>
    rw [T.get_eq.1 hr, T.is_put]
    split <;> simp [*]

/-- What any statement leaves is intact again. -/
theorem Intact.run {rank : Key → Nat} (hrank : Ranks Row rank) (h : Intact db) {q : Stmt Row Env} {env : Env} {rows : List Row}
    {ws : List (Write Row Key)} (hrun : (q.run env db db db).result = .ok (rows, ws)) : Intact (applyAll ws db) := by
  cases q with
  | select p =>
    simp only [Stmt.run, Except.ok.injEq, Prod.mk.injEq] at hrun
    rw [← hrun.2]
    exact h
  | forUpdate p =>
    simp only [Stmt.run, Except.ok.injEq, Prod.mk.injEq] at hrun
    rw [← hrun.2]
    exact h
  | insert mk =>
    cases hmk : mk env db with
    | error e => simp [Stmt.run, hmk] at hrun
    | ok xs =>
      simp only [Stmt.run, hmk] at hrun
      exact h.insertRows hrun
  | update p set =>
    obtain ⟨happlied, hck⟩ := update_applied h.keys hrun
    rw [happlied]
    exact h.updates p (set env) hck
  | delete p =>
    simp only [Stmt.run, hits_all, Except.ok.injEq, Prod.mk.injEq] at hrun
    have hwrites : ws = ((cascade (db.length + 1) db (db.filter p)).map key).map fun k => .delete k := by
      rw [← hrun.2, List.map_map]
      rfl
    rw [hwrites, applyAll_deleteKeys]
    refine h.deletes fun r hr k hk hmem => ?_
    obtain ⟨d, hd, hdk⟩ := List.mem_map.1 hmem
    have hdead : ∀ d ∈ db.filter p, d ∈ db := fun d hd => List.mem_of_mem_filter hd
    exact List.mem_map_of_mem (cascade_closed hrank hdead hr hk hd hdk)

/-! ## Where a row comes from -/

/-- The row has the columns of a stored row or of a new one. -/
def Origin (db : List Row) (ws : List (Write Row Key)) (r : Row) : Prop :=
  ∃ x, (x ∈ db ∨ .insert x ∈ ws) ∧ key r = key x ∧ uniques r = uniques x ∧ refs r = refs x

section
variable {ws vs : List (Write Row Key)} {rows : List Row} {r : Row}

omit [DecidableEq Key] [DecidableEq Uniq] in
theorem Origin.stored (h : r ∈ db) : Origin db ws r := ⟨r, .inl h, rfl, rfl, rfl⟩

omit [DecidableEq Uniq] in
theorem Origin.trans (h : ∀ x ∈ applyAll ws db, Origin db ws x) (hr : Origin (applyAll ws db) vs r) :
    Origin db (ws ++ vs) r := by
  obtain ⟨x, hx | hx, hkey, huniques, hrefs⟩ := hr
  · obtain ⟨y, hy, hkey', huniques', hrefs'⟩ := h x hx
    exact ⟨y, hy.imp_right (List.mem_append_left _), hkey.trans hkey', huniques.trans huniques', hrefs.trans hrefs'⟩
  · exact ⟨x, .inr (List.mem_append_right _ hx), hkey, huniques, hrefs⟩

theorem insertRow_origin {touched : List Key} {new : Row} {oc : OnConflict Row}
    (hrun : (insertRow db touched new oc).result = .ok (rows, ws)) (hr : r ∈ applyAll ws db) : Origin db ws r := by
  obtain ⟨-, ⟨-, rfl, -⟩ | ⟨-, rfl, -⟩ | ⟨a, set, l, e, -, hc, -, -, -, rfl, -⟩⟩ := insertRow_cases hrun
  · rcases List.mem_append.1 hr with hr | hr
    · exact .stored hr
    · exact ⟨new, .inr (by simp), by rw [List.mem_singleton.1 hr], by rw [List.mem_singleton.1 hr], by rw [List.mem_singleton.1 hr]⟩
  · exact .stored hr
  · obtain ⟨x, hx, rfl⟩ := List.mem_map.1 hr
    split
    · exact ⟨e, .inl (clash_some hc).2.1, set.key_set e, set.uniques_set e, set.refs_set e⟩
    · exact .stored hx

theorem insertRows_origin {xs : List (Row × OnConflict Row)} : ∀ {db : List Row} {touched : List Key} {rows ws},
    (insertRows db touched xs).result = .ok (rows, ws) → ∀ r ∈ applyAll ws db, Origin db ws r := by
  induction xs with
  | nil =>
    intro db touched rows ws hrun r hr
    simp only [Relational.insertRows, Except.ok.injEq, Prod.mk.injEq] at hrun
    rw [← hrun.2] at hr
    exact .stored hr
  | cons x rest ih =>
    intro db touched rows ws hrun r hr
    obtain ⟨rows₁, ws₁, rows₂, ws₂, h₁, h₂, -, rfl, -⟩ := insertRows_cons hrun
    rw [applyAll_append] at hr
    exact .trans (fun x hx => insertRow_origin h₁ hx) (ih h₂ r hr)

/-- What a statement leaves was there, but for what it enters. -/
theorem origin (hu : KeysUnique db) {q : Stmt Row Env} {env : Env} (hrun : (q.run env db db db).result = .ok (rows, ws))
    (hr : r ∈ applyAll ws db) : Origin db ws r := by
  cases q with
  | select p | forUpdate p =>
    simp only [Stmt.run, Except.ok.injEq, Prod.mk.injEq] at hrun
    rw [← hrun.2] at hr
    exact .stored hr
  | insert mk =>
    cases hmk : mk env db with
    | error e => simp [Stmt.run, hmk] at hrun
    | ok xs =>
      simp only [Stmt.run, hmk] at hrun
      exact insertRows_origin hrun r hr
  | update p set =>
    rw [(update_applied hu hrun).1] at hr
    obtain ⟨x, hx, rfl⟩ := List.mem_map.1 hr
    exact ⟨x, .inl hx, (set env).columns p x⟩
  | delete p =>
    simp only [Stmt.run, Except.ok.injEq, Prod.mk.injEq] at hrun
    rw [← hrun.2] at hr
    rcases mem_applyAll hr with hr | hr | hr
    · exact .stored hr
    · simp at hr
    · simp at hr

end

/-! ## What a row says of the rows it references -/

/-- Every row stands in `R` to the rows it references. -/
def Linked (R : Row → Row → Prop) (db : List Row) : Prop := ∀ x ∈ db, ∀ y ∈ db, key y ∈ refs x → R x y

/-- `R` looks at columns that no SET clause touches. -/
def Fixed (R : Row → Row → Prop) : Prop :=
  ∀ x x' y y' : Row, refs x' = refs x → key y' = key y → uniques y' = uniques y → R x y → R x' y'

section
variable {R : Row → Row → Prop}

omit [DecidableEq Key] [DecidableEq Uniq] in
theorem Linked.subset {db' : List Row} (h : Linked R db) (hdb' : ∀ r ∈ db', r ∈ db) : Linked R db' :=
  fun x hx y hy hk => h x (hdb' x hx) y (hdb' y hy) hk

omit [DecidableEq Key] [DecidableEq Uniq] in
theorem Linked.map (hR : Fixed R) (h : Linked R db) {f : Row → Row}
    (hf : ∀ r, key (f r) = key r ∧ uniques (f r) = uniques r ∧ refs (f r) = refs r) : Linked R (db.map f) := by
  intro x' hx' y' hy' hk
  obtain ⟨x, hx, rfl⟩ := List.mem_map.1 hx'
  obtain ⟨y, hy, rfl⟩ := List.mem_map.1 hy'
  obtain ⟨hkey, huniques, -⟩ := hf y
  obtain ⟨-, -, hrefs⟩ := hf x
  rw [hkey, hrefs] at hk
  exact hR x (f x) y (f y) hrefs hkey huniques (h x hx y hy hk)

omit [DecidableEq Uniq] in
/-- A new row: nothing references it yet, so it is its own references that
count. -/
theorem Linked.insert {r : Row} (hdb : Intact db) (h : Linked R db) (hc : ∀ l ∈ slots r, ∀ e ∈ db, l ∉ slots e)
    (hrefs : ∀ k ∈ refs r, Present k db) (hr : ∀ y ∈ db, key y ∈ refs r → R r y) :
    Linked R (Write.apply db (.insert r)) := by
  have hnew : ¬Present (key r) db := by
    rintro ⟨e, he, hk⟩
    exact hc _ (pk_mem_slots.2 rfl) e he (pk_mem_slots.2 hk)
  intro x hx y hy hk
  rcases List.mem_append.1 hx with hx | hx <;> rcases List.mem_append.1 hy with hy | hy
  · exact h x hx y hy hk
  · rw [List.mem_singleton.1 hy] at hk
    exact absurd (hdb.referenced x hx _ hk) hnew
  · rw [List.mem_singleton.1 hx] at hk ⊢
    exact hr y hy hk
  · rw [List.mem_singleton.1 hx, List.mem_singleton.1 hy] at hk
    exact absurd (hrefs _ hk) hnew

theorem Linked.insertRow (hR : Fixed R) (hdb : Intact db) (h : Linked R db) {touched : List Key} {r : Row}
    {oc : OnConflict Row} {rows : List Row} {ws : List (Write Row Key)}
    (hrun : (insertRow db touched r oc).result = .ok (rows, ws)) (hr : .insert r ∈ ws → ∀ y, R r y) :
    Linked R (applyAll ws db) := by
  obtain ⟨-, ⟨-, rfl, hc, hrefs, -⟩ | ⟨-, rfl, -⟩ | ⟨a, set, l, e, -, hc, -, -, -, rfl, -⟩⟩ := insertRow_cases hrun
  · exact h.insert hdb (clash_eq_none.1 hc) hrefs fun y _ _ => hr (by simp) y
  · exact h
  · have he := (clash_some hc).2.1
    have hmap : Write.apply db (.update (set.set e)) = db.map fun x => if key x = key e then set.set x else x := by
      refine List.map_congr_left fun x hx => ?_
      rw [set.key_set]
      split
      · next hk => rw [hdb.slot_eq hx he (pk_mem_slots.2 rfl) (pk_mem_slots.2 hk.symm)]
      · rfl
    rw [applyAll_cons, applyAll_nil, hmap]
    exact h.map hR fun x => by simpa using set.columns (fun x => decide (key x = key e)) x

theorem Linked.insertRows (hR : Fixed R) {xs : List (Row × OnConflict Row)} :
    ∀ {db : List Row} {touched : List Key} {rows ws}, Intact db → Linked R db →
      (insertRows db touched xs).result = .ok (rows, ws) → (∀ r, .insert r ∈ ws → ∀ y, R r y) →
      Linked R (applyAll ws db) := by
  induction xs with
  | nil =>
    intro db touched rows ws _ h hrun _
    simp only [Relational.insertRows, Except.ok.injEq, Prod.mk.injEq] at hrun
    rw [← hrun.2]
    exact h
  | cons x rest ih =>
    intro db touched rows ws hdb h hrun hr
    obtain ⟨rows₁, ws₁, rows₂, ws₂, h₁, h₂, -, rfl, -⟩ := insertRows_cons hrun
    rw [applyAll_append]
    have hhead : Linked R (applyAll ws₁ db) := h.insertRow hR hdb h₁ fun hmem => hr _ (List.mem_append_left _ hmem)
    exact ih (hdb.insertRow h₁) hhead h₂ fun r hmem => hr r (List.mem_append_right _ hmem)

/-- A statement whose new rows stand in `R` to whatever they reference. -/
theorem Linked.run (hR : Fixed R) (hdb : Intact db) (h : Linked R db) {q : Stmt Row Env} {env : Env} {rows : List Row}
    {ws : List (Write Row Key)} (hrun : (q.run env db db db).result = .ok (rows, ws))
    (hnew : ∀ r, .insert r ∈ ws → ∀ y, R r y) : Linked R (applyAll ws db) := by
  cases q with
  | select p =>
    simp only [Stmt.run, Except.ok.injEq, Prod.mk.injEq] at hrun
    rw [← hrun.2]
    exact h
  | forUpdate p =>
    simp only [Stmt.run, Except.ok.injEq, Prod.mk.injEq] at hrun
    rw [← hrun.2]
    exact h
  | insert mk =>
    cases hmk : mk env db with
    | error e => simp [Stmt.run, hmk] at hrun
    | ok xs =>
      simp only [Stmt.run, hmk] at hrun
      exact Linked.insertRows hR hdb h hrun hnew
  | update p set =>
    rw [(update_applied hdb.keys hrun).1]
    exact h.map hR ((set env).columns p)
  | delete p =>
    simp only [Stmt.run, Except.ok.injEq, Prod.mk.injEq] at hrun
    refine h.subset fun r hr => ?_
    rw [← hrun.2] at hr
    rcases mem_applyAll hr with hr | hr | hr
    · exact hr
    · simp at hr
    · simp at hr

end

end Relational
