/-
The statements on a typed table, read back: which rows a successful one
answers with, and what it writes.
-/
import DataApi.Lib.Table
import DataApi.Lib.Versions

namespace Relational

variable {Row Key Uniq Env τ : Type} [Schema Row Key Uniq] [DecidableEq Key]

namespace Table

variable (T : Table Row τ)

theorem put_inj {t t' : τ} (h : T.put t = T.put t') : t = t' := by
  have := congrArg T.get h
  simpa using this

@[simp] theorem rows_map_put (ts : List τ) : T.rows (ts.map T.put) = ts := by
  induction ts with
  | nil => rfl
  | cons t ts ih => simp [rows]

theorem head_put (t : τ) : (T.rows [T.put t]).head? = some t := by simp [rows]

@[simp] theorem rows_nil : T.rows [] = [] := rfl

@[simp] theorem rows_append (xs ys : List Row) : T.rows (xs ++ ys) = T.rows xs ++ T.rows ys := by
  simp [rows]

@[simp] theorem mem_rows {t : τ} {db : List Row} : t ∈ T.rows db ↔ T.put t ∈ db := by
  simp only [rows, List.mem_filterMap]
  constructor
  · rintro ⟨r, hr, hg⟩
    rw [← T.get_eq.1 hg]; exact hr
  · exact fun h => ⟨_, h, T.get_put t⟩

omit [DecidableEq Key] in
theorem rows_keys_sublist (db : List Row) : ((T.rows db).map fun t => key (T.put t)).Sublist (db.map key) := by
  induction db with
  | nil => exact List.Sublist.refl _
  | cons r db ih =>
    cases hr : T.get r with
    | none => simpa [rows, hr] using ih.cons (key r)
    | some t =>
      rw [T.get_eq.1 hr]
      simpa [rows] using ih.cons_cons (key (T.put t))

omit [DecidableEq Key] in
theorem rows_keys_nodup {db : List Row} (h : KeysUnique db) : ((T.rows db).map fun t => key (T.put t)).Nodup :=
  h.sublist (T.rows_keys_sublist db)

theorem is_iff {p : τ → Bool} {r : Row} : T.is p r = true ↔ ∃ t, r = T.put t ∧ p t = true := by
  simp only [is, Option.any_eq_true, T.get_eq]

/-- Rows that all belong to the table are what their table rows say. -/
theorem map_put_rows {rs : List Row} (h : ∀ r ∈ rs, ∃ t, r = T.put t) : rs = (T.rows rs).map T.put := by
  induction rs with
  | nil => rfl
  | cons r rs ih =>
    obtain ⟨t, rfl⟩ := h r (by simp)
    have := ih fun r hr => h r (by simp [hr])
    simpa [rows] using this

theorem rows_filter_is (p : τ → Bool) (db : List Row) : T.rows (db.filter (T.is p)) = (T.rows db).filter p := by
  induction db with
  | nil => rfl
  | cons r db ih =>
    cases hr : T.get r with
    | none => simpa [rows, is, hr] using ih
    | some t =>
      by_cases hp : p t = true
      · simpa [rows, is, hr, hp] using ih
      · simpa [rows, is, hr, hp] using ih

end Table

/-! ## Hits -/

section
variable (T : Table Row τ)

theorem mem_hits {p : τ → Bool} {alive cur : List Row} {r : Row} : r ∈ hits (T.is p) alive cur ↔
    ∃ t, r = T.put t ∧ T.put t ∈ cur ∧ p t = true ∧ ∃ x, T.put x ∈ alive ∧ p x = true ∧ key (T.put x) = key r := by
  simp only [hits, List.mem_filter, Bool.and_eq_true, List.any_eq_true, decide_eq_true_eq, T.is_iff]
  constructor
  · rintro ⟨hc, ⟨t, rfl, hp⟩, _, hx, ⟨x, rfl, hpx⟩, hk⟩
    exact ⟨t, rfl, hc, hp, x, hx, hpx, hk⟩
  · rintro ⟨t, rfl, hc, hp, x, hx, hpx, hk⟩
    exact ⟨hc, ⟨t, rfl, hp⟩, _, hx, ⟨x, rfl, hpx⟩, hk⟩

/-- Nothing was deleted or changed since the snapshot. -/
theorem hits_self (p : τ → Bool) (db : List Row) : hits (T.is p) db db = db.filter (T.is p) := by
  refine List.filter_congr fun r hr => ?_
  cases hp : T.is p r with
  | false => rfl
  | true =>
    simp only [Bool.true_and, List.any_eq_true, Bool.and_eq_true, decide_eq_true_eq]
    exact ⟨r, hr, hp, rfl⟩

theorem hits_eq (p : τ → Bool) (alive cur : List Row) :
    hits (T.is p) alive cur = (T.rows (hits (T.is p) alive cur)).map T.put :=
  T.map_put_rows fun _ hr => by
    obtain ⟨t, rfl, _⟩ := (mem_hits T).1 hr
    exact ⟨t, rfl⟩

/-- The row of a primary key is a row of its table. -/
theorem lookup_rows {p : τ → Bool} {k : Key} (h : ∀ r : Row, key r = k ↔ T.is p r = true) (db : List Row) :
    lookup k db = ((T.rows db).find? p).map T.put := by
  have hversions : versions k db = db.filter (T.is p) := List.filter_congr fun r _ => by
    rw [Bool.eq_iff_iff, decide_eq_true_iff, h]
  have hput : db.filter (T.is p) = ((T.rows db).filter p).map T.put := by
    rw [← T.rows_filter_is]
    exact T.map_put_rows fun r hr => by
      obtain ⟨t, rfl, -⟩ := T.is_iff.1 (List.mem_filter.1 hr).2
      exact ⟨t, rfl⟩
  rw [lookup, hversions, hput, List.head?_map, List.head?_filter]

end

section
variable {T : Table Row τ}

/-- A WHERE clause that fixes the primary key hits one row at most. -/
theorem hits_byKey {p : τ → Bool} {cur : List Row} {k : Key} (alive : List Row) (hu : KeysUnique cur)
    (hp : ∀ t, p t = true → key (T.put t) = k) : hits (T.is p) alive cur = [] ∨
      ∃ t, hits (T.is p) alive cur = [T.put t] ∧ lookup k cur = some (T.put t) ∧ p t = true := by
  cases hh : hits (T.is p) alive cur with
  | nil => exact .inl rfl
  | cons r rest =>
    have hr : r ∈ hits (T.is p) alive cur := by rw [hh]; simp
    obtain ⟨t, rfl, hc, hpt, -⟩ := (mem_hits T).1 hr
    have hk := hp t hpt
    refine .inr ⟨t, ?_, hk ▸ hu.lookup_eq hc, hpt⟩
    have hsub : (hits (T.is p) alive cur).Sublist (versions k cur) := by
      have : hits (T.is p) alive cur = (versions k cur).filter fun r => T.is p r && alive.any fun x =>
          T.is p x && key x = key r := by
        simp only [hits, versions, List.filter_filter]
        refine List.filter_congr fun r _ => ?_
        by_cases his : T.is p r = true
        · obtain ⟨t', rfl, hpt'⟩ := T.is_iff.1 his
          simp [hp t' hpt']
        · simp [his]
      rw [this]; exact List.filter_sublist
    rw [← hk, hu.versions_eq hc, hh] at hsub
    have := hsub.length_le
    simp only [List.length_cons, List.length_nil] at this
    rw [List.length_eq_zero_iff.1 (by omega : rest.length = 0)]

end

/-! ## Cascades -/

/-- A row goes because it was hit, or because it references something. -/
theorem mem_cascade {db : List Row} {r : Row} {n : Nat} : ∀ {dead : List Row}, r ∈ cascade n db dead →
    r ∈ dead ∨ r ∈ db ∧ ∃ k ∈ refs r, ∃ d ∈ cascade n db dead, key d = k := by
  induction n with
  | zero => intro dead h; cases h
  | succ n ih =>
    intro dead h
    rcases List.mem_append.1 h with h | h
    · exact .inl h
    · rcases ih h with h | ⟨hdb, k, hk, d, hd, hdk⟩
      · simp only [dependents, List.mem_filter, List.any_eq_true, decide_eq_true_eq] at h
        obtain ⟨hdb, k, hk, d, hd, hdk⟩ := h
        exact .inr ⟨hdb, k, hk, d, List.mem_append_left _ hd, hdk⟩
      · exact .inr ⟨hdb, k, hk, d, List.mem_append_right _ hd, hdk⟩

theorem dead_subset_cascade {db dead : List Row} {n : Nat} {r : Row} (hr : r ∈ dead) :
    r ∈ cascade (n + 1) db dead := List.mem_append_left _ hr

variable [DecidableEq Uniq]

/-! ## Statements -/

section
variable {T : Table Row τ} {env : Env} {snap alive cur rows : List Row} {ws : List (Write Row Key)}

theorem select_ok {p : τ → Bool} (h : ((T.select p : Stmt Row Env).run env snap alive cur).result = .ok (rows, ws)) :
    T.rows rows = (T.rows snap).filter p ∧ ws = [] := by
  simp only [Table.select, Stmt.run, Except.ok.injEq, Prod.mk.injEq] at h
  obtain ⟨rfl, rfl⟩ := h
  exact ⟨T.rows_filter_is p snap, rfl⟩

theorem selectAt_ok {p : Env → τ → Bool}
    (h : ((T.selectAt p : Stmt Row Env).run env snap alive cur).result = .ok (rows, ws)) :
    T.rows rows = (T.rows snap).filter (p env) ∧ ws = [] := by
  simp only [Table.selectAt, Stmt.run, Except.ok.injEq, Prod.mk.injEq] at h
  obtain ⟨rfl, rfl⟩ := h
  exact ⟨T.rows_filter_is (p env) snap, rfl⟩

theorem forUpdate_ok {p : τ → Bool}
    (h : ((T.forUpdate p : Stmt Row Env).run env snap alive cur).result = .ok (rows, ws)) :
    rows = hits (T.is p) alive cur ∧ ws = [] ∧
      ∀ r ∈ rows, (.row (key r), .update) ∈ ((T.forUpdate p : Stmt Row Env).run env snap alive cur).needs := by
  simp only [Table.forUpdate, Stmt.run, Except.ok.injEq, Prod.mk.injEq] at h ⊢
  obtain ⟨rfl, rfl⟩ := h
  exact ⟨rfl, rfl, fun r hr => List.mem_map.2 ⟨r, hr, rfl⟩⟩

theorem insertRows_singleton {touched : List Key} {r : Row} {oc : OnConflict Row}
    (h : (insertRows cur touched [(r, oc)]).result = .ok (rows, ws)) :
    (insertRow cur touched r oc).result = .ok (rows, ws) := by
  obtain ⟨rows₁, ws₁, rows₂, ws₂, h₁, h₂, rfl, rfl, -⟩ := insertRows_cons h
  simp only [insertRows, Except.ok.injEq, Prod.mk.injEq] at h₂
  rw [← h₂.1, ← h₂.2, List.append_nil, List.append_nil]; exact h₁

theorem insert_ok {mk : Env → List Row → Except (DbError Key Uniq) τ}
    (h : ((T.insert mk).run env snap alive cur).result = .ok (rows, ws)) :
    ∃ t, mk env snap = .ok t ∧ check (T.put t) = true ∧ clash cur (slots (T.put t)) = none ∧
      (∀ k ∈ refs (T.put t), ∃ x ∈ cur, key x = k) ∧ rows = [T.put t] ∧ ws = [.insert (T.put t)] := by
  cases hmk : mk env snap with
  | error e => simp [Table.insert, Stmt.run, hmk, Except.map] at h
  | ok t =>
    simp only [Table.insert, Stmt.run, hmk, Except.map] at h
    obtain ⟨hck, ⟨hr, hw, hc, hrefs, -⟩ | ⟨_, _, _, hoc, _⟩ | ⟨_, _, _, _, hoc, _⟩⟩ :=
      insertRow_cases (insertRows_singleton h)
    · exact ⟨t, rfl, hck, hc, hrefs, hr, hw⟩
    · cases hoc
    · cases hoc

/-- A plain INSERT fails on a primary key only if the key is there. -/
theorem insert_pk_present {mk : Env → List Row → Except (DbError Key Uniq) τ} {k : Key}
    (hmk : ∀ l, mk env snap ≠ .error (.unique l))
    (h : ((T.insert mk).run env snap alive cur).result = .error (.unique (.pk k))) :
    ∃ t, mk env snap = .ok t ∧ key (T.put t) = k ∧ Present k cur := by
  cases hm : mk env snap with
  | error e =>
    simp only [Table.insert, Stmt.run, hm, Except.map, Except.error.injEq] at h
    exact absurd (h ▸ hm) (hmk _)
  | ok t =>
    simp only [Table.insert, Stmt.run, hm, Except.map, insertRows] at h
    split at h
    · next err herr =>
      simp only [Except.error.injEq] at h
      obtain ⟨hl, e, he, hle⟩ := insertRow_unique (h ▸ herr)
      exact ⟨t, rfl, pk_mem_slots.1 hl, e, he, pk_mem_slots.1 hle⟩
    · cases h

theorem update_ok {p : τ → Bool} {set : Env → τ → τ} {hk : ∀ e, T.Keeps (set e)}
    (h : ((T.update p set hk).run env snap alive cur).result = .ok (rows, ws)) :
    rows = (T.rows (hits (T.is p) alive cur)).map (fun t => T.put (set env t)) ∧ ws = rows.map .update ∧
      ∀ r ∈ rows, check r = true := by
  simp only [Table.update, Stmt.run] at h
  split at h
  · next hall =>
    simp only [Except.ok.injEq, Prod.mk.injEq] at h
    obtain ⟨rfl, rfl⟩ := h
    refine ⟨?_, rfl, fun r hr => List.all_eq_true.1 hall r hr⟩
    rw [hits_eq T, List.map_map]
    simp [Table.setter, Function.comp_def]
  · cases h

/-! What makes a statement succeed. -/

theorem insert_run {mk : Env → List Row → Except (DbError Key Uniq) τ} {t : τ} (hmk : mk env snap = .ok t)
    (hck : check (T.put t) = true) (hc : ∀ l ∈ slots (T.put t), ∀ e ∈ cur, l ∉ slots e)
    (hrefs : ∀ k ∈ refs (T.put t), Present k cur) :
    ((T.insert mk).run env snap alive cur).result = .ok ([T.put t], [.insert (T.put t)]) := by
  have hclash : clash cur (slots (T.put t)) = none := clash_eq_none.2 hc
  have hfind : ((refs (T.put t)).find? fun k => !cur.any fun x => key x = k) = none := by
    refine List.find?_eq_none.2 fun k hk => ?_
    obtain ⟨x, hx, hxk⟩ := hrefs k hk
    simp only [Bool.not_eq_true', Bool.not_eq_false, List.any_eq_true, decide_eq_true_eq]
    exact ⟨x, hx, hxk⟩
  have hrow : (insertRow cur [] (T.put t) .error).result = .ok ([T.put t], [.insert (T.put t)]) := by
    simp [insertRow, hck, hclash, enter, hfind]
  simp [Table.insert, Stmt.run, hmk, Except.map, insertRows, hrow]

/-- The locks of an INSERT: its row, its index entries, and what it references. -/
theorem insert_needs {mk : Env → List Row → Except (DbError Key Uniq) τ} {t : τ} (hmk : mk env snap = .ok t)
    (hck : check (T.put t) = true) (hc : ∀ l ∈ slots (T.put t), ∀ e ∈ cur, l ∉ slots e) {n : Need Key Uniq}
    (hn : n ∈ ((T.insert mk).run env snap alive cur).needs) :
    n.1 = .row (key (T.put t)) ∨ n.1 ∈ slots (T.put t) ∨ ∃ k ∈ refs (T.put t), n = (.row k, .keyShare) := by
  have hclash : clash cur (slots (T.put t)) = none := clash_eq_none.2 hc
  have hrow : (insertRow cur [] (T.put t) .error).needs = (enter cur (T.put t)).needs := by
    simp [insertRow, hck, hclash]
  have hmem : n ∈ (enter cur (T.put t)).needs := by
    simp only [Table.insert, Stmt.run, hmk, Except.map, insertRows] at hn
    split at hn <;> simpa [hrow] using hn
  simp only [enter, List.cons_append, List.mem_cons, List.mem_append, List.mem_map] at hmem
  rcases hmem with rfl | ⟨l, hl, rfl⟩ | ⟨k, hk, rfl⟩
  · exact .inl rfl
  · exact .inr (.inl hl)
  · exact .inr (.inr ⟨k, hk, rfl⟩)

theorem insertRows_one {db : List Row} {touched : List Key} {r : Row} {oc : OnConflict Row}
    (h : (insertRow db touched r oc).result = .ok (rows, ws)) :
    (insertRows db touched [(r, oc)]).result = .ok (rows, ws) := by
  simp [insertRows, h, Except.map]

/-- A row whose index entries are free enters, whatever it says of
conflicts. -/
theorem insertRow_free {db : List Row} {touched : List Key} {r : Row} {oc : OnConflict Row} (hck : check r = true)
    (hc : ∀ l ∈ slots r, ∀ e ∈ db, l ∉ slots e) (hrefs : ∀ k ∈ refs r, Present k db) :
    (insertRow db touched r oc).result = .ok ([r], [.insert r]) := by
  have hclash : clash db (slots r) = none := clash_eq_none.2 hc
  have hsome : ∀ a, clash db ((slots r).filter a) = none := fun a =>
    clash_eq_none.2 fun l hl => hc l (List.mem_filter.1 hl).1
  have hfind : ((refs r).find? fun k => !db.any fun x => key x = k) = none := by
    refine List.find?_eq_none.2 fun k hk => ?_
    obtain ⟨x, hx, hxk⟩ := hrefs k hk
    simp only [Bool.not_eq_true', Bool.not_eq_false, List.any_eq_true, decide_eq_true_eq]
    exact ⟨x, hx, hxk⟩
  cases oc <;> simp [insertRow, hck, hclash, hsome, enter, hfind]

/-- A row in the way is updated. -/
theorem insertRow_taken {db : List Row} {touched : List Key} {r : Row} {a : Lockable Key Uniq → Bool} {set : Setter Row}
    {l : Lockable Key Uniq} {e : Row} (hck : check r = true) (hc : clash db ((slots r).filter a) = some (l, e))
    (ht : key e ∉ touched) (hce : check (set.set e) = true) :
    (insertRow db touched r (.doUpdate a set)).result = .ok ([set.set e], [.update (set.set e)]) := by
  simp [insertRow, hck, hc, ht, hce]

omit [DecidableEq Uniq] in
theorem hits_one {p : τ → Bool} {t : τ} {k : Key} (hu : KeysUnique cur) (hp : ∀ t, p t = true → key (T.put t) = k)
    (ht : p t = true) (hcur : T.put t ∈ cur) (halive : T.put t ∈ alive) : hits (T.is p) alive cur = [T.put t] := by
  have hmem : T.put t ∈ hits (T.is p) alive cur := (mem_hits T).2 ⟨t, rfl, hcur, ht, t, halive, ht, rfl⟩
  rcases hits_byKey alive hu hp with hnil | ⟨x, hx, -⟩
  · rw [hnil] at hmem; cases hmem
  · rw [hx] at hmem ⊢
    rw [List.mem_singleton.1 hmem]

theorem update_run {p : τ → Bool} {set : Env → τ → τ} {hk : ∀ e, T.Keeps (set e)} {t : τ}
    (hh : hits (T.is p) alive cur = [T.put t]) (hck : check (T.put (set env t)) = true) :
    ((T.update p set hk).run env snap alive cur).result =
      .ok ([T.put (set env t)], [.update (T.put (set env t))]) := by
  simp [Table.update, Stmt.run, hh, Table.setter, hck]

/-- Each write of an UPDATE is to a row the WHERE clause holds of. -/
theorem update_ok_write {p : τ → Bool} {set : Env → τ → τ} {hk : ∀ e, T.Keeps (set e)}
    (h : ((T.update p set hk).run env snap alive cur).result = .ok (rows, ws)) {w : Write Row Key} (hw : w ∈ ws) :
    ∃ t, T.put t ∈ cur ∧ p t = true ∧ w = .update (T.put (set env t)) ∧ w.key = key (T.put t) := by
  obtain ⟨hrows, rfl, -⟩ := update_ok h
  obtain ⟨r, hr, rfl⟩ := List.mem_map.1 hw
  rw [hrows] at hr
  obtain ⟨t, ht, rfl⟩ := List.mem_map.1 hr
  obtain ⟨t', htt, hc, hp, -⟩ := (mem_hits T).1 (T.mem_rows.1 ht)
  obtain rfl := T.put_inj htt
  exact ⟨t, hc, hp, rfl, (hk env t).1⟩

theorem delete_ok {p : τ → Bool} (h : ((T.delete p : Stmt Row Env).run env snap alive cur).result = .ok (rows, ws)) :
    rows = hits (T.is p) alive cur ∧
      ws = (cascade (cur.length + 1) cur (hits (T.is p) alive cur)).map fun r => .delete (key r) := by
  simp only [Table.delete, Stmt.run, Except.ok.injEq, Prod.mk.injEq] at h
  exact ⟨h.1.symm, h.2.symm⟩

end

/-! ## Where a statement writes -/

/-- Every write of `q` is to a key in `D`. -/
def Stmt.WritesIn (D : Key → Prop) (q : Stmt Row Env) : Prop :=
  ∀ env snap alive cur rows ws, (q.run env snap alive cur).result = .ok (rows, ws) → ∀ w ∈ ws, D w.key

section
variable {D D' : Key → Prop} {T : Table Row τ}

theorem Stmt.WritesIn.mono {q : Stmt Row Env} (h : q.WritesIn D) (hD : ∀ k, D k → D' k) : q.WritesIn D' :=
  fun env snap alive cur rows ws hok w hw => hD _ (h env snap alive cur rows ws hok w hw)

theorem select_writesIn (p : Env → Row → Bool) : (Stmt.select p : Stmt Row Env).WritesIn D := by
  intro env snap alive cur rows ws h w hw
  simp only [Stmt.run, Except.ok.injEq, Prod.mk.injEq] at h
  rw [← h.2] at hw; cases hw

theorem forUpdate_writesIn (p : Row → Bool) : (Stmt.forUpdate p : Stmt Row Env).WritesIn D := by
  intro env snap alive cur rows ws h w hw
  simp only [Stmt.run, Except.ok.injEq, Prod.mk.injEq] at h
  rw [← h.2] at hw; cases hw

/-- What an INSERT writes: a row of it, or the row that stood in the way of
one. -/
theorem insertRows_writes {xs : List (Row × OnConflict Row)} : ∀ {db : List Row} {touched : List Key} {rows ws},
    (insertRows db touched xs).result = .ok (rows, ws) → ∀ w ∈ ws,
      (∃ x ∈ xs, w = .insert x.1 ∧ check x.1 = true) ∨
      ∃ x ∈ xs, ∃ a set e l, x.2 = .doUpdate a set ∧ w = .update (set.set e) ∧ check (set.set e) = true ∧
        l ∈ slots x.1 ∧ a l = true ∧ l ∈ slots e := by
  induction xs with
  | nil =>
    intro db touched rows ws h w hw
    simp only [insertRows, Except.ok.injEq, Prod.mk.injEq] at h
    rw [← h.2] at hw; cases hw
  | cons x rest ih =>
    intro db touched rows ws h w hw
    obtain ⟨r, oc⟩ := x
    obtain ⟨rows₁, ws₁, rows₂, ws₂, h₁, h₂, -, rfl, -⟩ := insertRows_cons h
    rcases List.mem_append.1 hw with hw | hw
    · obtain ⟨hck, ⟨_, rfl, _⟩ | ⟨_, rfl, _⟩ | ⟨a, set, l, e, rfl, hcl, _, hce, _, rfl, _⟩⟩ := insertRow_cases h₁
      · exact .inl ⟨(r, oc), by simp, List.mem_singleton.1 hw, hck⟩
      · cases hw
      · obtain ⟨hl, _, hle⟩ := clash_some hcl
        obtain ⟨hlr, hla⟩ := List.mem_filter.1 hl
        exact .inr ⟨(r, .doUpdate a set), by simp, a, set, e, l, rfl, List.mem_singleton.1 hw, hce, hlr, hla, hle⟩
    · rcases ih h₂ w hw with ⟨x, hx, h⟩ | ⟨x, hx, h⟩
      · exact .inl ⟨x, by simp [hx], h⟩
      · exact .inr ⟨x, by simp [hx], h⟩

/-- A new row is one of those the INSERT makes. -/
theorem insert_entered {mk : Env → List Row → Except (DbError Key Uniq) (List (Row × OnConflict Row))} {r : Row}
    (h : ((Stmt.insert mk).run env snap alive cur).result = .ok (rows, ws)) (hr : .insert r ∈ ws) :
    ∃ xs, mk env snap = .ok xs ∧ ∃ x ∈ xs, r = x.1 := by
  cases hmk : mk env snap with
  | error e => simp [Stmt.run, hmk] at h
  | ok xs =>
    simp only [Stmt.run, hmk] at h
    rcases insertRows_writes h _ hr with ⟨x, hx, heq, -⟩ | ⟨x, -, a, set, e, l, -, heq, -⟩
    · exact ⟨xs, rfl, x, hx, Write.insert.inj heq⟩
    · cases heq

theorem tableInsert_entered {mk : Env → List Row → Except (DbError Key Uniq) τ} {oc : OnConflict Row} {r : Row}
    (h : ((T.insert mk oc).run env snap alive cur).result = .ok (rows, ws)) (hr : .insert r ∈ ws) :
    ∃ t, mk env snap = .ok t ∧ r = T.put t := by
  obtain ⟨xs, hxs, x, hx, rfl⟩ := insert_entered h hr
  cases hmk : mk env snap with
  | error e => simp [hmk, Except.map] at hxs
  | ok t =>
    simp only [hmk, Except.map, Except.ok.injEq] at hxs
    rw [← hxs, List.mem_singleton] at hx
    exact ⟨t, rfl, by rw [hx]⟩

theorem update_entered {p : τ → Bool} {set : Env → τ → τ} {hk : ∀ e, T.Keeps (set e)} {r : Row}
    (h : ((T.update p set hk).run env snap alive cur).result = .ok (rows, ws)) : .insert r ∉ ws := by
  intro hr
  obtain ⟨t, -, -, heq, -⟩ := update_ok_write h hr
  cases heq

/-- An INSERT whose conflicts are with rows of the same kind. -/
theorem insert_writesIn {mk : Env → List Row → Except (DbError Key Uniq) (List (Row × OnConflict Row))}
    (h : ∀ env snap xs, mk env snap = .ok xs → ∀ x ∈ xs, D (key x.1) ∧
      ∀ a set, x.2 = .doUpdate a set → ∀ (e : Row) l, l ∈ slots x.1 → a l = true → l ∈ slots e → D (key e)) :
    (Stmt.insert mk).WritesIn D := by
  intro env snap alive cur rows ws hok w hw
  cases hmk : mk env snap with
  | error e => simp [Stmt.run, hmk] at hok
  | ok xs =>
    simp only [Stmt.run, hmk] at hok
    rcases insertRows_writes hok w hw with ⟨x, hx, rfl, _⟩ | ⟨x, hx, a, set, e, l, ho, rfl, _, hl, ha, hle⟩
    · exact (h env snap xs hmk x hx).1
    · have := (h env snap xs hmk x hx).2 a set ho e l hl ha hle
      rwa [Write.key, set.key_set]

theorem tableInsert_writesIn (h : ∀ t, D (key (T.put t))) (mk : Env → List Row → Except (DbError Key Uniq) τ) :
    (T.insert mk).WritesIn D := by
  intro env snap alive cur rows ws hok w hw
  obtain ⟨t, _, _, _, _, _, rfl⟩ := insert_ok hok
  rw [List.mem_singleton.1 hw]; exact h t

theorem update_writesIn (h : ∀ t, D (key (T.put t))) (p : τ → Bool) (set : Env → τ → τ)
    (hk : ∀ e, T.Keeps (set e)) : (T.update p set hk).WritesIn D := by
  intro env snap alive cur rows ws hok w hw
  obtain ⟨hrows, rfl, _⟩ := update_ok hok
  obtain ⟨r, hr, rfl⟩ := List.mem_map.1 hw
  rw [hrows] at hr
  obtain ⟨t, _, rfl⟩ := List.mem_map.1 hr
  exact h _

/-- A DELETE and its cascade stay in a set of keys that what references it
belongs to. -/
theorem delete_writesIn (h : ∀ t, D (key (T.put t))) (hrefs : ∀ r : Row, ∀ k ∈ refs r, D k → D (key r))
    (p : τ → Bool) : (T.delete p : Stmt Row Env).WritesIn D := by
  intro env snap alive cur rows ws hok w hw
  obtain ⟨-, rfl⟩ := delete_ok hok
  have key_of : ∀ n dead, (∀ r ∈ dead, D (key r)) → ∀ r ∈ cascade n cur dead, D (key r) := by
    intro n
    induction n with
    | zero => intro dead _ r hr; cases hr
    | succ n ih =>
      intro dead hdead r hr
      rcases List.mem_append.1 hr with hr | hr
      · exact hdead r hr
      · refine ih _ (fun r' hr' => ?_) r hr
        simp only [dependents, List.mem_filter, List.any_eq_true, decide_eq_true_eq] at hr'
        obtain ⟨_, k, hk, d, hd, rfl⟩ := hr'
        exact hrefs r' _ hk (hdead d hd)
  obtain ⟨r, hr, rfl⟩ := List.mem_map.1 hw
  refine key_of _ _ (fun r' hr' => ?_) r hr
  obtain ⟨t, rfl, _⟩ := (mem_hits T).1 hr'
  exact h t

end
end Relational
