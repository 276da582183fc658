/-
Which statements go through, and what those then write: by the rows they find
and whether the database fails them, and by nothing else (`Decided`).
-/
import DataApi.Db.Writes
import DataApi.Lib.Constraints
import DataApi.Outcomes

namespace DataApi

open Relational ReadCommitted

/-- The statement goes through exactly when `C`; it answers `rows` then, and
writes `ws`. -/
structure Decided (C : Prop) (q : Sql) (b e : Env) (db rows : Db) (ws : List (Write Row Key)) : Prop where
  ok : C → answer q b e db = .ok (rows, ws)
  error : ¬C → ∃ err, answer q b e db = .error err

/-- A row can be entered: its INSERT is not failed, it passes its CHECK, no
row has its key or a UNIQUE value of it, and what it references is there. -/
structure Lands (e : Env) (db : Db) (r : Row) : Prop where
  works : e.fails = false
  checked : check r = true
  free : ∀ l ∈ slots r, ∀ x ∈ db, l ∉ slots x
  refs : ∀ k ∈ refs r, Present k db

section
variable {τ : Type} {T : Table Row τ} {p : τ → Bool} {b e : Env} {db rows : Db} {ws : List (Write Row Key)} {q : Sql}
  {C : Prop} {r : Row}

theorem Decided.of (hok : C → answer q b e db = .ok (rows, ws)) (hc : ∀ rows ws, answer q b e db = .ok (rows, ws) → C) :
    Decided C q b e db rows ws where
  ok := hok
  error hno := by
    cases h : answer q b e db with
    | error err => exact ⟨err, rfl⟩
    | ok x => exact absurd (hc x.1 x.2 h) hno

theorem Decided.congr {C' : Prop} (h : Decided C q b e db rows ws) (hc : C ↔ C') : Decided C' q b e db rows ws where
  ok h' := h.ok (hc.2 h')
  error hno := h.error fun h' => hno (hc.1 h')

theorem Lands.lacks (h : Lands e db r) : r ∉ db :=
  fun hmem => h.free _ (pk_mem_slots.2 rfl) r hmem (pk_mem_slots.2 rfl)

/-! ## Reading -/

theorem decided_select : Decided (e.fails = false) (T.select p) b e db (db.filter (T.is p)) [] :=
  .of answer_select fun _ _ h => (answer_ok h).1

theorem decided_forUpdate : Decided (e.fails = false) (T.forUpdate p) b e db (db.filter (T.is p)) [] :=
  .of answer_forUpdate fun _ _ h => (answer_ok h).1

theorem decided_selectAt {p : Env → τ → Bool} : Decided (e.fails = false) (T.selectAt p) b e db
    (db.filter (T.is (p { e with now := b.now }))) [] := by
  refine .of (fun hf => ?_) fun _ _ h => (answer_ok h).1
  rw [answer, hf]; rfl

theorem head_filter_is : (T.rows (db.filter (T.is p))).head? = (T.rows db).find? p := by
  rw [T.rows_filter_is, List.head?_filter]

/-- A primary key is there exactly when a row is found by it. -/
theorem present_iff {k : Key} (hk : ∀ r : Row, key r = k ↔ T.is p r = true) :
    Present k db ↔ ∃ t, (T.rows db).find? p = some t := by
  rw [← not_iff_not, ← lookup_eq_none, lookup_rows T hk]
  cases (T.rows db).find? p <;> simp

theorem key_session {id : Uuid} (r : Row) : key r = Key.session id ↔ sessionsT.is (Sessions.byId id) r = true := by
  cases r <;> simp [key, Row.key, Table.is, sessionsT, Sessions.byId]

theorem key_participant {id : Uuid} (r : Row) : key r = Key.participant id ↔
    participantsT.is (Participants.byId id) r = true := by
  cases r <;> simp [key, Row.key, Table.is, participantsT, Participants.byId]

theorem key_metadata {id : Uuid} (r : Row) : key r = Key.metadata id ↔ metadataT.is (Metadata.byId id) r = true := by
  cases r <;> simp [key, Row.key, Table.is, metadataT, Metadata.byId]

/-! ## Entering a row -/

theorem answer_insert {mk : Env → Db → Except (DbError Key Uniq) (List (Row × OnConflict Row))}
    {xs : List (Row × OnConflict Row)} (hf : e.fails = false) (h : mk { e with now := b.now } db = .ok xs) :
    answer (.insert mk) b e db = (insertRows db [] xs).result := by
  rw [answer, if_neg (by simp [hf])]
  simp [Stmt.run, h]

theorem decided_insert {mk : Env → Db → Except (DbError Key Uniq) τ} {t : τ} (h : mk { e with now := b.now } db = .ok t) :
    Decided (Lands e db (T.put t)) (T.insert mk) b e db [T.put t] [.insert (T.put t)] := by
  refine .of (fun hl => ?_) fun rows ws hans => ?_
  · rw [answer, if_neg (by simp [hl.works])]
    exact insert_run h hl.checked hl.free hl.refs
  · obtain ⟨hf, hrun⟩ := answer_ok hans
    obtain ⟨t', ht, hck, hclash, hrefs, -, -⟩ := insert_ok hrun
    obtain rfl := Except.ok.inj (h.symm.trans ht)
    exact ⟨hf, hck, clash_eq_none.1 hclash, hrefs⟩

/-- Where nothing stands in an upsert's way, it enters its row. -/
theorem upserted_lands {touched : List Key} {a : Lockable Key Uniq → Bool} {set : Setter Row}
    (hno : ∀ l ∈ (slots r).filter a, ∀ x ∈ db, l ∉ slots x)
    (h : (insertRow db touched r (.doUpdate a set)).result = .ok (rows, ws)) :
    check r = true ∧ (∀ l ∈ slots r, ∀ x ∈ db, l ∉ slots x) ∧ ∀ k ∈ refs r, Present k db := by
  obtain ⟨hck, ⟨-, -, hc, hrefs, -⟩ | ⟨-, -, a', ho, -⟩ | ⟨a', set', l, x, ho, hc, -⟩⟩ := insertRow_cases h
  · exact ⟨hck, clash_eq_none.1 hc, hrefs⟩
  · cases ho
  · obtain ⟨rfl, rfl⟩ := OnConflict.doUpdate.inj ho
    obtain ⟨hl, hx, hlx⟩ := clash_some hc
    exact absurd hlx (hno l hl x hx)

section
variable {mk : Env → Db → Except (DbError Key Uniq) (List (Row × OnConflict Row))} {a : Lockable Key Uniq → Bool}

theorem decided_upsert_new {set : Setter Row} (h : mk { e with now := b.now } db = .ok [(r, .doUpdate a set)])
    (hno : ∀ l ∈ (slots r).filter a, ∀ x ∈ db, l ∉ slots x) :
    Decided (Lands e db r) (.insert mk) b e db [r] [.insert r] := by
  refine .of (fun hl => ?_) fun rows ws hans => ?_
  · rw [answer_insert hl.works h]
    exact insertRows_one (insertRow_free hl.checked hl.free hl.refs)
  · have hf := (answer_ok hans).1
    rw [answer_insert hf h] at hans
    obtain ⟨hck, hfree, hrefs⟩ := upserted_lands hno (insertRows_singleton hans)
    exact ⟨hf, hck, hfree, hrefs⟩

/-- Over the row `x` in its way, an upsert sets that row. -/
theorem decided_upsert_taken (set : Setter Row) {l : Lockable Key Uniq} {x : Row} (h : mk { e with now := b.now } db = .ok [(r, .doUpdate a set)])
    (hdb : Intact db) (hl : (slots r).filter a = [l]) (hx : x ∈ db) (hlx : l ∈ slots x) :
    Decided (e.fails = false ∧ check r = true ∧ check (set.set x) = true) (.insert mk) b e db
      [set.set x] [.update (set.set x)] := by
  have hclash : clash db ((slots r).filter a) = some (l, x) := clash_arbiter hl hdb hx hlx
  refine .of ?_ fun rows ws hans => ?_
  · rintro ⟨hf, hck, hcx⟩
    rw [answer_insert hf h]
    exact insertRows_one (insertRow_taken hck hclash (by simp) hcx)
  · have hf := (answer_ok hans).1
    rw [answer_insert hf h] at hans
    obtain ⟨hck, ⟨-, -, hc, -⟩ | ⟨-, -, a', ho, -⟩ | ⟨a', set', l', x', ho, hc, -, hcx, -⟩⟩ :=
      insertRow_cases (insertRows_singleton hans)
    · have hlr : l ∈ slots r := (List.mem_filter.1 (show l ∈ (slots r).filter a by rw [hl]; simp)).1
      exact absurd hlx (clash_eq_none.1 hc l hlr x hx)
    · cases ho
    · obtain ⟨rfl, rfl⟩ := OnConflict.doUpdate.inj ho
      obtain ⟨-, rfl⟩ := Prod.mk.inj (Option.some.inj (hclash.symm.trans hc))
      exact ⟨hf, hck, hcx⟩

end

/-! ## Setting and deleting rows -/

section
variable {set : Env → τ → τ} {hk : ∀ e, T.Keeps (set e)} {k : Key}

/-- An UPDATE by primary key, of a row that is there. -/
theorem decided_update {t : τ} (hu : KeysUnique db) (hp : ∀ t, p t = true → key (T.put t) = k)
    (ht : (T.rows db).find? p = some t) :
    Decided (e.fails = false ∧ check (T.put (set { e with now := b.now } t)) = true) (T.update p set hk) b e db
      [T.put (set { e with now := b.now } t)] [.update (T.put (set { e with now := b.now } t))] := by
  have hmem : T.put t ∈ db := T.mem_rows.1 (List.mem_of_find?_eq_some ht)
  refine .of (fun h => answer_update h.1 hu hp ht h.2) fun rows ws hans => ⟨(answer_ok hans).1, ?_⟩
  obtain ⟨hrows, -, hck⟩ := update_answer hans
  refine hck _ (T.mem_rows.1 ?_)
  rw [hrows]
  exact List.mem_map_of_mem (List.mem_filter.2 ⟨T.mem_rows.2 hmem, List.find?_some ht⟩)

/-- The same of a row that is missing. -/
theorem decided_update_missing (hnone : (T.rows db).find? p = none) :
    Decided (e.fails = false) (T.update p set hk) b e db [] [] := by
  refine .of (fun hf => ?_) fun _ _ h => (answer_ok h).1
  have hhits : hits (T.is p) db db = [] := by
    rw [hits_self]
    refine List.filter_eq_nil_iff.2 fun r hr his => ?_
    obtain ⟨t, rfl, hpt⟩ := T.is_iff.1 his
    exact List.find?_eq_none.1 hnone t (T.mem_rows.2 hr) hpt
  rw [answer, if_neg (by simp [hf])]
  simp [Table.update, Stmt.run, hhits]

/-- A DELETE on a table nothing references. -/
theorem answer_deleteLeaf {n : TableName} (hf : e.fails = false) (hu : KeysUnique db) (hn : n.isParent = false)
    (hT : ∀ t, (key (T.put t) : Key).table = n) : ∃ ws, answer (T.delete p) b e db = .ok (db.filter (T.is p), ws) ∧
      applyAll ws db = db.filter fun r => !T.is p r := by
  have hleaf : dependents db (db.filter (T.is p)) = [] := by
    refine List.filter_eq_nil_iff.2 fun r _ href => ?_
    obtain ⟨k, hk, hd⟩ := List.any_eq_true.1 href
    obtain ⟨d, hd, hdk⟩ := List.any_eq_true.1 hd
    obtain ⟨t, rfl, -⟩ := T.is_iff.1 (List.mem_filter.1 hd).2
    have hparent : n.isParent = true := by
      rw [← hT t, of_decide_eq_true hdk]
      exact ref_isParent hk
    rw [hn] at hparent
    cases hparent
  refine ⟨_, ?_, applyAll_deletes (T.is p) hu⟩
  rw [answer, if_neg (by simp [hf])]
  simp only [Table.delete, Stmt.run, hits_self, cascade_leaf hleaf]

theorem decided_deleteLeaf {n : TableName} (hu : KeysUnique db) (hn : n.isParent = false)
    (hT : ∀ t, (key (T.put t) : Key).table = n) : ∃ ws, Decided (e.fails = false) (T.delete p) b e db (db.filter (T.is p)) ws ∧
      applyAll ws db = db.filter fun r => !T.is p r := by
  cases hf : e.fails with
  | true =>
    refine ⟨(db.filter (T.is p)).map fun r => .delete (key r), ⟨by simp, fun _ => ⟨.failure, ?_⟩⟩, applyAll_deletes _ hu⟩
    rw [answer, hf]; rfl
  | false =>
    obtain ⟨ws, hans, hws⟩ := answer_deleteLeaf (p := p) (b := b) hf hu hn hT
    exact ⟨ws, ⟨fun _ => hans, fun h => absurd rfl h⟩, hws⟩

end
end
end DataApi
