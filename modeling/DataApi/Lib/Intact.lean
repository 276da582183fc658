/-
What the table definitions promise of a stored state: no index entry is taken
twice, every row passes its CHECK, and what a row references is there. An
INSERT keeps the promise, and where it holds, the row in the way of an upsert
is one only.
-/
import DataApi.Lib.Statements
import Mathlib.Data.List.Pairwise

namespace Relational

variable {Row Key Uniq Env τ : Type} [Schema Row Key Uniq] [DecidableEq Key] [DecidableEq Uniq]

/-- A state that the table definitions allow. -/
structure Intact (db : List Row) : Prop where
  single : db.Pairwise fun x y => ∀ l ∈ slots x, l ∉ slots y
  checked : ∀ r ∈ db, check r = true
  referenced : ∀ r ∈ db, ∀ k ∈ refs r, Present k db

instance (k : Key) (db : List Row) : Decidable (Present k db) := inferInstanceAs (Decidable (∃ r ∈ db, key r = k))

theorem intact_iff {db : List Row} : Intact db ↔ db.Pairwise (fun x y => (clash [y] (slots x)).isNone = true) ∧
    (∀ r ∈ db, check r = true) ∧ ∀ r ∈ db, ∀ k ∈ refs r, Present k db := by
  have hclash : ∀ x y : Row, (clash [y] (slots x)).isNone = true ↔ ∀ l ∈ slots x, l ∉ slots y := by
    intro x y
    rw [Option.isNone_iff_eq_none, clash_eq_none]
    simp
  simp only [hclash]
  exact ⟨fun h => ⟨h.single, h.checked, h.referenced⟩, fun h => ⟨h.1, h.2.1, h.2.2⟩⟩

instance (db : List Row) : Decidable (Intact db) := decidable_of_iff _ intact_iff.symm

section
variable {db : List Row} {r e x : Row} {l : Lockable Key Uniq}

omit [DecidableEq Key] [DecidableEq Uniq] in
/-- An index entry says whose it is. -/
theorem Intact.slot_eq (h : Intact db) (hx : x ∈ db) (he : e ∈ db) (hlx : l ∈ slots x) (hle : l ∈ slots e) : x = e := by
  by_contra hne
  have hsymm : Std.Symm fun x y : Row => ∀ l ∈ slots x, l ∉ slots y := ⟨fun x y hxy l hl hl' => hxy l hl' hl⟩
  exact h.single.forall hx he hne l hlx hle

omit [DecidableEq Key] [DecidableEq Uniq] in
theorem Intact.keys (h : Intact db) : KeysUnique db := by
  rw [KeysUnique, List.Nodup, List.pairwise_map]
  refine h.single.imp fun hxy hk => ?_
  exact hxy _ (pk_mem_slots.2 rfl) (pk_mem_slots.2 hk.symm)

omit [DecidableEq Uniq] in
theorem Intact.insert (h : Intact db) (hck : check r = true) (hc : ∀ l ∈ slots r, ∀ e ∈ db, l ∉ slots e)
    (hrefs : ∀ k ∈ refs r, Present k db) : Intact (Write.apply db (.insert r)) where
  single := by
    refine List.pairwise_append.2 ⟨h.single, List.pairwise_singleton _ _, fun x hx y hy l hl hl' => ?_⟩
    rw [List.mem_singleton.1 hy] at hl'
    exact hc l hl' x hx hl
  checked := by
    intro x hx
    rcases List.mem_append.1 hx with hx | hx
    · exact h.checked x hx
    · rwa [List.mem_singleton.1 hx]
  referenced := by
    intro x hx k hk
    rw [present_insert]
    rcases List.mem_append.1 hx with hx | hx
    · exact .inl (h.referenced x hx k hk)
    · rw [List.mem_singleton.1 hx] at hk
      exact .inl (hrefs k hk)

omit [DecidableEq Uniq] in
/-- A SET clause on one row. -/
theorem Intact.update (h : Intact db) (set : Setter Row) (he : e ∈ db) (hck : check (set.set e) = true) :
    Intact (Write.apply db (.update (set.set e))) := by
  have hrow : ∀ x ∈ db, ∀ y, (if key x = key (set.set e) then set.set e else x) = y →
      slots y = slots x ∧ refs y = refs x := by
    rintro x hx y rfl
    split
    · next hk =>
      rw [set.key_set] at hk
      obtain rfl : x = e := h.slot_eq hx he (pk_mem_slots.2 rfl) (pk_mem_slots.2 hk.symm)
      exact ⟨by rw [slots, slots, set.key_set, set.uniques_set], set.refs_set x⟩
    · exact ⟨rfl, rfl⟩
  refine ⟨?_, fun y hy => ?_, fun y hy k hk => ?_⟩
  · rw [Write.apply, List.pairwise_map]
    refine h.single.imp_of_mem fun hx hy hxy l hl hl' => ?_
    rw [(hrow _ hx _ rfl).1] at hl
    rw [(hrow _ hy _ rfl).1] at hl'
    exact hxy l hl hl'
  · obtain ⟨x, hx, rfl⟩ := List.mem_map.1 hy
    split
    · exact hck
    · exact h.checked x hx
  · obtain ⟨x, hx, hxy⟩ := List.mem_map.1 hy
    rw [present_update]
    rw [(hrow x hx y hxy).2] at hk
    exact h.referenced x hx k hk

omit [DecidableEq Key] [DecidableEq Uniq] in
/-- Rows that can be entered, and others that can, of other index entries:
all of them can. -/
theorem Intact.append {xs ys : List Row} (hx : Intact (db ++ xs)) (hy : Intact (db ++ ys))
    (h : ∀ x ∈ xs, ∀ y ∈ ys, ∀ l ∈ slots x, l ∉ slots y) : Intact (db ++ xs ++ ys) where
  single := by
    obtain ⟨-, hys, hdb⟩ := List.pairwise_append.1 hy.single
    refine List.pairwise_append.2 ⟨hx.single, hys, fun x hx y hy => ?_⟩
    rcases List.mem_append.1 hx with hx | hx
    · exact hdb x hx y hy
    · exact h x hx y hy
  checked := by
    intro r hr
    rcases List.mem_append.1 hr with hr | hr
    · exact hx.checked r hr
    · exact hy.checked r (List.mem_append_right _ hr)
  referenced := by
    intro r hr k hk
    have hkept : (∃ x ∈ db ++ xs, key x = k) ∨ ∃ x ∈ db ++ ys, key x = k := by
      rcases List.mem_append.1 hr with hr | hr
      · exact .inl (hx.referenced r hr k hk)
      · exact .inr (hy.referenced r (List.mem_append_right _ hr) k hk)
    rcases hkept with ⟨x, hx, hxk⟩ | ⟨y, hy, hyk⟩
    · exact ⟨x, List.mem_append_left _ hx, hxk⟩
    · refine ⟨y, ?_, hyk⟩
      rcases List.mem_append.1 hy with hy | hy
      · exact List.mem_append_left _ (List.mem_append_left _ hy)
      · exact List.mem_append_right _ hy

/-- What an INSERT of one row leaves is intact again. -/
theorem Intact.insertRow (h : Intact db) {touched : List Key} {oc : OnConflict Row} {rows : List Row}
    {ws : List (Write Row Key)} (hrun : (insertRow db touched r oc).result = .ok (rows, ws)) : Intact (applyAll ws db) := by
  obtain ⟨hck, ⟨-, rfl, hc, hrefs, -⟩ | ⟨-, rfl, -⟩ | ⟨a, set, l, e, -, hc, -, hce, -, rfl, -⟩⟩ := insertRow_cases hrun
  · exact h.insert hck (clash_eq_none.1 hc) hrefs
  · exact h
  · exact h.update set (clash_some hc).2.1 hce

theorem Intact.insertRows {xs : List (Row × OnConflict Row)} : ∀ {db : List Row} {touched : List Key} {rows ws},
    Intact db → (insertRows db touched xs).result = .ok (rows, ws) → Intact (applyAll ws db) := by
  induction xs with
  | nil =>
    intro db touched rows ws h hrun
    simp only [Relational.insertRows, Except.ok.injEq, Prod.mk.injEq] at hrun
    rw [← hrun.2]
    exact h
  | cons x rest ih =>
    intro db touched rows ws h hrun
    obtain ⟨rows₁, ws₁, rows₂, ws₂, h₁, h₂, -, rfl, -⟩ := insertRows_cons hrun
    rw [applyAll_append]
    exact ih (h.insertRow h₁) h₂

end

omit [DecidableEq Uniq] in
theorem applyAll_inserts (rows db : List Row) : applyAll (rows.map .insert) db = db ++ rows := by
  induction rows generalizing db with
  | nil => simp
  | cons r rows ih => simp [Write.apply, ih]

/-- One row entered, then the rest. -/
theorem insertRows_then {db : List Row} {touched : List Key} {r : Row} {oc : OnConflict Row}
    {rest : List (Row × OnConflict Row)} {rows₁ rows₂ : List Row} {ws₁ ws₂ : List (Write Row Key)}
    (h₁ : (insertRow db touched r oc).result = .ok (rows₁, ws₁))
    (h₂ : (insertRows (applyAll ws₁ db) (ws₁.map Write.key ++ touched) rest).result = .ok (rows₂, ws₂)) :
    (insertRows db touched ((r, oc) :: rest)).result = .ok (rows₁ ++ rows₂, ws₁ ++ ws₂) := by
  simp [insertRows, h₁, h₂, Except.map]

/-- An INSERT deletes nothing. -/
theorem insertRows_present {db : List Row} {touched : List Key} {xs : List (Row × OnConflict Row)} {rows : List Row}
    {ws : List (Write Row Key)} (h : (insertRows db touched xs).result = .ok (rows, ws)) {k : Key} (hk : Present k db) :
    Present k (applyAll ws db) := by
  refine (present_applyAll fun w hw => ?_).2 (.inl hk)
  rcases insertRows_writes h w hw with ⟨x, -, rfl, -⟩ | ⟨x, -, a, set, e, l, -, rfl, -⟩
  · exact fun hd => by cases hd
  · exact fun hd => by cases hd

/-! ## Keys that are drawn -/

/-- Keys that are drawn are fresh. -/
structure Draws (db : List Row) (k : Nat → Key) (len : Nat) : Prop where
  new : ∀ n < len, ¬Present (k n) db
  distinct : ∀ n m, n < m → m < len → k n ≠ k m

omit [DecidableEq Key] [DecidableEq Uniq] in
/-- The first of them is used. -/
theorem Draws.tail {db db' : List Row} {k : Nat → Key} {len : Nat} (h : Draws db k (len + 1))
    (hdb' : ∀ n, Present (k n) db' → Present (k n) db ∨ k n = k 0) : Draws db' (fun n => k (n + 1)) len where
  new n hn hp := by
    rcases hdb' (n + 1) hp with hp | hk
    · exact h.new (n + 1) (by omega) hp
    · exact h.distinct 0 (n + 1) (by omega) (by omega) hk.symm
  distinct n m hnm hm := h.distinct _ _ (by omega) (by omega)

omit [DecidableEq Key] [DecidableEq Uniq] in
/-- They are fresh where the first is, and then the rest. -/
theorem draws_cons {db db' : List Row} {k : Nat → Key} {len : Nat}
    (hdb' : ∀ n, Present (k n) db' ↔ Present (k n) db ∨ k n = k 0) :
    Draws db k (len + 1) ↔ ¬Present (k 0) db ∧ Draws db' (fun n => k (n + 1)) len := by
  refine ⟨fun h => ⟨h.new 0 (by omega), h.tail fun n => (hdb' n).1⟩, ?_⟩
  rintro ⟨hfirst, h⟩
  refine ⟨fun n hn hp => ?_, fun n m hnm hm hk => ?_⟩
  · cases n with
    | zero => exact hfirst hp
    | succ n => exact h.new n (by omega) ((hdb' _).2 (.inl hp))
  · obtain ⟨m, rfl⟩ : ∃ m', m = m' + 1 := ⟨m - 1, by omega⟩
    cases n with
    | zero => exact h.new m (by omega) ((hdb' _).2 (.inr hk.symm))
    | succ n => exact h.distinct n m (by omega) (by omega) hk

/-! ## Upserts -/

section
variable {db : List Row} {touched : List Key} {r : Row} {a : Lockable Key Uniq → Bool} {set : Setter Row}
  {l : Lockable Key Uniq}

/-- The arbiter index has one entry for the row. -/
theorem clash_arbiter (hl : (slots r).filter a = [l]) (hdb : Intact db) {e : Row} (he : e ∈ db) (hle : l ∈ slots e) :
    clash db ((slots r).filter a) = some (l, e) := by
  cases hc : clash db ((slots r).filter a) with
  | none =>
    rw [hl] at hc
    exact absurd hle (clash_eq_none.1 hc l (by simp) e he)
  | some x =>
    obtain ⟨l', e'⟩ := x
    obtain ⟨hl', he', hle'⟩ := clash_some hc
    rw [hl, List.mem_singleton] at hl'
    subst hl'
    rw [hdb.slot_eq he' he hle' hle]

/-- An upsert that meets one index entry twice fails: where it succeeds, no
entry of the arbiter is met twice, and none is of a row touched before. -/
theorem insertRows_once {xs : List (Row × OnConflict Row)} : ∀ {db : List Row} {touched : List Key} {rows ws}, Intact db →
    (∀ x ∈ xs, ∃ set l, x.2 = .doUpdate a set ∧ (slots x.1).filter a = [l]) →
    (insertRows db touched xs).result = .ok (rows, ws) →
    (∀ x ∈ xs, ∀ l ∈ (slots x.1).filter a, ∀ e ∈ db, l ∈ slots e → key e ∉ touched) ∧
      xs.Pairwise fun x y => ∀ l ∈ (slots x.1).filter a, l ∉ (slots y.1).filter a := by
  induction xs with
  | nil => exact fun _ _ _ => ⟨by simp, .nil⟩
  | cons x rest ih =>
    intro db touched rows ws hdb hxs hrun
    obtain ⟨r, oc⟩ := x
    obtain ⟨set, l, rfl, hl⟩ := hxs (r, oc) (by simp)
    obtain ⟨rows₁, ws₁, rows₂, ws₂, h₁, h₂, -, -, -⟩ := insertRows_cons hrun
    obtain ⟨hrest, hpair⟩ := ih (hdb.insertRow h₁) (fun x hx => hxs x (List.mem_cons_of_mem _ hx)) h₂
    -- The head leaves a row it has touched under its entry, and the rows that
    -- were there keep their entries and keys.
    have hstep : (∀ e ∈ db, l ∈ slots e → key e ∉ touched) ∧
        (∃ e ∈ applyAll ws₁ db, l ∈ slots e ∧ key e ∈ ws₁.map Write.key ++ touched) ∧
        ∀ e ∈ db, ∃ e' ∈ applyAll ws₁ db, slots e' = slots e ∧ key e' = key e := by
      obtain ⟨-, ⟨-, rfl, hc, -, -⟩ | ⟨-, -, a', ho, -⟩ | ⟨a', set', l', e, ho, hc, hnt, -, -, rfl, -⟩⟩ := insertRow_cases h₁
      · have hlr : l ∈ slots r := (List.mem_filter.1 (show l ∈ (slots r).filter a by rw [hl]; simp)).1
        refine ⟨fun e he hle => absurd hle (clash_eq_none.1 hc l hlr e he), ⟨r, by simp [Write.apply], hlr, by simp [Write.key]⟩,
          fun e he => ⟨e, by simp [Write.apply, he], rfl, rfl⟩⟩
      · cases ho
      · obtain ⟨rfl, rfl⟩ := OnConflict.doUpdate.inj ho
        obtain ⟨hl', he, hle⟩ := clash_some hc
        rw [hl, List.mem_singleton] at hl'
        subst hl'
        have hslots : slots (set.set e) = slots e := by rw [slots, slots, set.key_set, set.uniques_set]
        refine ⟨fun e' he' hle' => ?_, ⟨set.set e, ?_, by rw [hslots]; exact hle, by simp [Write.key]⟩, fun e' he' => ?_⟩
        · rwa [hdb.slot_eq he' he hle' hle]
        · refine List.mem_map.2 ⟨e, he, if_pos (set.key_set e).symm⟩
        · refine ⟨_, List.mem_map.2 ⟨e', he', rfl⟩, ?_⟩
          split
          · next hk =>
            rw [set.key_set] at hk
            rw [hdb.slot_eq he' he (pk_mem_slots.2 rfl) (pk_mem_slots.2 hk.symm)]
            exact ⟨hslots, set.key_set e⟩
          · exact ⟨rfl, rfl⟩
    obtain ⟨hhead, ⟨e₀, he₀, hl₀, ht₀⟩, hkept⟩ := hstep
    refine ⟨fun y hy l' hl' e he hle => ?_, List.pairwise_cons.2 ⟨fun y hy l' hl' hy' => ?_, hpair⟩⟩
    · rcases List.mem_cons.1 hy with rfl | hy
      · rw [hl, List.mem_singleton] at hl'
        subst hl'
        exact hhead e he hle
      · obtain ⟨e', he', hslots, hkey⟩ := hkept e he
        have hno := hrest y hy l' hl' e' he' (by rw [hslots]; exact hle)
        rw [hkey] at hno
        exact fun ht => hno (List.mem_append_right _ ht)
    · rw [hl, List.mem_singleton] at hl'
      subst hl'
      exact hrest y hy l' hy' e₀ he₀ hl₀ ht₀

end

/-! ## A table after a write -/

namespace Table

variable (T : Table Row τ)

omit [DecidableEq Uniq] in
theorem rows_apply_other {w : Write Row Key} (h : ∀ t, key (T.put t) ≠ w.key) (db : List Row) :
    T.rows (w.apply db) = T.rows db := by
  have hget : ∀ {r : Row}, key r = w.key → T.get r = none := by
    intro r hr
    cases hg : T.get r with
    | none => rfl
    | some t => exact absurd (T.get_eq.1 hg ▸ hr) (h t)
  cases w with
  | insert r => simp [rows, Write.apply, hget (r := r) rfl]
  | update r =>
    simp only [rows, Write.apply, List.filterMap_map]
    refine List.filterMap_congr fun x _ => ?_
    by_cases hx : key x = key r
    · rw [Function.comp_apply, if_pos hx, hget (r := r) rfl, hget hx]
    · rw [Function.comp_apply, if_neg hx]
  | delete k =>
    simp only [rows, Write.apply, List.filterMap_filter]
    refine List.filterMap_congr fun x _ => ?_
    by_cases hx : key x = k
    · simp [hx, hget (r := x) hx]
    · simp [hx]

omit [DecidableEq Uniq] in
theorem rows_applyAll_other {ws : List (Write Row Key)} (h : ∀ w ∈ ws, ∀ t, key (T.put t) ≠ w.key) :
    ∀ db : List Row, T.rows (applyAll ws db) = T.rows db := by
  induction ws with
  | nil => exact fun db => rfl
  | cons w ws ih =>
    intro db
    rw [applyAll_cons, ih fun v hv => h v (List.mem_cons_of_mem _ hv), T.rows_apply_other (h w (by simp))]

omit [DecidableEq Uniq] in
theorem rows_insert (t : τ) (db : List Row) : T.rows (Write.apply db (.insert (T.put t))) = T.rows db ++ [t] := by
  simp [rows, Write.apply]

omit [DecidableEq Uniq] in
/-- An UPDATE of one row, where the key says which table it is of. -/
theorem rows_update {t : τ} (h : ∀ r : Row, key r = key (T.put t) → ∃ x, r = T.put x) (db : List Row) :
    T.rows (Write.apply db (.update (T.put t))) = (T.rows db).map fun x => if key (T.put x) = key (T.put t) then t else x := by
  induction db with
  | nil => rfl
  | cons r db ih =>
    have ih : T.rows (db.map fun x => if key x = key (T.put t) then T.put t else x) =
        (T.rows db).map fun x => if key (T.put x) = key (T.put t) then t else x := ih
    cases hg : T.get r with
    | none =>
      have hk : key r ≠ key (T.put t) := by
        intro hk
        obtain ⟨x, rfl⟩ := h r hk
        rw [T.get_put] at hg
        cases hg
      have hrows : T.rows (r :: db) = T.rows db := by simp [rows, hg]
      rw [Write.apply, List.map_cons, if_neg hk, hrows, ← ih]
      simp [rows, hg]
    | some x =>
      obtain rfl := T.get_eq.1 hg
      have hrows : T.rows (T.put x :: db) = x :: T.rows db := by simp [rows]
      rw [Write.apply, List.map_cons, hrows, List.map_cons, ← ih]
      split <;> simp [rows]

end Table
end Relational
