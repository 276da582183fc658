/-
What rows go through. A policy says which rows may enter, where an UPDATE may
lead a row, and which rows may be removed. Where each client heeds its policy
in every statement, so does every commit of every run (`Run.heeded`): the rows
a transaction wrote are locked, so what its statements found is still there
when it commits. From the log follow the lives of the rows: a row that may not
be removed stays, and has been altered only as the policies say.
-/
import DataApi.Lib.Changes
import DataApi.Lib.Constraints
import DataApi.Lib.Fetched
import DataApi.Lib.Footprint
import DataApi.Lib.RowInvariant

namespace Relational

/-- What may enter, what may become of a row, and what may go. -/
structure Policy (Row Key : Type) where
  enters : Row → Prop
  alters : Row → Row → Prop
  removes : Row → Prop

variable {Row Key Uniq Env τ : Type} [Schema Row Key Uniq] [DecidableEq Key] {π : Policy Row Key} {K : Row → Prop}
  {db db' : List Row} {ws vs : List (Write Row Key)} {r : Row}

namespace Policy

/-- A write, on these rows. -/
def Allows (π : Policy Row Key) (db : List Row) : Write Row Key → Prop
  | .insert r => ¬Present (key r) db ∧ π.enters r
  | .update r => ∃ x ∈ db, key x = key r ∧ π.alters x r
  | .delete k => ∀ x ∈ db, key x = k → π.removes x

/-- Writes one after another. -/
def AllowsAll (π : Policy Row Key) : List Row → List (Write Row Key) → Prop
  | _, [] => True
  | db, w :: ws => π.Allows db w ∧ π.AllowsAll (w.apply db) ws

theorem allowsAll_append : ∀ {db : List Row}, π.AllowsAll db (ws ++ vs) ↔ π.AllowsAll db ws ∧ π.AllowsAll (applyAll ws db) vs := by
  induction ws with
  | nil => simp [AllowsAll]
  | cons w ws ih => intro db; simp only [List.cons_append, AllowsAll, applyAll_cons, ih, and_assoc]

/-- A write looks at the rows under its key alone. -/
theorem Allows.congr {w : Write Row Key} (h : π.Allows db w) (hw : versions w.key db' = versions w.key db) :
    π.Allows db' w := by
  cases w with
  | insert r => exact ⟨fun hp => h.1 ((present_congr hw).1 hp), h.2⟩
  | update r =>
    obtain ⟨x, hx, hk, ha⟩ := h
    have hmem : x ∈ versions (key r) db' := by
      rw [show versions (key r) db' = versions (key r) db from hw]
      exact mem_versions.2 ⟨hx, hk⟩
    exact ⟨x, (mem_versions.1 hmem).1, hk, ha⟩
  | delete k =>
    intro x hx hk
    have hmem : x ∈ versions k db := by
      rw [← show versions k db' = versions k db from hw]
      exact mem_versions.2 ⟨hx, hk⟩
    exact h x (mem_versions.1 hmem).1 hk

theorem AllowsAll.congr : ∀ {db db' : List Row}, π.AllowsAll db ws → (∀ w ∈ ws, versions w.key db' = versions w.key db) →
    π.AllowsAll db' ws := by
  induction ws with
  | nil => exact fun _ _ => trivial
  | cons w ws ih =>
    intro db db' h hw
    refine ⟨h.1.congr (hw w (by simp)), ih h.2 fun v hv => ?_⟩
    exact versions_applyAll_congr (hw v (by simp [hv])) [w]

/-! ## What becomes of the rows -/

theorem Allows.keysUnique {w : Write Row Key} (h : π.Allows db w) (hu : KeysUnique db) : KeysUnique (w.apply db) := by
  cases w with
  | insert r => exact hu.insert fun x hx hk => h.1 ⟨x, hx, hk⟩
  | update r => exact hu.update r
  | delete k => exact hu.delete k

theorem AllowsAll.keysUnique : ∀ {db : List Row}, π.AllowsAll db ws → KeysUnique db → KeysUnique (applyAll ws db) := by
  induction ws with
  | nil => exact fun _ hu => hu
  | cons w ws ih => exact fun h hu => ih h.2 (h.1.keysUnique hu)

/-- An alteration is a way rows may go, in any number of steps. -/
structure Lawful (π : Policy Row Key) : Prop where
  refl : ∀ r, π.alters r r
  trans : ∀ r x y, π.alters r x → π.alters x y → π.alters r y

/-- A row is still there, altered as the policy says, or was removed as it
says. -/
theorem AllowsAll.lives (hπ : π.Lawful) : ∀ {db : List Row} {r : Row}, KeysUnique db → π.AllowsAll db ws → r ∈ db →
    (∃ r' ∈ applyAll ws db, key r' = key r ∧ π.alters r r') ∨ ∃ x, key x = key r ∧ π.alters r x ∧ π.removes x := by
  induction ws with
  | nil => exact fun {_ r} _ _ hr => .inl ⟨r, hr, rfl, hπ.refl r⟩
  | cons w ws ih =>
    intro db r hu h hr
    have hnext : (∃ x ∈ w.apply db, key x = key r ∧ π.alters r x) ∨ π.removes r := by
      cases w with
      | insert y => exact .inl ⟨r, List.mem_append_left _ hr, rfl, hπ.refl r⟩
      | update y =>
        obtain ⟨x, hx, hk, ha⟩ := h.1
        by_cases hry : key r = key y
        · obtain rfl : x = r := by
            have hone := hu.versions_eq hr
            have hmem : x ∈ versions (key r) db := mem_versions.2 ⟨hx, hk.trans hry.symm⟩
            rw [hone] at hmem
            exact List.mem_singleton.1 hmem
          exact .inl ⟨y, List.mem_map.2 ⟨x, hx, if_pos hry⟩, hry.symm, ha⟩
        · exact .inl ⟨r, List.mem_map.2 ⟨r, hr, if_neg hry⟩, rfl, hπ.refl r⟩
      | delete k =>
        by_cases hk : key r = k
        · exact .inr (h.1 r hr hk)
        · exact .inl ⟨r, List.mem_filter.2 ⟨hr, by simpa using hk⟩, rfl, hπ.refl r⟩
    rcases hnext with ⟨x, hx, hxk, hrx⟩ | hremoved
    · rcases ih (h.1.keysUnique hu) h.2 hx with ⟨r', hr', hk', hxr'⟩ | ⟨y, hk', hxy, hy⟩
      · exact .inl ⟨r', hr', hk'.trans hxk, hπ.trans _ _ _ hrx hxr'⟩
      · exact .inr ⟨y, hk'.trans hxk, hπ.trans _ _ _ hrx hxy, hy⟩
    · exact .inr ⟨r, rfl, hπ.refl r, hremoved⟩

/-- A row was there, or entered, and has been altered since as the policy says. -/
theorem AllowsAll.traced (hπ : π.Lawful) : ∀ {db : List Row} {r : Row}, π.AllowsAll db ws → r ∈ applyAll ws db →
    ∃ x, (x ∈ db ∨ .insert x ∈ ws ∧ π.enters x) ∧ key x = key r ∧ π.alters x r := by
  induction ws with
  | nil => exact fun {_ r} _ hr => ⟨r, .inl hr, rfl, hπ.refl r⟩
  | cons w ws ih =>
    intro db r h hr
    obtain ⟨x, hx | hx, hk, ha⟩ := ih h.2 hr
    · cases w with
      | insert y =>
        rcases List.mem_append.1 hx with hx | hx
        · exact ⟨x, .inl hx, hk, ha⟩
        · obtain rfl := List.mem_singleton.1 hx
          exact ⟨x, .inr ⟨List.mem_cons_self, h.1.2⟩, hk, ha⟩
      | update y =>
        obtain ⟨z, hz, rfl⟩ := List.mem_map.1 hx
        split at hk
        · next hzy =>
          obtain ⟨u, hu, huk, hua⟩ := h.1
          rw [if_pos hzy] at ha
          exact ⟨u, .inl hu, huk.trans hk, hπ.trans _ _ _ hua ha⟩
        · next hzy =>
          rw [if_neg hzy] at ha
          exact ⟨z, .inl hz, hk, ha⟩
      | delete k => exact ⟨x, .inl (List.mem_filter.1 hx).1, hk, ha⟩
    · exact ⟨x, .inr ⟨List.mem_cons_of_mem _ hx.1, hx.2⟩, hk, ha⟩

/-- The rows of a table that are neither altered nor removed: new ones come
after them. -/
theorem AllowsAll.append_only {T : Table Row τ} (halter : ∀ x t, π.alters x (T.put t) → x = T.put t)
    (hkey : ∀ (x : Row) t, key x = key (T.put t) → ∃ t', x = T.put t')
    (hremove : ∀ t, ¬π.removes (T.put t)) : ∀ {db : List Row}, KeysUnique db → π.AllowsAll db ws →
      T.rows db <+: T.rows (applyAll ws db) := by
  induction ws with
  | nil => exact fun _ _ => List.prefix_refl _
  | cons w ws ih =>
    intro db hu h
    refine List.IsPrefix.trans ?_ (ih (h.1.keysUnique hu) h.2)
    cases w with
    | insert r => rw [Write.apply, T.rows_append]; exact List.prefix_append _ _
    | update r =>
      obtain ⟨x, hx, -, ha⟩ := h.1
      by_cases hr : ∃ t, r = T.put t
      · obtain ⟨t, rfl⟩ := hr
        obtain rfl := halter x t ha
        simp [apply_same hu hx]
      · have hother : ∀ t, key (T.put t) ≠ key r := fun t hk => hr (hkey r t hk.symm)
        have hsame : T.rows (Write.apply db (.update r)) = T.rows db :=
          T.rows_apply_other (w := .update r) hother db
        simp [hsame]
    | delete k =>
      have hsame : T.rows (Write.apply db (.delete k)) = T.rows db := by
        rw [Table.rows, Table.rows, Write.apply, List.filterMap_filter]
        refine List.filterMap_congr fun x hx => ?_
        by_cases hk : key x = k
        · cases hget : T.get x with
          | none => simp
          | some t => exact absurd (T.get_eq.1 hget ▸ h.1 x hx hk) (hremove t)
        · simp [hk]
      simp [hsame]

end Policy

/-! ## Statements -/

variable [DecidableEq Uniq]

/-- On any rows of `K` with single keys, the statement writes what the policy
allows. -/
def Stmt.Heeds (K : Row → Prop) (π : Policy Row Key) (q : Stmt Row Env) : Prop :=
  ∀ env snap alive cur rows ws, KeysUnique cur → (∀ r ∈ cur, K r) → (q.run env snap alive cur).result = .ok (rows, ws) →
    π.AllowsAll cur ws

def Stmt.isDelete : Stmt Row Env → Bool
  | .delete _ => true
  | _ => false

theorem select_heeds (p : Env → Row → Bool) : (Stmt.select p : Stmt Row Env).Heeds K π := by
  intro env snap alive cur rows ws _ _ hrun
  simp only [Stmt.run, Except.ok.injEq, Prod.mk.injEq] at hrun
  rw [← hrun.2]
  trivial

theorem forUpdate_heeds (p : Row → Bool) : (Stmt.forUpdate p : Stmt Row Env).Heeds K π := by
  intro env snap alive cur rows ws _ _ hrun
  simp only [Stmt.run, Except.ok.injEq, Prod.mk.injEq] at hrun
  rw [← hrun.2]
  trivial

omit [DecidableEq Key] [DecidableEq Uniq] in
/-- A SET clause of one table leaves the rows of the others. -/
theorem alters_lift {T : Table Row τ} {f : τ → τ} (hrefl : ∀ r, π.alters r r)
    (h : ∀ t, π.alters (T.put t) (T.put (f t))) (r : Row) : π.alters r (T.lift f r) := by
  cases hr : T.get r with
  | none => rw [T.lift_other f hr]; exact hrefl r
  | some t => rw [T.get_eq.1 hr, T.lift_put]; exact h t

omit [DecidableEq Uniq] in
/-- What is known of every row that enters. -/
theorem Policy.AllowsAll.entering {E : Row → Prop} : ∀ {db : List Row}, π.AllowsAll db ws → (∀ r, .insert r ∈ ws → E r) →
    Policy.AllowsAll { π with enters := fun r => π.enters r ∧ E r } db ws := by
  induction ws with
  | nil => exact fun _ _ => trivial
  | cons w ws ih =>
    intro db h hE
    refine ⟨?_, ih h.2 fun r hr => hE r (List.mem_cons_of_mem _ hr)⟩
    cases w with
    | insert r => exact ⟨h.1.1, h.1.2, hE r (by simp)⟩
    | update r => exact h.1
    | delete k => exact h.1

theorem Stmt.Heeds.entering {E : Row → Prop} {q : Stmt Row Env} (h : q.Heeds K π)
    (hE : ∀ env snap alive cur rows ws, (q.run env snap alive cur).result = .ok (rows, ws) → ∀ r, .insert r ∈ ws → E r) :
    q.Heeds K { π with enters := fun r => π.enters r ∧ E r } :=
  fun env snap alive cur rows ws hu hK hrun =>
    (h env snap alive cur rows ws hu hK hrun).entering (hE env snap alive cur rows ws hrun)

theorem insertRows_heeds {xs : List (Row × OnConflict Row)} (h : ∀ x ∈ xs, check x.1 = true → π.enters x.1)
    (hset : ∀ x ∈ xs, ∀ a set, x.2 = .doUpdate a set → ∀ e, π.alters e (set.set e)) :
    ∀ {db : List Row} {touched : List Key} {rows ws}, (insertRows db touched xs).result = .ok (rows, ws) →
      π.AllowsAll db ws := by
  induction xs with
  | nil =>
    intro db touched rows ws hrun
    simp only [insertRows, Except.ok.injEq, Prod.mk.injEq] at hrun
    rw [← hrun.2]
    trivial
  | cons x rest ih =>
    intro db touched rows ws hrun
    obtain ⟨r, oc⟩ := x
    obtain ⟨rows₁, ws₁, rows₂, ws₂, h₁, h₂, rfl, rfl, -⟩ := insertRows_cons hrun
    have hrest : π.AllowsAll (applyAll ws₁ db) ws₂ :=
      ih (fun y hy => h y (List.mem_cons_of_mem _ hy)) (fun y hy => hset y (List.mem_cons_of_mem _ hy)) h₂
    refine Policy.allowsAll_append.2 ⟨?_, hrest⟩
    obtain ⟨hck, ⟨-, rfl, hc, -, -⟩ | ⟨-, rfl, -⟩ | ⟨a, set, l, e, rfl, hc, -, -, -, rfl, -⟩⟩ := insertRow_cases h₁
    · refine ⟨⟨fun hp => ?_, h (r, oc) (by simp) hck⟩, trivial⟩
      obtain ⟨y, hy, hk⟩ := hp
      exact clash_slots_none hc y hy hk
    · trivial
    · exact ⟨⟨e, (clash_some hc).2.1, (set.key_set e).symm, hset (r, .doUpdate a set) (by simp) a set rfl e⟩, trivial⟩

theorem insert_heeds {mk : Env → List Row → Except (DbError Key Uniq) (List (Row × OnConflict Row))}
    (h : ∀ env snap xs, mk env snap = .ok xs → ∀ x ∈ xs, π.enters x.1)
    (hset : ∀ env snap xs, mk env snap = .ok xs → ∀ x ∈ xs, ∀ a set, x.2 = .doUpdate a set → ∀ e, π.alters e (set.set e)) :
    (Stmt.insert mk).Heeds K π := by
  intro env snap alive cur rows ws _ _ hrun
  cases hmk : mk env snap with
  | error e => simp [Stmt.run, hmk] at hrun
  | ok xs =>
    simp only [Stmt.run, hmk] at hrun
    exact insertRows_heeds (fun x hx _ => h env snap xs hmk x hx) (hset env snap xs hmk) hrun

theorem tableInsert_heeds {T : Table Row τ} {mk : Env → List Row → Except (DbError Key Uniq) τ}
    (h : ∀ env snap t, mk env snap = .ok t → π.enters (T.put t)) : (T.insert mk : Stmt Row Env).Heeds K π := by
  intro env snap alive cur rows ws _ _ hrun
  obtain ⟨t, hmk, -, hc, -, -, rfl⟩ := insert_ok hrun
  refine ⟨⟨fun hp => ?_, h env snap t hmk⟩, trivial⟩
  obtain ⟨y, hy, hk⟩ := hp
  exact clash_slots_none hc y hy hk

omit [DecidableEq Uniq] in
/-- Rows with different keys, each updated once. -/
theorem updates_allowed {f : Row → Row} (hkey : ∀ r, key (f r) = key r) : ∀ {rs db : List Row}, (rs.map key).Nodup →
    (∀ r ∈ rs, r ∈ db ∧ π.alters r (f r)) → π.AllowsAll db ((rs.map f).map .update) := by
  intro rs
  induction rs with
  | nil => exact fun _ _ => trivial
  | cons r rs ih =>
    intro db hnodup h
    obtain ⟨hr, hrs⟩ := List.nodup_cons.1 hnodup
    refine ⟨⟨r, (h r (by simp)).1, (hkey r).symm, (h r (by simp)).2⟩, ih hrs fun x hx => ?_⟩
    refine ⟨List.mem_map.2 ⟨x, (h x (by simp [hx])).1, if_neg fun hk => ?_⟩, (h x (by simp [hx])).2⟩
    exact hr (List.mem_map.2 ⟨x, hx, hk.trans (hkey r)⟩)

theorem update_heeds {T : Table Row τ} {p : τ → Bool} {set : Env → τ → τ} {hk : ∀ e, T.Keeps (set e)}
    (h : ∀ e t, π.alters (T.put t) (T.put (set e t))) : (T.update p set hk : Stmt Row Env).Heeds K π := by
  intro env snap alive cur rows ws hu _ hrun
  simp only [Table.update, Stmt.run] at hrun
  split at hrun
  · simp only [Except.ok.injEq, Prod.mk.injEq] at hrun
    obtain ⟨-, rfl⟩ := hrun
    refine updates_allowed (T.setter (set env) (hk env)).key_set ?_ fun r hr => ?_
    · exact hu.sublist (List.filter_sublist.map _)
    · obtain ⟨t, rfl, hmem, -⟩ := (mem_hits T).1 hr
      exact ⟨hmem, by simpa [Table.setter] using h env t⟩
  · cases hrun

omit [DecidableEq Uniq] in
/-- Whatever references rows of `D` is in `D`. -/
theorem cascade_within {D : Row → Prop} (hclosed : ∀ r ∈ db, ∀ d, D d → key d ∈ refs r → D r) : ∀ {n : Nat} {dead : List Row},
    (∀ d ∈ dead, D d) → ∀ r ∈ cascade n db dead, D r := by
  intro n
  induction n with
  | zero => exact fun _ r hr => by cases hr
  | succ n ih =>
    intro dead h r hr
    rcases List.mem_append.1 hr with hr | hr
    · exact h r hr
    · refine ih (fun x hx => ?_) r hr
      obtain ⟨hmem, k, hk, d, hd, rfl⟩ := mem_dependents.1 hx
      exact hclosed x hmem d (h d hd) hk

omit [DecidableEq Uniq] in
/-- Rows that may go, one after another. -/
theorem deletes_allowed {cur : List Row} (hu : KeysUnique cur) : ∀ {rs db : List Row}, (∀ r ∈ rs, r ∈ cur ∧ π.removes r) →
    (∀ x ∈ db, x ∈ cur) → π.AllowsAll db (rs.map fun r => .delete (key r)) := by
  intro rs
  induction rs with
  | nil => exact fun _ _ => trivial
  | cons r rs ih =>
    intro db h hdb
    refine ⟨fun x hx hk => ?_, ih (fun y hy => h y (by simp [hy])) fun x hx => hdb x (List.mem_of_mem_filter hx)⟩
    have hmem : x ∈ versions (key r) cur := mem_versions.2 ⟨hdb x hx, hk⟩
    rw [hu.versions_eq (h r (by simp)).1] at hmem
    rw [List.mem_singleton.1 hmem]
    exact (h r (by simp)).2

theorem delete_heeds {T : Table Row τ} {p : τ → Bool} (hp : ∀ t, K (T.put t) → p t = true → π.removes (T.put t))
    (hclosed : ∀ r d, K d → π.removes d → key d ∈ refs r → π.removes r) : (T.delete p : Stmt Row Env).Heeds K π := by
  intro env snap alive cur rows ws hu hK hrun
  obtain ⟨-, rfl⟩ := delete_ok hrun
  refine deletes_allowed hu (fun r hr => ⟨?_, ?_⟩) fun x hx => hx
  · rcases mem_cascade hr with hr | ⟨hr, -⟩
    · exact List.mem_of_mem_filter hr
    · exact hr
  · refine (cascade_within (D := fun x => K x ∧ π.removes x) (fun x hx d hd hk => ⟨hK x hx, ?_⟩) (fun d hd => ?_) r hr).2
    · exact hclosed x d hd.1 hd.2 hk
    · obtain ⟨t, rfl, hmem, ht, -⟩ := (mem_hits T).1 hd
      exact ⟨hK _ hmem, hp t (hK _ hmem) ht⟩

end Relational

/-! ## Runs -/

namespace ReadCommitted

open Resumption Relational

variable {ι Row Key Uniq Env X World α τ : Type} [Schema Row Key Uniq] [DecidableEq Key] [DecidableEq Uniq]
  [DecidableEq ι] [StepEnv Env] [Outer X World Env]

/-- What the ghost state of `sending` says of a client that heeds `π`: its
writes so far are allowed on what is committed now, and keep to `K`. -/
structure Heeding (K : Row → Prop) (π : Policy Row Key) (opened : Bool) (c : Client Row Env X)
    (sv : Server ι Row Key Uniq World) : Prop where
  opened : c.tx.isSome → opened = true
  writes : ∀ t, c.tx = some t → π.AllowsAll sv.db t.writes
  kept : ∀ t, c.tx = some t → ∀ r, Written t.writes r → K r

section
variable {guard : Clients ι Row Env X α → ι → Env → Prop} {c₀ c c' : Clients ι Row Env X α} {i j : ι} {e : Env}
  {K : Row → Prop} {π : Policy Row Key} {opened : Bool} {S : Stmt Row Env → Prop}

/-- Another client's commit is to other keys. -/
theorem Heeding.stays (h : Heeding K π opened (c.threads j).loc c.shared) (hc : Orderly c)
    (hs : c.step machine i e = some c') (hj : j ≠ i) : Heeding K π opened (c.threads j).loc c'.shared := by
  refine ⟨h.opened, fun t ht => (h.writes t ht).congr fun w hw => ?_, h.kept⟩
  obtain ⟨m, hm, hl⟩ := (hc.covered j t ht w hw).row
  exact hc.locked_stays hs hj (mem_own_locks.1 hl) hm

omit [DecidableEq ι] [DecidableEq Uniq] [StepEnv Env] in
theorem Heeding.closed {l : Client Row Env X} {sv : Server ι Row Key Uniq World} (h : l.tx = none) :
    Heeding K π opened l sv where
  opened hs := by rw [h] at hs; cases hs
  writes t ht := by rw [h] at ht; cases ht
  kept t ht := by rw [h] at ht; cases ht

/-- Each statement of `S` heeds the policy among rows of `K`, and writes such. -/
structure Obeys (K : Row → Prop) (π : Policy Row Key) (S : Stmt Row Env → Prop) : Prop where
  heeds : ∀ q, S q → q.Heeds K π
  keeps : ∀ q, S q → ∀ env snap alive cur rows ws, (q.run env snap alive cur).result = .ok (rows, ws) →
    ∀ r, Written ws r → K r

theorem Heeding.done (h : Heeding K π opened (c.threads i).loc c.shared) (hc : Orderly c) (hS : Obeys K π S)
    (hK : ∀ r ∈ c.shared.db, K r)
    {o : Op Row Env X} {r : Answer o} {l : Client Row Env X} {sv : Server ι Row Key Uniq World}
    (hm : (sending S).may opened o) (hx : machine.exec i e (c.threads i).loc c.shared o = some (some r, l, sv)) :
    ∃ t, (sending S).next opened o r t ∧ Heeding K π t l sv ∧
      (sv.log = c.shared.log ∨ ∃ ws, sv.log = c.shared.log ++ [(i, ws)] ∧ π.AllowsAll c.shared.db ws) := by
  cases o with
  | query via q =>
    cases via with
    | tx =>
      rcases query_tx_done hx with ⟨err, rfl, rfl, rfl⟩ | ⟨t, snap, rows, ws, eff, ht, hs, _, heff, hres, _, rfl, rfl, rfl⟩
      · exact ⟨opened, rfl, ⟨h.opened, h.writes, h.kept⟩, .inl rfl⟩
      · subst heff
        refine ⟨opened, rfl, ⟨fun _ => h.opened (by rw [ht]; rfl), fun t' ht' => ?_, fun t' ht' r hr => ?_⟩, .inl rfl⟩
        · cases ht'
          refine Policy.allowsAll_append.2 ⟨h.writes t ht, hS.heeds q hm _ _ _ _ _ _ (hc.view i t ht) ?_ hres⟩
          exact kept_applyAll hK (h.kept t ht)
        · cases ht'
          rcases hr.append with hr | hr
          · exact h.kept t ht r hr
          · exact hS.keeps q hm _ _ _ _ _ _ hres r hr
    | pool =>
      obtain ⟨rfl, hq⟩ := hm
      have htx : (c.threads i).loc.tx = none := by
        cases ht : (c.threads i).loc.tx with
        | none => rfl
        | some t => exact absurd (h.opened (by rw [ht]; rfl)) (by simp)
      rcases query_pool_done hx with ⟨err, rfl, rfl, rfl⟩ | ⟨snap, rows, ws, eff, hs, _, heff, hres, _, rfl, rfl, rfl⟩
      · exact ⟨false, rfl, .closed htx, .inl rfl⟩
      · subst heff
        exact ⟨false, rfl, .closed htx, .inr ⟨ws, rfl, hS.heeds q hq _ _ _ _ _ _ hc.unique hK hres⟩⟩
  | begin =>
    rcases begin_done hx with ⟨_, rfl, rfl, rfl⟩ | ⟨rfl, rfl, rfl⟩
    · exact ⟨opened, rfl, ⟨h.opened, h.writes, h.kept⟩, .inl rfl⟩
    · refine ⟨true, rfl, ⟨fun _ => rfl, fun t ht => ?_, fun t ht r hr => ?_⟩, .inl rfl⟩
      · cases ht
        trivial
      · cases ht
        simp [Written] at hr
  | commit =>
    rcases commit_done hx with ⟨_, _, rfl, rfl⟩ | ⟨_, rfl, rfl⟩
    · exact ⟨false, rfl, .closed rfl, .inl rfl⟩
    · refine ⟨false, rfl, .closed rfl, .inr ⟨_, rfl, ?_⟩⟩
      cases ht : (c.threads i).loc.tx with
      | none => simp [Client.writes, ht, Policy.AllowsAll]
      | some t => simpa [Client.writes, ht] using h.writes t ht
  | rollback =>
    obtain ⟨rfl, rfl⟩ := rollback_done hx
    exact ⟨false, rfl, .closed rfl, .inl rfl⟩
  | outer x =>
    obtain ⟨_, rfl, rfl⟩ := outer_done hx
    exact ⟨opened, rfl, ⟨h.opened, h.writes, h.kept⟩, .inl rfl⟩

/-- Where every statement of a client heeds the client's policy, every commit
does. What the clients are told of an answer the guard has seen to. -/
theorem Run.heeded {K : ι → Row → Prop} {π : ι → Policy Row Key} {S : ι → Stmt Row Env → Prop}
    {tells : ι → (o : Op Row Env X) → Answer o → Prop} (hlog : c₀.shared.log = []) (h₀ : Orderly c₀)
    (start : ∀ i, (c₀.threads i).loc.tx = none) (hS : ∀ i, Obeys (K i) (π i) (S i))
    (hK : ∀ c i e, guard c i e → ∀ r ∈ c.shared.db, K i r)
    (htells : ∀ c i e o (r : Answer o) l sv, guard c i e →
      machine.exec i e (c.threads i).loc c.shared o = some (some r, l, sv) → tells i o r)
    (follows : ∀ i, (c₀.threads i).prog.Follows ((sending (S i)).told (tells i)) (fun _ _ => True) false)
    (h : Run machine guard c₀ c) : Logged (fun db i ws => (π i).AllowsAll db ws) c₀.shared.db c.shared.log := by
  refine (Run.clients (σ := Bool) (H := fun i s l sv => Heeding (K i) (π i) s l sv) hlog h₀ (fun i => .closed (start i))
    follows ?_ ?_ ?_ ?_ h).1
  · exact fun c c' i j e s hc _ hs hj _ hH => hH.stays hc hs hj
  · exact fun i s l sv hH _ => ⟨hH.opened, hH.writes, hH.kept⟩
  · intro c i e o k r l sv s hc _ _ hg _ hm hH hx
    obtain ⟨t, hn, hH', hφ⟩ := hH.done hc (hS i) (hK c i e hg) hm hx
    exact ⟨t, ⟨hn, htells c i e o r l sv hg hx⟩, hH', hφ⟩
  · exact fun i s a l sv hH _ => ⟨s, trivial, .closed rfl⟩

/-- A run only adds to the log. -/
theorem Run.log_grows (h₀ : Orderly c) (h : Run machine guard c c') : c.shared.log <+: c'.shared.log := by
  refine Run.invariant (fun c' => c.shared.log <+: c'.shared.log) (List.prefix_refl _) (fun d i e d' hr ih _ hs => ?_) h
  exact ih.trans (Config.log_grows (Run.orderly h₀ hr) hs)

theorem Run.trans (h : Run machine guard c₀ c) (h' : Run machine guard c c') : Run machine guard c₀ c' := by
  induction h' with
  | nil => exact h
  | move _ hg hs ih => exact .move ih hg hs

omit [DecidableEq Uniq] [DecidableEq ι] in
/-- The later part of a log, from what the earlier part led to. -/
theorem Logged.later {φ : List Row → ι → List (Write Row Key) → Prop} {db₀ : List Row}
    {log log' : List (ι × List (Write Row Key))} (h : Logged φ db₀ (log ++ log')) : Logged φ (replay db₀ log) log' := by
  intro pre i ws post heq
  rw [← replay_append]
  exact h (log ++ pre) i ws post (by rw [heq, List.append_assoc])

/-- Two configurations of a run: what lies between them is a log of its own. -/
theorem Run.between {φ : List Row → ι → List (Write Row Key) → Prop} (hlog : c₀.shared.log = []) (h₀ : Orderly c₀)
    (h : Run machine guard c₀ c) (h' : Run machine guard c c') (hφ : Logged φ c₀.shared.db c'.shared.log) :
    ∃ log, c'.shared.log = c.shared.log ++ log ∧
      Logged φ c.shared.db log ∧ c'.shared.db = ReadCommitted.replay c.shared.db log := by
  obtain ⟨log, heq⟩ := Run.log_grows (Run.orderly h₀ h) h'
  have hrun := Run.trans h h'
  refine ⟨log, heq.symm, ?_, ?_⟩
  · rw [Run.replay hlog h₀ h]
    exact Logged.later (heq ▸ hφ)
  · rw [Run.replay hlog h₀ hrun, ← heq, replay_append, ← Run.replay hlog h₀ h]

end

/-! ## The lives of the rows -/

section
variable {π : ι → Policy Row Key} {R : List ι → Row → Row → Prop} {db₀ : List Row} {log : List (ι × List (Write Row Key))}
  {r : Row}

omit [DecidableEq Uniq] [DecidableEq ι] in
theorem Logged.allowed_unique (h : Logged (fun db i ws => (π i).AllowsAll db ws) db₀ log) (hu : KeysUnique db₀) :
    KeysUnique (replay db₀ log) := by
  induction log using List.reverseRecOn with
  | nil => exact hu
  | append_singleton log t ih =>
    rw [replay_append]
    exact h.last.keysUnique (ih h.init)

/-- `R is x y`: clients `is`, one after another, may lead `x` to `y`. -/
structure Leads (π : ι → Policy Row Key) (R : List ι → Row → Row → Prop) : Prop where
  lawful : ∀ i, (π i).Lawful
  refl : ∀ r, R [] r r
  step : ∀ is i r x y, R is r x → (π i).alters x y → R (is ++ [i]) r y

omit [DecidableEq Uniq] [DecidableEq ι] in
/-- A row is still there, altered as the clients may, or one of them removed
it. -/
theorem Logged.lives (hR : Leads π R) (h : Logged (fun db i ws => (π i).AllowsAll db ws) db₀ log) (hu : KeysUnique db₀)
    (hr : r ∈ db₀) : (∃ r' ∈ replay db₀ log, key r' = key r ∧ R (log.map (·.1)) r r') ∨
      ∃ x pre t post, log = pre ++ t :: post ∧ key x = key r ∧ R ((pre ++ [t]).map (·.1)) r x ∧ (π t.1).removes x := by
  induction log using List.reverseRecOn with
  | nil => exact .inl ⟨r, hr, rfl, hR.refl r⟩
  | append_singleton log t ih =>
    rcases ih h.init with ⟨x, hx, hxk, hrx⟩ | ⟨x, pre, u, post, rfl, hrest⟩
    · rcases h.last.lives (hR.lawful t.1) (h.init.allowed_unique hu) hx with ⟨r', hr', hk', ha⟩ | ⟨y, hk', ha, hy⟩
      · refine .inl ⟨r', ?_, hk'.trans hxk, ?_⟩
        · rw [replay_append]; exact hr'
        · rw [List.map_append]; exact hR.step _ _ _ _ _ hrx ha
      · refine .inr ⟨y, log, t, [], rfl, hk'.trans hxk, ?_, hy⟩
        rw [List.map_append]
        exact hR.step _ _ _ _ _ hrx ha
    · exact .inr ⟨x, pre, u, post ++ [t], by simp, hrest⟩

omit [DecidableEq Uniq] [DecidableEq ι] in
/-- A row was there from the first, or one client entered it, and it has been
altered since as the clients may. -/
theorem Logged.traced (hR : Leads π R) (h : Logged (fun db i ws => (π i).AllowsAll db ws) db₀ log) :
    ∀ {r : Row}, r ∈ replay db₀ log → ∃ x, key x = key r ∧ ((x ∈ db₀ ∧ R (log.map (·.1)) x r) ∨
      ∃ pre t post, log = pre ++ t :: post ∧ .insert x ∈ t.2 ∧ (π t.1).enters x ∧ R ((t :: post).map (·.1)) x r) := by
  induction log using List.reverseRecOn with
  | nil => exact fun {r} hr => ⟨r, rfl, .inl ⟨hr, hR.refl r⟩⟩
  | append_singleton log t ih =>
    intro r hr
    rw [replay_append] at hr
    obtain ⟨y, hy | hy, hyk, hyr⟩ := h.last.traced (hR.lawful t.1) hr
    · obtain ⟨x, hxk, ⟨hx, hxy⟩ | ⟨pre, u, post, rfl, hw, hx, hxy⟩⟩ := ih h.init hy
      · refine ⟨x, hxk.trans hyk, .inl ⟨hx, ?_⟩⟩
        rw [List.map_append]
        exact hR.step _ _ _ _ _ hxy hyr
      · refine ⟨x, hxk.trans hyk, .inr ⟨pre, u, post ++ [t], by simp, hw, hx, ?_⟩⟩
        rw [← List.cons_append, List.map_append]
        exact hR.step _ _ _ _ _ hxy hyr
    · exact ⟨y, hyk, .inr ⟨log, t, [], rfl, hy.1, hy.2, hR.step [] t.1 y y r (hR.refl y) hyr⟩⟩

omit [DecidableEq Uniq] [DecidableEq ι] in
theorem Logged.append_only {T : Table Row τ} (halter : ∀ i x t, (π i).alters x (T.put t) → x = T.put t)
    (hkey : ∀ (x : Row) t, key x = key (T.put t) → ∃ t', x = T.put t') (hremove : ∀ i t, ¬(π i).removes (T.put t))
    (h : Logged (fun db i ws => (π i).AllowsAll db ws) db₀ log) (hu : KeysUnique db₀) :
    T.rows db₀ <+: T.rows (replay db₀ log) := by
  induction log using List.reverseRecOn with
  | nil => exact List.prefix_refl _
  | append_singleton log t ih =>
    rw [replay_append]
    exact (ih h.init).trans (h.last.append_only (halter t.1) hkey (hremove t.1) (h.init.allowed_unique hu))

end
end ReadCommitted
