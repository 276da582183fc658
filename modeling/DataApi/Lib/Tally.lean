/-
A column that counts how often its row is written. Where a policy lets each
write of a row put it one higher, the values written for a key are numbered
without a gap, whoever wrote them (`Logged.counted`).
-/
import DataApi.Lib.History

namespace Relational

variable {Row Key Uniq : Type} [Schema Row Key Uniq] [DecidableEq Key] {π π' : Policy Row Key} {db : List Row}
  {ws : List (Write Row Key)} {value : Row → Int} {k : Key}

/-- The row that a write puts under the key. -/
def Write.puts (k : Key) : Write Row Key → Option Row
  | .insert r | .update r => if Schema.key r = k then some r else none
  | .delete _ => none

/-- The count of the row under the key, 0 while there is none. -/
def tally (value : Row → Int) (k : Key) (db : List Row) : Int := ((lookup k db).map value).getD 0

/-- The row under the key enters with 1, counts one more each time, and stays. -/
structure Policy.Counts (π : Policy Row Key) (value : Row → Int) (k : Key) : Prop where
  enters : ∀ r, key r = k → π.enters r → value r = 1
  alters : ∀ x r, key x = k → key r = k → π.alters x r → value r = value x + 1
  keeps : ∀ x, key x = k → ¬π.removes x

namespace Policy

/-- A policy that asks for less. -/
theorem AllowsAll.mono (he : ∀ r, π.enters r → π'.enters r) (ha : ∀ x r, π.alters x r → π'.alters x r)
    (hr : ∀ x, π.removes x → π'.removes x) : ∀ {db : List Row}, π.AllowsAll db ws → π'.AllowsAll db ws := by
  induction ws with
  | nil => exact fun _ => trivial
  | cons w ws ih =>
    intro db h
    refine ⟨?_, ih h.2⟩
    cases w with
    | insert r => exact ⟨h.1.1, he r h.1.2⟩
    | update r =>
      obtain ⟨x, hx, hk, hxr⟩ := h.1
      exact ⟨x, hx, hk, ha x r hxr⟩
    | delete k => exact fun x hx hk => hr x (h.1 x hx hk)

/-- What is known of every row that is written over. -/
theorem AllowsAll.altering {R : Row → Row → Prop} : ∀ {db : List Row}, π.AllowsAll db ws →
    (∀ r, .update r ∈ ws → ∀ x, R x r) →
    Policy.AllowsAll { π with alters := fun x r => π.alters x r ∧ R x r } db ws := by
  induction ws with
  | nil => exact fun _ _ => trivial
  | cons w ws ih =>
    intro db h hR
    refine ⟨?_, ih h.2 fun r hr => hR r (List.mem_cons_of_mem _ hr)⟩
    cases w with
    | insert r => exact h.1
    | update r =>
      obtain ⟨x, hx, hk, hxr⟩ := h.1
      exact ⟨x, hx, hk, hxr, hR r (by simp) x⟩
    | delete k => exact h.1

/-- One write. -/
theorem Counts.step (hk : π.Counts value k) {w : Write Row Key} (hu : KeysUnique db) (h : π.Allows db w) :
    (w.puts k = none ∧ tally value k (w.apply db) = tally value k db) ∨
      ∃ r, w.puts k = some r ∧ value r = tally value k db + 1 ∧ tally value k (w.apply db) = value r := by
  by_cases hw : w.key = k
  · cases w with
    | insert r =>
      obtain rfl : key r = k := hw
      have hnone : lookup (key r) db = none := lookup_eq_none.2 h.1
      refine .inr ⟨r, if_pos rfl, ?_, ?_⟩
      · simp [tally, hnone, hk.enters r rfl h.2]
      · simp [tally, lookup_insert hnone]
    | update r =>
      obtain rfl : key r = k := hw
      obtain ⟨x, hx, hxr, ha⟩ := h
      have hsome : lookup (key r) db = some x := hu.lookup_iff.2 ⟨hx, hxr⟩
      refine .inr ⟨r, if_pos rfl, ?_, ?_⟩
      · simp [tally, hsome, hk.alters x r hxr rfl ha]
      · simp [tally, lookup_update hsome]
    | delete k' =>
      obtain rfl : k' = k := hw
      have hnone : ∀ x ∈ db, key x ≠ k' := fun x hx hxk => hk.keeps x hxk (h x hx hxk)
      have hsame : Write.apply db (.delete k') = db := List.filter_eq_self.2 fun x hx => by simpa using hnone x hx
      exact .inl ⟨rfl, by rw [hsame]⟩
  · refine .inl ⟨?_, ?_⟩
    · cases w with
      | insert r | update r => exact if_neg hw
      | delete k' => rfl
    · have hsame : lookup k (applyAll [w] db) = lookup k db := lookup_applyAll_other (by simpa using hw) db
      rw [applyAll_cons, applyAll_nil] at hsame
      rw [tally, tally, hsame]

/-- Writes one after another number what they put under the key. -/
theorem Counts.all (hk : π.Counts value k) : ∀ {db : List Row}, KeysUnique db → π.AllowsAll db ws →
    (ws.filterMap (Write.puts k)).map value =
      (List.range (ws.filterMap (Write.puts k)).length).map (fun n : Nat => tally value k db + n + 1) ∧
    tally value k (applyAll ws db) = tally value k db + (ws.filterMap (Write.puts k)).length := by
  induction ws with
  | nil => exact fun _ _ => ⟨rfl, by simp⟩
  | cons w ws ih =>
    intro db hu h
    obtain ⟨hvalues, htally⟩ := ih (h.1.keysUnique hu) h.2
    rw [applyAll_cons, htally]
    rcases hk.step hu h.1 with ⟨hnone, hsame⟩ | ⟨r, hsome, hvalue, hnow⟩
    · rw [List.filterMap_cons_none hnone, hvalues, hsame]
      exact ⟨rfl, rfl⟩
    · rw [List.filterMap_cons_some hsome, List.map_cons, hvalues, hnow, hvalue, List.length_cons,
        List.range_succ_eq_map, List.map_cons, List.map_map]
      refine ⟨congrArg₂ _ (by simp) (List.map_congr_left fun n _ => ?_), ?_⟩
      · simp only [Function.comp_apply, Nat.succ_eq_add_one]
        omega
      · omega

end Policy

end Relational

namespace ReadCommitted

open Relational

variable {ι Row Key Uniq : Type} [Schema Row Key Uniq] [DecidableEq Key] {π : Policy Row Key} {db₀ : List Row}
  {log : List (ι × List (Write Row Key))} {value : Row → Int} {k : Key}

theorem replay_flat : replay db₀ log = applyAll (log.flatMap (·.2)) db₀ := by
  induction log generalizing db₀ with
  | nil => rfl
  | cons t log ih => rw [replay_cons, List.flatMap_cons, applyAll_append, ih]

/-- The transactions, as one run of writes. -/
theorem Logged.flat (h : Logged (fun db _ ws => π.AllowsAll db ws) db₀ log) : π.AllowsAll db₀ (log.flatMap (·.2)) := by
  refine Logged.induct (I := fun log => π.AllowsAll db₀ (log.flatMap (·.2))) h trivial fun log i ws _ ih hws => ?_
  rw [List.flatMap_append, List.flatMap_singleton, Policy.allowsAll_append, ← replay_flat]
  exact ⟨ih, hws⟩

/-- What the transactions put under the key is numbered in the order of their
commits, on from what the store held. -/
theorem Logged.counted (hk : π.Counts value k) (hu : KeysUnique db₀) (h : Logged (fun db _ ws => π.AllowsAll db ws) db₀ log) :
    ((log.flatMap (·.2)).filterMap (Write.puts k)).map value =
      (List.range ((log.flatMap (·.2)).filterMap (Write.puts k)).length).map (fun n : Nat => tally value k db₀ + n + 1) ∧
    tally value k (replay db₀ log) = tally value k db₀ + ((log.flatMap (·.2)).filterMap (Write.puts k)).length := by
  rw [replay_flat]
  exact hk.all hu h.flat

end ReadCommitted
