/-
Records that point to objects in a store, where the two are not written
together: a writer puts an object first and publishes its record later, and a
remover retracts records first and sweeps their objects later. `Agree` is the
invariant under which every record's object is in the store; each move keeps
it, a put where no record, no other writer and no remover has its key.
-/
import Mathlib.Logic.Basic

namespace Blobs

variable {ι ρ κ β : Type}

/-- The records with the keys they point to, who has put an object whose
record is to come, who has yet to sweep which keys, and the objects. `made`
says which body a record was made with. -/
structure View (ι ρ κ β : Type) where
  records : ρ → Prop
  made : ρ → β → Prop
  pending : ι → Option κ
  owed : ι → κ → Prop
  store : κ → Option β

structure Agree (keyOf : ρ → κ) (body : ι → Option β) (v : View ι ρ κ β) : Prop where
  kept : ∀ z, v.records z → ∃ b, v.made z b ∧ v.store (keyOf z) = some b
  single : ∀ z z', v.records z → v.records z' → keyOf z = keyOf z' → z = z'
  put : ∀ i k, v.pending i = some k → ∃ b, body i = some b ∧ v.store k = some b
  apart : ∀ i k z, v.pending i = some k → v.records z → keyOf z ≠ k
  alone : ∀ i j k, v.pending i = some k → v.pending j = some k → i = j
  owedRecord : ∀ i k z, v.owed i k → v.records z → keyOf z ≠ k
  owedPending : ∀ i j k, v.owed i k → v.pending j ≠ some k

variable {keyOf : ρ → κ} {body : ι → Option β} {v v' : View ι ρ κ β} {i : ι} {k : κ} {b : β}

/-- Nothing is new: a writer may give up, a remover may be done. -/
theorem Agree.quiet (h : Agree keyOf body v) (records : ∀ z, v'.records z ↔ v.records z)
    (made : ∀ z b, v'.records z → v.made z b → v'.made z b) (pending : ∀ i k, v'.pending i = some k → v.pending i = some k)
    (owed : ∀ i k, v'.owed i k → v.owed i k) (store : v'.store = v.store) : Agree keyOf body v' where
  kept z hz := by
    obtain ⟨b, hb, hs⟩ := h.kept z ((records z).1 hz)
    exact ⟨b, made z b hz hb, by rw [store]; exact hs⟩
  single z z' hz hz' := h.single z z' ((records z).1 hz) ((records z').1 hz')
  put i k hp := by
    rw [store]
    exact h.put i k (pending i k hp)
  apart i k z hp hz := h.apart i k z (pending i k hp) ((records z).1 hz)
  alone i j k hi hj := h.alone i j k (pending i k hi) (pending j k hj)
  owedRecord i k z ho hz := h.owedRecord i k z (owed i k ho) ((records z).1 hz)
  owedPending i j k ho hp := h.owedPending i j k (owed i k ho) (pending j k hp)

/-- An object is put, under a key nobody has. -/
theorem Agree.puts (h : Agree keyOf body v) (hbody : body i = some b) (hrecords : ∀ z, v.records z → keyOf z ≠ k)
    (hpending : ∀ j, j ≠ i → v.pending j ≠ some k) (howed : ∀ j, ¬v.owed j k) (records : v'.records = v.records)
    (made : v'.made = v.made) (self : v'.pending i = some k) (others : ∀ j, j ≠ i → v'.pending j = v.pending j)
    (owed : ∀ j k, v'.owed j k → v.owed j k) (stored : v'.store k = some b)
    (store : ∀ k', k' ≠ k → v'.store k' = v.store k') : Agree keyOf body v' where
  kept z hz := by
    rw [records] at hz
    rw [made, store _ (hrecords z hz)]
    exact h.kept z hz
  single z z' hz hz' := by
    rw [records] at hz hz'
    exact h.single z z' hz hz'
  put j k' hp := by
    by_cases hj : j = i
    · subst hj
      rw [self] at hp
      cases hp
      exact ⟨b, hbody, stored⟩
    · rw [others j hj] at hp
      rw [store k' fun hk => hpending j hj (hk ▸ hp)]
      exact h.put j k' hp
  apart j k' z hp hz := by
    rw [records] at hz
    by_cases hj : j = i
    · subst hj
      rw [self] at hp
      cases hp
      exact hrecords z hz
    · rw [others j hj] at hp
      exact h.apart j k' z hp hz
  alone j j' k' hp hp' := by
    by_cases hj : j = i
    · by_cases hj' : j' = i
      · rw [hj, hj']
      · rw [hj, self] at hp
        rw [others j' hj'] at hp'
        cases hp
        exact absurd hp' (hpending j' hj')
    · rw [others j hj] at hp
      by_cases hj' : j' = i
      · rw [hj', self] at hp'
        cases hp'
        exact absurd hp (hpending j hj)
      · rw [others j' hj'] at hp'
        exact h.alone j j' k' hp hp'
  owedRecord j k' z ho hz := by
    rw [records] at hz
    exact h.owedRecord j k' z (owed j k' ho) hz
  owedPending j j' k' ho hp := by
    by_cases hj' : j' = i
    · rw [hj', self] at hp
      cases hp
      exact howed j (owed j k ho)
    · rw [others j' hj'] at hp
      exact h.owedPending j j' k' (owed j k' ho) hp

/-- The record of a pending object is published. -/
theorem Agree.publish (h : Agree keyOf body v) {w : ρ} (hp₀ : v.pending i = some (keyOf w))
    (records : ∀ z, v'.records z ↔ v.records z ∨ z = w) (made : ∀ z b, v.records z → v.made z b → v'.made z b)
    (fresh : ∀ b, body i = some b → v'.made w b) (self : v'.pending i = none)
    (others : ∀ j, j ≠ i → v'.pending j = v.pending j) (owed : ∀ j k, v'.owed j k → v.owed j k)
    (store : v'.store = v.store) : Agree keyOf body v' := by
  have old : ∀ {j k}, v'.pending j = some k → j ≠ i ∧ v.pending j = some k := by
    intro j k hp
    have hj : j ≠ i := fun hj => by rw [hj, self] at hp; cases hp
    exact ⟨hj, others j hj ▸ hp⟩
  refine ⟨fun z hz => ?_, fun z z' hz hz' hk => ?_, fun j k hp => ?_, fun j k z hp hz => ?_, fun j j' k hp hp' => ?_,
    fun j k z ho hz => ?_, fun j j' k ho hp => ?_⟩
  · rw [store]
    rcases (records z).1 hz with hz | rfl
    · obtain ⟨b, hb, hs⟩ := h.kept z hz
      exact ⟨b, made z b hz hb, hs⟩
    · obtain ⟨b, hb, hs⟩ := h.put i _ hp₀
      exact ⟨b, fresh b hb, hs⟩
  · rcases (records z).1 hz with hz | rfl <;> rcases (records z').1 hz' with hz' | rfl
    · exact h.single z z' hz hz' hk
    · exact absurd hk (h.apart i _ z hp₀ hz)
    · exact absurd hk.symm (h.apart i _ z' hp₀ hz')
    · rfl
  · rw [store]
    exact h.put j k (old hp).2
  · rcases (records z).1 hz with hz | rfl
    · exact h.apart j k z (old hp).2 hz
    · exact fun hk => (old hp).1 (h.alone j i k (old hp).2 (hk ▸ hp₀))
  · exact h.alone j j' k (old hp).2 (old hp').2
  · rcases (records z).1 hz with hz | rfl
    · exact h.owedRecord j k z (owed j k ho) hz
    · exact fun hk => h.owedPending j i k (owed j k ho) (hk ▸ hp₀)
  · exact h.owedPending j j' k (owed j k ho) (old hp).2

/-- Records are retracted, and their keys are owed. -/
theorem Agree.retract (h : Agree keyOf body v) (records : ∀ z, v'.records z → v.records z)
    (made : ∀ z b, v'.records z → v.made z b → v'.made z b) (pending : ∀ j k, v'.pending j = some k → v.pending j = some k)
    (self : ∀ k, v'.owed i k → ∃ z, v.records z ∧ ¬v'.records z ∧ keyOf z = k)
    (others : ∀ j k, j ≠ i → v'.owed j k → v.owed j k) (store : v'.store = v.store) : Agree keyOf body v' where
  kept z hz := by
    obtain ⟨b, hb, hs⟩ := h.kept z (records z hz)
    exact ⟨b, made z b hz hb, by rw [store]; exact hs⟩
  single z z' hz hz' := h.single z z' (records z hz) (records z' hz')
  put j k hp := by
    rw [store]
    exact h.put j k (pending j k hp)
  apart j k z hp hz := h.apart j k z (pending j k hp) (records z hz)
  alone j j' k hp hp' := h.alone j j' k (pending j k hp) (pending j' k hp')
  owedRecord j k z ho hz := by
    by_cases hj : j = i
    · subst hj
      obtain ⟨d, hd, hgone, rfl⟩ := self k ho
      intro hk
      rw [h.single z d (records z hz) hd hk] at hz
      exact hgone hz
    · exact h.owedRecord j k z (others j k hj ho) (records z hz)
  owedPending j j' k ho hp := by
    by_cases hj : j = i
    · subst hj
      obtain ⟨d, hd, -, rfl⟩ := self k ho
      exact h.apart j' _ d (pending j' _ hp) hd rfl
    · exact h.owedPending j j' k (others j k hj ho) (pending j' k hp)

/-- The keys owed are swept, all or some of them. -/
theorem Agree.sweep (h : Agree keyOf body v) (records : v'.records = v.records) (made : v'.made = v.made)
    (pending : ∀ j k, v'.pending j = some k → v.pending j = some k) (owed : ∀ j k, v'.owed j k → v.owed j k)
    (store : ∀ k, ¬v.owed i k → v'.store k = v.store k) : Agree keyOf body v' where
  kept z hz := by
    rw [records] at hz
    rw [made, store _ fun ho => h.owedRecord i _ z ho hz rfl]
    exact h.kept z hz
  single z z' hz hz' := by
    rw [records] at hz hz'
    exact h.single z z' hz hz'
  put j k hp := by
    rw [store k fun ho => h.owedPending i j k ho (pending j k hp)]
    exact h.put j k (pending j k hp)
  apart j k z hp hz := by
    rw [records] at hz
    exact h.apart j k z (pending j k hp) hz
  alone j j' k hp hp' := h.alone j j' k (pending j k hp) (pending j' k hp')
  owedRecord j k z ho hz := by
    rw [records] at hz
    exact h.owedRecord j k z (owed j k ho) hz
  owedPending j j' k ho hp := h.owedPending j j' k (owed j k ho) (pending j' k hp)

end Blobs
