/-
Entries that are announced after they were made. `Outbox` relates what was
made, in order and each with its maker, to what has been announced: the
announcements are a prefix, and who made one of the others still owes it. One
lemma per kind of move; `Outbox.tell` is the one that needs an order: a maker
announces only once all that was made before is announced.
-/
import Mathlib.Data.List.Basic
import Mathlib.Data.List.Nodup
import Mathlib.Logic.Function.Basic

namespace Resumption

variable {ι α : Type}

/-- `owes i` is what `i` made and has still to announce; `told i` that it has
announced all. -/
structure Outbox (owes : ι → Option α) (told : ι → Prop) (made : List (ι × α)) (sent : List α) : Prop where
  split : ∃ pre rest, made = pre ++ rest ∧ sent = pre.map Prod.snd ∧ (∀ x ∈ pre, told x.1) ∧
    (∀ x ∈ rest, owes x.1 = some x.2) ∧ (∀ i a, owes i = some a → (i, a) ∈ rest) ∧ (rest.map Prod.fst).Nodup
  apart : ∀ i, told i → owes i = none

namespace Outbox

variable {owes owes' : ι → Option α} {told told' : ι → Prop} {made : List (ι × α)} {sent : List α} {i : ι} {a : α}

theorem start (owes : ι → Option α) (h : ∀ i, owes i = none) : Outbox owes told [] [] := by
  refine ⟨⟨[], [], rfl, rfl, by simp, by simp, fun i a ha => ?_, List.nodup_nil⟩, fun i _ => h i⟩
  rw [h i] at ha; cases ha

/-- Nobody's debts change. -/
theorem quiet (h : Outbox owes told made sent) (ho : ∀ j, owes' j = owes j) (ht : ∀ j, told j → told' j)
    (hn : ∀ j, told' j → owes j = none) : Outbox owes' told' made sent := by
  obtain rfl : owes' = owes := funext ho
  obtain ⟨pre, rest, hmade, hsent, hpre, hrest⟩ := h.split
  exact ⟨⟨pre, rest, hmade, hsent, fun x hx => ht _ (hpre x hx), hrest⟩, hn⟩

/-- A new entry, owed by its maker. -/
theorem make (h : Outbox owes told made sent) (hi : owes i = none) (ho : owes' i = some a)
    (hoj : ∀ j, j ≠ i → owes' j = owes j) (ht : ∀ j, told' j → told j ∧ j ≠ i) (htj : ∀ j, told j → told' j) :
    Outbox owes' told' (made ++ [(i, a)]) sent := by
  obtain ⟨⟨pre, rest, rfl, rfl, hpre, hrest, howes, hnodup⟩, hapart⟩ := h
  have hne : ∀ x ∈ rest, x.1 ≠ i := by
    intro x hx hxi
    have := hrest x hx
    rw [hxi, hi] at this; cases this
  refine ⟨⟨pre, rest ++ [(i, a)], by simp, rfl, fun x hx => htj _ (hpre x hx), fun x hx => ?_, fun j b hj => ?_, ?_⟩,
    fun j hj => ?_⟩
  · rcases List.mem_append.1 hx with hx | hx
    · rw [hoj _ (hne x hx)]; exact hrest x hx
    · rw [List.mem_singleton.1 hx]; exact ho
  · by_cases hji : j = i
    · subst hji
      rw [ho] at hj
      rw [Option.some.inj hj]; simp
    · rw [hoj j hji] at hj
      exact List.mem_append_left _ (howes j b hj)
  · rw [List.map_append, List.nodup_append]
    refine ⟨hnodup, by simp, fun j hj k hk => ?_⟩
    obtain ⟨x, hx, rfl⟩ := List.mem_map.1 hj
    obtain rfl : k = i := by simpa using hk
    exact hne x hx
  · rw [hoj j (ht j hj).2]
    exact hapart j (ht j hj).1

/-- An entry is announced after all that were made before it. -/
theorem tell [DecidableEq ι] (h : Outbox owes told made sent) (hi : owes i = some a)
    (hfirst : ∀ x ∈ made.takeWhile (fun x => x.1 ≠ i), told x.1) (ho : owes' i = none) (hoj : ∀ j, j ≠ i → owes' j = owes j)
    (ht : told' i) (htj : ∀ j, j ≠ i → (told' j ↔ told j)) : Outbox owes' told' made (sent ++ [a]) := by
  obtain ⟨⟨pre, rest, rfl, rfl, hpre, hrest, howes, hnodup⟩, hapart⟩ := h
  have hni : ¬told i := fun h => by rw [hapart i h] at hi; cases hi
  have hpi : ∀ x ∈ pre, x.1 ≠ i := fun x hx hxi => hni (hxi ▸ hpre x hx)
  -- Its entry is the first that is owed.
  obtain ⟨rest', rfl⟩ : ∃ rest', rest = (i, a) :: rest' := by
    cases rest with
    | nil => cases howes i a hi
    | cons x rest' =>
      by_cases hxi : x.1 = i
      · have hx := hrest x (by simp)
        rw [hxi, hi] at hx
        exact ⟨rest', by rw [Option.some.inj hx, ← hxi]⟩
      · have hmem : x ∈ (pre ++ x :: rest').takeWhile (fun x => x.1 ≠ i) := by
          rw [List.takeWhile_append_of_pos (by simpa using hpi)]
          simp [hxi]
        have hx := hrest x (by simp)
        rw [hapart _ (hfirst x hmem)] at hx; cases hx
  obtain ⟨hin, hnodup'⟩ := List.nodup_cons.1 hnodup
  have hne : ∀ x ∈ rest', x.1 ≠ i := fun x hx hxi => hin (List.mem_map.2 ⟨x, hx, hxi⟩)
  refine ⟨⟨pre ++ [(i, a)], rest', by simp, by simp, fun x hx => ?_, fun x hx => ?_, fun j b hj => ?_, hnodup'⟩,
    fun j hj => ?_⟩
  · rcases List.mem_append.1 hx with hx | hx
    · exact (htj _ (hpi x hx)).2 (hpre x hx)
    · rw [List.mem_singleton.1 hx]; exact ht
  · rw [hoj _ (hne x hx)]
    exact hrest x (by simp [hx])
  · by_cases hji : j = i
    · rw [hji, ho] at hj; cases hj
    · rw [hoj j hji] at hj
      rcases List.mem_cons.1 (howes j b hj) with h | h
      · exact absurd (congrArg Prod.fst h) hji
      · exact h
  · by_cases hji : j = i
    · rw [hji]; exact ho
    · rw [hoj j hji]
      exact hapart j ((htj j hji).1 hj)

theorem isPrefix (h : Outbox owes told made sent) : sent <+: made.map Prod.snd := by
  obtain ⟨pre, rest, rfl, rfl, -⟩ := h.split
  exact ⟨rest.map Prod.snd, by simp⟩

/-- When nobody owes anything, all is announced. -/
theorem settled (h : Outbox owes told made sent) (hnone : ∀ i, owes i = none) : sent = made.map Prod.snd := by
  obtain ⟨pre, rest, rfl, rfl, -, hrest, -⟩ := h.split
  cases rest with
  | nil => simp
  | cons x rest =>
    have hx := hrest x (by simp)
    rw [hnone] at hx; cases hx

end Outbox
end Resumption
