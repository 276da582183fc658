/-
What a SELECT over several tables computes: joins, LEFT JOIN LATERAL … ON
TRUE, and the aggregates of a group, which may be empty.
-/
import Mathlib.Data.List.Dedup
import Mathlib.Data.List.Perm.Basic
import Mathlib.Order.MinMax

namespace Query

variable {α β γ : Type}

/-! ## Keys -/

/-- `WHERE key = …` finds one row at most. -/
theorem filter_key [DecidableEq β] {f : α → β} {xs : List α} (h : (xs.map f).Nodup) (k : β) :
    (xs.filter fun x => f x = k).length ≤ 1 := by
  have hcount := List.nodup_iff_count_le_one.1 h k
  rw [List.count, List.countP_map, List.countP_eq_length_filter] at hcount
  simpa [Function.comp_def, beq_eq_decide] using hcount

theorem filter_key_mem [DecidableEq β] {f : α → β} {xs : List α} (h : (xs.map f).Nodup) {x : α} (hx : x ∈ xs) :
    (xs.filter fun y => f y = f x) = [x] := by
  have hmem : x ∈ xs.filter fun y => f y = f x := List.mem_filter.2 ⟨hx, decide_eq_true rfl⟩
  have hlen := filter_key h (f x)
  have hone : (xs.filter fun y => f y = f x).length = 1 := by
    have := List.length_pos_of_mem hmem
    omega
  obtain ⟨y, hy⟩ := List.length_eq_one_iff.1 hone
  rw [hy, List.mem_singleton] at hmem
  rw [hy, hmem]

/-! ## Joins -/

/-- `xs JOIN ys ON …`, as the nested loop. -/
def join (on : α → β → Bool) (xs : List α) (ys : List β) : List (α × β) :=
  xs.flatMap fun x => (ys.filter (on x)).map (x, ·)

/-- Rows that have at most one partner each come at most once. -/
theorem join_sublist (on : α → β → Bool) (ys : List β) (h : ∀ x, (ys.filter (on x)).length ≤ 1) (xs : List α) :
    ((join on xs ys).map Prod.fst).Sublist xs := by
  induction xs with
  | nil => simp [join]
  | cons x xs ih =>
    have hstep : (join on (x :: xs) ys).map Prod.fst =
        (ys.filter (on x)).map (fun _ => x) ++ (join on xs ys).map Prod.fst := by
      simp [join, Function.comp_def]
    rw [hstep]
    have hx := h x
    cases hys : ys.filter (on x) with
    | nil => exact ih.cons x
    | cons y rest =>
      rw [hys, List.length_cons] at hx
      have hrest : rest = [] := List.length_eq_zero_iff.1 (by omega)
      rw [hrest]
      exact ih.cons_cons x

/-- `xs LEFT JOIN LATERAL (…) ON TRUE`: a row for which the subquery is empty
stays, with NULLs. -/
def lateral (sub : α → List β) (xs : List α) : List (α × Option β) :=
  xs.flatMap fun x => if (sub x).isEmpty then [(x, none)] else (sub x).map fun y => (x, some y)

/-- A subquery of at most one row neither drops nor repeats a row. -/
theorem lateral_eq {sub : α → List β} (h : ∀ x, (sub x).length ≤ 1) (xs : List α) :
    lateral sub xs = xs.map fun x => (x, (sub x).head?) := by
  unfold lateral
  rw [List.map_eq_flatMap]
  refine congrArg (xs.flatMap ·) (funext fun x => ?_)
  have hx := h x
  cases hsub : sub x with
  | nil => rfl
  | cons y rest =>
    rw [hsub, List.length_cons] at hx
    have hrest : rest = [] := List.length_eq_zero_iff.1 (by omega)
    rw [hrest]
    rfl

/-! ## Aggregates -/

/-- `COUNT(DISTINCT …)`. -/
def countDistinct [DecidableEq β] (f : α → β) (xs : List α) : Nat := (xs.map f).dedup.length

theorem countDistinct_eq [DecidableEq β] {f : α → β} {xs : List α} (h : (xs.map f).Nodup) :
    countDistinct f xs = xs.length := by
  rw [countDistinct, h.dedup, List.length_map]

/-- `bool_or(…)`: NULL over no rows. -/
def boolOr (p : α → Bool) (xs : List α) : Option Bool := if xs.isEmpty then none else some (xs.any p)

/-- `COALESCE(bool_or(…), FALSE)`. -/
theorem boolOr_getD (p : α → Bool) (xs : List α) : (boolOr p xs).getD false = xs.any p := by
  cases xs <;> rfl

variable [LinearOrder β]

/-- `MAX(…)`: NULL over no rows. -/
def maximum (f : α → β) (xs : List α) : Option β := (xs.map f).max?

theorem maximum_eq_none {f : α → β} {xs : List α} : maximum f xs = none ↔ xs = [] := by
  rw [maximum, List.max?_eq_none_iff, List.map_eq_nil_iff]

theorem maximum_eq_some {f : α → β} {xs : List α} {t : β} :
    maximum f xs = some t ↔ (∃ x ∈ xs, f x = t) ∧ ∀ x ∈ xs, f x ≤ t := by
  rw [maximum, List.max?_eq_some_iff]
  simp

theorem maximum_map (f : γ → β) (g : α → γ) (xs : List α) : maximum f (xs.map g) = maximum (f ∘ g) xs := by
  rw [maximum, List.map_map, maximum]

/-- Sorted by `f DESC`, it stands first. -/
theorem maximum_of_sorted {f : α → β} {xs : List α} (h : xs.Pairwise fun x y => f y ≤ f x) :
    maximum f xs = xs.head?.map f := by
  cases xs with
  | nil => rfl
  | cons x rest =>
    refine maximum_eq_some.2 ⟨⟨x, by simp, rfl⟩, fun y hy => ?_⟩
    rcases List.mem_cons.1 hy with rfl | hy
    · exact le_refl _
    · exact (List.pairwise_cons.1 h).1 y hy

/-- The order of the rows does not matter. -/
theorem maximum_perm {f : α → β} {xs ys : List α} (h : xs.Perm ys) : maximum f xs = maximum f ys := by
  cases hy : maximum f ys with
  | none =>
    rw [maximum_eq_none] at hy ⊢
    rw [hy] at h
    exact h.eq_nil
  | some t =>
    rw [maximum_eq_some] at hy ⊢
    simpa only [h.mem_iff] using hy

end Query
