/-
Paging by LIMIT and OFFSET through rows that are ordered by a key which need
not be unique. The server may order rows that tie as it likes, in each query
anew; the pages put together are the rows exactly when no tie lies across the
end of a page.
-/
import Mathlib.Data.List.Perm.Basic
import Mathlib.Data.List.Sort
import Mathlib.Order.Lattice

namespace Paging

variable {α β : Type} [LinearOrder β]

/-! ## Orders and pages -/

/-- `ORDER BY f DESC`: the rows, in an order of that kind. -/
structure Arranges (f : α → β) (rows order : List α) : Prop where
  perm : order.Perm rows
  sorted : order.Pairwise fun x y => f y ≤ f x

/-- `LIMIT n OFFSET k * n`. -/
def page (n k : Nat) (order : List α) : List α := (order.drop (k * n)).take n

/-- The pages from number `k` on, until an empty one, put together. -/
inductive Collects (pages : Nat → List α) : Nat → List α → Prop
  | done {k : Nat} (h : pages k = []) : Collects pages k []
  | more {k : Nat} {rest : List α} (h : pages k ≠ []) (hrest : Collects pages (k + 1) rest) :
      Collects pages k (pages k ++ rest)

/-- How many rows come before all those with this key. -/
def ahead (f : α → β) (rows : List α) (t : β) : Nat := rows.countP fun x => t < f x

def ties (f : α → β) (rows : List α) (t : β) : Nat := rows.countP fun x => f x = t

/-- No tie lies across the end of a page of `n`. -/
def Unsplit (f : α → β) (n : Nat) (rows : List α) : Prop :=
  ∀ x ∈ rows, ahead f rows (f x) / n = (ahead f rows (f x) + ties f rows (f x) - 1) / n

instance (f : α → β) (n : Nat) (rows : List α) : Decidable (Unsplit f n rows) := inferInstanceAs (Decidable (∀ x ∈ rows, _))

/-! ## Collecting -/

theorem Collects.unique {pages : Nat → List α} {k : Nat} {out out' : List α} (h : Collects pages k out)
    (h' : Collects pages k out') : out = out' := by
  induction h generalizing out' with
  | done h =>
    cases h' with
    | done _ => rfl
    | more hne _ => exact absurd h hne
  | more hne _ ih =>
    cases h' with
    | done h => exact absurd h hne
    | more _ hrest => rw [ih hrest]

/-- Where the pages end at `m`, the collection is that of the pages before. -/
theorem collects {pages : Nat → List α} {m : Nat} (h : ∀ k, pages k = [] ↔ m ≤ k) : ∀ (fuel k : Nat), m ≤ k + fuel →
    Collects pages k ((List.range' k fuel).flatMap pages)
  | 0, k, hm => .done ((h k).2 hm)
  | fuel + 1, k, hm => by
    by_cases hk : m ≤ k
    · have hnil : (List.range' k (fuel + 1)).flatMap pages = [] := by
        refine List.flatMap_eq_nil_iff.2 fun j hj => (h j).2 ?_
        have := List.left_le_of_mem_range' hj
        omega
      rw [hnil]
      exact .done ((h k).2 hk)
    · rw [List.range'_succ, List.flatMap_cons]
      exact .more (fun hnil => hk ((h k).1 hnil)) (collects h fuel (k + 1) (by omega))

/-- The pages of one order are its consecutive parts. -/
theorem flatMap_page (order : List α) (n k : Nat) : ∀ (m : Nat),
    (List.range' k m).flatMap (fun j => page n j order) = (order.drop (k * n)).take (m * n)
  | 0 => by simp
  | m + 1 => by
    have hsum : (m + 1) * n = m * n + n := Nat.add_one_mul m n
    rw [List.range'_concat, List.flatMap_append, flatMap_page order n k m, hsum, List.take_add]
    simp [page, Nat.add_mul]

theorem page_eq_nil {order : List α} {n k : Nat} (hn : 0 < n) : page n k order = [] ↔ (order.length + n - 1) / n ≤ k := by
  unfold page
  rw [List.take_eq_nil_iff, List.drop_eq_nil_iff, Nat.div_le_iff_le_mul_add_pred hn]
  constructor
  · intro h
    rw [Nat.mul_comm]
    omega
  · intro h
    rw [Nat.mul_comm] at h
    omega

/-! ## Where a row stands -/

theorem ahead_le (f : α → β) (rows : List α) {t t' : β} (h : t' < t) :
    ahead f rows t + ties f rows t ≤ ahead f rows t' := by
  unfold ahead ties
  induction rows with
  | nil => simp
  | cons x rows ih =>
    simp only [List.countP_cons, decide_eq_true_eq]
    by_cases h₁ : t < f x
    · rw [if_pos h₁, if_neg (ne_of_gt h₁), if_pos (h.trans h₁)]
      omega
    · by_cases h₂ : f x = t
      · rw [if_neg h₁, if_pos h₂, if_pos (h₂ ▸ h)]
        omega
      · rw [if_neg h₁, if_neg h₂]
        omega

theorem ahead_ties_le (f : α → β) (rows : List α) (t : β) : ahead f rows t + ties f rows t ≤ rows.length := by
  unfold ahead ties
  induction rows with
  | nil => simp
  | cons x rows ih =>
    simp only [List.countP_cons, decide_eq_true_eq, List.length_cons]
    by_cases h : t < f x
    · rw [if_pos h, if_neg (ne_of_gt h)]
      omega
    · rw [if_neg h]
      split <;> omega

variable {f : α → β} {rows order : List α}

theorem Arranges.ahead_eq (h : Arranges f rows order) (t : β) : ahead f rows t = ahead f order t :=
  (h.perm.countP_eq _).symm

theorem Arranges.ties_eq (h : Arranges f rows order) (t : β) : ties f rows t = ties f order t :=
  (h.perm.countP_eq _).symm

/-- The rows with one key stand together, after all that come before them. -/
theorem Arranges.position (h : Arranges f rows order) {i : Nat} (hi : i < order.length) :
    ahead f rows (f order[i]) ≤ i ∧ i < ahead f rows (f order[i]) + ties f rows (f order[i]) := by
  rw [h.ahead_eq, h.ties_eq]
  have hsorted := List.pairwise_iff_getElem.1 h.sorted
  have hsplit : order = order.take i ++ order.drop i := (List.take_append_drop i order).symm
  have hlen : (order.take i).length = i := by simp; omega
  constructor
  · have hafter : ahead f (order.drop i) (f order[i]) = 0 := by
      refine List.countP_eq_zero.2 fun x hx => ?_
      obtain ⟨j, hj, rfl⟩ := List.mem_iff_getElem.1 hx
      rw [List.getElem_drop]
      rcases Nat.eq_zero_or_pos j with rfl | hpos
      · simp
      · simpa using hsorted i (i + j) hi (by rw [List.length_drop] at hj; omega) (by omega)
    calc ahead f order (f order[i])
        = ahead f (order.take i) (f order[i]) + ahead f (order.drop i) (f order[i]) := by
          unfold ahead
          rw [← List.countP_append, ← hsplit]
      _ = ahead f (order.take i) (f order[i]) := by rw [hafter, Nat.add_zero]
      _ ≤ (order.take i).length := List.countP_le_length
      _ = i := hlen
  · have hall : ∀ xs : List α, (∀ x ∈ xs, f order[i] ≤ f x) →
        ahead f xs (f order[i]) + ties f xs (f order[i]) = xs.length := by
      intro xs hxs
      unfold ahead ties
      induction xs with
      | nil => rfl
      | cons x xs ih =>
        have hrest := ih fun y hy => hxs y (by simp [hy])
        simp only [List.countP_cons, decide_eq_true_eq, List.length_cons]
        rcases lt_or_eq_of_le (hxs x (by simp)) with hlt | heq
        · rw [if_pos hlt, if_neg (ne_of_gt hlt)]
          omega
        · rw [if_neg (not_lt_of_ge heq.ge), if_pos heq.symm]
          omega
    have hbefore := hall (order.take (i + 1)) fun x hx => by
      obtain ⟨j, hj, rfl⟩ := List.mem_iff_getElem.1 hx
      rw [List.getElem_take]
      rw [List.length_take] at hj
      rcases Nat.lt_or_ge j i with hlt | hge
      · exact hsorted j i (by omega) hi hlt
      · have : j = i := by omega
        subst this
        exact le_refl _
    have hmono : ∀ p : α → Bool, (order.take (i + 1)).countP p ≤ order.countP p := fun p =>
      (List.take_sublist _ _).countP_le
    have h₁ : ahead f (order.take (i + 1)) (f order[i]) ≤ ahead f order (f order[i]) := hmono _
    have h₂ : ties f (order.take (i + 1)) (f order[i]) ≤ ties f order (f order[i]) := hmono _
    have hlen' : (order.take (i + 1)).length = i + 1 := by simp; omega
    omega

/-- What stands in the places of a key has the key. -/
theorem Arranges.at_position (h : Arranges f rows order) {t : β} {i : Nat} (hi : i < order.length)
    (hlo : ahead f rows t ≤ i) (hhi : i < ahead f rows t + ties f rows t) : f order[i] = t := by
  obtain ⟨hle, hlt⟩ := h.position hi
  rcases lt_trichotomy (f order[i]) t with hless | heq | hmore
  · have := ahead_le f rows hless
    omega
  · exact heq
  · have := ahead_le f rows hmore
    omega

/-! ## Pages that miss and repeat nothing -/

/-- Where no tie is split, a page is made of the same rows in every order. -/
theorem Arranges.page_eq (h : Arranges f rows order) {n : Nat} (hn : 0 < n) (hu : Unsplit f n rows) (k : Nat) :
    page n k order = order.filter fun x => ahead f rows (f x) / n = k := by
  have hplace : ∀ i (hi : i < order.length), ahead f rows (f order[i]) / n = i / n := by
    intro i hi
    obtain ⟨hle, hlt⟩ := h.position hi
    have hsame := hu order[i] (h.perm.mem_iff.1 (List.getElem_mem hi))
    have h₁ : ahead f rows (f order[i]) / n ≤ i / n := Nat.div_le_div_right hle
    have h₂ : i / n ≤ (ahead f rows (f order[i]) + ties f rows (f order[i]) - 1) / n := Nat.div_le_div_right (by omega)
    omega
  have hbefore : (order.take (k * n)).filter (fun x => ahead f rows (f x) / n = k) = [] := by
    refine List.filter_eq_nil_iff.2 fun x hx => ?_
    obtain ⟨i, hi, rfl⟩ := List.mem_iff_getElem.1 hx
    rw [List.length_take] at hi
    rw [List.getElem_take, hplace i (by omega), decide_eq_true_eq]
    have : i / n < k := (Nat.div_lt_iff_lt_mul hn).2 (by omega)
    omega
  have hpage : (page n k order).filter (fun x => ahead f rows (f x) / n = k) = page n k order := by
    refine List.filter_eq_self.2 fun x hx => ?_
    obtain ⟨i, hi, rfl⟩ := List.mem_iff_getElem.1 hx
    simp only [page, List.length_take, List.length_drop] at hi
    simp only [page, List.getElem_take, List.getElem_drop]
    rw [hplace (k * n + i) (by omega), decide_eq_true_eq, Nat.add_comm, Nat.add_mul_div_right _ _ hn,
      Nat.div_eq_of_lt (by omega), Nat.zero_add]
  have hafter : (order.drop (k * n + n)).filter (fun x => ahead f rows (f x) / n = k) = [] := by
    refine List.filter_eq_nil_iff.2 fun x hx => ?_
    obtain ⟨i, hi, rfl⟩ := List.mem_iff_getElem.1 hx
    rw [List.length_drop] at hi
    rw [List.getElem_drop, hplace (k * n + n + i) (by omega), decide_eq_true_eq]
    have : k + 1 ≤ (k * n + n + i) / n := (Nat.le_div_iff_mul_le hn).2 (by rw [Nat.add_one_mul]; omega)
    omega
  have hsplit : order = order.take (k * n) ++ (page n k order ++ order.drop (k * n + n)) := by
    unfold page
    rw [← List.drop_drop, List.take_append_drop, List.take_append_drop]
  calc page n k order
      = [] ++ (page n k order ++ []) := by simp
    _ = (order.take (k * n) ++ (page n k order ++ order.drop (k * n + n))).filter
          (fun x => ahead f rows (f x) / n = k) := by
        rw [List.filter_append, List.filter_append, hbefore, hpage, hafter]
    _ = order.filter (fun x => ahead f rows (f x) / n = k) := by rw [← hsplit]

/-- All the rows, each as often as it is there, in non-increasing order. -/
abbrev Exact (f : α → β) (n : Nat) (rows : List α) (orders : Nat → List α) : Prop :=
  ∃ out, Collects (fun k => page n k (orders k)) 0 out ∧ out.Perm rows ∧ out.Pairwise fun x y => f y ≤ f x

variable {orders : Nat → List α} {n : Nat}

/-- What pages of these orders collect. -/
theorem collected (hn : 0 < n) (h : ∀ k, Arranges f rows (orders k)) : Collects (fun k => page n k (orders k)) 0
    ((List.range' 0 ((rows.length + n - 1) / n)).flatMap fun k => page n k (orders k)) := by
  refine collects (m := (rows.length + n - 1) / n) (fun k => ?_) _ 0 (by omega)
  rw [page_eq_nil hn, (h k).perm.length_eq]

/-- Where no tie is split, any orders will do. -/
theorem Unsplit.exact (hn : 0 < n) (hu : Unsplit f n rows) (h : ∀ k, Arranges f rows (orders k)) :
    Exact f n rows orders := by
  refine ⟨_, collected hn h, ?_, ?_⟩
  · have hpages : ∀ k, (page n k (orders k)).Perm (page n k (orders 0)) := by
      intro k
      rw [(h k).page_eq hn hu, (h 0).page_eq hn hu]
      exact ((h k).perm.trans (h 0).perm.symm).filter _
    have hall : (rows.length + n - 1) / n * n ≥ (orders 0).length := by
      rw [(h 0).perm.length_eq]
      have := Nat.div_add_mod (rows.length + n - 1) n
      have hmod := Nat.mod_lt (rows.length + n - 1) hn
      rw [Nat.mul_comm] at this
      omega
    refine (List.Perm.flatMap_left _ fun k _ => hpages k).trans ?_
    rw [flatMap_page, Nat.zero_mul, List.drop_zero, List.take_of_length_le hall]
    exact (h 0).perm
  · rw [List.pairwise_flatMap]
    refine ⟨fun k _ => ((h k).sorted.sublist (List.drop_sublist _ _)).sublist (List.take_sublist _ _), ?_⟩
    refine (List.pairwise_lt_range').imp fun {k k'} hlt x hx y hy => ?_
    rw [(h k).page_eq hn hu] at hx
    rw [(h k').page_eq hn hu] at hy
    have hxk : ahead f rows (f x) / n = k := by simpa using (List.mem_filter.1 hx).2
    have hyk : ahead f rows (f y) / n = k' := by simpa using (List.mem_filter.1 hy).2
    by_contra hno
    have hle : ahead f rows (f y) ≤ ahead f rows (f x) := by
      have := ahead_le f rows (not_le.1 hno)
      omega
    have := Nat.div_le_div_right (c := n) hle
    omega

/-! ## A tie that is split -/

/-- Two rows that tie, next to each other, can change places. -/
theorem Arranges.swap {l l' : List α} {x y : α} (h : Arranges f rows (l ++ x :: y :: l')) (heq : f x = f y) :
    Arranges f rows (l ++ y :: x :: l') where
  perm := ((List.Perm.swap x y l').append_left l).trans h.perm
  sorted := by
    have hsorted := h.sorted
    simp only [List.pairwise_append, List.pairwise_cons, List.mem_cons, forall_eq_or_imp] at hsorted ⊢
    obtain ⟨hl, ⟨⟨-, hx⟩, hy, hl'⟩, hcross⟩ := hsorted
    exact ⟨hl, ⟨⟨heq.le.trans' (le_of_eq rfl), hy⟩, hx, hl'⟩,
      fun z hz => ⟨(hcross z hz).2.1, (hcross z hz).1, (hcross z hz).2.2⟩⟩

/-- The last row of a page. -/
theorem mem_page_last {l l' : List α} {x : α} {k : Nat} (hn : 0 < n) (hl : l.length + 1 = (k + 1) * n) :
    x ∈ page n k (l ++ x :: l') := by
  have hlen : l.length = k * n + (n - 1) := by
    rw [Nat.add_one_mul] at hl
    omega
  unfold page
  rw [List.drop_append_of_le_length (by omega), List.take_append, List.length_drop, List.mem_append]
  right
  have hrest : n - (l.length - k * n) = 1 := by omega
  rw [hrest]
  simp

/-- The first row of a page. -/
theorem mem_page_first {l l' : List α} {x : α} {k : Nat} (hn : 0 < n) (hl : l.length = k * n) :
    x ∈ page n k (l ++ x :: l') := by
  unfold page
  rw [← hl, List.drop_left]
  obtain ⟨m, rfl⟩ : ∃ m, n = m + 1 := ⟨n - 1, by omega⟩
  simp

/-- Where a tie is split, a page ends between two rows that tie. -/
theorem split_tie (hn : 0 < n) (h : Arranges f rows order) (hu : ¬Unsplit f n rows) :
    ∃ k l x y l', order = l ++ x :: y :: l' ∧ f x = f y ∧ l.length + 1 = (k + 1) * n := by
  unfold Unsplit at hu
  push Not at hu
  obtain ⟨z, hz, hne⟩ := hu
  have hties : 0 < ties f rows (f z) := List.countP_pos_iff.2 ⟨z, hz, by simp⟩
  have hcount : ahead f rows (f z) + ties f rows (f z) ≤ order.length := by
    rw [h.perm.length_eq]
    exact ahead_ties_le f rows (f z)
  generalize hk : ahead f rows (f z) / n = k at hne
  have hdiv : k < (ahead f rows (f z) + ties f rows (f z) - 1) / n := by
    have := Nat.div_le_div_right (c := n) (show ahead f rows (f z) ≤ ahead f rows (f z) + ties f rows (f z) - 1 by omega)
    omega
  have hlo : ahead f rows (f z) < (k + 1) * n := (Nat.div_lt_iff_lt_mul hn).1 (by omega)
  have hhi : (k + 1) * n ≤ ahead f rows (f z) + ties f rows (f z) - 1 := (Nat.le_div_iff_mul_le hn).1 hdiv
  generalize hm : (k + 1) * n = m at hlo hhi
  have hlt : m < order.length := by omega
  have hpred : m - 1 < order.length := by omega
  have h₁ : order.drop (m - 1) = order[m - 1] :: order.drop (m - 1 + 1) := List.drop_eq_getElem_cons hpred
  have h₂ : order.drop m = order[m] :: order.drop (m + 1) := List.drop_eq_getElem_cons hlt
  rw [show m - 1 + 1 = m by omega] at h₁
  refine ⟨k, order.take (m - 1), order[m - 1], order[m], order.drop (m + 1), ?_, ?_, ?_⟩
  · rw [← h₂, ← h₁, List.take_append_drop]
  · rw [h.at_position (t := f z) hpred (by omega) (by omega), h.at_position (t := f z) hlt (by omega) (by omega)]
  · rw [List.length_take]
    omega

/-- Then some row ends that page in one order and begins the next in another. -/
theorem split_repeats (hn : 0 < n) (h : Arranges f rows order) (hu : ¬Unsplit f n rows) :
    ∃ order' k x, Arranges f rows order' ∧ x ∈ page n k order ∧ x ∈ page n (k + 1) order' := by
  obtain ⟨k, l, x, y, l', rfl, htie, hlen⟩ := split_tie hn h hu
  refine ⟨_, k, x, h.swap htie, mem_page_last hn hlen, ?_⟩
  rw [List.append_cons]
  exact mem_page_first hn (by rw [List.length_append, List.length_singleton, hlen])

/-- An order by `f DESC`. -/
def descending (f : α → β) (rows : List α) : List α := rows.insertionSort fun x y => f y ≤ f x

theorem arranges_descending (f : α → β) (rows : List α) : Arranges f rows (descending f rows) := by
  have htotal : Std.Total fun x y : α => f y ≤ f x := ⟨fun x y => le_total (f y) (f x)⟩
  have htrans : IsTrans α fun x y => f y ≤ f x := ⟨fun _ _ _ h h' => h'.trans h⟩
  exact ⟨List.perm_insertionSort _ rows, List.pairwise_insertionSort (fun x y : α => f y ≤ f x) rows⟩

/-- Paging is exact, whatever orders the server picks, if and only if no tie is
split. -/
theorem exact_iff (hn : 0 < n) (hrows : rows.Nodup) :
    (∀ orders : Nat → List α, (∀ k, Arranges f rows (orders k)) → Exact f n rows orders) ↔ Unsplit f n rows := by
  constructor
  · intro hexact
    by_contra hu
    have horder := arranges_descending f rows
    obtain ⟨order', k, x, horder', hx, hx'⟩ := split_repeats hn horder hu
    let orders := fun j => if j ≤ k then descending f rows else order'
    have horders : ∀ j, Arranges f rows (orders j) := by
      intro j
      simp only [orders]
      split
      · exact horder
      · exact horder'
    obtain ⟨out, hout, hperm, -⟩ := hexact orders horders
    obtain rfl := hout.unique (collected hn horders)
    have hpages := (List.nodup_flatMap.1 (hperm.nodup_iff.2 hrows)).2
    have hk : x ∈ page n k (orders k) := by
      simpa [orders] using hx
    have hk' : x ∈ page n (k + 1) (orders (k + 1)) := by
      simp only [orders]
      rw [if_neg (by omega)]
      exact hx'
    -- both pages are among those that are put together
    have hlast : k + 1 < (rows.length + n - 1) / n := by
      have hne : page n (k + 1) (orders (k + 1)) ≠ [] := List.ne_nil_of_mem hk'
      rw [Ne, page_eq_nil hn, (horders (k + 1)).perm.length_eq] at hne
      omega
    have hdisjoint := List.pairwise_iff_getElem.1 hpages k (k + 1) (by simp; omega) (by simp; omega) (by omega)
    simp only [List.getElem_range'] at hdisjoint
    rw [Nat.zero_add, Nat.zero_add, Nat.one_mul, Nat.one_mul] at hdisjoint
    exact hdisjoint hk hk'
  · intro hu orders horders
    exact hu.exact hn horders

end Paging
