/-
Rows that carry a tag drawn afresh at every write: a tag then names one
version of one row. `Fresh` says it of a log; from it, no two rows share a
tag, and a tag no row carries any more never comes back (`Fresh.retired`).
-/
import DataApi.Lib.Locking

namespace ReadCommitted

open Relational

variable {ι Row Key Uniq τ : Type} [Schema Row Key Uniq] [DecidableEq Key] (tag : Row → Option τ)

/-- Some row carries `t`. -/
def Live (t : τ) (db : List Row) : Prop := ∃ r ∈ db, tag r = some t

/-- No two rows carry one tag. -/
def SingleTags (db : List Row) : Prop :=
  ∀ r ∈ db, ∀ r' ∈ db, ∀ t, tag r = some t → tag r' = some t → key r = key r'

def writeTag : Write Row Key → Option τ
  | .insert r | .update r => tag r
  | .delete _ => none

def tagsOf (ws : List (Write Row Key)) : List τ := ws.filterMap (writeTag tag)

/-- A row carried `t` at the start, or the log wrote one that does. -/
def Seen (db₀ : List Row) (log : List (ι × List (Write Row Key))) (t : τ) : Prop :=
  Live tag t db₀ ∨ ∃ e ∈ log, t ∈ tagsOf tag e.2

/-- Every transaction of the log writes tags never seen before. -/
def Fresh (db₀ : List Row) (log : List (ι × List (Write Row Key))) : Prop :=
  ∀ pre i ws post, log = pre ++ (i, ws) :: post →
    (tagsOf tag ws).Nodup ∧ ∀ t ∈ tagsOf tag ws, ¬Seen tag db₀ pre t

variable {tag} {db₀ db : List Row} {log pre post : List (ι × List (Write Row Key))} {t : τ}

omit [DecidableEq Key] in
theorem mem_tagsOf {ws : List (Write Row Key)} {r : Row} (h : .insert r ∈ ws ∨ .update r ∈ ws) (ht : tag r = some t) :
    t ∈ tagsOf tag ws := by
  rcases h with h | h
  · exact List.mem_filterMap.2 ⟨_, h, ht⟩
  · exact List.mem_filterMap.2 ⟨_, h, ht⟩

/-- A tag of the store was there before, or was just written. -/
theorem Live.cases {ws : List (Write Row Key)} (h : Live tag t (applyAll ws db)) : Live tag t db ∨ t ∈ tagsOf tag ws := by
  obtain ⟨r, hr, ht⟩ := h
  rcases mem_applyAll hr with hr | hr
  · exact .inl ⟨r, hr, ht⟩
  · exact .inr (mem_tagsOf hr ht)

omit [DecidableEq Key] in
theorem Seen.append (h : Seen tag db₀ pre t) : Seen tag db₀ (pre ++ post) t := by
  rcases h with h | ⟨e, he, ht⟩
  · exact .inl h
  · exact .inr ⟨e, List.mem_append_left _ he, ht⟩

omit [DecidableEq Key] in
theorem Fresh.init (h : Fresh tag db₀ (pre ++ post)) : Fresh tag db₀ pre :=
  fun a i ws b heq => h a i ws (b ++ post) (by rw [heq]; simp)

omit [DecidableEq Key] in
theorem Fresh.last {i : ι} {ws : List (Write Row Key)} (h : Fresh tag db₀ (log ++ [(i, ws)])) :
    (tagsOf tag ws).Nodup ∧ ∀ t ∈ tagsOf tag ws, ¬Seen tag db₀ log t := h log i ws [] rfl

/-- A tag some row carries has been seen. -/
theorem Live.seen (h : Live tag t (replay db₀ log)) : Seen tag db₀ log t := by
  induction log using List.reverseRecOn with
  | nil => exact .inl h
  | append_singleton log e ih =>
    rw [replay_append] at h
    rcases h.cases with h | h
    · exact (ih h).append
    · exact .inr ⟨e, by simp, h⟩

theorem eq_of_nodup_filterMap {α β : Type} {f : α → Option β} {l : List α} (h : (l.filterMap f).Nodup) {a b : α}
    {t : β} (ha : a ∈ l) (hb : b ∈ l) (hfa : f a = some t) (hfb : f b = some t) : a = b := by
  induction l with
  | nil => cases ha
  | cons x l ih =>
    rcases List.mem_cons.1 ha with rfl | ha' <;> rcases List.mem_cons.1 hb with rfl | hb'
    · rfl
    · rw [List.filterMap_cons_some hfa, List.nodup_cons] at h
      exact absurd (List.mem_filterMap.2 ⟨b, hb', hfb⟩) h.1
    · rw [List.filterMap_cons_some hfb, List.nodup_cons] at h
      exact absurd (List.mem_filterMap.2 ⟨a, ha', hfa⟩) h.1
    · refine ih ?_ ha' hb'
      cases hx : f x with
      | none => rwa [List.filterMap_cons_none hx] at h
      | some y =>
        rw [List.filterMap_cons_some hx, List.nodup_cons] at h
        exact h.2

/-- Fresh writes keep the tags single. -/
theorem SingleTags.applyAll {ws : List (Write Row Key)} (h : SingleTags tag db) (hn : (tagsOf tag ws).Nodup)
    (hf : ∀ t ∈ tagsOf tag ws, ¬Live tag t db) : SingleTags tag (applyAll ws db) := by
  intro r hr r' hr' t ht ht'
  rcases mem_applyAll hr with hr | hr <;> rcases mem_applyAll hr' with hr' | hr'
  · exact h r hr r' hr' t ht ht'
  · exact absurd ⟨r, hr, ht⟩ (hf t (mem_tagsOf hr' ht'))
  · exact absurd ⟨r', hr', ht'⟩ (hf t (mem_tagsOf hr ht))
  · have hkey : ∀ x : Row, (.insert x ∈ ws ∨ .update x ∈ ws) → tag x = some t →
        ∃ w ∈ ws, writeTag tag w = some t ∧ w.key = key x := by
      rintro x (hx | hx) hxt
      · exact ⟨_, hx, hxt, rfl⟩
      · exact ⟨_, hx, hxt, rfl⟩
    obtain ⟨w, hw, hwt, hwk⟩ := hkey r hr ht
    obtain ⟨w', hw', hwt', hwk'⟩ := hkey r' hr' ht'
    rw [← hwk, ← hwk', eq_of_nodup_filterMap hn hw hw' hwt hwt']

theorem Fresh.single (h : Fresh tag db₀ log) (h₀ : SingleTags tag db₀) : SingleTags tag (replay db₀ log) := by
  induction log using List.reverseRecOn with
  | nil => exact h₀
  | append_singleton log e ih =>
    obtain ⟨i, ws⟩ := e
    rw [replay_append]
    exact (ih h.init).applyAll h.last.1 fun t ht hl => h.last.2 t ht hl.seen

/-- A tag that was seen and that no row carries never comes back. -/
theorem Fresh.retired (h : Fresh tag db₀ (pre ++ post)) (hs : Seen tag db₀ pre t) (hl : ¬Live tag t (replay db₀ pre)) :
    ¬Live tag t (replay db₀ (pre ++ post)) := by
  induction post using List.reverseRecOn with
  | nil => rwa [List.append_nil]
  | append_singleton post e ih =>
    obtain ⟨i, ws⟩ := e
    rw [← List.append_assoc] at h ⊢
    rw [replay_append]
    intro hlive
    rcases hlive.cases with hlive | ht
    · exact ih h.init hlive
    · exact h.last.2 t ht hs.append

end ReadCommitted
