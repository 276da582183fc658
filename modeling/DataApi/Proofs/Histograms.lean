/-
What a scrape reports of a histogram. `observe` counts an observation in
every bucket whose bound is not below it, and `render` adds the buckets up
once more; the two agree only while all observations are above all bounds but
the last.
-/
import DataApi.Metrics
import Mathlib.Data.List.Induction

namespace DataApi.Histograms

open Metrics Histogram

/-- The observations of `name`. -/
def observed (name : String) (obs : List (String × F64)) : List F64 := (obs.filter fun o => o.1 = name).map (·.2)

def countLe (u : F64) (xs : List F64) : Nat := xs.countP fun x => x.le u

/-- The registry after these observations. -/
def observeAll (ops : FloatOps) (obs : List (String × F64)) : Metrics :=
  obs.foldl (fun m o => m.observeHistogram ops o.1 o.2) {}

/-- The lines report what was observed, and nothing else. A name nobody has
observed is not in them. -/
structure Correct (name : String) (xs : List F64) (ls : List Sample) : Prop where
  buckets : ∀ u ∈ DEFAULT_UPPERS, ∀ v, Sample.bucket name u.text v ∈ ls ↔ xs ≠ [] ∧ v = countLe u.value xs
  total : ∀ v, Sample.bucket name "+Inf" v ∈ ls ↔ xs ≠ [] ∧ v = xs.length
  count : ∀ v, Sample.count name v ∈ ls ↔ xs ≠ [] ∧ v = xs.length
  rising : ∀ u ∈ DEFAULT_UPPERS, ∀ u' ∈ DEFAULT_UPPERS, u.value.le u'.value = true → ∀ v v',
    Sample.bucket name u.text v ∈ ls → Sample.bucket name u'.text v' ∈ ls → v ≤ v'
  bounded : ∀ u ∈ DEFAULT_UPPERS, ∀ v, Sample.bucket name u.text v ∈ ls → v ≤ xs.length

/-! ## One histogram -/

theorem countLe_le (u : F64) (xs : List F64) : countLe u xs ≤ xs.length := List.countP_le_length

theorem countLe_mono {u u' : F64} (h : u.le u' = true) (xs : List F64) : countLe u xs ≤ countLe u' xs :=
  List.countP_mono_left fun _ _ hx => F64.le_trans hx h

theorem countLe_snoc (u x : F64) (xs : List F64) : countLe u (xs ++ [x]) = countLe u xs + if x.le u then 1 else 0 := by
  simp [countLe, List.countP_append, List.countP_cons]

/-- Each bucket holds the number of observations not above its bound. -/
structure Holds (h : Histogram) (xs : List F64) : Prop where
  upper : h.bucketsUpper = DEFAULT_UPPERS
  buckets : h.bucketsCount = DEFAULT_UPPERS.map fun u => countLe u.value xs % 2 ^ 64
  count : h.count = xs.length % 2 ^ 64

theorem Holds.new : Holds (.new DEFAULT_UPPERS) [] := by
  refine ⟨rfl, ?_, rfl⟩
  simp [Histogram.new, countLe]

theorem Holds.observe {ops : FloatOps} {h : Histogram} {xs : List F64} (hh : Holds h xs) (x : F64) :
    Holds (h.observe ops x) (xs ++ [x]) := by
  refine ⟨hh.upper, ?_, ?_⟩
  · have hz : ∀ us : List Upper, List.zipWith (fun u c => if x.le u.value then (c + 1) % 2 ^ 64 else c) us
        (us.map fun u => countLe u.value xs % 2 ^ 64) = us.map fun u => countLe u.value (xs ++ [x]) % 2 ^ 64 := by
      intro us
      induction us with
      | nil => rfl
      | cons u us ih =>
        simp only [List.map_cons, List.zipWith_cons_cons, ih, countLe_snoc]
        congr 1
        split <;> omega
    simp only [Histogram.observe, hh.upper, hh.buckets]
    exact hz _
  · simp only [Histogram.observe, hh.count, List.length_append, List.length_singleton]
    omega

/-! ## The registry -/

theorem mem_update {α : Type} {name : String} {fresh : α} {f : α → α} {m : List (String × α)} {e : String × α}
    (h : e ∈ update name fresh f m) :
    (e ∈ m ∧ e.1 ≠ name) ∨ (∃ a, (name, a) ∈ m ∧ e = (name, f a)) ∨ ((∀ x ∈ m, x.1 ≠ name) ∧ e = (name, f fresh)) := by
  unfold update at h
  split at h
  · obtain ⟨x, hx, rfl⟩ := List.mem_map.1 h
    by_cases hn : x.1 = name
    · rw [if_pos hn]
      obtain ⟨n, a⟩ := x
      obtain rfl : n = name := hn
      exact .inr (.inl ⟨a, hx, rfl⟩)
    · rw [if_neg hn]
      exact .inl ⟨hx, hn⟩
  · next hany =>
    have hno : ∀ x ∈ m, x.1 ≠ name := fun x hx hn => hany (List.any_eq_true.2 ⟨x, hx, by simpa using hn⟩)
    rcases (List.mem_orderedInsert _).1 h with rfl | h
    · exact .inr (.inr ⟨hno, rfl⟩)
    · exact .inl ⟨h, hno e h⟩

theorem update_mem {α : Type} {name : String} {fresh : α} {f : α → α} {m : List (String × α)} {n : String} {a : α}
    (h : n = name ∨ (n, a) ∈ m) : ∃ b, (n, b) ∈ update name fresh f m := by
  unfold update
  by_cases hn : n = name
  · subst hn
    split
    · next hany =>
      obtain ⟨⟨n', a'⟩, hx, hn'⟩ := List.any_eq_true.1 hany
      obtain rfl : n' = n := by simpa using hn'
      exact ⟨f a', List.mem_map.2 ⟨(n', a'), hx, by simp⟩⟩
    · exact ⟨f fresh, (List.mem_orderedInsert _).2 (.inl rfl)⟩
  · have h := h.resolve_left hn
    split
    · exact ⟨a, List.mem_map.2 ⟨(n, a), h, by simp [hn]⟩⟩
    · exact ⟨a, (List.mem_orderedInsert _).2 (.inr h)⟩

theorem observed_snoc (name : String) (obs : List (String × F64)) (o : String × F64) :
    observed name (obs ++ [o]) = observed name obs ++ if o.1 = name then [o.2] else [] := by
  by_cases ho : o.1 = name <;> simp [observed, List.filter_append, ho]

/-- A histogram for each name that was observed, holding its observations. -/
theorem observeAll_holds (ops : FloatOps) (obs : List (String × F64)) :
    (∀ e ∈ (observeAll ops obs).histograms, Holds e.2 (observed e.1 obs) ∧ observed e.1 obs ≠ []) ∧
      ∀ o ∈ obs, ∃ h, (o.1, h) ∈ (observeAll ops obs).histograms := by
  induction obs using List.reverseRecOn with
  | nil => exact ⟨fun e he => (by cases he), fun o ho => (by cases ho)⟩
  | append_singleton obs o ih =>
    obtain ⟨hholds, hthere⟩ := ih
    have hstep : (observeAll ops (obs ++ [o])).histograms =
        update o.1 (.new DEFAULT_UPPERS) (·.observe ops o.2) (observeAll ops obs).histograms := by
      simp [observeAll, List.foldl_append, observeHistogram]
    rw [hstep]
    constructor
    · intro e he
      rw [observed_snoc]
      rcases mem_update he with ⟨he, hne⟩ | ⟨h, hh, rfl⟩ | ⟨hno, rfl⟩
      · rw [if_neg (Ne.symm hne), List.append_nil]
        exact hholds e he
      · rw [if_pos rfl]
        exact ⟨(hholds _ hh).1.observe o.2, by simp⟩
      · have hnone : observed o.1 obs = [] := by
          simp only [observed, List.map_eq_nil_iff, List.filter_eq_nil_iff, decide_eq_true_eq]
          intro x hx hxo
          obtain ⟨h, hh⟩ := hthere x hx
          exact hno _ hh hxo
        rw [if_pos rfl, hnone]
        exact ⟨Holds.new.observe o.2, by simp⟩
    · intro x hx
      rcases List.mem_append.1 hx with hx | hx
      · obtain ⟨h, hh⟩ := hthere x hx
        exact update_mem (.inr hh)
      · obtain rfl := List.mem_singleton.1 hx
        exact update_mem (a := .new DEFAULT_UPPERS) (.inl rfl)

/-! ## What is rendered -/

/-- What a scrape finds in the lines of one histogram. -/
theorem mem_histogramLines {ops : FloatOps} {name n : String} {h : Histogram} {xs : List F64} (hh : Holds h xs) :
    (∀ le v, Sample.bucket name le v ∈ histogramLines ops n h ↔ name = n ∧
      ((∃ u, (u, v) ∈ DEFAULT_UPPERS.zip (cumulate 0 (DEFAULT_UPPERS.map fun u => countLe u.value xs % 2 ^ 64)) ∧
        u.text = le) ∨ (le = "+Inf" ∧ v = xs.length % 2 ^ 64))) ∧
    ∀ v, Sample.count name v ∈ histogramLines ops n h ↔ name = n ∧ v = xs.length % 2 ^ 64 := by
  simp only [histogramLines, hh.upper, hh.buckets, hh.count]
  constructor
  · intro le v
    simp only [List.mem_cons, List.mem_append, List.mem_map, Prod.exists, reduceCtorEq, false_or, or_false,
      Sample.bucket.injEq, List.not_mem_nil]
    constructor
    · rintro (⟨u, w, hm, rfl, rfl, rfl⟩ | ⟨rfl, rfl, rfl⟩)
      · exact ⟨rfl, .inl ⟨u, hm, rfl⟩⟩
      · exact ⟨rfl, .inr ⟨rfl, rfl⟩⟩
    · rintro ⟨rfl, ⟨u, hm, rfl⟩ | ⟨rfl, rfl⟩⟩
      · exact .inl ⟨u, v, hm, rfl, rfl, rfl⟩
      · exact .inr ⟨rfl, rfl, rfl⟩
  · intro v
    simp

/-- What a scrape finds of a name. -/
theorem mem_lines (ops : FloatOps) (obs : List (String × F64)) (name : String) :
    (∀ le v, Sample.bucket name le v ∈ (observeAll ops obs).lines ops ↔ observed name obs ≠ [] ∧
      ((∃ u, (u, v) ∈ DEFAULT_UPPERS.zip
        (cumulate 0 (DEFAULT_UPPERS.map fun u => countLe u.value (observed name obs) % 2 ^ 64)) ∧ u.text = le) ∨
      (le = "+Inf" ∧ v = (observed name obs).length % 2 ^ 64))) ∧
    ∀ v, Sample.count name v ∈ (observeAll ops obs).lines ops ↔
      observed name obs ≠ [] ∧ v = (observed name obs).length % 2 ^ 64 := by
  obtain ⟨hholds, hthere⟩ := observeAll_holds ops obs
  have hfound : observed name obs ≠ [] → ∃ h, (name, h) ∈ (observeAll ops obs).histograms := by
    intro hobs
    obtain ⟨x, hx⟩ := List.exists_mem_of_ne_nil _ hobs
    obtain ⟨o, ho, -⟩ := List.mem_map.1 hx
    obtain ⟨ho, hname⟩ := List.mem_filter.1 ho
    obtain ⟨h, hh⟩ := hthere o ho
    rw [of_decide_eq_true hname] at hh
    exact ⟨h, hh⟩
  constructor
  · intro le v
    have hlines : Sample.bucket name le v ∈ (observeAll ops obs).lines ops ↔
        ∃ e ∈ (observeAll ops obs).histograms, Sample.bucket name le v ∈ histogramLines ops e.1 e.2 := by
      simp [lines]
    rw [hlines]
    constructor
    · rintro ⟨e, he, hmem⟩
      obtain ⟨hn, hv⟩ := ((mem_histogramLines (hholds e he).1).1 le v).1 hmem
      rw [hn]; exact ⟨(hholds e he).2, hv⟩
    · rintro ⟨hobs, hv⟩
      obtain ⟨h, hh⟩ := hfound hobs
      exact ⟨_, hh, ((mem_histogramLines (hholds _ hh).1).1 le v).2 ⟨rfl, hv⟩⟩
  · intro v
    have hlines : Sample.count name v ∈ (observeAll ops obs).lines ops ↔
        ∃ e ∈ (observeAll ops obs).histograms, Sample.count name v ∈ histogramLines ops e.1 e.2 := by
      simp [lines]
    rw [hlines]
    constructor
    · rintro ⟨e, he, hmem⟩
      obtain ⟨hn, hv⟩ := ((mem_histogramLines (hholds e he).1).2 v).1 hmem
      rw [hn]; exact ⟨(hholds e he).2, hv⟩
    · rintro ⟨hobs, hv⟩
      obtain ⟨h, hh⟩ := hfound hobs
      exact ⟨_, hh, ((mem_histogramLines (hholds _ hh).1).2 v).2 ⟨rfl, hv⟩⟩

/-! ## When the sums are right -/

/-- The bounds but the last two. -/
def lower : List Upper := DEFAULT_UPPERS.take 9

def five : Upper := ⟨0x4014000000000000, "5"⟩

def ten : Upper := ⟨0x4024000000000000, "10"⟩

theorem uppers_split : DEFAULT_UPPERS = lower ++ [five, ten] := rfl

theorem cumulate_append (s : Nat) (l l' : List Nat) :
    cumulate s (l ++ l') = cumulate s l ++ cumulate ((cumulate s l).getLastD s) l' := by
  induction l generalizing s with
  | nil => rfl
  | cons c l ih =>
    simp only [List.cons_append, cumulate, ih, List.getLastD_cons]

theorem cumulate_zeros {l : List Nat} (h : ∀ c ∈ l, c = 0) : cumulate 0 l = l := by
  induction l with
  | nil => rfl
  | cons c l ih =>
    obtain rfl := h c (by simp)
    have hl := ih fun c hc => h c (by simp [hc])
    simp only [cumulate, Nat.zero_mod, Nat.add_zero, hl]

theorem mem_zip_map {α β : Type} {f : α → β} {l : List α} {a : α} {b : β} : (a, b) ∈ l.zip (l.map f) ↔ a ∈ l ∧ b = f a := by
  induction l with
  | nil => simp
  | cons x l ih =>
    simp only [List.map_cons, List.zip_cons_cons, List.mem_cons, Prod.mk.injEq, ih]
    constructor
    · rintro (⟨rfl, rfl⟩ | ⟨h, rfl⟩)
      · exact ⟨.inl rfl, rfl⟩
      · exact ⟨.inr h, rfl⟩
    · rintro ⟨rfl | h, rfl⟩
      · exact .inl ⟨rfl, rfl⟩
      · exact .inr ⟨h, rfl⟩

theorem upper_of_text : ∀ u ∈ DEFAULT_UPPERS, ∀ u' ∈ DEFAULT_UPPERS, u.text = u'.text → u = u' := by decide

theorem upper_finite : ∀ u ∈ DEFAULT_UPPERS, u.text ≠ "+Inf" := by decide

theorem lower_le : ∀ u ∈ lower, u.value.le five.value = true := by decide

/-- With nothing in the lower buckets the sums change nothing. -/
theorem cumulate_counts {xs : List F64} (h : ∀ x ∈ xs, x.le five.value = false) :
    cumulate 0 (DEFAULT_UPPERS.map fun u => countLe u.value xs % 2 ^ 64) =
      DEFAULT_UPPERS.map fun u => countLe u.value xs % 2 ^ 64 := by
  have hfive : countLe five.value xs = 0 := List.countP_eq_zero.2 fun x hx => by simp [h x hx]
  have hlower : ∀ u ∈ lower, countLe u.value xs = 0 := by
    intro u hu
    have := countLe_mono (lower_le u hu) xs
    omega
  have hzero : ∀ c ∈ (lower ++ [five]).map (fun u => countLe u.value xs % 2 ^ 64), c = 0 := by
    intro c hc
    obtain ⟨u, hu, rfl⟩ := List.mem_map.1 hc
    rcases List.mem_append.1 hu with hu | hu
    · simp [hlower u hu]
    · simp [List.mem_singleton.1 hu, hfive]
  have hsplit : DEFAULT_UPPERS = (lower ++ [five]) ++ [ten] := rfl
  rw [hsplit, List.map_append, cumulate_append, cumulate_zeros hzero]
  congr 1
  have hlast : (((lower ++ [five]).map fun u => countLe u.value xs % 2 ^ 64).getLastD 0) = 0 := by
    simp [hfive]
  rw [hlast]
  simp [cumulate]

theorem cumulate_length (s : Nat) (l : List Nat) : (cumulate s l).length = l.length := by
  induction l generalizing s with
  | nil => rfl
  | cons c l ih => simp [cumulate, ih]

/-- The last two of what is reported: the second holds the first once more. -/
theorem reported_last (xs : List F64) : ∃ s,
    (five, s) ∈ DEFAULT_UPPERS.zip (cumulate 0 (DEFAULT_UPPERS.map fun u => countLe u.value xs % 2 ^ 64)) ∧
    (ten, (s + countLe ten.value xs % 2 ^ 64) % 2 ^ 64) ∈
      DEFAULT_UPPERS.zip (cumulate 0 (DEFAULT_UPPERS.map fun u => countLe u.value xs % 2 ^ 64)) := by
  rw [uppers_split, List.map_append, cumulate_append, List.zip_append (by simp [cumulate_length])]
  simp only [List.map_cons, List.map_nil, cumulate, List.zip_cons_cons]
  exact ⟨_, List.mem_append_right _ List.mem_cons_self,
    List.mem_append_right _ (List.mem_cons_of_mem _ List.mem_cons_self)⟩

/-- A scrape is right exactly as long as every observation is above 5: an
observation in a lower bucket is counted again in those after it. -/
theorem rendered_correct_iff (ops : FloatOps) (obs : List (String × F64)) (name : String)
    (hlen : (observed name obs).length < 2 ^ 64) :
    (observeAll ops obs).render ops = String.join (((observeAll ops obs).lines ops).map Sample.text) ∧
      (Correct name (observed name obs) ((observeAll ops obs).lines ops) ↔
        ∀ x ∈ observed name obs, x.le five.value = false) := by
  refine ⟨rfl, ?_⟩
  obtain ⟨hbucket, hcount⟩ := mem_lines ops obs name
  generalize observed name obs = xs at *
  have hmod : ∀ u, countLe u xs % 2 ^ 64 = countLe u xs := fun u =>
    Nat.mod_eq_of_lt (lt_of_le_of_lt (countLe_le u xs) hlen)
  constructor
  · intro h x hx
    have hne : xs ≠ [] := List.ne_nil_of_mem hx
    obtain ⟨s, hfive, hten⟩ := reported_last xs
    have hs : s = countLe five.value xs :=
      ((h.buckets five (by decide) s).1 ((hbucket _ _).2 ⟨hne, .inl ⟨five, hfive, rfl⟩⟩)).2
    have ht := ((h.buckets ten (by decide) _).1 ((hbucket _ _).2 ⟨hne, .inl ⟨ten, hten, rfl⟩⟩)).2
    rw [hmod, hs] at ht
    have hle := countLe_le ten.value xs
    have hle' := countLe_le five.value xs
    have hzero : countLe five.value xs = 0 := by omega
    simpa using List.countP_eq_zero.1 hzero x hx
  · intro h
    have hbuckets : ∀ u ∈ DEFAULT_UPPERS, ∀ v,
        Sample.bucket name u.text v ∈ (observeAll ops obs).lines ops ↔ xs ≠ [] ∧ v = countLe u.value xs := by
      intro u hu v
      rw [hbucket, cumulate_counts h]
      refine and_congr_right fun _ => ?_
      constructor
      · rintro (⟨u', hm, ht⟩ | ⟨hinf, -⟩)
        · obtain ⟨hu', rfl⟩ := mem_zip_map.1 hm
          rw [upper_of_text u' hu' u hu ht, hmod]
        · exact absurd hinf (upper_finite u hu)
      · rintro rfl
        exact .inl ⟨u, mem_zip_map.2 ⟨hu, (hmod _).symm⟩, rfl⟩
    refine ⟨hbuckets, fun v => ?_, fun v => ?_, fun u hu u' hu' hle v v' hv hv' => ?_, fun u hu v hv => ?_⟩
    · rw [hbucket, Nat.mod_eq_of_lt hlen]
      refine and_congr_right fun _ => ⟨?_, fun hv => .inr ⟨rfl, hv⟩⟩
      rintro (⟨u, hm, ht⟩ | ⟨-, hv⟩)
      · exact absurd ht (upper_finite u (List.of_mem_zip hm).1)
      · exact hv
    · rw [hcount, Nat.mod_eq_of_lt hlen]
    · rw [((hbuckets u hu v).1 hv).2, ((hbuckets u' hu' v').1 hv').2]
      exact countLe_mono hle xs
    · rw [((hbuckets u hu v).1 hv).2]
      exact countLe_le u.value xs

/-- An upload took 7 s, or 1 ms. -/
def sevenSeconds : F64 := 0x401C000000000000

def oneMilli : F64 := 0x3F50624DD2F1A9FC

def sampleOps : FloatOps where
  nanos x := if x = sevenSeconds then 7000000000 else 1000000
  secondsText n := if n = 7000000000 then "7" else "0.001"

theorem rendered_correct_sample : Correct "chronicle_s3_put_seconds" [sevenSeconds]
    ((observeAll sampleOps [("chronicle_s3_put_seconds", sevenSeconds)]).lines sampleOps) :=
  (rendered_correct_iff sampleOps [("chronicle_s3_put_seconds", sevenSeconds)] "chronicle_s3_put_seconds"
    (by decide)).2.2 fun x hx => by
      rw [List.mem_singleton.1 hx]
      decide

/-- One upload of 1 ms, and the bucket of 10 s reports eleven. -/
theorem counted_again : Sample.bucket "chronicle_s3_put_seconds" "10" 11 ∈
      (observeAll sampleOps [("chronicle_s3_put_seconds", oneMilli)]).lines sampleOps ∧
    ¬Correct "chronicle_s3_put_seconds" [oneMilli]
      ((observeAll sampleOps [("chronicle_s3_put_seconds", oneMilli)]).lines sampleOps) := by
  have hmem : Sample.bucket "chronicle_s3_put_seconds" "10" 11 ∈
      (observeAll sampleOps [("chronicle_s3_put_seconds", oneMilli)]).lines sampleOps := by decide +kernel
  refine ⟨hmem, fun h => ?_⟩
  have hle := h.bounded ten (by decide) 11 hmem
  simp at hle

end DataApi.Histograms
