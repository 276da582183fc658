/-
The burst detector of `run_inner`, fed overflow times. It counts in windows
that open at the start of the connection and then at the first overflow more
than 60 seconds after the last opening: a burst of more than 10 overflows in 60
seconds is seen where no window opens within it.
-/
import DataApi.Ws
import Mathlib.Data.List.Sort

namespace DataApi.Ws.DropBursts

/-! ## The detector -/

/-- The overflows at these times, one after another. -/
def feed (c : Conn) (ts : List Instant) : Except Closed Conn := ts.foldlM (fun c t => overflow t c) c

/-- A disconnect is ordered, at the last of these overflows or before. -/
def Disconnects (depth : Nat) (start : Instant) (ts : List Instant) : Prop :=
  feed (Conn.new depth start) ts = .error .dropBurst

/-- Of these overflows, those in the 60 seconds up to `t`. -/
def recent (t : Instant) (ts : List Instant) : List Instant := ts.filter fun x => t ≤ x + fromSecs 60

/-- More than 10 overflows lie in the 60 seconds up to and including the
last. -/
def Burst (ts : List Instant) : Prop := ∃ t ∈ ts.getLast?, 10 < (recent t ts).length

/-- By each overflow, a disconnect is ordered iff a burst has come. -/
def Sees (depth : Nat) (start : Instant) (ts : List Instant) : Prop :=
  ∀ k ≤ ts.length, Disconnects depth start (ts.take k) ↔ ∃ k' ≤ k, Burst (ts.take k')

/-! ## The windows -/

/-- The overflows that come more than 60 seconds after the last opening, which
is at first the start of the connection. -/
def openings : Instant → List Instant → List Instant
  | _, [] => []
  | opened, t :: ts => if opened + fromSecs 60 < t then t :: openings t ts else openings opened ts

/-- The first burst. -/
def FirstBurst (ts : List Instant) : Prop := Burst ts ∧ ∀ p, p <+: ts → Burst p → p = ts

/-- No window opens within the first burst, after its first overflow. -/
def Whole (start : Instant) (ts : List Instant) : Prop :=
  ∀ us, us <+: ts → FirstBurst us → ∀ t ∈ us.getLast?, ∀ x ∈ recent t us, ∀ o ∈ openings start us, o ≤ x

/-- When the window of the next overflow opened, unless it opens one. -/
def opened (start : Instant) (ts : List Instant) : Instant := (openings start ts).getLast?.getD start

/-- The overflows of the last window. -/
def window (start : Instant) (ts : List Instant) : List Instant := ts.filter fun x => opened start ts ≤ x

section
variable {start t : Instant} {ts us : List Instant}

theorem openings_snoc : openings start (ts ++ [t]) =
    openings start ts ++ if opened start ts + fromSecs 60 < t then [t] else [] := by
  unfold opened
  induction ts generalizing start with
  | nil => exact (List.nil_append _).symm
  | cons x ts ih =>
    rw [List.cons_append, openings, openings]
    split
    · rw [ih, List.cons_append, List.getLast?_cons, Option.getD_some]
    · exact ih

theorem opened_snoc : opened start (ts ++ [t]) = if opened start ts + fromSecs 60 < t then t else opened start ts := by
  rw [opened, openings_snoc]
  split
  · simp
  · rw [List.append_nil]
    rfl

/-- Times at which overflows can come. -/
structure Times (start : Instant) (ts : List Instant) : Prop where
  sorted : ts.Pairwise (· ≤ ·)
  after : ∀ t ∈ ts, start ≤ t

theorem Times.upTo (h : Times start ts) (hus : us <+: ts) : Times start us :=
  ⟨h.sorted.sublist hus.sublist, fun t ht => h.after t (hus.subset ht)⟩

theorem Times.init (h : Times start (ts ++ [t])) : Times start ts := h.upTo (List.prefix_append _ _)

theorem Times.last (h : Times start (ts ++ [t])) : ∀ x ∈ ts, x ≤ t := fun x hx =>
  (List.pairwise_append.1 h.sorted).2.2 x hx t (by simp)

/-- The last window is open at the last overflow, and for 60 seconds. -/
theorem opened_spec (h : Times start ts) : (∀ o ∈ openings start ts, o ≤ opened start ts) ∧ start ≤ opened start ts ∧
    ∀ x ∈ ts, x ≤ opened start ts + fromSecs 60 := by
  induction ts using List.reverseRecOn with
  | nil => exact ⟨by simp [openings], Nat.le_refl _, by simp⟩
  | append_singleton ts t ih =>
    obtain ⟨hopenings, hstart, hts⟩ := ih h.init
    rw [openings_snoc, opened_snoc]
    split
    · refine ⟨fun o ho => ?_, by grind, fun x hx => ?_⟩
      · rcases List.mem_append.1 ho with ho | ho
        · have := hopenings o ho
          grind
        · rw [List.mem_singleton.1 ho]
      · rcases List.mem_append.1 hx with hx | hx
        · have := hts x hx
          grind
        · rw [List.mem_singleton.1 hx]
          grind
    · refine ⟨fun o ho => hopenings o (by simpa using ho), hstart, fun x hx => ?_⟩
      rcases List.mem_append.1 hx with hx | hx
      · exact hts x hx
      · rw [List.mem_singleton.1 hx]
        grind

theorem opened_le (h : Times start (ts ++ [t])) : opened start ts ≤ t := by
  rcases List.eq_nil_or_concat (openings start ts) with hnil | ⟨os, o, hos⟩
  · rw [opened, hnil]
    exact h.after t (by simp)
  · have hmem : ∀ (start : Instant) (ts : List Instant), ∀ o ∈ openings start ts, o ∈ ts := by
      intro start ts
      induction ts generalizing start with
      | nil => simp [openings]
      | cons x ts ih =>
        intro o ho
        rw [openings] at ho
        split at ho
        · rcases List.mem_cons.1 ho with rfl | ho
          · simp
          · exact List.mem_cons_of_mem _ (ih _ o ho)
        · exact List.mem_cons_of_mem _ (ih _ o ho)
    rw [opened, hos]
    simp only [List.concat_eq_append, List.getLast?_append, List.getLast?_singleton, Option.some_or, Option.getD_some]
    exact h.last o (hmem start ts o (by simp [hos]))

theorem window_snoc (h : Times start (ts ++ [t])) : window start (ts ++ [t]) =
    if opened start ts + fromSecs 60 < t then [t] else window start ts ++ [t] := by
  obtain ⟨-, -, hts⟩ := opened_spec h.init
  rw [window, opened_snoc]
  split
  · have hnone : ts.filter (fun x => t ≤ x) = [] := by
      refine List.filter_eq_nil_iff.2 fun x hx => ?_
      have := hts x hx
      simp only [decide_eq_true_eq]
      grind
    rw [List.filter_append, hnone]
    simp
  · have hle := opened_le h
    rw [List.filter_append, window]
    simp [hle]

end

/-! ## What the detector counts -/

/-- By some overflow, more than 10 were in the window. -/
def Counted (start : Instant) (ts : List Instant) : Prop := ∃ p, p <+: ts ∧ 10 < (window start p).length

/-- The detector's state after `ts`. -/
structure Tracks (start : Instant) (ts : List Instant) (c : Conn) : Prop where
  opened : c.dropWindowStart = opened start ts
  drops : c.dropsInWindow = (window start ts).length

section
variable {start t : Instant} {ts us : List Instant} {c : Conn} {depth : Nat}

theorem overflow_past (h : fromSecs 60 < t - c.dropWindowStart) :
    overflow t c = .ok { c with dropWindowStart := t, dropsInWindow := 1 } := by simp [overflow, h]

theorem overflow_within (h : ¬fromSecs 60 < t - c.dropWindowStart) : overflow t c =
    if 10 < c.dropsInWindow + 1 then .error .dropBurst else .ok { c with dropsInWindow := c.dropsInWindow + 1 } := by
  simp [overflow, h]

theorem overflow_spec (h : Times start (ts ++ [t])) (hc : Tracks start ts c) :
    (10 < (window start (ts ++ [t])).length ∧ overflow t c = .error .dropBurst) ∨
    ((window start (ts ++ [t])).length ≤ 10 ∧ ∃ c', overflow t c = .ok c' ∧ Tracks start (ts ++ [t]) c') := by
  have hpast : fromSecs 60 < t - c.dropWindowStart ↔ opened start ts + fromSecs 60 < t := by
    rw [hc.opened]
    exact Nat.lt_sub_iff_add_lt'
  have hwindow := window_snoc h
  have hopened : opened start (ts ++ [t]) = if opened start ts + fromSecs 60 < t then t else opened start ts := opened_snoc
  by_cases hreset : opened start ts + fromSecs 60 < t
  · rw [if_pos hreset] at hwindow hopened
    rw [hwindow, overflow_past (hpast.2 hreset)]
    exact .inr ⟨by simp, _, rfl, hopened.symm, by rw [hwindow]; rfl⟩
  · rw [if_neg hreset] at hwindow hopened
    have hlen : (window start (ts ++ [t])).length = c.dropsInWindow + 1 := by
      rw [hwindow, List.length_append, hc.drops]
      rfl
    rw [hlen, overflow_within fun hp => hreset (hpast.1 hp)]
    by_cases hmany : 10 < c.dropsInWindow + 1
    · exact .inl ⟨hmany, if_pos hmany⟩
    · exact .inr ⟨by omega, _, if_neg hmany, hc.opened.trans hopened.symm, hlen.symm⟩

theorem feed_spec (depth : Nat) (h : Times start ts) :
    (Counted start ts ∧ Disconnects depth start ts) ∨
    (¬Counted start ts ∧ ∃ c, feed (Conn.new depth start) ts = .ok c ∧ Tracks start ts c) := by
  induction ts using List.reverseRecOn with
  | nil =>
    refine .inr ⟨?_, Conn.new depth start, rfl, rfl, rfl⟩
    rintro ⟨p, hp, hlong⟩
    rw [List.prefix_nil.1 hp] at hlong
    simp [window] at hlong
  | append_singleton ts t ih =>
    have hsnoc : feed (Conn.new depth start) (ts ++ [t]) = feed (Conn.new depth start) ts >>= overflow t := by
      simp only [feed, List.foldlM_append, List.foldlM_cons, List.foldlM_nil, bind_pure]
    rw [Disconnects, hsnoc]
    rcases ih h.init with ⟨⟨p, hp, hlong⟩, hend⟩ | ⟨hfew, c, hc, htracks⟩
    · rw [Disconnects] at hend
      exact .inl ⟨⟨p, hp.trans (List.prefix_append _ _), hlong⟩, by rw [hend]; rfl⟩
    · rw [hc]
      rcases overflow_spec h htracks with ⟨hlong, hend⟩ | ⟨hshort, c', hc', htracks'⟩
      · exact .inl ⟨⟨_, List.prefix_rfl, hlong⟩, hend⟩
      · refine .inr ⟨?_, c', hc', htracks'⟩
        rintro ⟨p, hp, hlong⟩
        rcases List.prefix_concat_iff.1 hp with rfl | hp
        · omega
        · exact hfew ⟨p, hp, hlong⟩

theorem disconnects_iff (depth : Nat) (h : Times start ts) : Disconnects depth start ts ↔ Counted start ts := by
  rcases feed_spec depth h with ⟨hcounted, hend⟩ | ⟨hfew, c, hc, -⟩
  · exact ⟨fun _ => hcounted, fun _ => hend⟩
  · refine ⟨fun hend => ?_, fun hcounted => absurd hcounted hfew⟩
    rw [Disconnects, hc] at hend
    cases hend

/-! ## Bursts -/

/-- What is in the last window is recent. -/
theorem window_sublist (h : Times start ts) (ht : t ∈ ts.getLast?) : (window start ts).Sublist (recent t ts) := by
  refine List.monotone_filter_right ts fun x hx => ?_
  have hopen : opened start ts ≤ x := by simpa using hx
  have hlast := (opened_spec h).2.2 t (List.mem_of_getLast? ht)
  have hrecent : t ≤ x + fromSecs 60 := by grind
  simpa using hrecent

/-- A full window is a burst. -/
theorem burst_of_window (h : Times start ts) (hlong : 10 < (window start ts).length) : Burst ts := by
  cases ht : ts.getLast? with
  | none =>
    rw [List.getLast?_eq_none_iff.1 ht] at hlong
    simp [window] at hlong
  | some t => exact ⟨t, ht, Nat.lt_of_lt_of_le hlong (window_sublist h ht).length_le⟩

/-- A first burst has eleven overflows. -/
theorem FirstBurst.length_recent (h : Times start ts) (hfirst : FirstBurst ts) (ht : t ∈ ts.getLast?) :
    (recent t ts).length ≤ 11 := by
  obtain ⟨us, rfl⟩ := List.getLast?_eq_some_iff.1 ht
  have hfew : (recent t us).length ≤ 10 := by
    by_contra hmany
    have hburst : Burst us := by
      cases hu : us.getLast? with
      | none =>
        rw [List.getLast?_eq_none_iff.1 hu] at hmany
        simp [recent] at hmany
      | some u =>
        have hle : u ≤ t := h.last u (List.mem_of_getLast? hu)
        have hsub : (recent t us).Sublist (recent u us) := by
          refine List.monotone_filter_right us fun x hx => ?_
          have hx : t ≤ x + fromSecs 60 := by simpa using hx
          have hu : u ≤ x + fromSecs 60 := by grind
          simpa using hu
        have := hsub.length_le
        exact ⟨u, hu, by omega⟩
    have heq := hfirst.2 us (List.prefix_append _ _) hburst
    simp at heq
  have hsnoc : recent t (us ++ [t]) = recent t us ++ [t] := by simp [recent]
  rw [hsnoc, List.length_append, List.length_singleton]
  omega

/-- Before a burst, or at it, there is a first one. -/
theorem exists_firstBurst (h : Burst ts) : ∃ p, p <+: ts ∧ FirstBurst p := by
  classical
  have hex : ∃ k, Burst (ts.take k) := ⟨ts.length, by rwa [List.take_length]⟩
  refine ⟨ts.take (Nat.find hex), List.take_prefix _ _, Nat.find_spec hex, fun p hp hburst => ?_⟩
  have htake : p = ts.take p.length := List.prefix_iff_eq_take.1 (hp.trans (List.take_prefix _ _))
  have hmin : Nat.find hex ≤ p.length := Nat.find_min' hex (htake ▸ hburst)
  refine hp.eq_of_length_le ?_
  rw [List.length_take]
  omega

/-- A first burst in one window is counted. -/
theorem counted_iff (h : Times start ts) (hfirst : FirstBurst ts) (ht : t ∈ ts.getLast?) :
    Counted start ts ↔ ∀ x ∈ recent t ts, ∀ o ∈ openings start ts, o ≤ x := by
  obtain ⟨hopenings, -, -⟩ := opened_spec h
  constructor
  · rintro ⟨p, hp, hlong⟩
    obtain rfl := hfirst.2 p hp (burst_of_window (h.upTo hp) hlong)
    have heq : window start p = recent t p :=
      (window_sublist h ht).eq_of_length_le (by have := hfirst.length_recent h ht; omega)
    intro x hx o ho
    rw [← heq, window, List.mem_filter, decide_eq_true_eq] at hx
    exact Nat.le_trans (hopenings o ho) hx.2
  · intro hwhole
    refine ⟨ts, List.prefix_rfl, ?_⟩
    obtain ⟨t', ht', hlong⟩ := hfirst.1
    obtain rfl := Option.mem_unique ht ht'
    -- No recent overflow is before the opening of the last window.
    have hsub : (recent t ts).Sublist (window start ts) := by
      have heq : recent t ts = (recent t ts).filter fun x => opened start ts ≤ x := by
        refine (List.filter_eq_self.2 fun x hx => ?_).symm
        rw [decide_eq_true_eq, opened]
        cases ho : (openings start ts).getLast? with
        | none => exact h.after x (List.mem_of_mem_filter hx)
        | some o => exact hwhole x hx o (List.mem_of_getLast? ho)
      rw [heq]
      exact (List.filter_sublist).filter _
    exact Nat.lt_of_lt_of_le hlong hsub.length_le

end

/-- The detector sees every burst in the overflows `ts` if and only if no
window opens within the first one. -/
theorem sees_iff (depth : Nat) (start : Instant) (ts : List Instant) (sorted : ts.Pairwise (· ≤ ·))
    (after : ∀ t ∈ ts, start ≤ t) : Sees depth start ts ↔ Whole start ts := by
  have h : Times start ts := ⟨sorted, after⟩
  constructor
  · intro hsees us hus hfirst t ht
    have htake : us = ts.take us.length := List.prefix_iff_eq_take.1 hus
    have hburst : ∃ k' ≤ us.length, Burst (ts.take k') := ⟨us.length, Nat.le_refl _, htake ▸ hfirst.1⟩
    have hend := (hsees us.length hus.length_le).2 hburst
    rw [← htake] at hend
    exact (counted_iff (h.upTo hus) hfirst ht).1 ((disconnects_iff depth (h.upTo hus)).1 hend)
  · intro hwhole k hk
    have hus : ts.take k <+: ts := List.take_prefix _ _
    rw [disconnects_iff depth (h.upTo hus)]
    constructor
    · rintro ⟨p, hp, hlong⟩
      have htake : p = ts.take p.length := List.prefix_iff_eq_take.1 (hp.trans hus)
      refine ⟨p.length, ?_, htake ▸ burst_of_window (h.upTo (hp.trans hus)) hlong⟩
      have := hp.length_le
      rw [List.length_take] at this
      omega
    · rintro ⟨k', hk', hburst⟩
      obtain ⟨p, hp, hfirst⟩ := exists_firstBurst hburst
      have hpk : p <+: ts.take k := hp.trans (List.take_prefix_take_left hk')
      obtain ⟨t, ht, hlong⟩ := hfirst.1
      obtain ⟨p', hp', hlong'⟩ := (counted_iff (h.upTo (hpk.trans hus)) hfirst ht).2
        (hwhole p (hpk.trans hus) hfirst t ht)
      exact ⟨p', hp'.trans hpk, hlong'⟩

/-- Ten overflows at one second, and eleven when a window opens. -/
def sampleTimes : List Instant := List.replicate 10 (fromSecs 1) ++ List.replicate 11 (fromSecs 62)

theorem sees_sample : Disconnects 64 0 sampleTimes ∧ (Sees 64 0 sampleTimes ↔ Whole 0 sampleTimes) :=
  ⟨rfl, sees_iff 64 0 sampleTimes (by decide) (by decide)⟩

/-- Ten overflows late in the first minute, and one as it is over. -/
def straddling : List Instant := List.replicate 10 (fromSecs 55) ++ [fromSecs 61]

theorem straddling_unseen : ¬Sees 64 0 straddling := by
  intro h
  have hburst : Burst (straddling.take 11) := ⟨fromSecs 61, by decide, by decide⟩
  have hend := (h 11 (by decide)).2 ⟨11, by decide, hburst⟩
  have hgoes : (feed (Conn.new 64 0) (straddling.take 11)).isOk = true := by decide
  rw [Disconnects] at hend
  rw [hend] at hgoes
  cases hgoes

end DataApi.Ws.DropBursts
