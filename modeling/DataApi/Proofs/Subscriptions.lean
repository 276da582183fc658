/-
What a subscriber has subscribed to, from the frames it sent: a pair of a name
and a filter is active from a `subscribe` that names it until the next
`unsubscribe` of the name.
-/
import DataApi.Ws

namespace DataApi.Ws.Subscriptions

open SubscriptionSet

/-! ## Frames and their history -/

/-- What a frame does to the set; a ping does nothing to it. -/
def onFrame (set : SubscriptionSet) : ClientFrame → SubscriptionSet
  | .subscribe names filter => set.subscribe names filter
  | .unsubscribe names => set.unsubscribe names
  | .ping => set

/-- The set after these frames, from the empty one. -/
def after (frames : List ClientFrame) : SubscriptionSet := frames.foldl onFrame .new

theorem after_snoc (frames : List ClientFrame) (f : ClientFrame) :
    after (frames ++ [f]) = onFrame (after frames) f := by
  simp [after, List.foldl_append]

/-- Some `subscribe` has the name with the filter, and no later `unsubscribe`
has the name. -/
def Survives (frames : List ClientFrame) (name : String) (filter : Filter) : Prop :=
  ∃ «before» names later, frames = «before» ++ .subscribe names filter :: later ∧ name ∈ names ∧
    ∀ dropped, .unsubscribe dropped ∈ later → name ∉ dropped

/-! ## One more frame -/

theorem not_survives_nil {name : String} {filter : Filter} : ¬Survives [] name filter := by
  rintro ⟨«before», names, later, h, -⟩
  simp at h

theorem Survives.snoc {frames : List ClientFrame} {name : String} {filter : Filter} (h : Survives frames name filter)
    {f : ClientFrame} (hf : ∀ dropped, f = .unsubscribe dropped → name ∉ dropped) : Survives (frames ++ [f]) name filter := by
  obtain ⟨«before», names, later, rfl, hname, hlater⟩ := h
  refine ⟨«before», names, later ++ [f], by simp, hname, fun dropped hd => ?_⟩
  rcases List.mem_append.1 hd with hd | hd
  · exact hlater dropped hd
  · exact hf dropped (List.mem_singleton.1 hd).symm

/-- A pair that survives a further frame was put there by it, or was there
before and is not dropped by it. -/
theorem Survives.last {frames : List ClientFrame} {f : ClientFrame} {name : String} {filter : Filter}
    (h : Survives (frames ++ [f]) name filter) : (∃ names, f = .subscribe names filter ∧ name ∈ names) ∨
      Survives frames name filter ∧ ∀ dropped, f = .unsubscribe dropped → name ∉ dropped := by
  obtain ⟨«before», names, later, heq, hname, hlater⟩ := h
  rcases List.eq_nil_or_concat later with rfl | ⟨later', g, rfl⟩
  · left
    obtain ⟨-, hf⟩ := List.append_inj' heq rfl
    exact ⟨names, List.cons.inj hf |>.1, hname⟩
  · right
    have heq' : frames ++ [f] = («before» ++ .subscribe names filter :: later') ++ [g] := by simpa using heq
    obtain ⟨hframes, hf⟩ := List.append_inj' heq' rfl
    obtain rfl : f = g := List.cons.inj hf |>.1
    refine ⟨⟨«before», names, later', hframes, hname, fun dropped hd => hlater dropped (by simp [hd])⟩, ?_⟩
    rintro dropped rfl
    exact hlater dropped (by simp)

theorem mem_subscribe {set : SubscriptionSet} {names : List String} {filter : Filter} {s : Subscription} :
    s ∈ (set.subscribe names filter).subs ↔ s ∈ set.subs ∨ s.event ∈ names ∧ s.filter = filter := by
  have hfold : ∀ (names : List String) (subs : Finset Subscription),
      s ∈ names.foldl (fun subs name => insert { event := name, filter := filter } subs) subs ↔
        s ∈ subs ∨ s.event ∈ names ∧ s.filter = filter := by
    intro names
    induction names with
    | nil => simp
    | cons name names ih =>
      intro subs
      obtain ⟨event, filter'⟩ := s
      rw [List.foldl_cons, ih]
      simp only [Finset.mem_insert, Subscription.mk.injEq, List.mem_cons]
      tauto
  exact hfold names set.subs

theorem mem_unsubscribe {set : SubscriptionSet} {names : List String} {s : Subscription} :
    s ∈ (set.unsubscribe names).subs ↔ s ∈ set.subs ∧ s.event ∉ names := by
  simp [unsubscribe]

/-- The step: a frame keeps the set at what survives. -/
theorem onFrame_survives {frames : List ClientFrame} {set : SubscriptionSet}
    (h : ∀ s, s ∈ set.subs ↔ Survives frames s.event s.filter) (f : ClientFrame) (s : Subscription) :
    s ∈ (onFrame set f).subs ↔ Survives (frames ++ [f]) s.event s.filter := by
  cases f with
  | subscribe names filter =>
    rw [onFrame, mem_subscribe, h]
    constructor
    · rintro (hs | ⟨hname, rfl⟩)
      · exact hs.snoc (by simp)
      · exact ⟨frames, names, [], by simp, hname, by simp⟩
    · intro hs
      rcases hs.last with ⟨names', heq, hname⟩ | ⟨hs, -⟩
      · obtain ⟨rfl, hfilter⟩ := ClientFrame.subscribe.inj heq
        exact .inr ⟨hname, hfilter.symm⟩
      · exact .inl hs
  | unsubscribe names =>
    rw [onFrame, mem_unsubscribe, h]
    constructor
    · rintro ⟨hs, hname⟩
      refine hs.snoc fun dropped hd => ?_
      rwa [← ClientFrame.unsubscribe.inj hd]
    · intro hs
      rcases hs.last with ⟨names', heq, -⟩ | ⟨hs, hdropped⟩
      · simp at heq
      · exact ⟨hs, hdropped names rfl⟩
  | ping =>
    rw [onFrame, h]
    constructor
    · intro hs
      exact hs.snoc (by simp)
    · intro hs
      rcases hs.last with ⟨names', heq, -⟩ | ⟨hs, -⟩
      · simp at heq
      · exact hs

/-- The run: the set is what survives. -/
theorem mem_after (frames : List ClientFrame) : ∀ s, s ∈ (after frames).subs ↔ Survives frames s.event s.filter := by
  induction frames using List.reverseRecOn with
  | nil => intro s; simp [after, SubscriptionSet.new, not_survives_nil]
  | append_singleton frames f ih =>
    intro s
    rw [after_snoc]
    exact onFrame_survives ih f s

/-! ## What the set answers -/

/-- Each part of the filter is absent, or is the event's. -/
def Admits (filter : Filter) (e : Event) : Prop :=
  (∀ g, filter.guildId = some g → g = e.guildId) ∧ ∀ sid, filter.sessionId = some sid → sid = e.sessionId

theorem accepts_iff {e : Event} {s : Subscription} : accepts e s = true ↔ s.event = e.name ∧ Admits s.filter e := by
  obtain ⟨event, guildId, sessionId⟩ := s
  unfold accepts Admits
  cases guildId <;> cases sessionId <;> simp

/-- Whatever frames came: an event matches exactly when a surviving
subscription of its name admits it, and `active` has each surviving pair
once. -/
theorem determined_by_history (frames : List ClientFrame) (e : Event) :
    ((after frames).matches e = true ↔ ∃ filter, Survives frames e.name filter ∧ Admits filter e) ∧
      (after frames).active.val.Nodup ∧
      ∀ s, s ∈ (after frames).active ↔ Survives frames s.event s.filter := by
  refine ⟨?_, (after frames).active.nodup, mem_after frames⟩
  unfold SubscriptionSet.matches
  rw [decide_eq_true_iff]
  constructor
  · rintro ⟨s, hs, ha⟩
    obtain ⟨hname, hadmits⟩ := accepts_iff.1 ha
    have hsurvives : Survives frames s.event s.filter := (mem_after frames s).1 hs
    rw [hname] at hsurvives
    exact ⟨s.filter, hsurvives, hadmits⟩
  · rintro ⟨filter, hsurvives, hadmits⟩
    have hs : (⟨e.name, filter⟩ : Subscription) ∈ (after frames).subs := (mem_after frames _).2 hsurvives
    exact ⟨⟨e.name, filter⟩, hs, accepts_iff.2 ⟨rfl, hadmits⟩⟩

end DataApi.Ws.Subscriptions
