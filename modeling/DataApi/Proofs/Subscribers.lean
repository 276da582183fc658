/-
The gauge of open WebSocket connections. Each connection sets it to 1 when it
comes and to 0 when it goes, whoever else is there: it counts one connection
at most.
-/
import DataApi.Ws

namespace DataApi

/-! ## The registry -/

namespace Metrics

theorem lookup_orderedInsert {α : Type} {name : String} {x : α} {m : List (String × α)}
    (h : ∀ e ∈ m, e.1 ≠ name) : (m.orderedInsert (fun a b => a.1 ≤ b.1) (name, x)).lookup name = some x := by
  induction m with
  | nil => simp
  | cons e m ih =>
    have hne : (name == e.1) = false := by simpa using (h e (by simp)).symm
    rw [List.orderedInsert_cons]
    split
    · simp
    · rw [List.lookup_cons, hne]
      exact ih fun e he => h e (by simp [he])

theorem lookup_map_self {α : Type} {name : String} {f : α → α} {m : List (String × α)} (h : ∃ e ∈ m, e.1 = name) :
    ∃ x, (m.map fun e => if e.1 = name then (e.1, f e.2) else e).lookup name = some (f x) := by
  induction m with
  | nil => simp at h
  | cons e m ih =>
    rw [List.map_cons, List.lookup_cons]
    by_cases hk : e.1 = name
    · exact ⟨e.2, by simp [hk]⟩
    · have hne : (name == e.1) = false := by simpa using Ne.symm hk
      obtain ⟨e', he', hname⟩ := h
      rcases List.mem_cons.1 he' with rfl | he'
      · exact absurd hname hk
      · obtain ⟨x, hx⟩ := ih ⟨e', he', hname⟩
        exact ⟨x, by simp [hk, hne, hx]⟩

/-- A gauge reads what it was set to last. -/
@[simp] theorem gauge_setGauge (m : Metrics) (name : String) (v : Int) : (m.setGauge name v).gauge name = v := by
  unfold gauge setGauge update
  split
  · next h =>
    obtain ⟨e, he, hname⟩ := List.any_eq_true.1 h
    obtain ⟨x, hx⟩ := lookup_map_self (f := fun _ : Int => v) ⟨e, he, by simpa using hname⟩
    rw [hx]
    rfl
  · next h =>
    rw [lookup_orderedInsert fun e he hname => h (List.any_eq_true.2 ⟨e, he, by simpa using hname⟩)]
    rfl

@[simp] theorem gauge_incCounter (m : Metrics) (name counter : String) (n : Nat) :
    (m.incCounter counter n).gauge name = m.gauge name := by
  simp [gauge, incCounter]

end Metrics

namespace Ws.Subscribers

/-! ## The gauge -/

/-- The gauge is the number of connections. -/
def Counts (h : Hub) : Prop := h.metrics.gauge "chronicle_ws_subscribers" = h.conns.length

/-- What a turn counts leaves the gauges alone. -/
theorem gauge_count (out : List Out) : ∀ (m : Metrics) (name : String), (out.foldl count m).gauge name = m.gauge name := by
  induction out with
  | nil => intro m name; rfl
  | cons o out ih =>
    intro m name
    rw [List.foldl_cons, ih]
    cases o <;> simp [count]

/-- From a state that counts its one connection or none, a step leads to a
state that counts right exactly when it has one connection at most. -/
theorem step_counts {w : Codec} {h h' : Hub} {m : Move} (hc : Counts h) (hone : h.conns.length ≤ 1)
    (hstep : h.step w m = some h') : Counts h' ↔ h'.conns.length ≤ 1 := by
  unfold Counts at *
  cases m with
  | enter depth now =>
    simp only [Hub.step, Option.some.injEq] at hstep
    subst hstep
    simp only [Metrics.gauge_setGauge, List.length_append, List.length_singleton]
    omega
  | turn i t =>
    simp only [Hub.step] at hstep
    split at hstep
    · simp only [Option.some.injEq] at hstep
      subst hstep
      simp [gauge_count, hc, hone]
    · simp at hstep
  | leave i =>
    simp only [Hub.step] at hstep
    split at hstep
    · next hi =>
      simp only [Option.some.injEq] at hstep
      subst hstep
      have hlen : i < h.conns.length := (List.getElem?_eq_some_iff.1 hi).1
      simp [List.length_eraseIdx_of_lt hlen]
      omega
    · simp at hstep

theorem states_count {w : Codec} : ∀ (ms : List Move) (h : Hub), Counts h → h.conns.length ≤ 1 →
    ((∀ h' ∈ h.states w ms, Counts h') ↔ ∀ h' ∈ h.states w ms, h'.conns.length ≤ 1)
  | [], h, hc, hone => by simp [Hub.states, hc, hone]
  | m :: ms, h, hc, hone => by
    simp only [Hub.states, List.mem_cons, forall_eq_or_imp, hc, hone, true_and]
    cases hstep : h.step w m with
    | none => simp
    | some h' =>
      have hhead : h' ∈ h'.states w ms := by cases ms <;> simp [Hub.states]
      have hiff := step_counts hc hone hstep
      by_cases hc' : Counts h'
      · exact states_count ms h' hc' (hiff.1 hc')
      · simp only
        constructor
        · intro hall
          exact absurd (hall h' hhead) hc'
        · intro hall
          exact absurd (hiff.2 (hall h' hhead)) hc'

/-- However connections come, take turns and go: the gauge is right after
every step if and only if no two connections are ever there together. -/
theorem gauge_counts_iff (w : Codec) (ms : List Move) :
    (∀ h ∈ Hub.new.states w ms, Counts h) ↔ ∀ h ∈ Hub.new.states w ms, h.conns.length ≤ 1 :=
  states_count ms .new rfl (by simp [Hub.new])

/-- Nothing is encoded, nothing is read. -/
def mute : Codec where
  decode _ := .error ""
  encode _ := .error ""
  encodeReply _ := .error ""

/-- Two subscribers: the gauge says one. -/
theorem second_not_counted : ¬∀ h ∈ Hub.new.states mute [.enter 64 0, .enter 64 1], Counts h := by
  intro h
  have hlast := h _ (List.getLast_mem (by simp [Hub.states, Hub.step]))
  simp [Hub.states, Hub.step, Hub.new, Counts] at hlast

end Ws.Subscribers
end DataApi
