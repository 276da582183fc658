/-
The drop-oldest queue of a subscriber, pushed and popped in any order. One
invariant ties order, bound and count together: the events pushed are those
that have left the queue, popped or dropped, and then those that wait in it.
-/
import DataApi.Ws

namespace DataApi.Ws.DropOldestQueue

/-! ## Runs -/

inductive Op
  | push (e : Event)
  | pop

def Op.event : Op → Option Event
  | .push e => some e
  | .pop => none

/-- The events pushed, oldest first. -/
def pushed (ops : List Op) : List Event := ops.filterMap Op.event

/-- A queue, and the events popped from it so far. -/
structure Popped where
  q : DropOldestQueue
  events : List Event

def Popped.next (r : Popped) : Op → Popped
  | .push e => { r with q := (r.q.push e).2 }
  | .pop => { q := r.q.pop.2, events := r.events ++ r.q.pop.1.toList }

/-- A new queue after these operations. -/
def after (cap : Nat) (ops : List Op) : Popped := ops.foldl Popped.next { q := .new cap, events := [] }

theorem after_snoc (cap : Nat) (ops : List Op) (op : Op) : after cap (ops ++ [op]) = (after cap ops).next op := by
  simp [after, List.foldl_append]

/-! ## The invariant -/

structure Kept (cap : Nat) (pushed : List Event) (r : Popped) : Prop where
  cap : r.q.cap = max cap 1
  bounded : r.q.inner.length ≤ r.q.cap
  split : ∃ gone, pushed = gone ++ r.q.inner ∧ r.events.Sublist gone ∧ gone.length = r.events.length + r.q.dropped

theorem Kept.new (cap : Nat) : Kept cap [] { q := .new cap, events := [] } where
  cap := rfl
  bounded := Nat.zero_le _
  split := ⟨[], rfl, .slnil, rfl⟩

/-- A queue that is full has an oldest event. -/
theorem oldest_of_full {q : DropOldestQueue} (h : q.cap ≤ q.inner.length) : ∃ oldest rest, q.inner = oldest :: rest := by
  have hpos := q.cap_pos
  cases hq : q.inner with
  | nil =>
    rw [hq, List.length_nil] at h
    omega
  | cons oldest rest => exact ⟨oldest, rest, rfl⟩

theorem push_full {q : DropOldestQueue} {oldest : Event} {rest : List Event} (h : q.cap ≤ q.inner.length)
    (hq : q.inner = oldest :: rest) (e : Event) :
    q.push e = (true, { q with inner := rest ++ [e], dropped := min (q.dropped + 1) (2 ^ 64 - 1) }) := by
  rw [push, if_pos h, hq, List.tail_cons]

theorem push_room {q : DropOldestQueue} (h : q.inner.length < q.cap) (e : Event) :
    q.push e = (false, { q with inner := q.inner ++ [e] }) := by
  rw [push, if_neg (by omega)]

theorem Kept.push {cap : Nat} {pushed : List Event} {r : Popped} (h : Kept cap pushed r) (e : Event)
    (few : pushed.length + 1 < 2 ^ 64) : Kept cap (pushed ++ [e]) (r.next (.push e)) := by
  obtain ⟨gone, hpushed, hsub, hlen⟩ := h.split
  rw [Popped.next]
  by_cases hfull : r.q.cap ≤ r.q.inner.length
  · obtain ⟨oldest, rest, hq⟩ := oldest_of_full hfull
    rw [push_full hfull hq e]
    rw [hq] at hpushed
    have hbound := h.bounded
    rw [hq, List.length_cons] at hbound
    -- The counter is not at its maximum: so many events were not pushed.
    have hcount : min (r.q.dropped + 1) (2 ^ 64 - 1) = r.q.dropped + 1 := by
      rw [hpushed, List.length_append, hlen, List.length_cons] at few
      omega
    refine ⟨h.cap, by simpa using hbound, gone ++ [oldest], by simp [hpushed], ?_, ?_⟩
    · exact hsub.trans (List.sublist_append_left gone [oldest])
    · simp only [hcount, List.length_append, List.length_singleton, hlen]
      omega
  · rw [push_room (by omega) e]
    refine ⟨h.cap, ?_, gone, by simp [hpushed], hsub, hlen⟩
    simp only [List.length_append, List.length_singleton]
    omega

theorem Kept.pop {cap : Nat} {pushed : List Event} {r : Popped} (h : Kept cap pushed r) :
    Kept cap pushed (r.next .pop) := by
  obtain ⟨gone, hpushed, hsub, hlen⟩ := h.split
  rw [Popped.next, DropOldestQueue.pop]
  cases hq : r.q.inner with
  | nil =>
    rw [hq] at hpushed
    refine ⟨h.cap, by simp, gone, by simpa using hpushed, by simpa using hsub, by simpa using hlen⟩
  | cons oldest rest =>
    have hbound := h.bounded
    rw [hq, List.length_cons] at hbound
    rw [hq] at hpushed
    refine ⟨h.cap, ?_, gone ++ [oldest], by simp [hpushed], by simpa using hsub, ?_⟩
    · simp only [List.tail_cons]
      omega
    · simp only [List.head?_cons, Option.toList_some, List.length_append, List.length_singleton, hlen]
      omega

theorem after_kept (cap : Nat) (ops : List Op) (few : (pushed ops).length < 2 ^ 64) :
    Kept cap (pushed ops) (after cap ops) := by
  induction ops using List.reverseRecOn with
  | nil => exact .new cap
  | append_singleton ops op ih =>
    rw [after_snoc]
    cases op with
    | push e =>
      have hpushed : pushed (ops ++ [.push e]) = pushed ops ++ [e] := by simp [pushed, Op.event]
      rw [hpushed, List.length_append, List.length_singleton] at few
      rw [hpushed]
      exact (ih (by omega)).push e few
    | pop =>
      have hpushed : pushed (ops ++ [.pop]) = pushed ops := by simp [pushed, Op.event]
      rw [hpushed] at few ⊢
      exact (ih few).pop

/-! ## What a queue is to do -/

/-- A queue of capacity `cap` that keeps the newest events and accounts for
all. -/
structure Accounts (cap : Nat) (pushed : List Event) (r : Popped) : Prop where
  bounded : r.q.inner.length ≤ max cap 1
  newest : r.q.inner <:+ pushed
  /-- In the order of their pushes, and none twice. -/
  order : (r.events ++ r.q.inner).Sublist pushed
  count : pushed.length = r.events.length + r.q.inner.length + r.q.dropped
  full : ∀ e, (r.q.push e).1 = true ↔ r.q.inner.length = max cap 1
  loses : ∀ e, (r.q.push e).1 = true → ∃ oldest rest, r.q.inner = oldest :: rest ∧ (r.q.push e).2.inner = rest ++ [e]
  keeps : ∀ e, (r.q.push e).1 = false → (r.q.push e).2.inner = r.q.inner ++ [e]

theorem Kept.accounts {cap : Nat} {pushed : List Event} {r : Popped} (h : Kept cap pushed r) : Accounts cap pushed r := by
  obtain ⟨gone, hpushed, hsub, hlen⟩ := h.split
  have hcap := h.cap
  have hbound := h.bounded
  refine ⟨by omega, ⟨gone, hpushed.symm⟩, ?_, ?_, fun e => ?_, fun e he => ?_, fun e he => ?_⟩
  · rw [hpushed]
    exact hsub.append (.refl _)
  · rw [hpushed, List.length_append, hlen]
    omega
  · by_cases hfull : r.q.cap ≤ r.q.inner.length
    · obtain ⟨oldest, rest, hq⟩ := oldest_of_full hfull
      rw [push_full hfull hq]
      simp only [true_iff]
      omega
    · rw [push_room (by omega)]
      simp only [Bool.false_eq_true, false_iff]
      omega
  · by_cases hfull : r.q.cap ≤ r.q.inner.length
    · obtain ⟨oldest, rest, hq⟩ := oldest_of_full hfull
      exact ⟨oldest, rest, hq, by rw [push_full hfull hq]⟩
    · rw [push_room (by omega)] at he
      cases he
  · by_cases hfull : r.q.cap ≤ r.q.inner.length
    · obtain ⟨oldest, rest, hq⟩ := oldest_of_full hfull
      rw [push_full hfull hq] at he
      cases he
    · rw [push_room (by omega)]

/-- Whatever the capacity, after any pushes and pops, fewer than `2^64` of
them pushes, the queue keeps the newest events and accounts for all. -/
theorem queue_accounts (cap : Nat) (ops : List Op) (few : (pushed ops).length < 2 ^ 64) :
    Accounts cap (pushed ops) (after cap ops) := (after_kept cap ops few).accounts

def sampleEvent (now : Timestamp) : Event := .audioDeleted now { sessionId := 1, guildId := 7, pseudoId := ⟨"mixed"⟩ }

/-- Three events through a queue of one place. -/
def sampleOps : List Op := [.push (sampleEvent 0), .pop, .pop, .push (sampleEvent 1), .push (sampleEvent 2)]

theorem queue_accounts_sample : Accounts 0 (pushed sampleOps) (after 0 sampleOps) ∧
    (after 0 sampleOps).events.length = 1 ∧ (after 0 sampleOps).q.dropped = 1 :=
  ⟨queue_accounts 0 sampleOps (by decide), by decide, by decide⟩

end DataApi.Ws.DropOldestQueue
