/-
A broadcast channel. Whatever is sent gets the next number; a receiver is the
number of the value it reads next, and one that falls behind by more than the
channel holds is told how many it missed. `Reads` is what a receiver was given
on its way: the values in order, each once, and the rest counted as missed.
-/
import Mathlib.Data.List.Basic

namespace Broadcast

variable {α : Type}

/-- `None` while there is nothing new. -/
def recv (cap : Nat) (sent : List α) (cursor : Nat) : Option (Except Nat α × Nat) :=
  if cursor + cap < sent.length then some (.error (sent.length - cap - cursor), sent.length - cap)
  else sent[cursor]?.map fun a => (.ok a, cursor + 1)

/-- The values among what was received. -/
def values (rs : List (Except Nat α)) : List α := rs.filterMap Except.toOption

/-- How many it says were missed. -/
def missed : List (Except Nat α) → Nat
  | [] => 0
  | .ok _ :: rs => missed rs
  | .error n :: rs => n + missed rs

/-- A receiver that began at `start` was given `rs`, and is at the last number. -/
inductive Reads (sent : List α) (start : Nat) : List (Except Nat α) → Nat → Prop
  | nil : Reads sent start [] start
  | value {rs n a} : Reads sent start rs n → sent[n]? = some a → Reads sent start (rs ++ [.ok a]) (n + 1)
  | skip {rs n k} : Reads sent start rs n → n + k ≤ sent.length → Reads sent start (rs ++ [.error k]) (n + k)

@[simp] theorem values_ok (a : α) : values [.ok a] = [a] := rfl

@[simp] theorem values_error (n : Nat) : values [(.error n : Except Nat α)] = [] := rfl

@[simp] theorem missed_ok (a : α) : missed [.ok a] = 0 := rfl

@[simp] theorem missed_error (n : Nat) : missed [(.error n : Except Nat α)] = n := rfl

theorem values_append (rs rs' : List (Except Nat α)) : values (rs ++ rs') = values rs ++ values rs' :=
  List.filterMap_append

theorem missed_append (rs rs' : List (Except Nat α)) : missed (rs ++ rs') = missed rs + missed rs' := by
  induction rs with
  | nil => simp [missed]
  | cons r rs ih =>
    cases r with
    | ok a => simpa [missed] using ih
    | error n => simp [missed, ih, Nat.add_assoc]

namespace Reads

variable {sent sent' : List α} {start n m cap : Nat} {rs : List (Except Nat α)} {r : Except Nat α}

theorem recv (h : Reads sent start rs n) (hr : recv cap sent n = some (r, m)) : Reads sent start (rs ++ [r]) m := by
  unfold Broadcast.recv at hr
  split at hr
  · obtain ⟨rfl, rfl⟩ := Prod.mk.inj (Option.some.inj hr)
    have hm : sent.length - cap = n + (sent.length - cap - n) := by omega
    rw [hm]
    have hk : n + (sent.length - cap - n) - n = sent.length - cap - n := by omega
    rw [hk]
    exact .skip h (by omega)
  · obtain ⟨a, ha, heq⟩ := Option.map_eq_some_iff.1 hr
    obtain ⟨rfl, rfl⟩ := Prod.mk.inj heq
    exact .value h ha

/-- What was read stays as it was when more is sent. -/
theorem grown (h : Reads sent start rs n) (hs : sent <+: sent') : Reads sent' start rs n := by
  induction h with
  | nil => exact .nil
  | value _ ha ih =>
    obtain ⟨more, rfl⟩ := hs
    refine .value ih ?_
    rw [List.getElem?_append_left (List.getElem?_eq_some_iff.1 ha).1, ha]
  | skip _ hk ih => exact .skip ih (Nat.le_trans hk hs.length_le)

theorem start_le (h : Reads sent start rs n) : start ≤ n := by
  induction h with
  | nil => exact Nat.le_refl _
  | value | skip => omega

/-- Every number since the start was a value or was missed. -/
theorem total (h : Reads sent start rs n) : start + (values rs).length + missed rs = n := by
  induction h with
  | nil => simp [values, missed]
  | value _ _ ih =>
    rw [values_append, missed_append, List.length_append, values_ok, missed_ok, List.length_singleton]
    omega
  | skip _ _ ih =>
    rw [values_append, missed_append, values_error, missed_error, List.append_nil]
    omega

/-- The values are values sent since the start, in order and each once. -/
theorem sublist (h : Reads sent start rs n) : List.Sublist (values rs) ((sent.take n).drop start) := by
  induction h with
  | nil => simp [values]
  | @value rs n a h ha ih =>
    have hlt : n < sent.length := (List.getElem?_eq_some_iff.1 ha).1
    have htake : sent.take (n + 1) = sent.take n ++ [a] := by rw [List.take_add_one, ha]; rfl
    have hstart : start ≤ (sent.take n).length := by
      rw [List.length_take]
      have := h.start_le
      omega
    rw [values_append, htake, List.drop_append_of_le_length hstart]
    exact ih.append (.refl _)
  | @skip rs n k h hk ih =>
    have htaken : sent.take n <+: sent.take (n + k) := List.take_prefix_take_left (by omega)
    rw [values_append, values_error, List.append_nil]
    exact ih.trans (htaken.sublist.drop start)

theorem le_length (h : Reads sent start rs n) (hs : start ≤ sent.length) : n ≤ sent.length := by
  induction h with
  | nil => exact hs
  | value _ ha _ => exact (List.getElem?_eq_some_iff.1 ha).1
  | skip _ hk _ => exact hk

end Reads
end Broadcast
