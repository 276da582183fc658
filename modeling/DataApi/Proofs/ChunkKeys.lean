/-
The object key of a chunk names one chunk: prefix, pseudonym and number can
be read back from it (`chunkKey_inj`).
-/
import DataApi.Routes.Sessions
import Mathlib.Data.List.Basic

namespace DataApi.ChunkRoutes

/-- The last occurrence of a separator splits a list in one way. -/
theorem split_last {α : Type} {x : α} : ∀ {a a' b b' : List α}, x ∉ b → x ∉ b' → a ++ x :: b = a' ++ x :: b' →
    a = a' ∧ b = b'
  | [], [], b, b', _, _, h => ⟨rfl, (List.cons.inj h).2⟩
  | [], y :: a', b, b', hb, _, h => by
    rw [List.nil_append, List.cons_append, List.cons.injEq] at h
    exact absurd (by rw [h.2]; simp) hb
  | y :: a, [], b, b', _, hb', h => by
    rw [List.nil_append, List.cons_append, List.cons.injEq] at h
    exact absurd (by rw [← h.2]; simp) hb'
  | y :: a, y' :: a', b, b', hb, hb', h => by
    rw [List.cons_append, List.cons_append, List.cons.injEq] at h
    obtain ⟨rfl, rfl⟩ := split_last hb hb' h.2
    exact ⟨by rw [h.1], rfl⟩

/-! ## The number -/

/-- The characters of `pad6`. -/
def padChars (n : Int) : List Char :=
  (if n < 0 then ['-'] else []) ++
    List.replicate (6 - (if n < 0 then "-" else "").length - (toString n.natAbs).length) '0' ++
    Nat.toDigits 10 n.natAbs

theorem pad6_toList (n : Int) : (pad6 n).toList = padChars n := by
  have hs : (if n < 0 then "-" else "").toList = if n < 0 then ['-'] else [] := by
    split <;> rfl
  have hd : (toString n.natAbs).toList = Nat.toDigits 10 n.natAbs := Nat.toList_repr
  simp only [pad6, padChars, String.toList_append, String.toList_ofList, hs, hd]

theorem padChars_digits {n : Int} {c : Char} (h : c ∈ padChars n) : c.isDigit = true ∨ c = '-' := by
  simp only [padChars, List.mem_append, List.mem_replicate] at h
  rcases h with (h | ⟨-, rfl⟩) | h
  · split at h
    · exact .inr (List.mem_singleton.1 h)
    · cases h
  · exact .inl rfl
  · exact .inl (Nat.isDigit_of_mem_toDigits (by decide) (by decide) h)

theorem not_mem_padChars {n : Int} {c : Char} (h : c.isDigit = false) (hc : c ≠ '-') : c ∉ padChars n := by
  intro hm
  rcases padChars_digits hm with hd | hd
  · rw [h] at hd; cases hd
  · exact hc hd

theorem value_padded (k n : Nat) : Nat.ofDigitChars 10 (List.replicate k '0' ++ Nat.toDigits 10 n) 0 = n := by
  rw [Nat.ofDigitChars_append, Nat.ofDigitChars_replicate_zero, Nat.mul_zero, Nat.ofDigitChars_ten_toDigits]

/-- A minus sign starts the digits of no natural number. -/
theorem minus_not_digits {k n : Nat} {l : List Char} : List.replicate k '0' ++ Nat.toDigits 10 n ≠ '-' :: l := by
  intro h
  have hm : '-' ∈ List.replicate k '0' ++ Nat.toDigits 10 n := by rw [h]; simp
  rcases List.mem_append.1 hm with hm | hm
  · cases List.eq_of_mem_replicate hm
  · have := Nat.isDigit_of_mem_toDigits (by decide) (by decide) hm
    cases this

theorem padChars_inj {n m : Int} (h : padChars n = padChars m) : n = m := by
  unfold padChars at h
  by_cases hn : n < 0 <;> by_cases hm : m < 0 <;>
    simp only [hn, hm, if_true, if_false, List.nil_append, List.cons_append] at h
  · have := congrArg (Nat.ofDigitChars 10 · 0) (List.cons.inj h).2
    simp only [value_padded] at this
    omega
  · exact absurd h.symm minus_not_digits
  · exact absurd h minus_not_digits
  · have := congrArg (Nat.ofDigitChars 10 · 0) h
    simp only [value_padded] at this
    omega

/-! ## The pseudonym -/

/-- What `new_or_mixed` lets through. -/
def Named (p : PseudoId) : Prop := p.raw = MIXED_PSEUDO_ID ∨ isValidPseudoId p.raw = true

theorem newOrMixed_named {raw : String} {p : PseudoId} (h : PseudoId.newOrMixed raw = .ok p) : Named p := by
  unfold PseudoId.newOrMixed at h
  split at h
  · next hraw =>
    rw [← Except.ok.inj h]
    simpa [Named] using hraw
  · cases h

theorem Named.no_slash {p : PseudoId} (h : Named p) : '/' ∉ p.raw.toList := by
  rcases h with h | h
  · rw [h]; decide
  · intro hm
    simp only [isValidPseudoId, Bool.and_eq_true] at h
    have := List.all_eq_true.1 h.2 '/' hm
    revert this; decide

/-! ## The key -/

theorem chunkKey_toList (p : String) (pid : PseudoId) (n : Int) : (chunkKey p pid n).toList =
    ((p.toList ++ "/audio".toList) ++ '/' :: pid.raw.toList) ++ '/' :: "chunk".toList ++ '_' ::
      (padChars n ++ ".pcm".toList) := by
  simp [chunkKey, pad6_toList]

theorem chunkKey_inj {p p' : String} {pid pid' : PseudoId} {n n' : Int} (hp : Named pid) (hp' : Named pid')
    (h : chunkKey p pid n = chunkKey p' pid' n') : p = p' ∧ pid = pid' ∧ n = n' := by
  have hl := congrArg String.toList h
  rw [chunkKey_toList, chunkKey_toList] at hl
  have hno : ∀ m, '_' ∉ padChars m ++ ".pcm".toList := by
    intro m hm
    rcases List.mem_append.1 hm with hm | hm
    · exact not_mem_padChars rfl (by decide) hm
    · revert hm; decide
  obtain ⟨hl, htail⟩ := split_last (hno n) (hno n') hl
  have hn : n = n' := padChars_inj (List.append_cancel_right htail)
  obtain ⟨hl, -⟩ := split_last (by decide) (by decide) hl
  obtain ⟨hl, hraw⟩ := split_last hp.no_slash hp'.no_slash hl
  refine ⟨String.toList_inj.1 (List.append_cancel_right hl), ?_, hn⟩
  cases pid; cases pid'
  rw [PseudoId.mk.injEq]
  exact String.toList_inj.1 hraw

end DataApi.ChunkRoutes
