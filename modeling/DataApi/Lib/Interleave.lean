/-
Many programs over one shared state, one step at a time. A machine says what
one move of a thread does to the thread's own state and to the shared one: a
move may complete the operation the program is at, or be an inner move of it
(`none`), or be impossible now (the thread waits).

`Run.ghost` is the invariant rule: threads that follow a protocol, and an
invariant over their ghost states that every allowed move keeps, give the
invariant in every configuration any schedule reaches.
-/
import DataApi.Lib.Prog
import Mathlib.Logic.Function.Basic

namespace Resumption

/-- How a thread acts: `E` is what the environment supplies to one move. -/
structure Machine (ι : Type) {Op : Type} (Ans : Op → Type) (E L S : Type) where
  exec : ι → E → L → S → (o : Op) → Option (Option (Ans o) × L × S)
  close : ι → L → S → Option (L × S)

structure Thread {Op : Type} (Ans : Op → Type) (L α : Type) where
  prog : Prog Ans α
  loc : L

structure Config (ι : Type) {Op : Type} (Ans : Op → Type) (L S α : Type) where
  threads : ι → Thread Ans L α
  shared : S

variable {ι Op E L S α σ : Type} {Ans : Op → Type} [DecidableEq ι]

namespace Config

def put (c : Config ι Ans L S α) (i : ι) (t : Thread Ans L α) (s : S) : Config ι Ans L S α where
  threads := Function.update c.threads i t
  shared := s

@[simp] theorem put_shared (c : Config ι Ans L S α) (i : ι) (t : Thread Ans L α) (s : S) :
    (c.put i t s).shared = s := rfl

@[simp] theorem put_self (c : Config ι Ans L S α) (i : ι) (t : Thread Ans L α) (s : S) :
    (c.put i t s).threads i = t := by simp [put]

theorem put_other (c : Config ι Ans L S α) {i j : ι} (t : Thread Ans L α) (s : S) (h : j ≠ i) :
    (c.put i t s).threads j = c.threads j := by simp [put, h]

/-- What holds of every thread and its ghost state, after thread `i` moved. -/
theorem put_each {c : Config ι Ans L S α} {g : ι → σ} {P : ι → σ → L → Prop} {i : ι} {t : σ} {p : Prog Ans α} {l : L}
    {s : S} (hi : P i t l) (hothers : ∀ j, j ≠ i → P j (g j) (c.threads j).loc) (j : ι) :
    P j (Function.update g i t j) ((c.put i ⟨p, l⟩ s).threads j).loc := by
  by_cases hj : j = i
  · subst hj; simpa using hi
  · rw [Function.update_of_ne hj, put_other _ _ _ hj]; exact hothers j hj

/-- What holds of every two threads, after one of them moved. -/
theorem put_pairs {c : Config ι Ans L S α} {g : ι → σ} {P : ι → σ → L → ι → σ → L → Prop} {i : ι} {t : σ}
    {p : Prog Ans α} {l : L} {s : S} (hsymm : ∀ j a m k b n, P j a m k b n → P k b n j a m)
    (h : ∀ j k, j ≠ k → P j (g j) (c.threads j).loc k (g k) (c.threads k).loc)
    (hi : ∀ j, j ≠ i → P i t l j (g j) (c.threads j).loc) (j k : ι) (hjk : j ≠ k) :
    P j (Function.update g i t j) ((c.put i ⟨p, l⟩ s).threads j).loc k (Function.update g i t k)
      ((c.put i ⟨p, l⟩ s).threads k).loc := by
  by_cases hj : j = i
  · subst hj
    rw [Function.update_of_ne hjk.symm, put_other _ _ _ hjk.symm, Function.update_self, put_self]
    exact hi k hjk.symm
  · by_cases hk : k = i
    · subst hk
      rw [Function.update_of_ne hj, put_other _ _ _ hj, Function.update_self, put_self]
      exact hsymm _ _ _ _ _ _ (hi j hj)
    · rw [Function.update_of_ne hj, Function.update_of_ne hk, put_other _ _ _ hj, put_other _ _ _ hk]
      exact h j k hjk

/-- Thread `i` moves once, if it can. -/
def step (M : Machine ι Ans E L S) (c : Config ι Ans L S α) (i : ι) (e : E) : Option (Config ι Ans L S α) :=
  match c.threads i with
  | ⟨.ret a, l⟩ => (M.close i l c.shared).map fun (l, s) => c.put i ⟨.ret a, l⟩ s
  | ⟨.op o k, l⟩ => (M.exec i e l c.shared o).map fun (r, l, s) =>
      c.put i ⟨match r with | none => .op o k | some r => k r, l⟩ s

/-- The moves of a schedule, one after another. -/
def play (M : Machine ι Ans E L S) : Config ι Ans L S α → List (ι × E) → Option (Config ι Ans L S α)
  | c, [] => some c
  | c, (i, e) :: rest => (c.step M i e).bind (play M · rest)

/-- What thread `i` has returned. -/
def returned (c : Config ι Ans L S α) (i : ι) : Option α :=
  match (c.threads i).prog with
  | .ret a => some a
  | .op _ _ => none

omit [DecidableEq ι] in
theorem returned_iff {c : Config ι Ans L S α} {i : ι} {a : α} :
    c.returned i = some a ↔ (c.threads i).prog = .ret a := by
  unfold returned
  split
  · next b hb => rw [hb]; simp
  · next o k hb => rw [hb]; simp

end Config

/-- `c` is reached from `c₀` by moves that all satisfy `guard`. -/
inductive Run (M : Machine ι Ans E L S) (guard : Config ι Ans L S α → ι → E → Prop)
    (c₀ : Config ι Ans L S α) : Config ι Ans L S α → Prop
  | nil : Run M guard c₀ c₀
  | move {c c' i e} : Run M guard c₀ c → guard c i e → c.step M i e = some c' → Run M guard c₀ c'

section
variable {M : Machine ι Ans E L S} {guard : Config ι Ans L S α → ι → E → Prop} {c₀ c c' : Config ι Ans L S α}

theorem Run.invariant (I : Config ι Ans L S α → Prop) (h₀ : I c₀)
    (hstep : ∀ c i e c', Run M guard c₀ c → I c → guard c i e → c.step M i e = some c' → I c')
    (h : Run M guard c₀ c) : I c := by
  induction h with
  | nil => exact h₀
  | move hr hg hs ih => exact hstep _ _ _ _ hr ih hg hs

/-- What holds of every configuration reached may stand in the guard. -/
theorem Run.strengthen {P : Config ι Ans L S α → Prop} (hP : ∀ c, Run M guard c₀ c → P c) (h : Run M guard c₀ c) :
    Run M (fun c i e => guard c i e ∧ P c) c₀ c := by
  induction h with
  | nil => exact .nil
  | move hr hg hs ih => exact .move ih ⟨hg, hP _ hr⟩ hs

theorem Run.mono {guard' : Config ι Ans L S α → ι → E → Prop} (h : Run M guard c₀ c)
    (hguard : ∀ c i e, guard c i e → guard' c i e) : Run M guard' c₀ c := by
  induction h with
  | nil => exact .nil
  | move hr hg hs ih => exact .move ih (hguard _ _ _ hg) hs

/-- Every move of a schedule satisfies `guard`. -/
def Config.Guarded (M : Machine ι Ans E L S) (guard : Config ι Ans L S α → ι → E → Prop) :
    Config ι Ans L S α → List (ι × E) → Prop
  | _, [] => True
  | c, (i, e) :: rest => guard c i e ∧ ∀ c', c.step M i e = some c' → Guarded M guard c' rest

/-- Whether a schedule is guarded can be evaluated. -/
instance Config.decidableGuarded [∀ c i e, Decidable (guard c i e)] : ∀ (c : Config ι Ans L S α) (sched : List (ι × E)),
    Decidable (c.Guarded M guard sched)
  | _, [] => .isTrue trivial
  | c, (i, e) :: rest =>
    match h : c.step M i e with
    | none => decidable_of_iff (guard c i e) ⟨fun hg => ⟨hg, fun c' hc => by rw [h] at hc; cases hc⟩, fun hg => hg.1⟩
    | some c' =>
      have := decidableGuarded c' rest
      decidable_of_iff (guard c i e ∧ c'.Guarded M guard rest)
        ⟨fun hg => ⟨hg.1, fun c'' hc => by rw [h] at hc; cases hc; exact hg.2⟩, fun hg => ⟨hg.1, hg.2 c' h⟩⟩

theorem Config.guarded_of_all (h : ∀ c i e, guard c i e) (sched : List (ι × E)) : c.Guarded M guard sched := by
  induction sched generalizing c with
  | nil => trivial
  | cons m rest ih => exact ⟨h _ _ _, fun _ _ => ih⟩

theorem Config.Guarded.mono {guard' : Config ι Ans L S α → ι → E → Prop} {sched : List (ι × E)}
    (hgg : ∀ c, ∀ m ∈ sched, guard c m.1 m.2 → guard' c m.1 m.2) (h : c.Guarded M guard sched) :
    c.Guarded M guard' sched := by
  induction sched generalizing c with
  | nil => trivial
  | cons m rest ih =>
    exact ⟨hgg c m (by simp) h.1, fun c' hc => ih (fun c m hm => hgg c m (List.mem_cons_of_mem _ hm)) (h.2 c' hc)⟩

theorem Config.Guarded.and {guard' : Config ι Ans L S α → ι → E → Prop} {sched : List (ι × E)}
    (h : c.Guarded M guard sched) (h' : c.Guarded M guard' sched) :
    c.Guarded M (fun c i e => guard c i e ∧ guard' c i e) sched := by
  induction sched generalizing c with
  | nil => trivial
  | cons m rest ih => exact ⟨⟨h.1, h'.1⟩, fun c' hc => ih (h.2 c' hc) (h'.2 c' hc)⟩

theorem Run.play {sched : List (ι × E)} (hg : c.Guarded M guard sched) (h : Run M guard c₀ c)
    (hp : c.play M sched = some c') : Run M guard c₀ c' := by
  induction sched generalizing c with
  | nil =>
    simp only [Config.play, Option.some.injEq] at hp
    subst hp; exact h
  | cons m rest ih =>
    obtain ⟨i, e⟩ := m
    simp only [Config.play, Option.bind_eq_some_iff] at hp
    obtain ⟨c₁, h₁, h₂⟩ := hp
    exact ih (hg.2 c₁ h₁) (.move h hg.1 h₁) h₂

theorem Config.step_op {i : ι} {e : E} {o : Op} {k : Ans o → Prog Ans α} {r : Ans o} {l : L} {s : S}
    (hp : (c.threads i).prog = .op o k) (hx : M.exec i e (c.threads i).loc c.shared o = some (some r, l, s)) :
    c.step M i e = some (c.put i ⟨k r, l⟩ s) := by
  rw [Config.step, show c.threads i = ⟨.op o k, (c.threads i).loc⟩ from by rw [← hp]]
  simp [hx]

theorem Config.step_inner {i : ι} {e : E} {o : Op} {k : Ans o → Prog Ans α} {l : L} {s : S}
    (hp : (c.threads i).prog = .op o k) (hx : M.exec i e (c.threads i).loc c.shared o = some (none, l, s)) :
    c.step M i e = some (c.put i ⟨.op o k, l⟩ s) := by
  rw [Config.step, show c.threads i = ⟨.op o k, (c.threads i).loc⟩ from by rw [← hp]]
  simp [hx]

theorem Config.step_ret {i : ι} {e : E} {a : α} {l : L} {s : S} (hp : (c.threads i).prog = .ret a)
    (hx : M.close i (c.threads i).loc c.shared = some (l, s)) :
    c.step M i e = some (c.put i ⟨.ret a, l⟩ s) := by
  rw [Config.step, show c.threads i = ⟨.ret a, (c.threads i).loc⟩ from by rw [← hp]]
  simp [hx]

/-- A thread whose operation can move, moves. -/
theorem Config.step_moves {i : ι} {e : E} {o : Op} {k : Ans o → Prog Ans α} (hp : (c.threads i).prog = .op o k)
    (hx : (M.exec i e (c.threads i).loc c.shared o).isSome = true) : ∃ c', c.step M i e = some c' := by
  obtain ⟨⟨r, l, s⟩, hx⟩ := Option.isSome_iff_exists.1 hx
  cases r with
  | none => exact ⟨_, step_inner hp hx⟩
  | some r => exact ⟨_, step_op hp hx⟩

omit [DecidableEq ι] in
/-- A thread that has not returned is at an operation its protocol allows. -/
theorem Config.at_operation {P : Protocol Ans σ} {Q : σ → α → Prop} {i : ι} {s : σ}
    (hF : (c.threads i).prog.Follows P Q s) (hn : c.returned i = none) :
    ∃ o k, (c.threads i).prog = .op o k ∧ P.may s o := by
  cases hp : (c.threads i).prog with
  | ret a => rw [returned_iff.2 hp] at hn; cases hn
  | op o k =>
    rw [hp] at hF
    exact ⟨o, k, rfl, hF.1⟩

/-- A move looks at its own thread and at what is shared, and at no other
thread. -/
theorem Config.step_local {d : Config ι Ans L S α} {i : ι} {e : E} (ht : d.threads i = c.threads i)
    (hsh : d.shared = c.shared) (h : c.step M i e = some c') : ∃ t, c' = c.put i t c'.shared ∧
      d.step M i e = some (d.put i t c'.shared) := by
  unfold Config.step at h ⊢
  rw [ht, hsh]
  split at h
  · obtain ⟨⟨l, s⟩, hx, rfl⟩ := Option.map_eq_some_iff.1 h
    exact ⟨_, rfl, by rw [hx]; rfl⟩
  · obtain ⟨⟨r, l, s⟩, hx, rfl⟩ := Option.map_eq_some_iff.1 h
    exact ⟨_, rfl, by rw [hx]; rfl⟩

/-- What one move is: a return that closes, or a move at an operation. -/
theorem Config.step_cases {i : ι} {e : E} (h : c.step M i e = some c') :
    (∃ a l s, (c.threads i).prog = .ret a ∧ M.close i (c.threads i).loc c.shared = some (l, s) ∧
      c' = c.put i ⟨.ret a, l⟩ s) ∨
    (∃ o k r l s, (c.threads i).prog = .op o k ∧ M.exec i e (c.threads i).loc c.shared o = some (r, l, s) ∧
      c' = c.put i ⟨match r with | none => .op o k | some r => k r, l⟩ s) := by
  unfold Config.step at h
  split at h
  · next a l ht =>
    simp only [Option.map_eq_some_iff] at h
    obtain ⟨⟨l', s'⟩, hc, rfl⟩ := h
    exact .inl ⟨a, l', s', by rw [ht], by rw [ht]; exact hc, rfl⟩
  · next o k l ht =>
    simp only [Option.map_eq_some_iff] at h
    obtain ⟨⟨r, l', s'⟩, hx, rfl⟩ := h
    exact .inr ⟨o, k, r, l', s', by rw [ht], by rw [ht]; exact hx, rfl⟩

/-- Every thread follows its protocol from its ghost state, and `J` relates
the ghost states to the configuration. -/
def Ghosted (P : ι → Protocol Ans σ) (Q : ι → σ → α → Prop) (J : (ι → σ) → Config ι Ans L S α → Prop)
    (c : Config ι Ans L S α) : Prop :=
  ∃ g : ι → σ, J g c ∧ ∀ i, (c.threads i).prog.Follows (P i) (Q i) (g i)

/-- The invariant rule for programs that follow a protocol: `J` is kept by
every inner move, every completed operation and every close. -/
theorem Run.ghost {P : ι → Protocol Ans σ} {Q : ι → σ → α → Prop} {J : (ι → σ) → Config ι Ans L S α → Prop}
    (h₀ : Ghosted P Q J c₀)
    (hinner : ∀ c g i e o k l s, Run M guard c₀ c → J g c → (c.threads i).prog = .op o k → (P i).may (g i) o →
      guard c i e → M.exec i e (c.threads i).loc c.shared o = some (none, l, s) → J g (c.put i ⟨.op o k, l⟩ s))
    (hdone : ∀ c g i e o k r l s, Run M guard c₀ c → J g c → (c.threads i).prog = .op o k → (P i).may (g i) o →
      guard c i e → M.exec i e (c.threads i).loc c.shared o = some (some r, l, s) →
      ∃ t, (P i).next (g i) o r t ∧ J (Function.update g i t) (c.put i ⟨k r, l⟩ s))
    (hclose : ∀ c g i e a l s, Run M guard c₀ c → J g c → (c.threads i).prog = .ret a → Q i (g i) a →
      guard c i e → M.close i (c.threads i).loc c.shared = some (l, s) →
      ∃ t, Q i t a ∧ J (Function.update g i t) (c.put i ⟨.ret a, l⟩ s))
    (h : Run M guard c₀ c) : Ghosted P Q J c := by
  refine Run.invariant (Ghosted P Q J) h₀ (fun c i e c' hr ⟨g, hJ, hF⟩ hg hs => ?_) h
  have keep : ∀ t s', (∀ j, j ≠ i → ((c.put i t s').threads j).prog.Follows (P j) (Q j) (g j)) := by
    intro t s' j hj
    rw [Config.put_other _ _ _ hj]; exact hF j
  have hFi := hF i
  rcases Config.step_cases hs with ⟨a, l, s, hp, hc, rfl⟩ | ⟨o, k, r, l, s, hp, hx, rfl⟩
  · rw [hp] at hFi
    obtain ⟨t, ht, hJ'⟩ := hclose c g i e a l s hr hJ hp hFi hg hc
    refine ⟨Function.update g i t, hJ', fun j => ?_⟩
    by_cases hj : j = i
    · subst hj; simpa [Prog.Follows] using ht
    · rw [Function.update_of_ne hj]; exact keep _ _ j hj
  · rw [hp] at hFi
    cases r with
    | none =>
      refine ⟨g, hinner c g i e o k l s hr hJ hp hFi.1 hg hx, fun j => ?_⟩
      by_cases hj : j = i
      · subst hj; simpa using hFi
      · exact keep _ _ j hj
    | some r' =>
      obtain ⟨t, ht, hJ'⟩ := hdone c g i e o k r' l s hr hJ hp hFi.1 hg hx
      refine ⟨Function.update g i t, hJ', fun j => ?_⟩
      by_cases hj : j = i
      · subst hj; simpa using hFi.2 r' t ht
      · rw [Function.update_of_ne hj]; exact keep _ _ j hj

end
end Resumption
