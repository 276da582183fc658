/-
Requests one after another: each is served to its end before the next
begins, and a transaction it leaves open is rolled back.
-/
import DataApi.Lib.Alone
import DataApi.Routes.Service

namespace DataApi

open Relational ReadCommitted Resumption

/-- A request, and what its operations meet, by their number. -/
structure Call where
  request : Request
  env : Nat → Env

def serve (st : AppState) (x : Call) (sv : Sv Unit) : Outcome × Sv Unit :=
  let (a, _, _, sv) := exec () x.env 0 {} sv (handle st x.request).run
  (a, sv.release ())

/-- The server after a run of calls. -/
def after (st : AppState) (sv₀ : Sv Unit) (calls : List Call) : Sv Unit :=
  calls.foldl (fun sv x => (serve st x sv).2) sv₀

theorem after_snoc (st : AppState) (sv₀ : Sv Unit) (calls : List Call) (x : Call) :
    after st sv₀ (calls ++ [x]) = (serve st x (after st sv₀ calls)).2 := by
  simp [after, List.foldl_append]

theorem after_append (st : AppState) (sv₀ : Sv Unit) (calls later : List Call) :
    after st sv₀ (calls ++ later) = after st (after st sv₀ calls) later := by
  simp [after, List.foldl_append]

/-- Every call of the run satisfies `P`, of the server it finds. -/
def Steps (st : AppState) (sv₀ : Sv Unit) (calls : List Call) (P : Call → Sv Unit → Prop) : Prop :=
  ∀ done x rest, calls = done ++ x :: rest → P x (after st sv₀ done)

theorem Steps.later {st : AppState} {sv₀ : Sv Unit} {done rest : List Call} {P : Call → Sv Unit → Prop}
    (h : Steps st sv₀ (done ++ rest) P) : Steps st (after st sv₀ done) rest P := by
  intro more x rest' hrest
  rw [← after_append]
  exact h (done ++ more) x rest' (by rw [hrest, List.append_assoc])

/-- What such a call keeps holds all along the run. -/
theorem Steps.reached {st : AppState} {sv₀ : Sv Unit} {calls : List Call} {P : Call → Sv Unit → Prop} {I : Sv Unit → Prop}
    (h : Steps st sv₀ calls P) (start : I sv₀) (step : ∀ sv x, I sv → P x sv → I (serve st x sv).2) :
    ∀ done rest, calls = done ++ rest → I (after st sv₀ done) := by
  intro done
  induction done using List.reverseRecOn with
  | nil => exact fun _ _ => start
  | append_singleton done x ih =>
    intro rest hrest
    have hcalls : calls = done ++ x :: rest := by simpa using hrest
    rw [after_snoc]
    exact step _ x (ih _ hcalls) (h done x rest hcalls)

/-- The rule for one call, from that for its handler. -/
theorem serve_follows {σ : Type} {P : Protocol (@Answer Row Key Uniq Env Io World _ _) σ} {Q : σ → Outcome → Prop}
    {H : σ → Nat → Conn → Sv Unit → Prop} {st : AppState} {x : Call} {sv : Sv Unit} {s : σ}
    (done : ∀ s n o r c sv c' sv', P.may s o → H s n c sv → perform () (x.env n) sv.look c sv o = (r, c', sv') →
      ∃ t, P.next s o r t ∧ H t (n + 1) c' sv')
    (hf : (handle st x.request).run.Follows P Q s) (h : H s 0 {} sv) :
    ∃ t n c sv', H t n c sv' ∧ Q t (serve st x sv).1 ∧ (serve st x sv).2 = sv'.release () := by
  obtain ⟨t, hq, hh⟩ := exec_follows done hf h
  exact ⟨t, _, _, _, hh, hq, rfl⟩

end DataApi
