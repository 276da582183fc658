/-
What a client may conclude from the rows a SELECT answers: they were stored at
some moment of the run (`Ever`), and satisfy its WHERE clause. The moves of any
run to a configuration may be taken to know this of the log it ends with
(`Run.attested`).
-/
import DataApi.Lib.Locking

namespace ReadCommitted

open Resumption Relational

variable {ι Row Key Uniq Env X World α : Type} [Schema Row Key Uniq] [DecidableEq Key] [DecidableEq Uniq] [DecidableEq ι]
  [StepEnv Env] [Outer X World Env]

/-- Stored at some moment, if the log has been this. -/
def Ever (db₀ : List Row) (log : List (ι × List (Write Row Key))) (r : Row) : Prop :=
  ∃ pre, pre <+: log ∧ r ∈ replay db₀ pre

/-- The rows that a SELECT by itself answers. -/
def Fetched (V : Row → Prop) : (o : Op Row Env X) → Answer o → Prop
  | .query .pool (.select p), .ok rows => ∃ e, ∀ r ∈ rows, p e r = true ∧ V r
  | _, _ => True

section
variable {guard guard' : Clients ι Row Env X α → ι → Env → Prop} {c₀ c c' d : Clients ι Row Env X α} {i : ι} {e : Env}
  {db₀ : List Row} {log log' : List (ι × List (Write Row Key))} {r : Row}

omit [DecidableEq Uniq] [DecidableEq ι] in
theorem Ever.mono (h : Ever db₀ log r) (hlog : log <+: log') : Ever db₀ log' r := by
  obtain ⟨pre, hpre, hr⟩ := h
  exact ⟨pre, hpre.trans hlog, hr⟩

/-- What is stored, and what the statements under way see, was stored by then. -/
structure Attested (db₀ : List Row) (log : List (ι × List (Write Row Key))) (c : Clients ι Row Env X α) : Prop where
  stored : ∀ r ∈ c.shared.db, Ever db₀ log r
  snap : ∀ i snap, (c.threads i).loc.snap = some snap → ∀ r ∈ snap.rows, Ever db₀ log r

omit [DecidableEq Uniq] [DecidableEq ι] [StepEnv Env] in
theorem Attested.mono (h : Attested db₀ log c) (hlog : log <+: log') : Attested db₀ log' c where
  stored r hr := (h.stored r hr).mono hlog
  snap i snap hs r hr := (h.snap i snap hs r hr).mono hlog

theorem Attested.step (h : Attested db₀ c.shared.log c) (hc : Orderly c) (hs : c.step machine i e = some c')
    (hdb : c'.shared.db = replay db₀ c'.shared.log) : Attested db₀ c'.shared.log c' where
  stored r hr := ⟨_, List.prefix_refl _, hdb ▸ hr⟩
  snap j snap hsnap r hr := by
    have kept : (c.threads j).loc.snap = some snap → Ever db₀ c'.shared.log r :=
      fun h' => (h.snap j snap h' r hr).mono (Config.log_grows hc hs)
    obtain ⟨hm, hother⟩ := step_moved hs
    by_cases hj : j = i
    · subst hj
      cases hm with
      | looked _ looked server =>
        rw [looked] at hsnap
        cases hsnap
        exact (h.stored r hr).mono (Config.log_grows hc hs)
      | dropped _ dropped _ =>
        rcases dropped with dropped | dropped
        · rw [dropped] at hsnap; cases hsnap
        · exact kept (dropped ▸ hsnap)
      | quiet _ done | opened _ _ done | wrote _ _ _ _ _ done | autocommitted _ _ _ done | committed _ done =>
        rw [done] at hsnap; cases hsnap
    · rw [hother j hj] at hsnap
      exact kept hsnap

/-- The moves that led here were among rows stored by now. -/
theorem Run.attested (hlog : c₀.shared.log = []) (h₀ : Orderly c₀) (start : ∀ i, (c₀.threads i).loc.snap = none)
    (h : Run machine guard c₀ c) :
    Run machine (fun d i e => guard d i e ∧ Attested c₀.shared.db c.shared.log d) c₀ c ∧
      Attested c₀.shared.db c.shared.log c := by
  induction h with
  | nil =>
    refine ⟨.nil, fun r hr => ⟨[], List.nil_prefix, hr⟩, fun i snap hs => ?_⟩
    rw [start i] at hs; cases hs
  | @move c c' i e hr hg hs ih =>
    have hc := Run.orderly h₀ hr
    have hgrows := Config.log_grows hc hs
    refine ⟨.move (ih.1.mono fun d i e hd => ⟨hd.1, hd.2.mono hgrows⟩) ⟨hg, ih.2.mono hgrows⟩ hs, ?_⟩
    exact ih.2.step hc hs (Run.replay hlog h₀ (.move hr hg hs))

/-- So what a SELECT answers was stored. -/
theorem Attested.fetched (h : Attested db₀ log c) {o : Op Row Env X} {a : Answer o} {l : Client Row Env X}
    {sv : Server ι Row Key Uniq World} (hx : machine.exec i e (c.threads i).loc c.shared o = some (some a, l, sv)) :
    Fetched (Ever db₀ log) o a := by
  unfold Fetched
  split
  · next p rows =>
    rcases query_pool_done hx with ⟨err, herr, -, -⟩ | ⟨snap, rows', ws, eff, hs, -, heff, hres, -, hok, -, -⟩
    · cases herr
    · obtain rfl := Except.ok.inj hok
      subst heff
      simp only [Stmt.run, Except.ok.injEq, Prod.mk.injEq] at hres
      refine ⟨e, fun r hr => ?_⟩
      rw [← hres.1] at hr
      obtain ⟨hr, hp⟩ := List.mem_filter.1 hr
      exact ⟨hp, h.snap i snap hs r hr⟩
  · trivial

end
end ReadCommitted
