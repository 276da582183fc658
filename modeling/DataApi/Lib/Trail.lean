/-
The trail a client leaves: the marks of what it writes, in order, first in its
transaction and then for good (`trailing`). Programs that follow the protocol
leave in the log what they say they leave (`Run.trailed`).
-/
import DataApi.Lib.Announce

namespace ReadCommitted

open Resumption Relational

/-- The marks in a transaction, and those that are committed. -/
structure Trail (μ : Type) where
  opened : List μ := []
  left : List μ := []

variable {ι Row Key Uniq Env X World α μ : Type} [Schema Row Key Uniq] [DecidableEq Key] [DecidableEq Uniq]
  [DecidableEq ι] [StepEnv Env] [Outer X World Env] {mark : Write Row Key → Option μ}

/-- After a statement that leaves `ms`. -/
def Trail.add (s : Trail μ) (ms : List μ) : Via → Trail μ
  | .tx => { s with opened := s.opened ++ ms }
  | .pool => { s with left := s.left ++ ms }

/-- `q` leaves these marks. -/
def Leaves (mark : Write Row Key → Option μ) (q : Stmt Row Env) (ms : List μ) : Prop :=
  ∀ rows ws, Ran q rows ws → ws.filterMap mark = ms

/-- The protocol of a client that sends statements of `U`, and commits what
`C` allows. -/
def trailing (mark : Write Row Key → Option μ) (U : Via → Stmt Row Env → Prop) (C : List μ → Prop) :
    Protocol (@Answer Row Key Uniq Env X World _ _) (Trail μ) where
  may s
    | .query via q => U via q
    | .commit => C s.opened
    | _ => True
  next s
    | .query via q, .ok rows, t => ∃ ws, Ran q rows ws ∧ t = s.add (ws.filterMap mark) via
    | .commit, .ok _, t => t = { opened := [], left := s.left ++ s.opened }
    | .begin, .ok _, t | .commit, .error _, t | .rollback, _, t => t = { s with opened := [] }
    | _, _, t => t = s

/-- The marks of client `i` in a log. -/
def trailOf (mark : Write Row Key → Option μ) (i : ι) (log : List (ι × List (Write Row Key))) : List μ :=
  log.flatMap fun t => if t.1 = i then t.2.filterMap mark else []

/-- What the ghost state of `trailing` says of a client. -/
structure Trailed (mark : Write Row Key → Option μ) (i : ι) (s : Trail μ) (c : Client Row Env X)
    (sv : Server ι Row Key Uniq World) : Prop where
  opened : c.writes.filterMap mark = s.opened
  left : trailOf mark i sv.log = s.left

section
variable {guard : Clients ι Row Env X α → ι → Env → Prop} {c₀ c c' : Clients ι Row Env X α} {i j : ι} {e : Env}
  {U : Via → Stmt Row Env → Prop} {C : List μ → Prop} {s : Trail μ} {l : Client Row Env X}
  {sv sv' : Server ι Row Key Uniq World} {log : List (ι × List (Write Row Key))} {ws : List (Write Row Key)}

omit [DecidableEq Key] in
theorem trailOf_own : trailOf mark i (log ++ [(i, ws)]) = trailOf mark i log ++ ws.filterMap mark := by
  simp [trailOf]

omit [DecidableEq Key] in
theorem trailOf_other (h : j ≠ i) : trailOf mark j (log ++ [(i, ws)]) = trailOf mark j log := by
  simp [trailOf, Ne.symm h]

/-- A commit of the client: of its transaction, or of a statement by itself, on
these rows. -/
def Committed (mark : Write Row Key → Option μ) (U : Via → Stmt Row Env → Prop) (C : List μ → Prop) (db : List Row)
    (ws : List (Write Row Key)) : Prop :=
  C (ws.filterMap mark) ∨ ∃ q env snap alive rows, U .pool q ∧ (q.run env snap alive db).result = .ok (rows, ws)

theorem Trailed.done (h : Trailed mark i s l sv) {o : Op Row Env X} {r : Answer o} {l' : Client Row Env X}
    (hm : (trailing mark U C).may s o) (hx : machine.exec i e l sv o = some (some r, l', sv')) :
    ∃ t, (trailing mark U C).next s o r t ∧ Trailed mark i t l' sv' ∧
      (sv'.log = sv.log ∨ ∃ ws, sv'.log = sv.log ++ [(i, ws)] ∧ Committed mark U C sv.db ws) := by
  cases o with
  | query via q =>
    cases via with
    | tx =>
      rcases query_tx_done hx with ⟨err, rfl, rfl, rfl⟩ | ⟨t, snap, rows, ws, eff, ht, hs, -, heff, hres, -, rfl, rfl, rfl⟩
      · exact ⟨s, rfl, ⟨h.opened, h.left⟩, .inl rfl⟩
      · subst heff
        refine ⟨s.add (ws.filterMap mark) .tx, ⟨ws, ⟨_, _, _, _, hres⟩, rfl⟩, ⟨?_, h.left⟩, .inl rfl⟩
        have hopened : t.writes.filterMap mark = s.opened := by simpa [Client.writes, ht] using h.opened
        simp [Client.writes, Client.done, Trail.add, hopened]
    | pool =>
      rcases query_pool_done hx with ⟨err, rfl, rfl, rfl⟩ | ⟨snap, rows, ws, eff, hs, -, heff, hres, -, rfl, rfl, rfl⟩
      · exact ⟨s, rfl, ⟨h.opened, h.left⟩, .inl rfl⟩
      · subst heff
        refine ⟨s.add (ws.filterMap mark) .pool, ⟨ws, ⟨_, _, _, _, hres⟩, rfl⟩, ⟨h.opened, ?_⟩,
          .inr ⟨ws, rfl, .inr ⟨q, _, _, _, rows, hm, hres⟩⟩⟩
        show trailOf mark i (sv.log ++ [(i, ws)]) = _
        rw [trailOf_own, h.left]
        rfl
  | begin =>
    rcases begin_done hx with ⟨_, rfl, rfl, rfl⟩ | ⟨rfl, rfl, rfl⟩
    · exact ⟨s, rfl, ⟨h.opened, h.left⟩, .inl rfl⟩
    · exact ⟨_, rfl, ⟨rfl, h.left⟩, .inl rfl⟩
  | commit =>
    rcases commit_done hx with ⟨_, rfl, rfl, rfl⟩ | ⟨rfl, rfl, rfl⟩
    · exact ⟨_, rfl, ⟨rfl, h.left⟩, .inl rfl⟩
    · refine ⟨_, rfl, ⟨rfl, ?_⟩, .inr ⟨l.writes, rfl, .inl (h.opened ▸ hm)⟩⟩
      show trailOf mark i (sv.log ++ [(i, l.writes)]) = _
      rw [trailOf_own, h.left, h.opened]
  | rollback =>
    obtain ⟨rfl, rfl⟩ := rollback_done hx
    exact ⟨_, rfl, ⟨rfl, h.left⟩, .inl rfl⟩
  | outer x =>
    obtain ⟨rfl, rfl, rfl⟩ := outer_done hx
    exact ⟨s, rfl, ⟨h.opened, h.left⟩, .inl rfl⟩

/-- Clients that follow `trailing`: each commit is one their protocol allows,
and a client that has returned has left what its result says. What the clients
are told of an answer the guard has seen to. -/
theorem Run.trailed {U : ι → Via → Stmt Row Env → Prop} {C : ι → List μ → Prop} {Q : ι → List μ → α → Prop}
    {tells : ι → (o : Op Row Env X) → Answer o → Prop} (hlog : c₀.shared.log = []) (h₀ : Orderly c₀)
    (start : ∀ i, (c₀.threads i).loc.tx = none)
    (htells : ∀ c i e o (r : Answer o) l sv, guard c i e →
      machine.exec i e (c.threads i).loc c.shared o = some (some r, l, sv) → tells i o r)
    (follows : ∀ i, (c₀.threads i).prog.Follows ((trailing mark (U i) (C i)).told (tells i)) (fun s a => Q i s.left a) {})
    (h : Run machine guard c₀ c) :
    Logged (fun db i ws => Committed mark (U i) (C i) db ws) c₀.shared.db c.shared.log ∧
      ∀ i a, c.returned i = some a → Q i (trailOf mark i c.shared.log) a := by
  obtain ⟨hL, g, hg⟩ : Logged (fun db i ws => Committed mark (U i) (C i) db ws) c₀.shared.db c.shared.log ∧
      ∃ g : ι → Trail μ, ∀ i, Trailed mark i (g i) (c.threads i).loc c.shared ∧
        (c.threads i).prog.Follows ((trailing mark (U i) (C i)).told (tells i)) (fun s a => Q i s.left a) (g i) := by
    refine Run.clients hlog h₀ (fun i => ?_) follows ?_ ?_ ?_ ?_ h
    · exact ⟨by simp [Client.writes, start i], by simp [hlog, trailOf]⟩
    · intro c c' i j e s hc _ hs hj _ hH
      rcases hc.log_cases hs with ⟨-, hlog⟩ | ⟨ws, -, hlog, -⟩
      · exact ⟨hH.opened, by rw [hlog]; exact hH.left⟩
      · exact ⟨hH.opened, by rw [hlog, trailOf_other hj]; exact hH.left⟩
    · exact fun i s l sv hH _ => ⟨hH.opened, hH.left⟩
    · intro c i e o k r l sv s _ _ _ hg _ hm hH hx
      obtain ⟨t, hn, hH', hdone⟩ := hH.done hm hx
      exact ⟨t, ⟨hn, htells c i e o r l sv hg hx⟩, hH', hdone⟩
    · exact fun i s a l sv hH hQ => ⟨{ s with opened := [] }, hQ, rfl, hH.left⟩
  refine ⟨hL, fun i a ha => ?_⟩
  obtain ⟨hH, hF⟩ := hg i
  rw [Config.returned_iff.1 ha] at hF
  rw [hH.left]
  exact hF

end
end ReadCommitted
