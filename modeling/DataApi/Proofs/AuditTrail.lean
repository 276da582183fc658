/-
The audit log is complete and exact: a request that has answered has left the
audit rows its answer calls for and no others, and where a change shares its
transaction with its audit row the one is never committed without the other.
-/
import DataApi.Auditing

namespace DataApi.AuditTrail

open Relational ReadCommitted Resumption

section
variable {ι : Type} [DecidableEq ι] {st : AppState} {reqs : ι → Request} {sv : Sv ι}
  {guard : Clients ι Row Env Io Outcome → ι → Env → Prop} {c : Clients ι Row Env Io Outcome}

theorem trailed (hq : sv.Quiescent) (h : Run machine guard (Service.start st reqs sv) c) :
    ReadCommitted.Logged (fun db i ws => Committed auditMark
      (MaySend (reqs i).stamp ((reqs i).Wipes (Ever sv.db c.shared.log))) (MayCommit (reqs i).stamp) db ws) sv.db c.shared.log ∧
      ∀ i a, c.returned i = some a → ∀ reply, a = .ok reply →
        (reqs i).Leaves (Ever sv.db c.shared.log) reply (trailOf auditMark i c.shared.log) :=
  Run.trailed (U := fun i => MaySend (reqs i).stamp ((reqs i).Wipes (Ever sv.db c.shared.log)))
    (C := fun i => MayCommit (reqs i).stamp)
    (Q := fun i ms a => ∀ reply, a = .ok reply → (reqs i).Leaves (Ever sv.db c.shared.log) reply ms)
    hq.log (Orderly.start hq) (fun _ => rfl) (fun _ _ _ _ _ _ _ hd hx => hd.2.fetched hx)
    (fun i => handle_trails st (reqs i)) (Run.attested hq.log (Orderly.start hq) (fun _ => rfl) h).1

/-- The flag of a participant whose audio the request deletes, set on its row as
it stood. -/
def Flags (req : Request) (stored : Row → Prop) (db : Db) (ws : List (Write Row Key)) : Prop :=
  ∃ sid raw, req.Wipes stored sid raw ∧ ∀ w ∈ ws, ∃ (p : Participant) (now : Timestamp), .participant p ∈ db ∧
    p.sessionId = sid ∧ p.pseudoId.raw = raw ∧ w = .update (.participant { p with dataWipedAt := some now })

/-- The statements that are outside the transaction. -/
theorem pool_writes {stamp : String × String} {req : Request} {stored : Row → Prop} {q : Sql}
    (h : MaySend (some stamp) (req.Wipes stored) .pool q) {env : Env} {snap alive db rows : Db} {ws : List (Write Row Key)}
    (hrun : (q.run env snap alive db).result = .ok (rows, ws)) : ws = [] ∨ Flags req stored db ws := by
  rcases h with h | ⟨p, rfl⟩ | ⟨sid, pid, hwipes, rfl⟩
  · cases h
  · simp only [Stmt.run, Except.ok.injEq, Prod.mk.injEq] at hrun
    exact .inl hrun.2.symm
  · refine .inr ⟨sid, pid.raw, hwipes, fun w hw => ?_⟩
    obtain ⟨p, hp, hpair, rfl, -⟩ := update_ok_write hrun hw
    obtain ⟨hsid, hpseudo⟩ : p.sessionId = sid ∧ p.pseudoId = pid := by simpa [Participants.ofPair] using hpair
    exact ⟨p, env.now, hp, hsid, congrArg PseudoId.raw hpseudo, rfl⟩

end

/-- A request that has answered has left in the log the audit rows its answer
calls for, in order, and no others. -/
theorem audit_complete {ι : Type} [DecidableEq ι] (st : AppState) (reqs : ι → Request) {sv : Sv ι} (hq : sv.Quiescent)
    {c : Clients ι Row Env Io Outcome} (h : Run machine (fun _ _ _ => True) (Service.start st reqs sv) c) {i : ι}
    {reply : Reply} (hi : c.returned i = some (.ok reply)) :
    (reqs i).Leaves (Ever sv.db c.shared.log) reply (trailOf auditMark i c.shared.log) := (trailed hq h).2 i _ hi reply rfl

/-- Beats are added while the session is deleted. -/
def sampleBeats : UniformRoutes.BulkRequest :=
  { beats := some [{ clientId := "a", startMs := 0, endMs := 1, title := some "x" },
      { clientId := "b", startMs := 1, endMs := 2, title := some "y" }] }

def sampleRequests : Bool → Request
  | false => .bulkCreate .beats "bot" Sample.sessionId sampleBeats
  | true => .deleteCascade "bot" Sample.sessionId

def insertedOf : Option Outcome → Nat
  | some (.ok (.bulk r)) => r.inserted.length
  | _ => 0

theorem insertedOf_two {x : Option Outcome} (h : insertedOf x = 2) : ∃ r, x = some (.ok (.bulk r)) ∧ r.inserted.length = 2 := by
  unfold insertedOf at h
  split at h
  · exact ⟨_, rfl, h⟩
  · cases h

theorem sample_run : ∃ c : Clients Bool Row Env Io Outcome,
    Run machine (fun _ _ _ => True) (Service.start Sample.state sampleRequests (Sample.server [.session Sample.session])) c ∧
      insertedOf (c.returned false) = 2 ∧ true ∈ c.shared.log.map (·.1) := by
  have hrun : ((Service.start Sample.state sampleRequests (Sample.server [.session Sample.session])).play machine
      (Sample.moves 0 [(false, 12), (true, 24), (false, 8)])).map (fun c =>
        decide (insertedOf (c.returned false) = 2 ∧ true ∈ c.shared.log.map (·.1))) = some true := by decide +kernel
  obtain ⟨c, hc, hsome⟩ := Option.map_eq_some_iff.1 hrun
  exact ⟨c, Run.play (Config.guarded_of_all (fun _ _ _ => trivial) _) .nil hc, of_decide_eq_true hsome⟩

theorem audit_complete_sample : ∃ (c : Clients Bool Row Env Io Outcome) (r : Uniform.BulkResult),
    c.returned false = some (.ok (.bulk r)) ∧ r.inserted.length = 2 ∧
      trailOf auditMark false c.shared.log = r.inserted.map fun u => ⟨"beat", u.id.text, "created"⟩ := by
  obtain ⟨c, h, htwo, -⟩ := sample_run
  obtain ⟨r, hr, hlen⟩ := insertedOf_two htwo
  exact ⟨c, r, hr, hlen, audit_complete Sample.state sampleRequests Sample.quiescent h hr⟩

/-- Whatever a request commits that audits in its transaction, one audit row of
its kind is among it; else it commits nothing, or only the flag of a participant
whose audio it deletes. -/
theorem changes_audited {ι : Type} [DecidableEq ι] (st : AppState) (reqs : ι → Request) {sv : Sv ι} (hq : sv.Quiescent)
    {c : Clients ι Row Env Io Outcome} (h : Run machine (fun _ _ _ => True) (Service.start st reqs sv) c)
    {pre post : List (ι × List (Write Row Key))} {t : ι × List (Write Row Key)} (ht : c.shared.log = pre ++ t :: post)
    {resourceType action : String} (hstamp : (reqs t.1).stamp = some (resourceType, action)) :
    (∃ id, t.2.filterMap auditMark = [⟨resourceType, id, action⟩]) ∨
      t.2 = [] ∨ Flags (reqs t.1) (Ever sv.db c.shared.log) (ReadCommitted.replay sv.db pre) t.2 := by
  have hdone : Committed auditMark (MaySend (reqs t.1).stamp _) (MayCommit (reqs t.1).stamp) _ t.2 :=
    (trailed hq h).1 pre t.1 t.2 post ht
  rw [hstamp] at hdone
  rcases hdone with hmarks | ⟨q, env, snap, alive, rows, hq, hrun⟩
  · obtain ⟨m, hm, heq⟩ := List.map_eq_singleton_iff.1 hmarks
    obtain ⟨htype, haction⟩ := Prod.mk.inj heq
    exact .inl ⟨m.resourceId, by rw [hm, ← htype, ← haction]⟩
  · exact .inr (pool_writes hq hrun)

theorem changes_audited_sample : ∃ (c : Clients Bool Row Env Io Outcome) (pre : List (Bool × List (Write Row Key)))
    (t : Bool × List (Write Row Key)) (post : List (Bool × List (Write Row Key))),
    c.shared.log = pre ++ t :: post ∧ t.1 = true ∧
      ((∃ id, t.2.filterMap auditMark = [⟨"session", id, "deleted"⟩]) ∨
        t.2 = [] ∨ Flags (sampleRequests t.1) (Ever [.session Sample.session] c.shared.log)
          (ReadCommitted.replay [.session Sample.session] pre) t.2) := by
  obtain ⟨c, h, -, hmem⟩ := sample_run
  obtain ⟨t, ht, htrue⟩ := List.mem_map.1 hmem
  obtain ⟨pre, post, hlog⟩ := List.append_of_mem ht
  refine ⟨c, pre, t, post, hlog, htrue, changes_audited Sample.state sampleRequests Sample.quiescent h hlog ?_⟩
  rw [htrue]
  rfl

end DataApi.AuditTrail
