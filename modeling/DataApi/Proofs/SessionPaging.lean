/-
Paging through `sessions::list`. Its sort key, the start of a session, need not
be unique, and the server owes rows that tie no order; the pages are right
exactly when no tie lies across the end of one.
-/
import DataApi.Lib.Paging
import DataApi.Outcomes

namespace DataApi.SessionPaging

open Relational ReadCommitted Resumption Handler

/-- The sessions that a filter asks for. -/
def matching (db : Db) (status : Option SessionStatus) (guildId : Option Int) : List Session :=
  (sessionsT.rows db).filter (Sessions.filtered status guildId)

/-- `list(limit = n, offset = k * n)`. -/
def query (status : Option SessionStatus) (guildId : Option Int) (n k : Nat) : Sessions.ListFilter :=
  { status := status.map SessionStatus.asStr, guildId := guildId, limit := some (n : Int), offset := some ((k * n : Nat) : Int) }

/-- Its answer on the committed rows. -/
def answered (env : Nat → Env) (db : Db) (w : World) (order : List Session → List Session) (f : Sessions.ListFilter) :
    Except AppError (List Session) :=
  (solo env 0 ⟨none, db, w⟩ (SessionRoutes.list order f).run).1

/-- Put together until one is empty, the pages are these sessions, each of them
once, the latest first. -/
def Complete (rows : List Session) (answers : Nat → Except AppError (List Session)) : Prop :=
  ∃ pages, (∀ k, answers k = .ok (pages k)) ∧
    ∃ out, Paging.Collects pages 0 out ∧ out.Perm rows ∧ out.Pairwise fun s s' => s'.startedAt ≤ s.startedAt

section
variable {env : Nat → Env} {db : Db} {w : World} {status : Option SessionStatus} {guildId : Option Int} {n k : Nat}

theorem matching_nodup (h : KeysUnique db) : (matching db status guildId).Nodup :=
  (sessionsT.rows_keys_nodup h).of_map.filter _

theorem parse_status : (status.map SessionStatus.asStr).mapM SessionStatus.fromStr = .ok status := by
  cases status with
  | none => rfl
  | some s =>
    show (do let s ← SessionStatus.fromStr s.asStr; pure (some s)) = _
    rw [SessionStatus.fromStr_asStr]
    rfl

theorem window_page {rows : List Session} :
    Sessions.window (some (n : Int)) (some ((k * n : Nat) : Int)) rows = .ok (Paging.page n k rows) := by
  have hn : ¬(n : Int) < 0 := by omega
  have hk : ¬((k * n : Nat) : Int) < 0 := by omega
  simp only [Sessions.window, Option.getD_some, hn, hk, decide_false, Bool.or_self, Bool.false_eq_true, if_false,
    Int.toNat_natCast, Paging.page]

/-- A query answers one page of the rows in the order its server chose. -/
theorem answered_page (hf : (env 0).fails = false) (order : List Session → List Session) :
    answered env db w order (query status guildId n k) = .ok (Paging.page n k (order (matching db status guildId))) := by
  have hends : Ends env 0 ⟨none, db, w⟩ (SessionRoutes.list order (query status guildId n k))
      fun a _ => a = .ok (Paging.page n k (order (matching db status guildId))) := by
    rw [SessionRoutes.list, Sessions.list]
    simp only [query, parse_status, fetchAll, bind_assoc]
    refine ends_ofResult.2 (ends_pool.2 ?_)
    rw [Sessions.listSql, answer_select hf]
    simp only [pure_bind, sessionsT.rows_filter_is, window_page]
    rfl
  exact hends

/-- Paging is complete, however the server orders ties, if and only if no
sessions with the same start stand on both sides of the end of a page. -/
theorem complete_iff (hkeys : KeysUnique db) (hn : 0 < n) (status : Option SessionStatus) (guildId : Option Int) (w : World) :
    (∀ (envs : Nat → Nat → Env) (orders : Nat → List Session → List Session), (∀ k, (envs k 0).fails = false) →
      (∀ k, Paging.Arranges (·.startedAt) (matching db status guildId) (orders k (matching db status guildId))) →
      Complete (matching db status guildId) fun k => answered (envs k) db w (orders k) (query status guildId n k)) ↔
    Paging.Unsplit (·.startedAt) n (matching db status guildId) := by
  rw [← Paging.exact_iff hn (matching_nodup hkeys)]
  constructor
  · intro h orders horders
    obtain ⟨pages, hpages, out, hout⟩ := h (fun _ => Sample.env) (fun k _ => orders k) (fun _ => rfl) horders
    have hpage : pages = fun k => Paging.page n k (orders k) := by
      funext k
      exact Except.ok.inj ((hpages k).symm.trans (answered_page rfl _))
    rw [hpage] at hout
    exact ⟨out, hout⟩
  · intro h envs orders hf horders
    obtain ⟨out, hout⟩ := h _ horders
    exact ⟨_, fun k => answered_page (hf k) (orders k), out, hout⟩

end

/-- Two sessions with the same start. -/
def tied : Db := [.session Sample.session, .session { Sample.session with id := 2 }]

/-- They stay on one page of two. -/
theorem tied_complete : KeysUnique tied ∧
    ∀ (envs : Nat → Nat → Env) (orders : Nat → List Session → List Session), (∀ k, (envs k 0).fails = false) →
      (∀ k, Paging.Arranges (·.startedAt) (matching tied none none) (orders k (matching tied none none))) →
      Complete (matching tied none none) fun k => answered (envs k) tied Sample.world (orders k)
        (query none none 2 k) := by
  have hkeys : KeysUnique tied := by decide
  refine ⟨hkeys, (complete_iff hkeys (by decide) none none Sample.world).2 ?_⟩
  decide

/-- The server turns ties around in every other query. -/
def turning (k : Nat) (rows : List Session) : List Session := if k % 2 = 0 then rows else rows.reverse

/-- On pages of one session, the first is answered twice and the other never. -/
theorem repeated_and_missed : KeysUnique tied ∧
    (∀ k, Paging.Arranges (·.startedAt) (matching tied none none) (turning k (matching tied none none))) ∧
    ¬Complete (matching tied none none) fun k => answered Sample.env tied Sample.world (turning k) (query none none 1 k) := by
  have hkeys : KeysUnique tied := by decide
  have hrows : matching tied none none = [Sample.session, { Sample.session with id := 2 }] := rfl
  refine ⟨hkeys, fun k => ?_, ?_⟩
  · unfold turning
    split
    · exact ⟨.refl _, by rw [hrows]; simp⟩
    · exact ⟨List.reverse_perm _, by rw [hrows]; simp [Sample.session, Sessions.createRow]⟩
  · rintro ⟨pages, hpages, out, hout, hperm, -⟩
    have hpage : ∀ k, pages k = Paging.page 1 k (turning k (matching tied none none)) := by
      intro k
      exact Except.ok.inj ((hpages k).symm.trans (answered_page rfl _))
    have hout' : out = pages 0 ++ (pages 1 ++ []) := by
      refine hout.unique (.more ?_ (.more ?_ (.done ?_)))
      · rw [hpage, hrows]; simp [turning, Paging.page]
      · rw [hpage, hrows]; simp [turning, Paging.page]
      · rw [hpage, hrows]; simp [turning, Paging.page]
    have hdup : out = [Sample.session, Sample.session] := by
      rw [hout', hpage, hpage, hrows]
      rfl
    have hnodup := hperm.nodup_iff.2 (matching_nodup hkeys)
    rw [hdup] at hnodup
    simp at hnodup

end DataApi.SessionPaging
