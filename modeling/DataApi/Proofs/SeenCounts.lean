/-
The seen count of a display name is exact: whatever requests run at once, no
sighting is lost and none is counted twice, and each call is told which one
its own was.
-/
import DataApi.Lib.Tally
import DataApi.Lib.Trail
import DataApi.Proofs.RowHistories

namespace DataApi

open Relational ReadCommitted Resumption Handler

/-- The sighting that a write records. -/
def sighting : Write Row Key → Option DisplayName
  | .insert (.displayName d) | .update (.displayName d) => some d
  | _ => none

/-- Seen once more than before. -/
def OneMore (x r : Row) : Prop := ∀ d d', x = .displayName d → r = .displayName d' → d'.seenCount = d.seenCount + 1

/-- Display names enter as seen once, are seen once more each time, and stay. -/
def seeing : Policy Row Key where
  enters := Row.Fresh
  alters := OneMore
  removes r := (key r).table ≠ .displayNames

def seenCount : Row → Int
  | .displayName d => d.seenCount
  | _ => 0

/-! ## The statements -/

section
variable {req : Request} {q : Sql} {τ : Type} {T : Table Row τ}

/-- A statement that updates no display name. -/
def Unseeing (q : Sql) : Prop :=
  ∀ env snap alive cur rows ws, (q.run env snap alive cur).result = .ok (rows, ws) → ∀ d, .update (.displayName d) ∉ ws

theorem unseeing_writes {D : TableName → Prop} (h : Writes D q) (hD : ¬D .displayNames) : Unseeing q :=
  fun env snap alive cur rows ws hrun _ hd => hD (h env snap alive cur rows ws hrun _ hd)

theorem unseeing_select {p : Env → Row → Bool} : Unseeing (.select p) := by
  intro env snap alive cur rows ws hrun d hd
  simp only [Stmt.run, Except.ok.injEq, Prod.mk.injEq] at hrun
  rw [← hrun.2] at hd
  cases hd

theorem unseeing_forUpdate {p : Row → Bool} : Unseeing (.forUpdate p) := by
  intro env snap alive cur rows ws hrun d hd
  simp only [Stmt.run, Except.ok.injEq, Prod.mk.injEq] at hrun
  rw [← hrun.2] at hd
  cases hd

theorem unseeing_insert {mk : Env → List Row → Except (DbError Key Uniq) τ} : Unseeing (T.insert mk) := by
  intro env snap alive cur rows ws hrun d hd
  obtain ⟨t, -, -, -, -, -, rfl⟩ := insert_ok hrun
  simp at hd

theorem unseeing_update {p : τ → Bool} {set : Env → τ → τ} {hk : ∀ e, T.Keeps (set e)}
    (hT : ∀ t d, T.put t ≠ .displayName d) : Unseeing (T.update p set hk) := by
  intro env snap alive cur rows ws hrun d hd
  obtain ⟨t, -, -, hw, -⟩ := update_ok_write hrun hd
  exact hT _ d (Write.update.inj hw).symm

theorem unseeing_delete {p : τ → Bool} : Unseeing (T.delete p) := by
  intro env snap alive cur rows ws hrun d hd
  obtain ⟨-, rfl⟩ := delete_ok hrun
  simp at hd

theorem Issues.unseeing (h : Issues req q) : (∃ pid input, q = DisplayNames.upsertSql pid input) ∨ Unseeing q := by
  cases h with
  | displayName svc raw pid input => exact .inl ⟨pid, input, rfl⟩
  | select => exact .inr unseeing_select
  | forUpdate => exact .inr unseeing_forUpdate
  | delete => exact .inr unseeing_delete
  | audit | created | chunk | bulk | mute | token => exact .inr unseeing_insert
  | status | fields | resumed | tombstone | chunkKey | consent | license | wiped | consentByToken | licenseByToken |
    wipedByToken => exact .inr (unseeing_update fun _ _ h => by cases h)
  | row => exact .inr (unseeing_update fun _ _ h => by cases h)
  | added svc sid input => exact .inr (unseeing_writes (Participants.addSql_writes sid input) (by simp))
  | seeded svc sid ps => exact .inr (unseeing_writes (Participants.seedUsersSql_writes ps) (by simp))
  | addedAll svc sid ps => exact .inr (unseeing_writes (Participants.addManySql_writes sid ps) (by simp))
  | user svc pid | named svc raw pid => exact .inr (unseeing_writes (Users.upsertSql_writes pid) (by simp))
  | admin svc raw pid isAdmin => exact .inr (unseeing_writes (Users.setAdminSql_writes pid isAdmin) (by simp))
  | granted req => exact .inr (unseeing_writes (Users.setAdminSql_writes req.pseudoId req.isAdmin) (by simp))
  | replaced svc id body etag => exact .inr (unseeing_writes (Metadata.upsertSql_writes id body etag) (by simp))
  | merged svc id headers body merged etag => exact .inr (unseeing_writes (Metadata.upsertSql_writes id merged etag) (by simp))

theorem upsert_seeing (pid : PseudoId) (input : DisplayNames.UpsertDisplayName) :
    (DisplayNames.upsertSql pid input).Heeds K seeing := by
  refine insert_heeds (fun env snap xs hxs x hx => ?_) fun env snap xs hxs x hx a set ho e => ?_
  · obtain rfl := Except.ok.inj hxs
    rw [List.mem_singleton.1 hx]
    exact ⟨rfl, rfl⟩
  · obtain rfl := Except.ok.inj hxs
    rw [List.mem_singleton.1 hx] at ho
    obtain ⟨rfl, rfl⟩ := ho
    intro d d' hd hd'
    subst hd
    obtain rfl := Row.displayName.inj hd'
    rfl

theorem Issues.seeing {stored : Row → Prop} (h : Issues req q) (hdelete : Clears stored req q) :
    q.Heeds (req.finds stored) seeing := by
  rcases h.unseeing with ⟨pid, input, rfl⟩ | hnone
  · exact upsert_seeing pid input
  · intro env snap alive cur rows ws hu hfinds hrun
    have hall := (h.heeds hdelete env snap alive cur rows ws hu hfinds hrun).altering (R := OneMore) fun r hr x d d' _ hd =>
      absurd (hd ▸ hr) (hnone env snap alive cur rows ws hrun d')
    refine hall.mono (fun r (hr : _ ∧ _) => hr.1) (fun x r (hr : _ ∧ _) => hr.2) fun x hx htable => ?_
    exact RowHistories.Removes.passing hx (by simp [htable, RowHistories.permanent])

/-- A sighting returns the row it writes. -/
theorem upsert_ran {pid : PseudoId} {input : DisplayNames.UpsertDisplayName} {rows : Db} {ws : List (Write Row Key)}
    (h : Ran (DisplayNames.upsertSql pid input) rows ws) :
    ∃ d, rows = [.displayName d] ∧ ws.filterMap sighting = [d] := by
  obtain ⟨env, snap, alive, cur, hrun⟩ := h
  obtain ⟨-, ⟨rfl, rfl, -⟩ | ⟨-, -, a, ho, -⟩ | ⟨a, set, l, e, ho, hc, -, -, rfl, rfl, -⟩⟩ :=
    insertRow_cases (insertRows_singleton hrun)
  · exact ⟨_, rfl, rfl⟩
  · cases ho
  · obtain ⟨rfl, rfl⟩ := ho
    obtain ⟨hl, -, hle⟩ := clash_some hc
    have hkey := onPk_key (List.mem_filter.1 hl).1 (List.mem_filter.1 hl).2 hle
    cases e with
    | displayName d => exact ⟨DisplayNames.seeAgain env d, rfl, rfl⟩
    | _ => cases hkey

end

/-! ## The sightings of a name -/

section
variable {ι : Type} {pid : PseudoId} {name : String} {log : List (ι × List (Write Row Key))} {i : ι}

/-- The sightings of a name, in the order of their commits and each with its
client. -/
def sightings (pid : PseudoId) (name : String) (log : List (ι × List (Write Row Key))) : List (ι × DisplayName) :=
  log.flatMap fun t => ((t.2.filterMap sighting).filter fun d => d.pseudoId = pid ∧ d.displayName = name).map (t.1, ·)

theorem puts_sighting (ws : List (Write Row Key)) : ws.filterMap (Write.puts (.displayName pid name)) =
    ((ws.filterMap sighting).filter fun d => d.pseudoId = pid ∧ d.displayName = name).map .displayName := by
  induction ws with
  | nil => rfl
  | cons w ws ih =>
    rw [List.filterMap_cons, List.filterMap_cons, ih]
    cases w with
    | insert r | update r =>
      cases r with
      | displayName d =>
        by_cases h : d.pseudoId = pid ∧ d.displayName = name
        · simp [Write.puts, sighting, key, Row.key, h]
        · simp [Write.puts, sighting, key, Row.key, h]
      | _ => simp [Write.puts, sighting, key, Row.key]
    | delete k => rfl

theorem counts_sightings (pid : PseudoId) (name : String) (log : List (ι × List (Write Row Key))) :
    ((log.flatMap (·.2)).filterMap (Write.puts (.displayName pid name))).map seenCount =
      (sightings pid name log).map (·.2.seenCount) := by
  induction log with
  | nil => rfl
  | cons t log ih =>
    simp only [sightings, List.flatMap_cons, List.filterMap_append, List.map_append, puts_sighting, List.map_map] at ih ⊢
    exact congrArg₂ _ rfl ih

theorem filter_pairs [DecidableEq ι] {j : ι} (ds : List DisplayName) :
    (ds.map (j, ·)).filter (·.1 = i) = if j = i then ds.map (i, ·) else [] := by
  by_cases h : j = i
  · rw [if_pos h, h]
    exact List.filter_eq_self.2 fun x hx => by
      obtain ⟨d, -, rfl⟩ := List.mem_map.1 hx
      simp
  · rw [if_neg h]
    exact List.filter_eq_nil_iff.2 fun x hx => by
      obtain ⟨d, -, rfl⟩ := List.mem_map.1 hx
      simpa using h

theorem sightings_own [DecidableEq ι] : (sightings pid name log).filter (·.1 = i) =
    ((trailOf sighting i log).filter fun d => d.pseudoId = pid ∧ d.displayName = name).map (i, ·) := by
  induction log with
  | nil => rfl
  | cons t log ih =>
    simp only [sightings, trailOf, List.flatMap_cons, List.filter_append, List.map_append] at ih ⊢
    refine congrArg₂ _ ?_ ih
    rw [filter_pairs]
    by_cases h : t.1 = i
    · simp [h]
    · simp [h]

end

/-! ## Runs -/

namespace SeenCounts

section
variable {ι : Type} [DecidableEq ι] {guard : Clients ι Row Env Io Outcome → ι → Env → Prop} {st : AppState}
  {reqs : ι → Request} {sv : Sv ι} {c : Clients ι Row Env Io Outcome} 

theorem counts (pid : PseudoId) (name : String) : seeing.Counts seenCount (.displayName pid name) where
  enters r hk hr := by
    cases r with
    | displayName d => exact hr.1
    | _ => cases hk
  alters x r hx hr h := by
    cases r with
    | displayName d' =>
      cases x with
      | displayName d => exact h d d' rfl rfl
      | _ => cases hx
    | _ => cases hr
  keeps x hx h := h (by rw [hx]; rfl)

theorem logged (hq : sv.Quiescent) (h : Run machine guard (Service.start st reqs sv) c) :
    ReadCommitted.Logged (fun db _ ws => seeing.AllowsAll db ws) sv.db c.shared.log :=
  RowHistories.obeyed hq h fun _ _ hissues hclears => hissues.seeing hclears

/-- A call that answered with this row sighted the name once. -/
def Sights (req : Request) (ds : List DisplayName) (a : Outcome) : Prop :=
  ∀ svc raw input d, req = .postDisplay svc raw input → a = .ok (.displayName d) → ds = [d]

/-- What these handlers send, and commit, is not told apart. -/
abbrev Sighting : Protocol (@Answer Row Key Uniq Env Io World _ _) (Trail DisplayName) :=
  trailing sighting (fun _ _ => True) fun _ => True

theorem follows_any {α : Type} {p : Code α} {s : Trail DisplayName} : p.Follows Sighting (fun _ _ => True) s := by
  induction p generalizing s with
  | ret a => trivial
  | op o k ih =>
    refine ⟨?_, fun r t _ => ih r⟩
    cases o <;> trivial

/-- The calls of these handlers leave `ds`, if they answer. -/
abbrev Leaving {β : Type} (ds : β → List DisplayName) (s : Trail DisplayName) (p : Handler β) : Prop :=
  Prog.Follows Sighting (fun t a => ∀ b, a = .ok b → t.left = ds b) s p.run

theorem leaving_query {β : Type} {ds : β → List DisplayName} {q : Sql} {s : Trail DisplayName} {f : List Row → Handler β}
    (hf : ∀ rows ws, Ran q rows ws → Leaving ds { s with left := s.left ++ ws.filterMap sighting } (f rows)) :
    Leaving ds s (query .pool q >>= f) := by
  refine Handler.follows_query trivial (fun e t ht b hb => by cases hb) fun rows t ht => ?_
  obtain ⟨ws, hran, rfl⟩ : ∃ ws, Ran q rows ws ∧ t = s.add (ws.filterMap sighting) .pool := ht
  exact hf rows ws hran

theorem sightings_none {D : TableName → Prop} {q : Sql} (h : Writes D q) (hD : ¬D .displayNames) {rows : Db}
    {ws : List (Write Row Key)} (hran : Ran q rows ws) : ws.filterMap sighting = [] := by
  obtain ⟨env, snap, alive, cur, hrun⟩ := hran
  refine List.filterMap_eq_nil_iff.2 fun w hw => ?_
  have htable := h env snap alive cur rows ws hrun w hw
  unfold sighting
  split
  · exact absurd htable hD
  · exact absurd htable hD
  · rfl

theorem postDisplay_leaves (svc raw : String) (input : DisplayNames.UpsertDisplayName) :
    Leaving (fun d => [d]) {} (UserRoutes.postDisplay svc raw input) := by
  rw [UserRoutes.postDisplay]
  refine Handler.follows_ofResult (fun e _ b hb => by cases hb) fun pid _ => ?_
  rw [Users.upsert, fetchOne, bind_assoc]
  refine leaving_query fun rows ws hran => ?_
  rw [sightings_none (Users.upsertSql_writes pid) (by simp) hran]
  cases (usersT.rows rows).head? with
  | none => exact fun b hb => by cases hb
  | some u =>
    show Leaving _ _ (DisplayNames.upsert pid input >>= _)
    rw [DisplayNames.upsert, bind_assoc]
    refine Handler.follows_refuseIf (fun _ b hb => by cases hb) fun _ => ?_
    rw [fetchOne, bind_assoc]
    refine leaving_query fun rows ws hran => ?_
    obtain ⟨d, rfl, hd⟩ := upsert_ran hran
    rw [hd]
    show Leaving _ _ (AuditLog.append _ >>= fun _ => pure d)
    rw [AuditLog.append, execute, bind_assoc, bind_assoc]
    refine leaving_query fun rows ws hran => ?_
    rw [sightings_none (AuditLog.appendSql_writes _) (by simp) hran]
    exact fun b hb => congrArg (fun d => [d]) (Except.ok.inj hb)

theorem handle_leaves (st : AppState) (req : Request) :
    (handle st req).run.Follows Sighting (fun s a => Sights req s.left a) {} := by
  by_cases h : ∃ svc raw input, req = .postDisplay svc raw input
  · obtain ⟨svc, raw, input, rfl⟩ := h
    refine Handler.follows_map ((postDisplay_leaves svc raw input).mono fun s a hs svc' raw' input' d hreq hd => ?_)
    cases a with
    | error e => cases hd
    | ok x =>
      obtain rfl := Reply.displayName.inj (Except.ok.inj hd)
      exact hs x rfl
  · exact follows_any.mono fun _ _ _ svc raw input _ hreq => absurd ⟨svc, raw, input, hreq⟩ h

theorem sighted (hq : sv.Quiescent) (h : Run machine guard (Service.start st reqs sv) c) {i : ι} {svc raw : String}
    {input : DisplayNames.UpsertDisplayName} (hreq : reqs i = .postDisplay svc raw input) {d : DisplayName}
    (hi : c.returned i = some (.ok (.displayName d))) : trailOf sighting i c.shared.log = [d] := by
  have htrail := Run.trailed (U := fun _ _ _ => True) (C := fun _ _ => True)
    (Q := fun i ds a => Sights (reqs i) ds a) hq.log (Orderly.start hq) (fun _ => rfl)
    (fun _ _ _ _ _ _ _ _ _ => trivial) (fun i => (handle_leaves st (reqs i)).told) h
  exact htrail.2 i _ hi svc raw input d hreq rfl

end

/-- A call has answered with this row. -/
def Answered {ι : Type} (reqs : ι → Request) (c : Clients ι Row Env Io Outcome) (i : ι) (d : DisplayName) : Prop :=
  ∃ svc raw input, reqs i = .postDisplay svc raw input ∧ c.returned i = some (.ok (.displayName d))

/-- The stored count of a name is the one at the start and one more for each
sighting since; the sightings are numbered from it in the order of their
commits; a call that has answered made one and returned it; and no two calls
return the same count. -/
theorem seen_counts_exact {ι : Type} [DecidableEq ι] (st : AppState) (reqs : ι → Request) {sv : Sv ι} (hq : sv.Quiescent)
    {c : Clients ι Row Env Io Outcome} (h : Run machine (fun _ _ _ => True) (Service.start st reqs sv) c)
    (pid : PseudoId) (name : String) :
    tally seenCount (.displayName pid name) c.shared.db =
      tally seenCount (.displayName pid name) sv.db + (sightings pid name c.shared.log).length ∧
    (sightings pid name c.shared.log).map (·.2.seenCount) =
      (List.range (sightings pid name c.shared.log).length).map
        (fun n : Nat => tally seenCount (.displayName pid name) sv.db + n + 1) ∧
    ∀ i d, Answered reqs c i d → d.pseudoId = pid → d.displayName = name →
      (sightings pid name c.shared.log).filter (·.1 = i) = [(i, d)] ∧
      ∀ j d', Answered reqs c j d' → d'.pseudoId = pid → d'.displayName = name → d'.seenCount = d.seenCount → j = i := by
  have hcounted := (logged hq h).counted (counts pid name) hq.keys
  have hlength : ((c.shared.log.flatMap (·.2)).filterMap (Write.puts (.displayName pid name))).length =
      (sightings pid name c.shared.log).length := by
    have hmap := congrArg List.length (counts_sightings pid name c.shared.log)
    simpa using hmap
  rw [counts_sightings, hlength, ← Run.replay hq.log (Orderly.start hq) h] at hcounted
  have hown : ∀ i d, Answered reqs c i d → d.pseudoId = pid → d.displayName = name →
      (sightings pid name c.shared.log).filter (·.1 = i) = [(i, d)] := by
    intro i d hi hpid hname
    obtain ⟨svc, raw, input, hreq, hd⟩ := hi
    rw [sightings_own, sighted hq h hreq hd]
    simp [hpid, hname]
  have hmem : ∀ i d, Answered reqs c i d → d.pseudoId = pid → d.displayName = name → (i, d) ∈ sightings pid name c.shared.log :=
    fun i d hi hpid hname => (List.mem_filter.1 (hown i d hi hpid hname ▸ List.mem_singleton_self (i, d))).1
  have hnodup : ((sightings pid name c.shared.log).map (·.2.seenCount)).Nodup := by
    rw [hcounted.1]
    exact List.nodup_range.map fun m n hmn => by omega
  refine ⟨hcounted.2, hcounted.1, fun i d hi hpid hname => ⟨hown i d hi hpid hname, fun j d' hj hpid' hname' hcount => ?_⟩⟩
  exact congrArg Prod.fst (List.inj_on_of_nodup_map hnodup (hmem j d' hj hpid' hname') (hmem i d hi hpid hname) hcount)

/-- A name is seen twice at once. -/
def sampleRequests (_ : Bool) : Request := .postDisplay "bot" Sample.speaker { displayName := "Ann", source := "bot" }

/-- The row that a call returned. -/
def shown : Option Outcome → Option DisplayName
  | some (.ok (.displayName d)) => some d
  | _ => none

theorem answered_sample {c : Clients Bool Row Env Io Outcome} {i : Bool} {n : Int}
    (h : (shown (c.returned i)).map (fun d => (d.pseudoId, d.displayName, d.seenCount)) = some (⟨Sample.speaker⟩, "Ann", n)) :
    ∃ d, Answered sampleRequests c i d ∧ d.pseudoId = ⟨Sample.speaker⟩ ∧ d.displayName = "Ann" ∧ d.seenCount = n := by
  obtain ⟨d, hd, heq⟩ := Option.map_eq_some_iff.1 h
  simp only [Prod.mk.injEq] at heq
  refine ⟨d, ⟨_, _, _, rfl, ?_⟩, heq⟩
  unfold shown at hd
  split at hd
  · next hi => rw [hi, Option.some.inj hd]
  · cases hd

theorem sample_run : ∃ c : Clients Bool Row Env Io Outcome,
    Run machine (fun _ _ _ => True) (Service.start Sample.state sampleRequests (Sample.server [.session Sample.session])) c ∧
      (∃ d, Answered sampleRequests c false d ∧ d.pseudoId = ⟨Sample.speaker⟩ ∧ d.displayName = "Ann" ∧ d.seenCount = 2) ∧
      ∃ d, Answered sampleRequests c true d ∧ d.pseudoId = ⟨Sample.speaker⟩ ∧ d.displayName = "Ann" ∧ d.seenCount = 1 := by
  have hrun : ((Service.start Sample.state sampleRequests (Sample.server [.session Sample.session])).play machine
      (Sample.moves 0 [(false, 2), (true, 4), (false, 2), (true, 2), (false, 2)])).map (fun c => [false, true].map fun i =>
        (shown (c.returned i)).map fun d => (d.pseudoId, d.displayName, d.seenCount)) =
      some [some (⟨Sample.speaker⟩, "Ann", 2), some (⟨Sample.speaker⟩, "Ann", 1)] := by decide +kernel
  obtain ⟨c, hc, hsome⟩ := Option.map_eq_some_iff.1 hrun
  simp only [List.map_cons, List.map_nil, List.cons.injEq, and_true] at hsome
  exact ⟨c, Run.play (Config.guarded_of_all (fun _ _ _ => trivial) _) .nil hc, answered_sample hsome.1, answered_sample hsome.2⟩

theorem seen_counts_exact_sample : ∃ (c : Clients Bool Row Env Io Outcome) (d d' : DisplayName),
    (d.seenCount = 2 ∧ d'.seenCount = 1) ∧
    (sightings ⟨Sample.speaker⟩ "Ann" c.shared.log).filter (·.1 = false) = [(false, d)] ∧
    (sightings ⟨Sample.speaker⟩ "Ann" c.shared.log).filter (·.1 = true) = [(true, d')] ∧
    tally seenCount (.displayName ⟨Sample.speaker⟩ "Ann") c.shared.db =
      (sightings ⟨Sample.speaker⟩ "Ann" c.shared.log).length := by
  obtain ⟨c, h, ⟨d, hd, hpid, hname, htwo⟩, ⟨d', hd', hpid', hname', hone⟩⟩ := sample_run
  obtain ⟨htally, -, hown⟩ := seen_counts_exact Sample.state sampleRequests Sample.quiescent h ⟨Sample.speaker⟩ "Ann"
  refine ⟨c, d, d', ⟨htwo, hone⟩, (hown false d hd hpid hname).1, (hown true d' hd' hpid' hname').1, ?_⟩
  have hserver : (Sample.server [.session Sample.session] : Sv Bool).db = [.session Sample.session] := rfl
  rw [htally, hserver, show tally seenCount (.displayName ⟨Sample.speaker⟩ "Ann") [.session Sample.session] = 0 from rfl, zero_add]

end SeenCounts
end DataApi
