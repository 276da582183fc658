/-
The admin list and the admin detail page. One statement aggregates over a
user's participations, the other lists them; both join the same rows, and the
keys keep the aggregates from counting one of them twice.
-/
import DataApi.Lib.Paging
import DataApi.Outcomes
import Mathlib.Data.Prod.Lex
import Mathlib.Order.WithBot

namespace DataApi.AdminUsers

open Relational ReadCommitted Resumption Handler Users

/-! ## What the statements read -/

/-- A statement sees all rows of the tables it names. -/
theorem rows_ofTables {τ : Type} {T : Table Row τ} {tables : List TableName} (h : ∀ t, (T.put t).key.table ∈ tables)
    (db : Db) : T.rows (db.filter (ofTables tables)) = T.rows db := by
  unfold Table.rows
  rw [List.filterMap_filter]
  refine List.filterMap_congr fun r _ => ?_
  split
  · rfl
  · rename_i hr
    rw [eq_comm, Option.eq_none_iff_forall_ne_some]
    intro t ht
    rw [T.get_eq.1 ht] at hr
    exact hr (decide_eq_true (h t))

theorem joined_ofTables (tables : List TableName) (hp : TableName.participants ∈ tables)
    (hs : TableName.sessions ∈ tables) (db : Db) (pid : PseudoId) : joined (db.filter (ofTables tables)) pid = joined db pid := by
  rw [joined, rows_ofTables (T := participantsT) (fun _ => hp), rows_ofTables (T := sessionsT) (fun _ => hs), joined]

section
variable {db : Db} {names : List DisplayName → List DisplayName}

/-! ## The joins -/

/-- A participation has one session. -/
theorem sessions_single (hkeys : KeysUnique db) (sp : Participant) :
    ((sessionsT.rows db).filter fun s => s.id = sp.sessionId).length ≤ 1 := by
  have hids : ((sessionsT.rows db).map fun s => Key.session s.id).Nodup := sessionsT.rows_keys_nodup hkeys
  simpa using Query.filter_key hids (.session sp.sessionId)

/-- A user has one row. -/
theorem users_single (hkeys : KeysUnique db) {u : User} (hu : Row.user u ∈ db) :
    ((usersT.rows db).filter fun u' => u'.pseudoId = u.pseudoId) = [u] := by
  have hpids : ((usersT.rows db).map fun u => Key.user u.pseudoId).Nodup := usersT.rows_keys_nodup hkeys
  simpa using Query.filter_key_mem hpids (usersT.mem_rows.2 hu)

/-- A user has one participation a session. -/
theorem joined_sessions_nodup (hkeys : KeysUnique db)
    (hpairs : ((participantsT.rows db).map fun p => (p.sessionId, p.pseudoId)).Nodup) (pid : PseudoId) :
    ((joined db pid).map (·.1.sessionId)).Nodup := by
  have hsub := Query.join_sublist (fun sp s => s.id = sp.sessionId) (sessionsT.rows db) (sessions_single hkeys)
    ((participantsT.rows db).filter fun sp => sp.pseudoId = pid)
  have hids : (((participantsT.rows db).filter fun sp => sp.pseudoId = pid).map (·.sessionId)).Nodup := by
    have hfiltered := hpairs.sublist (List.filter_sublist (p := fun sp => decide (sp.pseudoId = pid)).map _)
    refine (List.pairwise_map.2 ?_)
    refine (List.pairwise_map.1 hfiltered).imp_of_mem fun {p p'} hp hp' hne heq => hne ?_
    have hpid : p.pseudoId = pid := by simpa using (List.mem_filter.1 hp).2
    have hpid' : p'.pseudoId = pid := by simpa using (List.mem_filter.1 hp').2
    rw [heq, hpid, hpid']
  have := hids.sublist (hsub.map _)
  rwa [List.map_map] at this

/-- The laterals neither drop a user nor repeat one. -/
theorem details_eq (db : Db) : details names (db.filter (ofTables [.users, .displayNames, .participants, .sessions])) =
    (usersT.rows db).map fun u => listItem u (latest names db u).head? (aggregates db u).head? := by
  have hlatest : ∀ u, latest names (db.filter (ofTables [.users, .displayNames, .participants, .sessions])) u =
      latest names db u := by
    intro u
    rw [latest, rows_ofTables (T := displayNamesT) (fun _ => by simp [displayNamesT, Row.key, Key.table]), latest]
  have haggregates : ∀ u, aggregates (db.filter (ofTables [.users, .displayNames, .participants, .sessions])) u =
      aggregates db u := by
    intro u
    have hjoined := joined_ofTables [.users, .displayNames, .participants, .sessions] (by simp) (by simp) db u.pseudoId
    simp only [aggregates, hjoined]
  rw [details, rows_ofTables (T := usersT) (fun _ => by simp [usersT, Row.key, Key.table]), Query.lateral_eq, Query.lateral_eq,
    List.map_map, List.map_map]
  · exact List.map_congr_left fun u _ => by
      simp only [Function.comp, hlatest, haggregates]
  · intro u
    simp [latest]
  · intro u
    simp [aggregates]

/-! ## Agreement -/

/-- An item of the list says what the user's sessions say. -/
structure Agrees (item : AdminUserListItem) (sessions : List ParticipatedSession) : Prop where
  count : item.sessionCount = sessions.length
  head : item.lastActiveAt = sessions.head?.map (·.startedAt)
  greatest : ∀ s ∈ sessions, ∃ t ∈ item.lastActiveAt, s.startedAt ≤ t
  consent : item.hasConsentOnFile = true ↔ ∃ s ∈ sessions, s.consentScope.isSome = true

/-- In whatever order by `started_at DESC` they are listed. -/
theorem item_agrees (hkeys : KeysUnique db)
    (hpairs : ((participantsT.rows db).map fun p => (p.sessionId, p.pseudoId)).Nodup) {u : User}
    {sessions : List ParticipatedSession}
    (h : Paging.Arranges (·.startedAt) ((joined db u.pseudoId).map participated) sessions) (d : Option String) :
    Agrees (listItem u d (aggregates db u).head?) sessions := by
  have hmem : ∀ s, s ∈ sessions ↔ ∃ x ∈ joined db u.pseudoId, participated x = s := by
    intro s
    rw [h.perm.mem_iff, List.mem_map]
  constructor
  · show Query.countDistinct _ _ = _
    rw [Query.countDistinct_eq (joined_sessions_nodup hkeys hpairs u.pseudoId), h.perm.length_eq, List.length_map]
  · show Query.maximum _ _ = _
    rw [← Query.maximum_of_sorted h.sorted, Query.maximum_perm h.perm, Query.maximum_map]
    rfl
  · intro s hs
    have hmax : (listItem u d (aggregates db u).head?).lastActiveAt = Query.maximum (·.startedAt) sessions := by
      rw [Query.maximum_perm h.perm, Query.maximum_map]
      rfl
    rw [hmax]
    cases hlast : Query.maximum (·.startedAt) sessions with
    | none =>
      rw [Query.maximum_eq_none.1 hlast] at hs
      cases hs
    | some t => exact ⟨t, rfl, (Query.maximum_eq_some.1 hlast).2 s hs⟩
  · show (Query.boolOr _ _).getD false = true ↔ _
    rw [Query.boolOr_getD, List.any_eq_true]
    simp only [hmem]
    constructor
    · rintro ⟨x, hx, hscope⟩
      exact ⟨_, ⟨x, hx, rfl⟩, hscope⟩
    · rintro ⟨_, ⟨x, hx, rfl⟩, hscope⟩
      exact ⟨x, hx, hscope⟩

end

/-- The answer of a handler on the committed rows. -/
def answered {α : Type} (env : Nat → Env) (db : Db) (w : World) (p : Handler α) : Except AppError α :=
  (solo env 0 ⟨none, db, w⟩ p.run).1

/-- The order of the list: the last active first, users who never were at the
end, and of those that tie the newest. -/
def listKey (x : AdminUserListItem) : WithBot Timestamp ×ₗ Timestamp := toLex (x.lastActiveAt, x.createdAt)

/-- How the server reads the ORDER BY clauses. -/
structure Orders where
  names : List DisplayName → List DisplayName
  users : List AdminUserListItem → List AdminUserListItem
  sessions : List ParticipatedSession → List ParticipatedSession
  names_desc : ∀ rows, Paging.Arranges (·.lastSeenAt) rows (names rows)
  users_desc : ∀ rows, Paging.Arranges listKey rows (users rows)
  sessions_desc : ∀ rows, Paging.Arranges (·.startedAt) rows (sessions rows)

section
variable {env : Nat → Env} {db : Db} {w : World}

/-- Both statements are `SELECT`s, answered where nothing fails. -/
theorem answered_query {α : Type} (hf : (env 0).fails = false) (tables : List TableName) (f : Db → α) :
    answered env db w (do return f (← query .pool (.select fun _ => ofTables tables))) = .ok (f (db.filter (ofTables tables))) := by
  have hends : Ends env 0 ⟨none, db, w⟩ (do return f (← query .pool (.select fun _ => ofTables tables)))
      fun a _ => a = .ok (f (db.filter (ofTables tables))) := by
    refine ends_pool.2 ?_
    rw [answer, hf]
    rfl
  exact hends

/-- A statement that only reads fails, or answers rows that were there. -/
theorem ends_select {β : Type} {n : Nat} {p : Row → Bool} {f : Db → Handler β} {Q : Except AppError β → Moment → Prop}
    (herr : ∀ e, Q (.error e) ⟨none, db, w⟩) (hok : Ends env (n + 1) ⟨none, db, w⟩ (f (db.filter p)) Q) :
    Ends env n ⟨none, db, w⟩ (query .pool (.select fun _ => p) >>= f) Q := by
  refine ends_pool.2 ?_
  rw [answer]
  cases hf : (env n).fails with
  | true => exact herr _
  | false => exact hok

/-- The detail page, where it answers, shows the list of the user's sessions. -/
theorem detail_shows {o : Orders} {u : User} {d : UserRoutes.AdminUserDetail}
    (h : answered env db w (UserRoutes.fetchAdminUserDetail o.names o.sessions u.pseudoId.raw) = .ok d) :
    d.sessions = o.sessions ((joined db u.pseudoId).map participated) := by
  have hends : Ends env 0 ⟨none, db, w⟩ (UserRoutes.fetchAdminUserDetail o.names o.sessions u.pseudoId.raw)
      fun a _ => ∀ d, a = .ok d → d.sessions = o.sessions ((joined db u.pseudoId).map participated) := by
    rw [UserRoutes.fetchAdminUserDetail, Handler.pseudoId]
    simp only [Users.get, DisplayNames.list, listSessionsForUser, fetchAll, bind_assoc]
    refine Ends.ofResult (fun _ _ _ hd => by cases hd) fun pid hpid => ?_
    have hp : pid = u.pseudoId := by
      unfold PseudoId.new at hpid
      split at hpid
      · exact (Except.ok.inj hpid).symm
      · cases hpid
    subst hp
    refine Ends.select_pool (fun _ _ hd => by cases hd) fun _ => ?_
    cases (usersT.rows db).find? _ with
    | none => exact fun _ hd => by cases hd
    | some u' =>
      refine ends_select (fun _ _ hd => by cases hd) (ends_select (fun _ _ hd => by cases hd) ?_)
      rw [joined_ofTables _ (by simp) (by simp)]
      exact fun d hd => by rw [← Except.ok.inj hd]
  exact hends d h

/-- The item of a user agrees with the user's sessions, in whatever order they
are listed, and with the detail page wherever it answers. -/
def Matches (db : Db) (w : World) (item : AdminUserListItem) (pid : PseudoId) : Prop :=
  (∀ (env : Nat → Env) (o : Orders), (env 0).fails = false →
    ∃ sessions, answered env db w (listSessionsForUser o.sessions pid) = .ok sessions ∧ Agrees item sessions) ∧
  ∀ (env : Nat → Env) (o : Orders) (d : UserRoutes.AdminUserDetail),
    answered env db w (UserRoutes.fetchAdminUserDetail o.names o.sessions pid.raw) = .ok d → Agrees item d.sessions

/-- Every user occurs in the admin list once, and what is said there agrees with
the user's sessions. -/
theorem list_agrees (hkeys : KeysUnique db)
    (hpairs : ((participantsT.rows db).map fun p => (p.sessionId, p.pseudoId)).Nodup) (hf : (env 0).fails = false)
    (w : World) (o : Orders) :
    ∃ items, answered env db w (UserRoutes.listAdminUsers o.names o.users) = .ok items ∧
      ∀ u, Row.user u ∈ db → ∃ item, items.filter (fun x => x.pseudoId = u.pseudoId) = [item] ∧ Matches db w item u.pseudoId := by
  refine ⟨_, answered_query hf _ fun rows => o.users (details o.names rows), fun u hu => ?_⟩
  refine ⟨listItem u (latest o.names db u).head? (aggregates db u).head?, ?_, fun env' o' hf' => ?_, fun env' o' d hd => ?_⟩
  · have hperm := (o.users_desc (details o.names (db.filter (ofTables [.users, .displayNames, .participants, .sessions])))).perm
    rw [← List.perm_singleton]
    refine (hperm.filter _).trans ?_
    rw [details_eq, List.filter_map]
    show (List.map _ ((usersT.rows db).filter fun u' => u'.pseudoId = u.pseudoId)).Perm _
    rw [users_single hkeys hu, List.map_singleton]
  · refine ⟨_, answered_query hf' _ fun rows => o'.sessions ((joined rows u.pseudoId).map participated), ?_⟩
    rw [joined_ofTables _ (by simp) (by simp)]
    exact item_agrees hkeys hpairs (o'.sessions_desc _) _
  · rw [detail_shows hd]
    exact item_agrees hkeys hpairs (o'.sessions_desc _) _

end

/-! ## A sample -/

def sampleOrders : Orders :=
  ⟨_, _, _, Paging.arranges_descending _, Paging.arranges_descending _, Paging.arranges_descending _⟩

def sampleUser (pid : String) : User := Users.freshRow ⟨pid⟩ false (Sample.env 0)

/-- One user who joined the sample session, and one who never joined any. -/
def sampleDb : Db :=
  [.session Sample.session, .user (sampleUser Sample.speaker), .user (sampleUser "ffffffffffffffffffffffff"),
    .participant (Participants.freshRow Sample.sessionId { pseudoId := ⟨Sample.speaker⟩ } 9 (Sample.env 0))]

theorem list_agrees_sample : ∃ items,
    answered Sample.env sampleDb Sample.world (UserRoutes.listAdminUsers sampleOrders.names sampleOrders.users) = .ok items ∧
    ∀ u, Row.user u ∈ sampleDb → ∃ item, items.filter (fun x => x.pseudoId = u.pseudoId) = [item] ∧
      Matches sampleDb Sample.world item u.pseudoId :=
  list_agrees (by decide) (by decide) rfl Sample.world sampleOrders

end DataApi.AdminUsers
