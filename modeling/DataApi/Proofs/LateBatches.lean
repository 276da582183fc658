/-
The handlers that enter several rows: a participant and its user, a batch of
them, and a bulk of segments, beats or scenes with an audit row for each.
-/
import DataApi.Proofs.BatchAdd
import DataApi.Proofs.BulkDedup
import DataApi.Proofs.LateGuilds

namespace DataApi.ErrorsUnchanged

open Relational ReadCommitted Resumption Handler

section

open Participants BatchAdd

/-! ## One participant and its user -/

section
variable {sid id : Uuid} {x : AddParticipant} {e : Env} {db rows : Db} {touched : List Key} {ws : List (Write Row Key)}

/-- The participant is there, and joined as it is to join. -/
def Settled (sid : Uuid) (x : AddParticipant) (db : Db) : Prop :=
  ∃ q ∈ participantsT.rows db, ofPair sid x.pseudoId q = true ∧ q.midSessionJoin = x.midSessionJoin

theorem settled_join (ps : List Participant) (p : Participant) :
    ∃ q ∈ join ps p, ofPair p.sessionId p.pseudoId q = true ∧ q.midSessionJoin = p.midSessionJoin := by
  unfold join
  split
  · next h =>
    obtain ⟨q, hq, hpair⟩ := List.any_eq_true.1 h
    refine ⟨_, List.mem_map.2 ⟨q, hq, rfl⟩, ?_⟩
    rw [if_pos hpair]
    exact ⟨hpair, rfl⟩
  · exact ⟨p, by simp, ofPair_iff.2 ⟨rfl, rfl⟩, rfl⟩

/-- What is settled is written as it stands. -/
theorem applyAll_settled (hdb : Intact db) (h : Settled sid x db)
    (hrun : (insertRow db touched (.participant (freshRow sid x id e)) (rejoin x)).result = .ok (rows, ws)) :
    applyAll ws db = db := by
  obtain ⟨q, hq, hpair, hmid⟩ := h
  have hqmem : Row.participant q ∈ db := participantsT.mem_rows.1 hq
  have hslot : (Lockable.uniq (.participant sid x.pseudoId) : Lockable Key Uniq) ∈ slots (Row.participant q) := by
    obtain ⟨rfl, hpid⟩ := ofPair_iff.1 hpair
    rw [participant_slots, hpid]; simp
  obtain ⟨-, ⟨-, -, hc, -⟩ | ⟨-, -, a, ho, -⟩ | ⟨a, set, l, r, ho, hc, -, -, -, rfl, -⟩⟩ := insertRow_cases hrun
  · exact absurd hslot (clash_eq_none.1 hc _ (by rw [participant_slots]; simp [freshRow]) _ hqmem)
  · cases ho
  · obtain ⟨rfl, rfl⟩ := OnConflict.doUpdate.inj ho
    obtain ⟨-, rfl⟩ := Prod.mk.inj (Option.some.inj ((clash_arbiter arbiter_fresh hdb hqmem hslot).symm.trans hc))
    have hsame : ({ q with midSessionJoin := x.midSessionJoin } : Participant) = q := by rw [← hmid]
    rw [applyAll_cons, applyAll_nil]
    refine (congrArg (fun p => Write.apply db (.update (.participant p))) hsame).trans ?_
    exact apply_same hdb.keys hqmem

/-- The participant is added: a valid pseudonym, and room for the row. -/
structure Adds (e : Env) (db : Db) (sid : Uuid) (x : AddParticipant) : Prop where
  works : e.fails = false
  valid : isValidPseudoId x.pseudoId.raw = true
  room : Room sid x.pseudoId (e.uuid 0) db

/-- What the statement leaves of the tables. -/
structure Leaves (sid : Uuid) (x : AddParticipant) (q : Participant) (db db' : Db) : Prop where
  same : db' = db ↔ Settled sid x db
  changes : ChangesOnly (fun r => key r = Key.user x.pseudoId ∨ key r = Key.participant q.id) db db'

theorem adds_of_ok (hdb : Intact db) (h : answer (addSql sid x) e e db = .ok (rows, ws)) : Adds e db sid x := by
  have hf := (answer_ok h).1
  rw [addSql, answer_insert hf rfl] at h
  obtain ⟨rows₁, ws₁, rows₂, ws₂, h₁, h₂, -⟩ := insertRows_cons h
  have hvalid : isValidPseudoId x.pseudoId.raw = true := (insertRow_cases h₁).1
  obtain ⟨rows', ws', h', -, hkeys, -⟩ := @seed_row db [] (Users.freshRow x.pseudoId false e) _ hdb hvalid (.inr ⟨rfl, rfl⟩)
  obtain ⟨-, rfl⟩ := Prod.mk.inj (Except.ok.inj (h₁.symm.trans h'))
  refine ⟨hf, hvalid, ?_⟩
  exact (room_seeded (fun v hv => by rw [hkeys v hv]; rfl) _).1.1 (room_of_ok (insertRows_singleton h₂)).2

theorem applyAll_user {pid : PseudoId} (hdb : Intact db) (h : Present (Key.user pid) db)
    (hrun : (insertRow db touched (.user (Users.freshRow pid false e)) Users.upsertConflict).result = .ok (rows, ws)) :
    applyAll ws db = db := by
  obtain ⟨r, hr, hk⟩ := h
  obtain ⟨-, ⟨-, -, hc, -⟩ | ⟨-, -, a, ho, -⟩ | ⟨a, set, l, r', ho, hc, -, -, -, rfl, -⟩⟩ := insertRow_cases hrun
  · exact absurd (pk_mem_slots.2 hk) (clash_eq_none.1 hc _ (pk_mem_slots.2 rfl) r hr)
  · cases ho
  · obtain ⟨rfl, rfl⟩ := OnConflict.doUpdate.inj ho
    have hr' : r' ∈ db := (clash_some hc).2.1
    have hid : (usersT.setter id).set r' = r' := by cases r' <;> rfl
    rw [hid]
    exact apply_same hdb.keys hr'

theorem decided_add (hdb : Intact db) (sid : Uuid) (x : AddParticipant) (e : Env) :
    ∃ q rows ws, Decided (Adds e db sid x) (addSql sid x) e e db rows ws ∧ (participantsT.rows rows).head? = some q ∧
      q.pseudoId = x.pseudoId ∧ (Adds e db sid x → Leaves sid x q db (applyAll ws db)) := by
  by_cases h : Adds e db sid x
  · obtain ⟨q, rows, ws, hans, hhead, hpid, hkeys, -, hps⟩ := add_answer hdb h.valid h.room h.works
    refine ⟨q, rows, ws, ⟨fun _ => hans, fun hno => absurd h hno⟩, hhead, hpid, fun _ => ⟨⟨fun heq => ?_, fun hset => ?_⟩, ?_⟩⟩
    · obtain ⟨p, hp, hpair⟩ := settled_join (participantsT.rows db) (freshRow sid x (e.uuid 0) e)
      rw [← hps, heq] at hp
      exact ⟨p, hp, hpair⟩
    · have hrun := hans
      rw [addSql, answer_insert h.works rfl] at hrun
      obtain ⟨rows₁, ws₁, rows₂, ws₂, h₁, h₂, -, rfl, -⟩ := insertRows_cons hrun
      obtain ⟨p, hp, hpair, -⟩ := id hset
      have hu : Present (Key.user x.pseudoId) db := by
        rw [← (ofPair_iff.1 hpair).2]
        exact hdb.referenced _ (participantsT.mem_rows.1 hp) _ (by exact List.mem_cons_of_mem _ (List.mem_cons_self ..))
      rw [applyAll_append]
      rw [applyAll_user hdb hu h₁] at h₂ ⊢
      exact applyAll_settled hdb hset (insertRows_singleton h₂)
    · refine (applyAll_changes ws db).mono ?_
      rintro r ⟨v, hv, hk⟩
      rw [← hk]
      exact hkeys v hv
  · refine ⟨freshRow sid x 0 e, [.participant (freshRow sid x 0 e)], [], ⟨fun h' => absurd h' h, fun _ => ?_⟩, rfl, rfl,
      fun h' => absurd h' h⟩
    cases hans : answer (addSql sid x) e e db with
    | error err => exact ⟨err, rfl⟩
    | ok a => exact absurd (adds_of_ok hdb hans) h

end

section
variable {db : Db} {env : Nat → Env} {w : World}

/-- The participant is added, or joined otherwise than it was, and the audit
row is refused. -/
structure LateAdd (env : Nat → Env) (db : Db) (sid : Uuid) (x : AddParticipant) : Prop where
  adds : Adds (env 0) db sid x
  unsettled : ¬Settled sid x db
  unaudited : Unaudited (env 1) db

theorem addOne_late (hdb : Intact db) (svc : String) (sid : Uuid) (x : AddParticipant) :
    Spoils (Tells svc "added" NamedOrUser) db env 0 ⟨none, db, w⟩ (ParticipantRoutes.addOne svc sid x) ↔
      LateAdd env db sid x := by
  obtain ⟨q, rows, ws, hdecided, hhead, hpid, hleaves⟩ := decided_add hdb sid x (env 0)
  rw [ParticipantRoutes.addOne, add, spoils_fetchOne hdecided hhead, at_first]
  have hiff : ∀ {S : Prop}, (Adds (env 0) db sid x → (S ↔ ¬Settled sid x db ∧ Unaudited (env 1) db)) →
      (Adds (env 0) db sid x ∧ S ↔ LateAdd env db sid x) := fun hS =>
    ⟨fun h => ⟨h.1, ((hS h.1).1 h.2).1, ((hS h.1).1 h.2).2⟩, fun h => ⟨h.adds, (hS h.adds).2 ⟨h.unsettled, h.unaudited⟩⟩⟩
  refine hiff fun hadds => ?_
  obtain ⟨hsame, hchanges⟩ := hleaves hadds
  have htold : ChangesOnly (Told (Tells svc "added" NamedOrUser)
      (ParticipantRoutes.entry svc (some q.pseudoId.raw) sid q.id.text "added" none)) db (applyAll ws db) := by
    refine hchanges.mono ?_
    rintro r (hk | hk)
    · obtain ⟨u, rfl, hu⟩ := BatchAdd.key_user hk
      have hactor : some q.pseudoId.raw = some u.pseudoId.raw := by rw [hu, hpid]
      exact ⟨(fun h => by cases h), fun _ => ⟨rfl, rfl, hactor⟩⟩
    · obtain ⟨p, rfl, hid⟩ := BatchAdd.key_participant hk
      refine ⟨(fun h => by cases h), fun _ => ⟨rfl, rfl, ?_⟩⟩
      show ("participant", _) = resource (.participant p)
      rw [resource, hid]
      rfl
  rw [spoils_answered htold, Ne, hsame]

end

/-! ## A batch of participants -/

/-- The rows of a batch: its users, and their participants in the session. -/
def InBatch (sid : Uuid) (inputs : List AddParticipant) : Row → Prop
  | .user u => u.pseudoId ∈ inputs.map (·.pseudoId)
  | .participant p => p.sessionId = sid ∧ p.pseudoId ∈ inputs.map (·.pseudoId)
  | _ => False

/-- Its one audit row has the id of the session. -/
def OfBatch (sid : Uuid) (inputs : List AddParticipant) (r : Row) (a : AuditRow) : Prop :=
  (a.resourceType, a.resourceId) = ("participant", sid.text) ∧ InBatch sid inputs r

section
variable {sid : Uuid} {inputs : List AddParticipant} {u : Nat → Uuid} {b e : Env} {db rows : Db} {touched : List Key}
  {ws : List (Write Row Key)} {P : Row → Prop}

theorem insertRows_changes {xs : List (Row × OnConflict Row)} (hxs : ∀ x ∈ xs, P x.1 ∧ ∀ a set l r,
      x.2 = .doUpdate a set → l ∈ (slots x.1).filter a → l ∈ slots r → P r ∧ P (set.set r)) :
    ∀ {db : Db} {touched rows ws}, Intact db → (insertRows db touched xs).result = .ok (rows, ws) →
      ChangesOnly P db (applyAll ws db) := by
  induction xs with
  | nil =>
    intro db touched rows ws _ hrun
    simp only [insertRows, Except.ok.injEq, Prod.mk.injEq] at hrun
    rw [← hrun.2]
    exact .refl P db
  | cons x rest ih =>
    intro db touched rows ws hdb hrun
    obtain ⟨rows₁, ws₁, rows₂, ws₂, h₁, h₂, -, rfl, -⟩ := insertRows_cons hrun
    obtain ⟨hP, hset⟩ := hxs x (by simp)
    rw [applyAll_append]
    exact (insertRow_changes hdb.keys h₁ hP fun a set l r ho hl _ hlr => hset a set l r ho hl hlr).trans
      (ih (fun y hy => hxs y (List.mem_cons_of_mem _ hy)) (hdb.insertRow h₁) h₂)

/-- What a batch of users leaves for their participants. -/
structure Seeds (sid : Uuid) (inputs : List AddParticipant) (u : Nat → Uuid) (db db' : Db) : Prop where
  intact : Intact db'
  joins : Joins sid inputs u db' ↔ Joins sid inputs u db
  participants : participantsT.rows db' = participantsT.rows db
  users : ∀ x ∈ inputs, Present (Key.user x.pseudoId) db'
  same : (∀ x ∈ inputs, Present (Key.user x.pseudoId) db) → db' = db
  changes : ChangesOnly (InBatch sid inputs) db db'

theorem joins_seeded {db' : Db} (hrows : participantsT.rows db' = participantsT.rows db)
    (hpresent : ∀ k : Key, k.table ≠ .users → (Present k db' ↔ Present k db)) : Joins sid inputs u db' ↔ Joins sid inputs u db := by
  have hids : newIds sid inputs u db' = newIds sid inputs u db := by
    rw [newIds, newIds]
    exact congrArg (List.map _) (List.filter_congr fun p _ => by rw [paired, paired, hrows])
  have hs : Present (Key.session sid) db' ↔ Present (Key.session sid) db := hpresent _ (by rintro ⟨⟩)
  have hid : ∀ id, Present (Key.participant id) db' ↔ Present (Key.participant id) db := fun id => hpresent _ (by rintro ⟨⟩)
  constructor
  · rintro ⟨hvalid, honce, hsession, hfree, hdistinct⟩
    rw [hids] at hsession hfree hdistinct
    exact ⟨hvalid, honce, fun h => hs.1 (hsession h), fun id h hp => hfree id h ((hid id).2 hp), hdistinct⟩
  · rintro ⟨hvalid, honce, hsession, hfree, hdistinct⟩
    rw [← hids] at hsession hfree hdistinct
    exact ⟨hvalid, honce, fun h => hs.2 (hsession h), fun id h hp => hfree id h ((hid id).1 hp), hdistinct⟩

theorem valid_of_ok {xs : List (Row × OnConflict Row)} : ∀ {db : Db} {touched rows ws},
    (insertRows db touched xs).result = .ok (rows, ws) → ∀ x ∈ xs, check x.1 = true := by
  induction xs with
  | nil => exact fun _ x hx => by cases hx
  | cons x rest ih =>
    intro db touched rows ws hrun y hy
    obtain ⟨rows₁, ws₁, rows₂, ws₂, h₁, h₂, -⟩ := insertRows_cons hrun
    rcases List.mem_cons.1 hy with rfl | hy
    · exact (insertRow_cases h₁).1
    · exact ih h₂ y hy

theorem decided_seeds (hdb : Intact db) (sid : Uuid) (inputs : List AddParticipant) (u : Nat → Uuid) (b e : Env) :
    ∃ rows ws, Decided (e.fails = false ∧ Valid inputs) (seedUsersSql inputs) b e db rows ws ∧
      (Valid inputs → Seeds sid inputs u db (applyAll ws db)) := by
  by_cases hvalid : Valid inputs
  · obtain ⟨rows, ws, hrun, -, husers⟩ := @seeds_run { e with now := b.now } inputs db [] hdb hvalid
    have hans : e.fails = false → answer (seedUsersSql inputs) b e db = .ok (rows, ws) := fun hf => by
      rw [seedUsersSql, answer_insert hf rfl, hrun]
    have hwrites : ∀ v ∈ ws, v.key.table = .users := fun v hv => by
      rcases insertRows_writes hrun v hv with ⟨y, hy, rfl, -⟩ | ⟨y, hy, a, set, r, l, ho, -⟩
      · obtain ⟨x, -, rfl⟩ := List.mem_map.1 hy
        rfl
      · obtain ⟨x, -, rfl⟩ := List.mem_map.1 hy
        cases ho
    obtain ⟨-, hrows⟩ := @room_seeded db sid 0 ws hwrites ⟨""⟩
    refine ⟨rows, ws, .of (fun h => hans h.1) fun _ _ h => ⟨(answer_ok h).1, hvalid⟩, fun _ => ?_⟩
    refine ⟨hdb.insertRows hrun, joins_seeded hrows fun k hk => ?_, hrows, husers, fun hall => ?_, ?_⟩
    · exact present_congr (versions_applyAll_other (fun v hv hkv => hk (by rw [← hkv, hwrites v hv])) db)
    · refine insertRows_same (fun y hy touched rows ws h => ?_) hrun
      obtain ⟨x, hx, rfl⟩ := List.mem_map.1 hy
      obtain ⟨r, hr, hk⟩ := hall x hx
      obtain ⟨-, ⟨-, -, hc, -⟩ | ⟨-, rfl, -⟩ | ⟨a, set, l, r', ho, -⟩⟩ := insertRow_cases h
      · exact absurd (pk_mem_slots.2 hk) (clash_eq_none.1 hc _ (pk_mem_slots.2 rfl) r hr)
      · rfl
      · cases ho
    · refine insertRows_changes (fun y hy => ?_) hdb hrun
      obtain ⟨x, hx, rfl⟩ := List.mem_map.1 hy
      exact ⟨List.mem_map_of_mem hx, fun a set l r ho => by cases ho⟩
  · refine ⟨[], [], ⟨fun h => absurd h.2 hvalid, fun hno => ?_⟩, fun h => absurd h hvalid⟩
    cases hans : answer (seedUsersSql inputs) b e db with
    | error err => exact ⟨err, rfl⟩
    | ok a =>
      have hrun := hans
      rw [seedUsersSql, answer_insert (answer_ok hans).1 rfl] at hrun
      exact absurd (fun x hx => valid_of_ok hrun _ (List.mem_map_of_mem hx)) hvalid

/-- The batch that went in was one that joins. -/
theorem joins_of_ok : ∀ {inputs : List AddParticipant} {u : Nat → Uuid} {db : Db} {touched : List Key} {rows ws}, Intact db →
    (∀ x ∈ inputs, Present (Key.user x.pseudoId) db) →
    (∀ x ∈ inputs, ∀ q ∈ participantsT.rows db, ofPair sid x.pseudoId q = true → Key.participant q.id ∉ touched) →
    (insertRows db touched (inputs.mapIdx fun n x => (Row.participant (freshRow sid x (u n) e), rejoin x))).result = .ok (rows, ws) →
    Joins sid inputs u db := by
  intro inputs
  induction inputs with
  | nil => exact fun _ _ _ _ => ⟨(fun x hx => by cases hx), .nil, fun h => absurd rfl h, (fun id h => by cases h), .nil⟩
  | cons x inputs ih =>
    intro u db touched rows ws hdb husers htouched hrun
    have hx := (List.nodup_cons.1 (joins_once hdb hrun)).1
    rw [List.mapIdx_cons] at hrun
    obtain ⟨rows₁, ws₁, rows₂, ws₂, h₁, h₂, -⟩ := insertRows_cons hrun
    obtain ⟨hvalid, hroom⟩ := room_of_ok h₁
    obtain ⟨q, ws', h', hkeys, hq, hpair, hrows⟩ := join_row (e := e) hdb hvalid hroom (husers x (by simp)) (htouched x (by simp))
    obtain ⟨-, rfl⟩ := Prod.mk.inj (Except.ok.inj (h₁.symm.trans h'))
    have hdb₁ : Intact (applyAll ws₁ db) := hdb.insertRow h₁
    have hkept : ∀ {k : Key}, (∀ id, k ≠ .participant id) → (Present k (applyAll ws₁ db) ↔ Present k db) := fun hne =>
      present_congr (versions_applyAll_other (fun v hv => by rw [hkeys v hv]; exact (hne q.id).symm) db)
    refine (joins_cons hrows (hkept (by simp))).2 ⟨⟨hvalid, hx, hroom⟩, ih hdb₁ (fun y hy => ?_) ?_ h₂⟩
    · exact (hkept (by simp)).2 (husers y (List.mem_cons_of_mem _ hy))
    · exact joined_touched hdb₁ hkeys hq hpair hrows hx fun y hy => htouched y (List.mem_cons_of_mem _ hy)

/-- The participant of another pseudonym stays as it is. -/
theorem mem_join_other {ps : List Participant} {p q : Participant} (hq : q ∈ ps) (hne : q.pseudoId ≠ p.pseudoId) :
    q ∈ join ps p := by
  unfold join
  split
  · refine List.mem_map.2 ⟨q, hq, if_neg fun h => hne (ofPair_iff.1 h).2⟩
  · exact List.mem_append_left _ hq

theorem mem_joins_other : ∀ {inputs : List AddParticipant} {u : Nat → Uuid} {ps : List Participant} {q : Participant}, q ∈ ps →
    q.pseudoId ∉ inputs.map (·.pseudoId) → q ∈ (participants sid inputs u e).foldl join ps := by
  intro inputs
  induction inputs with
  | nil => exact fun hq _ => hq
  | cons x inputs ih =>
    intro u ps q hq hno
    rw [List.map_cons, List.mem_cons, not_or] at hno
    rw [participants_cons, List.foldl_cons]
    exact ih (mem_join_other hq hno.1) hno.2

theorem settled_joins : ∀ {inputs : List AddParticipant} {u : Nat → Uuid} {ps : List Participant},
    (inputs.map (·.pseudoId)).Nodup → ∀ x ∈ inputs, ∃ q ∈ (participants sid inputs u e).foldl join ps,
      ofPair sid x.pseudoId q = true ∧ q.midSessionJoin = x.midSessionJoin := by
  intro inputs
  induction inputs with
  | nil => exact fun _ x hx => by cases hx
  | cons y inputs ih =>
    intro u ps honce x hx
    obtain ⟨hy, honce⟩ := List.nodup_cons.1 honce
    rw [participants_cons, List.foldl_cons]
    rcases List.mem_cons.1 hx with rfl | hx
    · obtain ⟨q, hq, hpair, hmid⟩ := settled_join ps (freshRow sid x (u 0) e)
      have hpid : q.pseudoId = x.pseudoId := (ofPair_iff.1 hpair).2
      exact ⟨q, mem_joins_other hq (by rwa [hpid]), hpair, hmid⟩
    · exact ih honce x hx

/-- What a batch of participants leaves. -/
structure Joined (sid : Uuid) (inputs : List AddParticipant) (db db' : Db) : Prop where
  settled : ∀ x ∈ inputs, Settled sid x db'
  same : (∀ x ∈ inputs, Settled sid x db) → db' = db
  changes : ChangesOnly (InBatch sid inputs) db db'

theorem decided_joins (hdb : Intact db) (husers : ∀ x ∈ inputs, Present (Key.user x.pseudoId) db) (b e : Env) :
    ∃ rows ws, Decided (e.fails = false ∧ Joins sid inputs e.uuid db) (addManySql sid inputs) b e db rows ws ∧
      (Joins sid inputs e.uuid db → Joined sid inputs db (applyAll ws db)) := by
  by_cases hjoins : Joins sid inputs e.uuid db
  · obtain ⟨rows, ws, hrun, hrows⟩ := @joins_run sid { e with now := b.now } inputs e.uuid db [] hdb hjoins husers (by simp)
    have hans : e.fails = false → answer (addManySql sid inputs) b e db = .ok (rows, ws) := fun hf => by
      rw [addManySql, answer_insert hf rfl, hrun]
    refine ⟨rows, ws, .of (fun h => hans h.1) fun _ _ h => ⟨(answer_ok h).1, hjoins⟩, fun _ => ⟨fun x hx => ?_, fun hall => ?_, ?_⟩⟩
    · rw [Settled, hrows]
      exact settled_joins hjoins.once x hx
    · refine insertRows_same (fun y hy touched rows ws h => ?_) hrun
      obtain ⟨n, hn, rfl⟩ := List.mem_mapIdx.1 hy
      exact applyAll_settled hdb (hall _ (List.getElem_mem hn)) h
    · refine insertRows_changes (fun y hy => ?_) hdb hrun
      obtain ⟨n, hn, rfl⟩ := List.mem_mapIdx.1 hy
      have hmem : inputs[n].pseudoId ∈ inputs.map (·.pseudoId) := List.mem_map_of_mem (List.getElem_mem hn)
      refine ⟨⟨rfl, hmem⟩, fun a set l r ho hl hlr => ?_⟩
      obtain ⟨rfl, rfl⟩ := OnConflict.doUpdate.inj ho
      rw [arbiter_fresh, List.mem_singleton] at hl
      rw [hl] at hlr
      obtain ⟨p, rfl, hp⟩ := participant_slot hlr
      obtain ⟨hsid, hpid⟩ := ofPair_iff.1 hp
      have hin : p.sessionId = sid ∧ p.pseudoId ∈ inputs.map (·.pseudoId) := ⟨hsid, hpid ▸ hmem⟩
      exact ⟨hin, hin⟩
  · refine ⟨[], [], ⟨fun h => absurd h.2 hjoins, fun hno => ?_⟩, fun h => absurd h hjoins⟩
    cases hans : answer (addManySql sid inputs) b e db with
    | error err => exact ⟨err, rfl⟩
    | ok a =>
      have hrun := hans
      rw [addManySql, answer_insert (answer_ok hans).1 rfl] at hrun
      exact absurd (joins_of_ok hdb husers (by simp) hrun) hjoins

end

section
variable {db : Db} {env : Nat → Env} {w : World}

/-- The batch is joined, a row of it otherwise than it was, and the audit row
is refused. -/
structure LateBatch (env : Nat → Env) (db : Db) (sid : Uuid) (inputs : List AddParticipant) : Prop where
  works : ∀ n ∈ [0, 1, 2, 3], (env n).fails = false
  joins : Joins sid inputs (env 2).uuid db
  unsettled : ∃ x ∈ inputs, ¬Settled sid x db
  unaudited : Unaudited (env 4) db

theorem addBatch_late (hdb : Intact db) (svc : String) (sid : Uuid) (inputs : List AddParticipant) :
    Spoils (Tells svc "batch_added" (OfBatch sid inputs)) db env 0 ⟨none, db, w⟩ (ParticipantRoutes.addBatch svc sid inputs) ↔
      LateBatch env db sid inputs := by
  rw [ParticipantRoutes.addBatch, addMany]
  cases hinputs : inputs.isEmpty with
  | true =>
    obtain rfl := List.isEmpty_iff.1 hinputs
    refine iff_of_false (fun hs => ?_) fun h => ?_
    · exact ((spoils_answered (.refl _ db)).1 hs).1 rfl
    · obtain ⟨x, hx, -⟩ := h.unsettled
      cases hx
  | false =>
    obtain ⟨rows₁, ws₁, hdecided₁, hseeds⟩ := decided_seeds hdb sid inputs (env 2).uuid (env 0) (env 1)
    rw [if_neg (by simp)]
    simp only [execute, fetchAll, bind_assoc, pure_bind]
    rw [spoils_begin, at_first, spoils_tx hdecided₁]
    have hiff : ∀ {S : Prop}, (Valid inputs → (S ↔ ((env 2).fails = false ∧ Joins sid inputs (env 2).uuid db) ∧
        (env 3).fails = false ∧ (∃ x ∈ inputs, ¬Settled sid x db) ∧ Unaudited (env 4) db)) →
        ((env 0).fails = false ∧ ((env 1).fails = false ∧ Valid inputs) ∧ S ↔ LateBatch env db sid inputs) := by
      intro S hS
      constructor
      · rintro ⟨h0, ⟨h1, hvalid⟩, hs⟩
        obtain ⟨⟨h2, hjoins⟩, h3, hun, hau⟩ := (hS hvalid).1 hs
        refine ⟨?_, hjoins, hun, hau⟩
        simp only [List.mem_cons, List.not_mem_nil, or_false, forall_eq_or_imp, forall_eq]
        exact ⟨h0, h1, h2, h3⟩
      · rintro ⟨hworks, hjoins, hun, hau⟩
        simp only [List.mem_cons, List.not_mem_nil, or_false, forall_eq_or_imp, forall_eq] at hworks
        obtain ⟨h0, h1, h2, h3⟩ := hworks
        exact ⟨h0, ⟨h1, hjoins.valid⟩, (hS hjoins.valid).2 ⟨⟨h2, hjoins⟩, h3, hun, hau⟩⟩
    refine hiff fun hvalid => ?_
    have hs := hseeds hvalid
    obtain ⟨rows₂, ws₂, hdecided₂, hjoined⟩ := decided_joins hs.intact hs.users (env 0) (env 2)
    rw [List.nil_append, spoils_tx hdecided₂, hs.joins]
    refine and_congr_right fun h => ?_
    have hj := hjoined (hs.joins.2 h.2)
    rw [spoils_commit]
    refine and_congr_right fun _ => ?_
    have htold : ChangesOnly (Told (Tells svc "batch_added" (OfBatch sid inputs)) (ParticipantRoutes.entry svc none sid sid.text
        "batch_added" (some (.obj [("count", .int (participantsT.rows rows₂).length)])))) db (applyAll ws₂ (applyAll ws₁ db)) := by
      refine (hs.changes.trans hj.changes).mono fun r hr => ⟨fun h => ?_, fun _ => ⟨rfl, rfl, rfl, hr⟩⟩
      cases r with
      | audit a => exact hr
      | _ => cases h
    have hne : applyAll ws₂ (applyAll ws₁ db) ≠ db ↔ ∃ x ∈ inputs, ¬Settled sid x db := by
      rw [← not_iff_not, not_not]
      push Not
      refine ⟨fun heq x hx => ?_, fun hall => ?_⟩
      · have := hj.settled x hx
        rwa [heq] at this
      · have hsame : applyAll ws₁ db = db := hs.same fun x hx => by
          obtain ⟨p, hp, hpair, -⟩ := hall x hx
          rw [← (ofPair_iff.1 hpair).2]
          exact hdb.referenced _ (participantsT.mem_rows.1 hp) _ (by exact List.mem_cons_of_mem _ (List.mem_cons_self ..))
        rw [hj.same fun x hx => by rw [Settled, hs.participants]; exact hall x hx, hsame]
    rw [applyAll_append, spoils_answered htold, hne]

end

end

/-! ## A bulk of rows, with an audit row for each -/

open BulkDedup EtagHistory DataApi.Uniform

/-- Rows that enter one after another, from statement `n` on: each INSERT
works and passes, each row reads back, no client id is there or named twice,
and the ids that are drawn are new. -/
structure Enterable (env : Nat → Env) (n : Nat) (db : Db) (rt : ResourceTable) (sid : Uuid) (xs : List CreateInput) :
    Prop where
  works : ∀ k < xs.length, (env (n + 2 * k + 1)).fails = false
  stored : ∀ i ∈ xs, Storable i ∧ Readable rt i ∧ i.clientId ∉ taken rt sid db
  once : (xs.map (·.clientId)).Nodup
  draws : Draws db (fun k => Key.uniform rt ((env (n + 2 * k + 1)).uuid 0)) xs.length
  session : xs ≠ [] → Present (Key.session sid) db

/-- One of the audit rows of a loop is refused: its INSERT fails, or its id
is taken or drawn twice. -/
def LateLoop (env : Nat → Env) (n : Nat) (db : Db) (len : Nat) : Prop :=
  (∃ i < len, (env (n + 3 * i)).fails = true) ∨ ¬Draws db (fun i => Key.audit ((env (n + 3 * i)).uuid 0)) len

section
variable {β : Type} {tells : Row → AuditRow → Prop} {db db' : Db} {env : Nat → Env} {n len : Nat} {w : World} {rt : ResourceTable}
  {sid : Uuid} {svc : String} {b : Env}

theorem lateLoop_changed {P : Row → Prop} (h : ChangesOnly P db db') (hP : ∀ r, P r → (key r).table ≠ .audit) :
    LateLoop env n db' len ↔ LateLoop env n db len := by
  refine or_congr_right (not_congr ⟨fun hd => ⟨fun i hi hp => ?_, hd.distinct⟩, fun hd => ⟨fun i hi hp => ?_, hd.distinct⟩⟩)
  · exact hd.new i hi ((audit_changed h hP _).2 hp)
  · exact hd.new i hi ((audit_changed h hP _).1 hp)

/-- The first of the audit rows is refused, or one of the rest. -/
theorem lateLoop_succ {a : AuditRow} (ha : a.id = (env n).uuid 0) : LateLoop env n db (len + 1) ↔
    Unaudited (env n) db ∨ (¬Unaudited (env n) db ∧ LateLoop env (n + 3) (db ++ [.audit a]) len) := by
  have hstep : ∀ i, n + 3 * (i + 1) = n + 3 + 3 * i := fun i => by omega
  have hfails : (∃ i < len + 1, (env (n + 3 * i)).fails = true) ↔
      (env n).fails = true ∨ ∃ i < len, (env (n + 3 + 3 * i)).fails = true := by
    constructor
    · rintro ⟨i, hi, hf⟩
      cases i with
      | zero => exact .inl hf
      | succ i => exact .inr ⟨i, by omega, hstep i ▸ hf⟩
    · rintro (hf | ⟨i, hi, hf⟩)
      · exact ⟨0, by omega, hf⟩
      · exact ⟨i + 1, by omega, (hstep i).symm ▸ hf⟩
  have hdraws : Draws db (fun i => Key.audit ((env (n + 3 * i)).uuid 0)) (len + 1) ↔ ¬Present (Key.audit ((env n).uuid 0)) db ∧
      Draws (db ++ [.audit a]) (fun i => Key.audit ((env (n + 3 + 3 * i)).uuid 0)) len := by
    have hk : key (Row.audit a) = Key.audit ((env n).uuid 0) := congrArg Key.audit ha
    have hpresent : ∀ m, Present (Key.audit ((env (n + 3 * m)).uuid 0)) (db ++ [.audit a]) ↔
        Present (Key.audit ((env (n + 3 * m)).uuid 0)) db ∨
          Key.audit ((env (n + 3 * m)).uuid 0) = Key.audit ((env n).uuid 0) := fun m =>
      present_insert.trans (or_congr_right (by rw [hk]; exact eq_comm))
    refine (draws_cons hpresent).trans ?_
    simp only [hstep, Nat.mul_zero, Nat.add_zero]
  rw [LateLoop, hfails, hdraws, LateLoop, Unaudited]
  by_cases hf : (env n).fails = true
  · simp only [hf, true_or, not_true_eq_false, false_and, or_false]
  · by_cases hp : Present (Key.audit ((env n).uuid 0)) db
    · simp only [hp, or_true, not_true_eq_false, false_and, not_false_eq_true, or_false]
    · simp only [hf, hp, reduceCtorEq, false_or, or_self, not_false_eq_true, true_and]

/-! ### The rows -/

/-- One row enters and reads back. -/
theorem lands_fresh {i : CreateInput} {e : Env} {etag : ETag} :
    (Lands e db (Row.uniform rt (freshRow rt sid svc i etag { e with now := b.now })) ∧
      Reads (freshRow rt sid svc i etag { e with now := b.now })) ↔
    e.fails = false ∧ (Storable i ∧ Readable rt i ∧ i.clientId ∉ taken rt sid db) ∧
      ¬Present (Key.uniform rt (e.uuid 0)) db ∧ Present (Key.session sid) db := by
  constructor
  · rintro ⟨hl, hreads⟩
    have hstorable : Storable i := by
      have hck : (i.authorUserPseudoId.map (·.raw)).all isValidPseudoId = true := hl.checked
      rwa [Option.all_map] at hck
    refine ⟨hl.works, ⟨hstorable, (reads_fresh hstorable).1 hreads, fun hid => ?_⟩, ?_, hl.refs _ (List.mem_singleton.2 rfl)⟩
    · obtain ⟨r, hr, hs, hid⟩ := mem_taken.1 hid
      refine hl.free (.uniq (.uniformClient rt sid i.clientId)) ?_ _ ((uniformT rt).mem_rows.1 hr) ?_
      · rw [uniform_slots]; simp [freshRow]
      · show _ ∈ slots (Row.uniform rt r)
        rw [uniform_slots, hs, hid]; simp
    · rintro ⟨x, hx, hk⟩
      exact hl.free _ (by rw [uniform_slots]; exact List.mem_cons_self ..) x hx (pk_mem_slots.2 hk)
  · rintro ⟨hf, ⟨hstorable, hreadable, hid⟩, hkey, hs⟩
    refine ⟨⟨hf, fresh_check hstorable, fresh_slots hid hkey, fun k hk => ?_⟩, (reads_fresh hstorable).2 hreadable⟩
    rw [List.mem_singleton.1 hk]
    exact hs

/-- Rows enter one after another where the first enters, and then the rest. -/
theorem enterable_cons {i : CreateInput} {xs : List CreateInput} : Enterable env n db rt sid (i :: xs) ↔
    (Lands (env (n + 1)) db (Row.uniform rt (freshRow rt sid svc i (env n).etag { env (n + 1) with now := b.now })) ∧
      Reads (freshRow rt sid svc i (env n).etag { env (n + 1) with now := b.now })) ∧
    Enterable env (n + 2) (db ++ [Row.uniform rt (freshRow rt sid svc i (env n).etag { env (n + 1) with now := b.now })])
      rt sid xs := by
  obtain ⟨r, hr⟩ : ∃ r, r = freshRow rt sid svc i (env n).etag { env (n + 1) with now := b.now } := ⟨_, rfl⟩
  have hstep : ∀ k, n + 2 * (k + 1) + 1 = n + 2 + 2 * k + 1 := fun k => by omega
  have hdraws : Draws db (fun k => Key.uniform rt ((env (n + 2 * k + 1)).uuid 0)) (xs.length + 1) ↔
      ¬Present (Key.uniform rt ((env (n + 1)).uuid 0)) db ∧
        Draws (db ++ [Row.uniform rt r]) (fun k => Key.uniform rt ((env (n + 2 + 2 * k + 1)).uuid 0)) xs.length := by
    have hk : key (Row.uniform rt r) = Key.uniform rt ((env (n + 1)).uuid 0) := by rw [hr]; rfl
    have hpresent : ∀ m, Present (Key.uniform rt ((env (n + 2 * m + 1)).uuid 0)) (db ++ [Row.uniform rt r]) ↔
        Present (Key.uniform rt ((env (n + 2 * m + 1)).uuid 0)) db ∨
          Key.uniform rt ((env (n + 2 * m + 1)).uuid 0) = Key.uniform rt ((env (n + 1)).uuid 0) := fun m =>
      present_insert.trans (or_congr_right (by rw [hk]; exact eq_comm))
    refine (draws_cons hpresent).trans ?_
    simp only [hstep, Nat.mul_zero, Nat.add_zero]
  have htaken : ∀ id, id ∈ taken rt sid (db ++ [Row.uniform rt r]) ↔ id ∈ taken rt sid db ∨ id = i.clientId := by
    intro id
    have hone : taken rt sid [Row.uniform rt r] = [i.clientId] := by
      rw [hr]
      have hbuilt : List.Forall₂ (Built rt sid svc) [i] [freshRow rt sid svc i (env n).etag
          { env (n + 1) with now := b.now }] := .cons (built_fresh i _ _) .nil
      exact taken_built hbuilt
    rw [taken_append, List.mem_append, hone, List.mem_singleton]
  rw [lands_fresh, ← hr]
  constructor
  · rintro ⟨hworks, hstored, honce, hdr, hsession⟩
    obtain ⟨hi, honce⟩ := List.nodup_cons.1 honce
    obtain ⟨hkey, hdr⟩ := hdraws.1 hdr
    refine ⟨⟨hworks 0 (by simp), hstored i (by simp), hkey, hsession (by simp)⟩, fun k hk => ?_, fun j hj => ?_, honce, hdr, fun _ => ?_⟩
    · rw [← hstep]
      exact hworks (k + 1) (by simpa using hk)
    · obtain ⟨hs, hr, hid⟩ := hstored j (List.mem_cons_of_mem _ hj)
      refine ⟨hs, hr, fun hmem => ?_⟩
      rcases (htaken _).1 hmem with hmem | hmem
      · exact hid hmem
      · exact hi (List.mem_map.2 ⟨j, hj, hmem⟩)
    · exact present_insert.2 (.inl (hsession (by simp)))
  · rintro ⟨⟨hf, hi, hkey, hs⟩, hworks, hstored, honce, hdr, -⟩
    refine ⟨fun k hk => ?_, fun j hj => ?_, List.nodup_cons.2 ⟨fun hmem => ?_, honce⟩, hdraws.2 ⟨hkey, hdr⟩, fun _ => hs⟩
    · cases k with
      | zero => exact hf
      | succ k =>
        rw [hstep]
        exact hworks k (by simpa using hk)
    · rcases List.mem_cons.1 hj with rfl | hj
      · exact hi
      · obtain ⟨hs, hr, hid⟩ := hstored j hj
        exact ⟨hs, hr, fun hmem => hid ((htaken _).2 (.inl hmem))⟩
    · obtain ⟨j, hj, hji⟩ := List.mem_map.1 hmem
      exact (hstored j hj).2.2 ((htaken _).2 (.inr hji))

/-- Rows and the rows read back of them, all new to the tables. -/
def News (rt : ResourceTable) (db : Db) (rows : List UniformPgRow) (outs : List UniformRow) : Prop :=
  List.Forall₂ (fun row out => row.id = out.id) rows outs ∧ ∀ row ∈ rows, Row.uniform rt row ∉ db

/-- The loop that enters them. -/
theorem spoils_rows {X : Prop} : ∀ {xs : List CreateInput} {n : Nat} {vs : List (Write Row Key)} {f : List UniformRow → Handler β},
    (∀ rows outs vs', News rt (applyAll vs db) rows outs → rows.length = xs.length →
      applyAll vs' db = applyAll vs db ++ rows.map (Row.uniform rt) →
      (Spoils tells db env (n + 2 * xs.length) ⟨some ⟨b, vs'⟩, db, w⟩ (f outs) ↔ X)) →
    (Spoils tells db env n ⟨some ⟨b, vs⟩, db, w⟩ (Uniform.insertRows rt sid svc xs >>= f) ↔
      Enterable env n (applyAll vs db) rt sid xs ∧ X) := by
  intro xs
  induction xs with
  | nil =>
    intro n vs f hf
    have hnone : Enterable env n (applyAll vs db) rt sid [] :=
      ⟨(fun k hk => by cases hk), (fun i hi => by cases hi), .nil, ⟨(fun k hk => by cases hk), (fun k m _ hm => by cases hm)⟩,
        fun h => absurd rfl h⟩
    rw [and_iff_right hnone]
    exact hf [] [] vs ⟨.nil, (fun row hr => by cases hr)⟩ rfl (by simp)
  | cons i xs ih =>
    intro n vs f hf
    rw [enterable_cons, Uniform.insertRows]
    simp only [bind_assoc]
    obtain ⟨r, hr⟩ : ∃ r, r = freshRow rt sid svc i (env n).etag { env (n + 1) with now := b.now } := ⟨_, rfl⟩
    have hdecided : Decided (Lands (env (n + 1)) (applyAll vs db) (Row.uniform rt r)) (insertRowSql rt sid svc i (env n).etag) b
        (env (n + 1)) (applyAll vs db) [.uniform rt r] [.insert (.uniform rt r)] := by
      rw [hr]
      exact decided_insert (T := uniformT rt) rfl
    rw [← hr]
    refine ends_outer.trans ?_
    rw [insertRowInTx]
    simp only [bind_assoc, pure_bind]
    refine (spoils_fetchOne_tx hdecided ((uniformT rt).head_put r)).trans ?_
    rw [spoils_ofResult_tx, and_assoc, and_assoc]
    refine and_congr_right fun hl => ?_
    have hdb' : applyAll (vs ++ [.insert (Row.uniform rt r)]) db = applyAll vs db ++ [Row.uniform rt r] := by
      rw [applyAll_append]; rfl
    rw [← hdb', Reads]
    refine exists_ok fun u hu => ih fun rows outs vs' hnews hlen hvs' => ?_
    rw [hdb'] at hnews hvs'
    have hfull := hf (r :: rows) (u :: outs) vs' ⟨.cons (rowFromPg_ids hu).1 hnews.1, fun row hrow hmem => ?_⟩ (by simp [hlen])
      (by rw [hvs']; simp)
    · rw [show n + 2 + 2 * xs.length = n + 2 * (i :: xs).length by simp; omega]
      exact hfull
    · rcases List.mem_cons.1 hrow with rfl | hrow
      · exact hl.lacks hmem
      · exact hnews.2 row hrow (List.mem_append_left _ hmem)

/-! ### Their audit rows -/

/-- The loop ends otherwise than claimed when one of its audit rows is
refused: what it announces is in the tables. -/
theorem spoils_announce {g : Int} {k : Unit → Handler β} : ∀ {outs : List UniformRow} {n : Nat} {db₁ : Db} {w : World},
    (∀ a, Row.audit a ∈ db → Row.audit a ∈ db₁) → (outs ≠ [] → ∃ r ∈ db₁, r ∉ db) →
    (∀ as m w', List.Forall₂ (fun out a => Row.audit a ∉ db ∧
      ∀ r, key r = Key.uniform rt out.id → Tells svc "created" Named r a) outs as →
      ¬Spoils tells db env m ⟨none, db₁ ++ as.map .audit, w'⟩ (k ())) →
    (Spoils tells db env n ⟨none, db₁, w⟩ (UniformRoutes.announce rt svc sid g outs >>= k) ↔ LateLoop env n db₁ outs.length) := by
  intro outs
  induction outs with
  | nil =>
    intro n db₁ w _ _ hk
    refine iff_of_false ?_ ?_
    · have hnil := hk [] n w .nil
      rwa [List.map_nil, List.append_nil] at hnil
    · rintro (⟨i, hi, -⟩ | hd)
      · cases hi
      · exact hd ⟨fun i hi => absurd hi (by simp), fun i j _ hj => absurd hj (by simp)⟩
  | cons out rest ih =>
    intro n db₁ w haudits hnew hk
    obtain ⟨r, hr, hno⟩ := hnew (by simp)
    have hne : db₁ ≠ db := fun h => hno (h ▸ hr)
    rw [UniformRoutes.announce]
    simp only [bind_assoc]
    rw [spoils_append, and_iff_right hne]
    generalize hrow : AuditLog.row _ (env n) = a
    have ha : a.id = (env n).uuid 0 := by rw [← hrow]; rfl
    rw [List.length_cons, lateLoop_succ ha]
    refine or_congr_right (and_congr_right fun hfree => ?_)
    have hfresh : Row.audit a ∉ db := fun hmem => hfree (.inr ⟨_, haudits a hmem, congrArg Key.audit ha⟩)
    have htells : ∀ r, key r = Key.uniform rt out.id → Tells svc "created" Named r a := by
      intro r hr
      rw [← hrow]
      refine ⟨rfl, rfl, ?_⟩
      obtain ⟨r, rfl, hid⟩ := (uniformT rt).is_iff.1 ((key_uniform r).1 hr)
      have hid : r.id = out.id := by simpa [byId] using hid
      show (rt.resourceType, out.id.text) = (rt.resourceType, r.id.text)
      rw [hid]
    have hrest : ∀ w, Spoils tells db env (n + 3) ⟨none, db₁ ++ [.audit a], w⟩ (UniformRoutes.announce rt svc sid g rest >>= k) ↔
        LateLoop env (n + 3) (db₁ ++ [.audit a]) rest.length := by
      intro w
      refine ih (fun a' h => List.mem_append_left _ (haudits a' h)) (fun _ => ⟨r, List.mem_append_left _ hr, hno⟩)
        fun as m w' has => ?_
      rw [List.append_assoc]
      exact hk (a :: as) m w' (.cons ⟨hfresh, htells⟩ has)
    exact hrest _

theorem partner {α : Type} {R : α → β → Prop} {xs : List α} {ys : List β} (h : List.Forall₂ R xs ys) {x : α} (hx : x ∈ xs) :
    ∃ y ∈ ys, R x y := by
  obtain ⟨i, hi, rfl⟩ := List.getElem_of_mem hx
  exact ⟨_, List.getElem_mem (h.length_eq ▸ hi), h.get hi (h.length_eq ▸ hi)⟩

/-- Each row that entered has its audit row. -/
theorem News.recorded {rows : List UniformPgRow} {outs : List UniformRow} {as : List AuditRow} (h : News rt db rows outs)
    (has : List.Forall₂ (fun out a => Row.audit a ∉ db ∧ ∀ r, key r = Key.uniform rt out.id → Tells svc "created" Named r a) outs as) :
    Recorded (Tells svc "created" Named) db ((db ++ rows.map (Row.uniform rt)) ++ as.map .audit) := by
  rintro x hx (⟨hmem, hno⟩ | ⟨hmem, hno⟩)
  · have hrow : x ∈ rows.map (Row.uniform rt) := by
      rcases List.mem_append.1 hmem with hmem | hmem
      · exact (List.mem_append.1 hmem).resolve_left hno
      · obtain ⟨a, -, rfl⟩ := List.mem_map.1 hmem
        exact absurd rfl hx
    obtain ⟨row, hin, rfl⟩ := List.mem_map.1 hrow
    obtain ⟨out, hout, hid⟩ := partner h.1 hin
    obtain ⟨a, ha, hnew, htells⟩ := partner has hout
    exact ⟨a, List.mem_append_right _ (List.mem_map.2 ⟨a, ha, rfl⟩), hnew, htells _ (congrArg (Key.uniform rt) hid)⟩
  · exact absurd (List.mem_append_left _ (List.mem_append_left _ hmem)) hno

theorem spoils_insertAll {inputs : List CreateInput} {f : BulkResult → Handler β} {X : Prop}
    (hf : ∀ rows outs ids, News rt db rows outs → rows.length = (newInputs rt sid db inputs).length →
      (Spoils tells db env (n + 3 + 2 * rows.length) ⟨none, db ++ rows.map (Row.uniform rt), w⟩
        (f { inserted := outs, deduplicatedClientIds := ids }) ↔ X))
    (hnone : inputs = [] → ¬Spoils tells db env n ⟨none, db, w⟩ (f { inserted := [], deduplicatedClientIds := [] }) ∧ ¬X) :
    Spoils tells db env n ⟨none, db, w⟩ (bulkInsert rt sid svc inputs >>= f) ↔ validateInputs rt inputs = .ok () ∧
      (env n).fails = false ∧ (env (n + 1)).fails = false ∧ Enterable env (n + 2) db rt sid (newInputs rt sid db inputs) ∧
      (env (n + 2 + 2 * (newInputs rt sid db inputs).length)).fails = false ∧ X := by
  rw [bulkInsert]
  cases hinputs : inputs.isEmpty with
  | true =>
    obtain ⟨hno, hX⟩ := hnone (List.isEmpty_iff.1 hinputs)
    exact iff_of_false hno fun h => hX h.2.2.2.2.2
  | false =>
    have hread : ∀ {g : List UniformPgRow → Handler β}, Spoils tells db env (n + 1) ⟨some ⟨env n, []⟩, db, w⟩
          (fetchAll .tx (uniformT rt) (existingSql rt sid (inputs.map (·.clientId))) >>= g) ↔
        (env (n + 1)).fails = false ∧ Spoils tells db env (n + 2) ⟨some ⟨env n, []⟩, db, w⟩ (g (((uniformT rt).rows db).filter
          fun r => r.sessionId = sid && (inputs.map (·.clientId)).contains r.clientId)) := by
      intro g
      rw [fetchAll, bind_assoc, existingSql, spoils_tx decided_select, applyAll_nil, ← (uniformT rt).rows_filter_is]
      exact Iff.rfl
    rw [if_neg (by simp)]
    simp only [bind_assoc, pure_bind]
    rw [spoils_ofResult, at_first]
    simp only [spoils_begin, at_first, hread]
    have hloop : ∀ {ids : List String}, Spoils tells db env (n + 2) ⟨some ⟨env n, []⟩, db, w⟩
          (Uniform.insertRows rt sid svc (newInputs rt sid db inputs) >>= fun outs => commit >>= fun _ =>
            f { inserted := outs, deduplicatedClientIds := ids }) ↔
        Enterable env (n + 2) db rt sid (newInputs rt sid db inputs) ∧
          (env (n + 2 + 2 * (newInputs rt sid db inputs).length)).fails = false ∧ X := by
      intro ids
      refine spoils_rows fun rows outs vs' hnews hlen hvs' => ?_
      rw [spoils_commit, hvs', applyAll_nil, ← hlen, show n + 2 + 2 * rows.length + 1 = n + 3 + 2 * rows.length by omega]
      exact and_congr_right fun _ => hf rows outs ids hnews hlen
    have hunit : ∀ {S : Prop}, (∃ a : Unit, validateInputs rt inputs = .ok a ∧ S) ↔ validateInputs rt inputs = .ok () ∧ S := by
      refine ⟨?_, fun h => ⟨(), h⟩⟩
      rintro ⟨_, h⟩
      exact h
    rw [hunit]
    refine and_congr_right fun _ => and_congr_right fun _ => and_congr_right fun _ => ?_
    rw [← hloop, ← newInputs_eq]
    exact Iff.rfl

/-- The session is looked up before anything is done. -/
theorem spoils_guildFirst {f : Int → Handler β} {X : Prop} (hf : ∀ g, Spoils tells db env (n + 1) ⟨none, db, w⟩ (f g) ↔ X) :
    Spoils tells db env n ⟨none, db, w⟩ (Sessions.guildIdForSession sid >>= f) ↔ ¬NoGuild (env n) sid db ∧ X := by
  rw [Sessions.guildIdForSession, bind_assoc, Sessions.getSql]
  rw [spoils_fetchOptional decided_select (head_filter_is (p := Sessions.byId sid)), at_first, applyAll_nil, NoGuild, not_or,
    not_not, Bool.not_eq_true, and_assoc, present_iff key_session]
  refine and_congr_right fun _ => ?_
  cases hs : (sessionsT.rows db).find? (Sessions.byId sid) with
  | none =>
    refine iff_of_false (fun h => h rfl) ?_
    rintro ⟨⟨s, h⟩, -⟩
    cases h
  | some s => exact (hf s.guildId).trans (and_iff_right ⟨s, rfl⟩).symm

/-- The rows enter, and an audit row of theirs is refused. -/
structure LateBulk (env : Nat → Env) (db : Db) (rt : ResourceTable) (sid : Uuid) (inputs : List CreateInput) : Prop where
  guild : ¬NoGuild (env 0) sid db
  valid : validateInputs rt inputs = .ok ()
  begins : (env 1).fails = false ∧ (env 2).fails = false
  enterable : Enterable env 3 db rt sid (newInputs rt sid db inputs)
  commits : (env (3 + 2 * (newInputs rt sid db inputs).length)).fails = false
  unaudited : LateLoop env (4 + 2 * (newInputs rt sid db inputs).length) db (newInputs rt sid db inputs).length

theorem bulkCreate_late (rt : ResourceTable) (svc : String) (sid : Uuid) (req : UniformRoutes.BulkRequest) :
    Spoils (Tells svc "created" Named) db env 0 ⟨none, db, w⟩ (UniformRoutes.bulkCreate rt svc sid req) ↔
      LateBulk env db rt sid (req.take rt) := by
  rw [UniformRoutes.bulkCreate]
  generalize req.take rt = inputs
  have hnever : ∀ m, ¬LateLoop env m db 0 := by
    rintro m (⟨i, hi, -⟩ | hd)
    · cases hi
    · exact hd ⟨fun i hi => absurd hi (by simp), fun i j _ hj => absurd hj (by simp)⟩
  refine (spoils_guildFirst fun g => spoils_insertAll (X := LateLoop env (4 + 2 * (newInputs rt sid db inputs).length) db
    (newInputs rt sid db inputs).length) (fun rows outs ids hnews hlen => ?_) fun hnil => ?_).trans ?_
  · have hlen' : outs.length = (newInputs rt sid db inputs).length := hnews.1.length_eq.symm.trans hlen
    have hchanges : ChangesOnly (fun r => (key r).table ≠ .audit) db (db ++ rows.map (Row.uniform rt)) := .append fun r hr => by
      obtain ⟨row, -, rfl⟩ := List.mem_map.1 hr
      rintro ⟨⟩
    rw [← lateLoop_changed hchanges fun r hr => hr, hlen, ← hlen', show 0 + 1 + 3 + 2 * outs.length = 4 + 2 * outs.length by omega]
    refine spoils_announce (fun a ha => List.mem_append_left _ ha) (fun hne => ?_) fun as m w' has => ?_
    · cases rows with
      | nil => exact absurd (List.forall₂_nil_left_iff.1 hnews.1) hne
      | cons row rest => exact ⟨.uniform rt row, by simp, hnews.2 row (by simp)⟩
    · exact not_spoils_pure (hnews.recorded has)
  · rw [hnil]
    exact ⟨not_spoils_pure fun r _ hr => absurd hr (by rintro (⟨h, hno⟩ | ⟨h, hno⟩) <;> exact hno h), hnever _⟩
  · exact ⟨fun h => ⟨h.1, h.2.1, ⟨h.2.2.1, h.2.2.2.1⟩, h.2.2.2.2.1, h.2.2.2.2.2.1, h.2.2.2.2.2.2⟩,
      fun h => ⟨h.guild, h.valid, h.begins.1, h.begins.2, h.enterable, h.commits, h.unaudited⟩⟩

end
end DataApi.ErrorsUnchanged
