/-
Adding participants in a batch and one by one. Both upsert: a row in the way
keeps all but `mid_session_join`. But the batch is one statement, and fails on
a pseudonym it names twice; on distinct ones it does what the single adds do.
-/
import DataApi.Verdicts

namespace DataApi.BatchAdd

open Relational ReadCommitted Resumption Handler Participants

/-! ## The two tables as lists -/

/-- Enter a user that is not there yet. -/
def seed (us : List User) (u : User) : List User := if us.any (fun x => x.pseudoId = u.pseudoId) then us else us ++ [u]

/-- Enter a participant, or set `mid_session_join` of the one that is there. -/
def join (ps : List Participant) (p : Participant) : List Participant :=
  if ps.any (ofPair p.sessionId p.pseudoId) then
    ps.map fun q => if ofPair p.sessionId p.pseudoId q then { q with midSessionJoin := p.midSessionJoin } else q
  else ps ++ [p]

theorem ofPair_iff {sid : Uuid} {pid : PseudoId} {p : Participant} :
    ofPair sid pid p = true ↔ p.sessionId = sid ∧ p.pseudoId = pid := by
  simp [ofPair]

theorem mem_join {ps : List Participant} {p q : Participant} (h : q ∈ join ps p) :
    q = p ∨ ∃ q₀ ∈ ps, q₀.id = q.id ∧ q₀.sessionId = q.sessionId ∧ q₀.pseudoId = q.pseudoId := by
  unfold join at h
  split at h
  · obtain ⟨q₀, hq₀, rfl⟩ := List.mem_map.1 h
    refine .inr ⟨q₀, hq₀, ?_⟩
    split <;> exact ⟨rfl, rfl, rfl⟩
  · rcases List.mem_append.1 h with h | h
    · exact .inr ⟨q, h, rfl, rfl, rfl⟩
    · exact .inl (List.mem_singleton.1 h)

/-! ### Without what is generated -/

def eraseUser (u : User) : User := { u with createdAt := 0 }

def eraseParticipant (p : Participant) : Participant := { p with id := 0, createdAt := 0 }

theorem seed_erase (us : List User) (u : User) : (seed us u).map eraseUser = seed (us.map eraseUser) (eraseUser u) := by
  have hany : (us.map eraseUser).any (fun x => x.pseudoId = (eraseUser u).pseudoId) =
      us.any fun x => x.pseudoId = u.pseudoId := by rw [List.any_map]; rfl
  unfold seed
  rw [hany]
  split <;> simp

theorem join_erase (ps : List Participant) (p : Participant) :
    (join ps p).map eraseParticipant = join (ps.map eraseParticipant) (eraseParticipant p) := by
  have hany : (ps.map eraseParticipant).any (ofPair (eraseParticipant p).sessionId (eraseParticipant p).pseudoId) =
      ps.any (ofPair p.sessionId p.pseudoId) := by rw [List.any_map]; rfl
  unfold join
  rw [hany]
  split
  · rw [List.map_map, List.map_map]
    refine List.map_congr_left fun q _ => ?_
    have hpair : ofPair (eraseParticipant p).sessionId (eraseParticipant p).pseudoId (eraseParticipant q) =
        ofPair p.sessionId p.pseudoId q := rfl
    simp only [Function.comp_apply, hpair]
    split <;> rfl
  · simp

theorem foldl_erase {τ : Type} {f : List τ → τ → List τ} {g : τ → τ} (h : ∀ ts t, (f ts t).map g = f (ts.map g) (g t))
    (new : List τ) : ∀ ts, (new.foldl f ts).map g = (new.map g).foldl f (ts.map g) := by
  induction new with
  | nil => exact fun ts => rfl
  | cons t new ih =>
    intro ts
    rw [List.foldl_cons, ih, h]; rfl

/-! ### What is kept -/

/-- Users that are there stay as they are. -/
def KeptUsers (us us' : List User) : Prop :=
  ∃ new, us' = us ++ new ∧ ∀ u ∈ new, ∀ x ∈ us, x.pseudoId ≠ u.pseudoId

/-- Participants that are there stay, but for `mid_session_join`; a new row is
of a new session and pseudonym. -/
def KeptParticipants (ps ps' : List Participant) : Prop :=
  ∃ (mid : Participant → Bool) (new : List Participant),
    ps' = (ps.map fun p => { p with midSessionJoin := mid p }) ++ new ∧
      ∀ q ∈ new, ∀ p ∈ ps, ofPair q.sessionId q.pseudoId p = false

theorem KeptUsers.refl (us : List User) : KeptUsers us us := ⟨[], by simp, by simp⟩

theorem KeptUsers.seed {us us' : List User} (h : KeptUsers us us') (u : User) : KeptUsers us (seed us' u) := by
  obtain ⟨new, rfl, hnew⟩ := h
  unfold BatchAdd.seed
  split
  · exact ⟨new, rfl, hnew⟩
  · next hno =>
    refine ⟨new ++ [u], by simp, fun y hy x hx => ?_⟩
    rcases List.mem_append.1 hy with hy | hy
    · exact hnew y hy x hx
    · rw [List.mem_singleton.1 hy]
      intro hxu
      exact hno (List.any_eq_true.2 ⟨x, List.mem_append_left _ hx, by simpa using hxu⟩)

theorem KeptParticipants.refl (ps : List Participant) : KeptParticipants ps ps :=
  ⟨fun p => p.midSessionJoin, [], by simp, by simp⟩

theorem KeptParticipants.join {ps ps' : List Participant} (h : KeptParticipants ps ps') (p : Participant) :
    KeptParticipants ps (join ps' p) := by
  obtain ⟨mid, new, rfl, hnew⟩ := h
  unfold BatchAdd.join
  split
  · refine ⟨fun q => if ofPair p.sessionId p.pseudoId q then p.midSessionJoin else mid q,
      new.map fun q => if ofPair p.sessionId p.pseudoId q then { q with midSessionJoin := p.midSessionJoin } else q, ?_, ?_⟩
    · rw [List.map_append, List.map_map]
      congr 1
      refine List.map_congr_left fun q _ => ?_
      have hpair : ofPair p.sessionId p.pseudoId { q with midSessionJoin := mid q } = ofPair p.sessionId p.pseudoId q := rfl
      simp only [Function.comp_apply, hpair]
      split <;> rfl
    · intro q' hq' x hx
      obtain ⟨q, hq, rfl⟩ := List.mem_map.1 hq'
      split
      · exact hnew q hq x hx
      · exact hnew q hq x hx
  · next hno =>
    refine ⟨mid, new ++ [p], by simp, fun q hq x hx => ?_⟩
    rcases List.mem_append.1 hq with hq | hq
    · exact hnew q hq x hx
    · rw [List.mem_singleton.1 hq]
      refine Bool.eq_false_iff.2 fun hpx => hno (List.any_eq_true.2 ⟨_, List.mem_append_left _ (List.mem_map.2 ⟨x, hx, rfl⟩), hpx⟩)

theorem kept_foldl {τ : Type} {f : List τ → τ → List τ} {K : List τ → List τ → Prop} (refl : ∀ ts, K ts ts)
    (h : ∀ {ts ts'}, K ts ts' → ∀ t, K ts (f ts' t)) (ts new : List τ) : K ts (new.foldl f ts) := by
  induction new using List.reverseRecOn with
  | nil => exact refl ts
  | append_singleton new t ih =>
    rw [List.foldl_append]
    exact h ih t

/-! ## One row -/

theorem user_slots (u : User) : slots (Row.user u) = [.pk (.user u.pseudoId)] := rfl

theorem participant_slots (p : Participant) : slots (Row.participant p) =
    [.pk (.participant p.id), .uniq (.participant p.sessionId p.pseudoId)] := rfl

theorem key_user {r : Row} {pid : PseudoId} (h : key r = Key.user pid) : ∃ u, r = .user u ∧ u.pseudoId = pid := by
  cases r with
  | user u => exact ⟨u, rfl, Key.user.inj h⟩
  | _ => cases h

theorem key_participant {r : Row} {id : Uuid} (h : key r = Key.participant id) :
    ∃ p, r = .participant p ∧ p.id = id := by
  cases r with
  | participant p => exact ⟨p, rfl, Key.participant.inj h⟩
  | _ => cases h

section
variable {db : Db} {touched : List Key}

theorem user_present {pid : PseudoId} : Present (Key.user pid) db ↔ (usersT.rows db).any (fun x => x.pseudoId = pid) = true := by
  simp only [List.any_eq_true, decide_eq_true_eq]
  constructor
  · rintro ⟨r, hr, hk⟩
    obtain ⟨u, rfl, hu⟩ := key_user hk
    exact ⟨u, usersT.mem_rows.2 hr, hu⟩
  · rintro ⟨u, hu, hpid⟩
    exact ⟨_, usersT.mem_rows.1 hu, congrArg Key.user hpid⟩

/-- A user row, by either way of seeding. -/
theorem seed_row {u : User} {oc : OnConflict Row} (hdb : Intact db) (hck : check (Row.user u) = true)
    (hoc : oc = .doNothing onPk ∨ oc = Users.upsertConflict ∧ touched = []) :
    ∃ rows ws, (insertRow db touched (.user u) oc).result = .ok (rows, ws) ∧ participantsT.rows rows = [] ∧
      (∀ v ∈ ws, v.key = Key.user u.pseudoId) ∧ usersT.rows (applyAll ws db) = seed (usersT.rows db) u ∧
      Present (Key.user u.pseudoId) (applyAll ws db) := by
  by_cases hin : Present (Key.user u.pseudoId) db
  · have hseed : seed (usersT.rows db) u = usersT.rows db := if_pos (user_present.1 hin)
    obtain ⟨r, hr, hk⟩ := hin
    obtain ⟨u', rfl, hpid⟩ := key_user hk
    have hslot : (Lockable.pk (.user u.pseudoId) : Lockable Key Uniq) ∈ slots (Row.user u') := by
      rw [user_slots, hpid]; simp
    have hclash : clash db ((slots (Row.user u)).filter onPk) = some (.pk (.user u.pseudoId), .user u') :=
      clash_arbiter (by rfl) hdb hr hslot
    rcases hoc with rfl | ⟨rfl, rfl⟩
    · exact ⟨[], [], by simp [insertRow, hck, hclash], rfl, by simp, hseed.symm, _, hr, hk⟩
    · refine ⟨[.user u'], [.update (.user u')], insertRow_taken hck hclash (by simp) (hdb.checked _ hr), rfl, ?_, ?_, ?_⟩
      · intro v hv
        rw [List.mem_singleton.1 hv]
        exact hk
      · rw [hseed]
        refine (usersT.rows_update (fun r hk => (key_user hk).imp fun _ h => h.1) db).trans ?_
        refine (List.map_congr_left fun x hx => ?_).trans (List.map_id _)
        split
        · next hxk =>
          have hsame := hdb.slot_eq (usersT.mem_rows.1 hx) hr (pk_mem_slots.2 rfl) (pk_mem_slots.2 hxk.symm)
          exact (usersT.put_inj hsame).symm
        · rfl
      · rw [applyAll_cons, applyAll_nil, present_update]
        exact ⟨_, hr, hk⟩
  · have hfree : ∀ l ∈ slots (Row.user u), ∀ e ∈ db, l ∉ slots e := by
      intro l hl e he hle
      obtain rfl := List.mem_singleton.1 hl
      exact hin ⟨e, he, slots_key hle⟩
    refine ⟨[.user u], [.insert (.user u)], insertRow_free hck hfree (by intro k hk; cases hk), rfl, ?_, ?_, ?_⟩
    · intro v hv
      rw [List.mem_singleton.1 hv]; rfl
    · rw [seed, if_neg fun h => hin (user_present.2 h)]
      exact usersT.rows_insert u db
    · rw [applyAll_cons, applyAll_nil, present_insert]
      exact .inr rfl

theorem participant_slot {e : Row} {sid : Uuid} {pid : PseudoId}
    (h : (Lockable.uniq (.participant sid pid) : Lockable Key Uniq) ∈ slots e) :
    ∃ p, e = .participant p ∧ ofPair sid pid p = true := by
  have hu : Uniq.participant sid pid ∈ uniques e := by simpa [slots] using h
  obtain ⟨p, rfl, hsid, hpid⟩ := participant_of_uniq hu
  exact ⟨p, rfl, ofPair_iff.2 ⟨hsid, hpid⟩⟩

/-- The rows under a session and pseudonym are one at most. -/
theorem pair_single (hdb : Intact db) {p q : Participant} (hp : p ∈ participantsT.rows db) (hq : q ∈ participantsT.rows db)
    (hsid : p.sessionId = q.sessionId) (hpid : p.pseudoId = q.pseudoId) : p = q := by
  have hslot : (Lockable.uniq (.participant q.sessionId q.pseudoId) : Lockable Key Uniq) ∈ slots (Row.participant p) := by
    rw [participant_slots, hsid, hpid]; simp
  exact participantsT.put_inj (hdb.slot_eq (participantsT.mem_rows.1 hp) (participantsT.mem_rows.1 hq) hslot (by
    show _ ∈ slots (Row.participant q)
    rw [participant_slots]; simp))

theorem id_single (hdb : Intact db) {p q : Participant} (hp : p ∈ participantsT.rows db) (hq : q ∈ participantsT.rows db)
    (hid : p.id = q.id) : p = q := by
  have h := hdb.keys.lookup_eq (participantsT.mem_rows.1 hp)
  rw [show key (participantsT.put p) = key (participantsT.put q) from congrArg Key.participant hid,
    hdb.keys.lookup_eq (participantsT.mem_rows.1 hq)] at h
  exact (participantsT.put_inj (Option.some.inj h)).symm

/-- The session has a participant of the pseudonym. -/
def paired (sid : Uuid) (pid : PseudoId) (db : Db) : Bool := (participantsT.rows db).any (ofPair sid pid)

theorem paired_iff {sid : Uuid} {pid : PseudoId} : paired sid pid db = true ↔
    ∃ r ∈ db, (.uniq (.participant sid pid) : Lockable Key Uniq) ∈ slots r := by
  constructor
  · intro h
    obtain ⟨p, hp, hpair⟩ := List.any_eq_true.1 h
    obtain ⟨rfl, rfl⟩ := ofPair_iff.1 hpair
    exact ⟨_, participantsT.mem_rows.1 hp, by show _ ∈ slots (Row.participant p); rw [participant_slots]; simp⟩
  · rintro ⟨r, hr, hl⟩
    obtain ⟨p, rfl, hp⟩ := participant_slot hl
    exact List.any_eq_true.2 ⟨p, participantsT.mem_rows.2 hr, hp⟩

/-- The participant is there, or can be entered under the id. -/
def Room (sid : Uuid) (pid : PseudoId) (id : Uuid) (db : Db) : Prop :=
  paired sid pid db = true ∨ (Present (Key.session sid) db ∧ ¬Present (Key.participant id) db)

section
variable {sid id : Uuid} {x : AddParticipant} {e : Env}

theorem check_fresh : check (Row.participant (freshRow sid x id e)) = true ↔ isValidPseudoId x.pseudoId.raw = true := by
  show (isValidPseudoId x.pseudoId.raw && true) = true ↔ _
  rw [Bool.and_true]

theorem arbiter_fresh : (slots (Row.participant (freshRow sid x id e))).filter onUnique =
    [.uniq (.participant sid x.pseudoId)] := rfl

theorem join_paired (h : paired sid x.pseudoId db = true) : join (participantsT.rows db) (freshRow sid x id e) =
    (participantsT.rows db).map fun q =>
      if ofPair sid x.pseudoId q then { q with midSessionJoin := x.midSessionJoin } else q := if_pos h

theorem join_unpaired (h : ¬paired sid x.pseudoId db = true) : join (participantsT.rows db) (freshRow sid x id e) =
    participantsT.rows db ++ [freshRow sid x id e] := if_neg h

/-- A participant row. What it touches is the row of its session and
pseudonym. -/
theorem join_row (hdb : Intact db) (hvalid : isValidPseudoId x.pseudoId.raw = true) (hroom : Room sid x.pseudoId id db)
    (hu : Present (Key.user x.pseudoId) db)
    (ht : ∀ q ∈ participantsT.rows db, ofPair sid x.pseudoId q = true → Key.participant q.id ∉ touched) :
    ∃ q ws, (insertRow db touched (.participant (freshRow sid x id e)) (rejoin x)).result = .ok ([.participant q], ws) ∧
      (∀ v ∈ ws, v.key = Key.participant q.id) ∧ q ∈ participantsT.rows (applyAll ws db) ∧
      ofPair sid x.pseudoId q = true ∧
      participantsT.rows (applyAll ws db) = join (participantsT.rows db) (freshRow sid x id e) := by
  have hck : check (Row.participant (freshRow sid x id e)) = true := check_fresh.2 hvalid
  by_cases hpaired : paired sid x.pseudoId db = true
  · obtain ⟨r, hr, hl⟩ := paired_iff.1 hpaired
    obtain ⟨p, rfl, hp⟩ := participant_slot hl
    have hpm : p ∈ participantsT.rows db := participantsT.mem_rows.2 hr
    have hckp : check (Row.participant p) = true := hdb.checked _ hr
    have hrun : (insertRow db touched (.participant (freshRow sid x id e)) (rejoin x)).result =
        .ok ([.participant { p with midSessionJoin := x.midSessionJoin }],
          [.update (.participant { p with midSessionJoin := x.midSessionJoin })]) :=
      insertRow_taken hck (clash_arbiter arbiter_fresh hdb hr hl) (ht p hpm hp) hckp
    have hrows : participantsT.rows (applyAll [.update (.participant { p with midSessionJoin := x.midSessionJoin })] db) =
        join (participantsT.rows db) (freshRow sid x id e) := by
      refine (participantsT.rows_update (fun r hk => (key_participant hk).imp fun _ h => h.1) db).trans ?_
      rw [join_paired hpaired]
      refine List.map_congr_left fun q hq => ?_
      by_cases hpair : ofPair sid x.pseudoId q = true
      · obtain ⟨hqs, hqp⟩ := ofPair_iff.1 hpair
        obtain ⟨hps, hpp⟩ := ofPair_iff.1 hp
        obtain rfl := pair_single hdb hq hpm (hqs.trans hps.symm) (hqp.trans hpp.symm)
        exact (if_pos rfl).trans (if_pos hpair).symm
      · have hne : key (participantsT.put q) ≠ key (participantsT.put { p with midSessionJoin := x.midSessionJoin }) := by
          intro hk
          obtain rfl := id_single hdb hq hpm (Key.participant.inj hk)
          exact hpair hp
        rw [if_neg hne]
        exact (if_neg hpair).symm
    refine ⟨{ p with midSessionJoin := x.midSessionJoin }, _, hrun, ?_, ?_, hp, hrows⟩
    · intro v hv
      rw [List.mem_singleton.1 hv]; rfl
    · exact participantsT.mem_rows.2 (List.mem_map.2 ⟨_, hr, if_pos rfl⟩)
  · obtain ⟨hs, hid⟩ := hroom.resolve_left hpaired
    have hfree : ∀ l ∈ slots (Row.participant (freshRow sid x id e)), ∀ r ∈ db, l ∉ slots r := by
      intro l hl r hr hlr
      rw [participant_slots] at hl
      rcases List.mem_cons.1 hl with rfl | hl
      · exact hid ⟨r, hr, slots_key hlr⟩
      · rw [List.mem_singleton.1 hl] at hlr
        exact hpaired (paired_iff.2 ⟨r, hr, hlr⟩)
    have hrefs : ∀ k ∈ refs (Row.participant (freshRow sid x id e)), Present k db := by
      intro k hk
      rcases List.mem_cons.1 hk with rfl | hk
      · exact hs
      · rw [List.mem_singleton.1 hk]
        exact hu
    refine ⟨freshRow sid x id e, [.insert (.participant (freshRow sid x id e))], insertRow_free hck hfree hrefs, ?_, ?_,
      ofPair_iff.2 ⟨rfl, rfl⟩, ?_⟩
    · intro v hv
      rw [List.mem_singleton.1 hv]; rfl
    · exact participantsT.mem_rows.2 (List.mem_append_right _ (List.mem_singleton.2 rfl))
    · rw [applyAll_cons, applyAll_nil, join_unpaired hpaired]
      exact participantsT.rows_insert _ db

/-- Where the row goes in, there was room. -/
theorem room_of_ok {rows : Db} {ws : List (Write Row Key)}
    (h : (insertRow db touched (.participant (freshRow sid x id e)) (rejoin x)).result = .ok (rows, ws)) :
    isValidPseudoId x.pseudoId.raw = true ∧ Room sid x.pseudoId id db := by
  obtain ⟨hck, ⟨-, -, hc, hrefs, -⟩ | ⟨-, -, a, ho, -⟩ | ⟨a, set, l, r, ho, hc, -⟩⟩ := insertRow_cases h
  · refine ⟨check_fresh.1 hck, .inr ⟨hrefs _ (by exact List.mem_cons_self ..), ?_⟩⟩
    rintro ⟨r, hr, hk⟩
    exact clash_eq_none.1 hc (.pk (.participant id)) (by rw [participant_slots]; simp [freshRow]) r hr (pk_mem_slots.2 hk)
  · cases ho
  · obtain ⟨rfl, rfl⟩ := OnConflict.doUpdate.inj ho
    obtain ⟨hl, hr, hlr⟩ := clash_some hc
    rw [arbiter_fresh, List.mem_singleton] at hl
    rw [hl] at hlr
    exact ⟨check_fresh.1 hck, .inl (paired_iff.2 ⟨r, hr, hlr⟩)⟩

/-- What is written to the users makes no difference here. -/
theorem room_seeded {us : List (Write Row Key)} (h : ∀ v ∈ us, v.key.table = .users) (pid : PseudoId) :
    (Room sid pid id (applyAll us db) ↔ Room sid pid id db) ∧
      participantsT.rows (applyAll us db) = participantsT.rows db := by
  have hrows : participantsT.rows (applyAll us db) = participantsT.rows db :=
    participantsT.rows_applyAll_other (fun v hv t hk => by
      have := h v hv
      rw [← hk] at this
      cases this) db
  have hpresent : ∀ {k : Key}, k.table ≠ .users → (Present k (applyAll us db) ↔ Present k db) := fun hk =>
    present_congr (versions_applyAll_other (fun v hv hkv => hk (by rw [← hkv, h v hv])) db)
  refine ⟨?_, hrows⟩
  rw [Room, Room, paired, paired, hrows, hpresent (by rintro ⟨⟩), hpresent (by rintro ⟨⟩)]

end
end

/-! ## The statements -/

def Valid (inputs : List AddParticipant) : Prop := ∀ x ∈ inputs, isValidPseudoId x.pseudoId.raw = true

instance (inputs : List AddParticipant) : Decidable (Valid inputs) :=
  inferInstanceAs (Decidable (∀ x ∈ inputs, isValidPseudoId x.pseudoId.raw = true))

theorem Valid.tail {x : AddParticipant} {inputs : List AddParticipant} (h : Valid (x :: inputs)) : Valid inputs :=
  fun y hy => h y (List.mem_cons_of_mem _ hy)

/-- The rows that are seeded. -/
def users (inputs : List AddParticipant) (e : Env) : List User := inputs.map fun x => Users.freshRow x.pseudoId false e

/-- The rows that are entered, `u n` the id drawn for number `n`. -/
def participants (sid : Uuid) (inputs : List AddParticipant) (u : Nat → Uuid) (e : Env) : List Participant :=
  inputs.mapIdx fun n x => freshRow sid x (u n) e

theorem participants_cons (sid : Uuid) (x : AddParticipant) (inputs : List AddParticipant) (u : Nat → Uuid) (e : Env) :
    participants sid (x :: inputs) u e = freshRow sid x (u 0) e :: participants sid inputs (fun n => u (n + 1)) e := by
  rw [participants, List.mapIdx_cons]; rfl

/-- A row that was joined, under the id drawn for it or as it was. -/
theorem draws_tail {db db' : Db} {u : Nat → Uuid} {len : Nat} {p : Participant}
    (h : Draws db (fun n => Key.participant (u n)) (len + 1)) (hid : p.id = u 0)
    (hrows : participantsT.rows db' = join (participantsT.rows db) p) :
    Draws db' (fun n => Key.participant (u (n + 1))) len := by
  refine h.tail fun n hp => ?_
  obtain ⟨r, hr, hk⟩ := hp
  obtain ⟨q, rfl, hq⟩ := key_participant hk
  have hmem := participantsT.mem_rows.2 hr
  rw [hrows] at hmem
  rcases mem_join hmem with rfl | ⟨q₀, hq₀, hid₀, -⟩
  · exact .inr (congrArg Key.participant (hq.symm.trans hid))
  · exact .inl ⟨_, participantsT.mem_rows.1 hq₀, congrArg Key.participant (hid₀.trans hq)⟩

/-- The ids drawn for those who are new to the session. -/
def newIds (sid : Uuid) (inputs : List AddParticipant) (u : Nat → Uuid) (db : Db) : List Uuid :=
  ((inputs.mapIdx fun n x => (x.pseudoId, u n)).filter fun p => !paired sid p.1 db).map (·.2)

/-- A batch that can be joined: valid pseudonyms, none twice, and for those
who are new to the session, a session that is there and ids that are not. -/
structure Joins (sid : Uuid) (inputs : List AddParticipant) (u : Nat → Uuid) (db : Db) : Prop where
  valid : Valid inputs
  once : (inputs.map (·.pseudoId)).Nodup
  session : newIds sid inputs u db ≠ [] → Present (Key.session sid) db
  free : ∀ id ∈ newIds sid inputs u db, ¬Present (Key.participant id) db
  distinct : (newIds sid inputs u db).Nodup

section
variable {sid : Uuid} {e : Env} {x : AddParticipant} {inputs : List AddParticipant} {u : Nat → Uuid} {db : Db}

theorem newIds_cons : newIds sid (x :: inputs) u db =
    if paired sid x.pseudoId db then newIds sid inputs (fun n => u (n + 1)) db
    else u 0 :: newIds sid inputs (fun n => u (n + 1)) db := by
  rw [newIds, List.mapIdx_cons, List.filter_cons]
  cases paired sid x.pseudoId db <;> rfl

theorem mem_newIds {id : Uuid} (h : id ∈ newIds sid inputs u db) : ∃ n < inputs.length, id = u n := by
  obtain ⟨p, hp, rfl⟩ := List.mem_map.1 h
  obtain ⟨n, hn, rfl⟩ := List.mem_mapIdx.1 (List.mem_filter.1 hp).1
  exact ⟨n, hn, rfl⟩

/-- Ids that are drawn apart and new are so for those who need one. -/
theorem Joins.of_draws (hvalid : Valid inputs) (honce : (inputs.map (·.pseudoId)).Nodup) (hs : Present (Key.session sid) db)
    (h : Draws db (fun n => Key.participant (u n)) inputs.length) : Joins sid inputs u db := by
  refine ⟨hvalid, honce, fun _ => hs, fun id hid => ?_, ?_⟩
  · obtain ⟨n, hn, rfl⟩ := mem_newIds hid
    exact h.new n hn
  · have hall : ((inputs.mapIdx fun n x => (x.pseudoId, u n)).map (·.2)).Nodup := by
      rw [List.nodup_iff_pairwise_ne, List.pairwise_iff_getElem]
      intro i j hi hj hij
      simp only [List.length_map, List.length_mapIdx] at hi hj
      simp only [List.getElem_map, List.getElem_mapIdx]
      exact fun heq => h.distinct i j hij hj (congrArg Key.participant heq)
    exact hall.sublist (List.filter_sublist.map _)

theorem Joins.head (h : Joins sid (x :: inputs) u db) :
    isValidPseudoId x.pseudoId.raw = true ∧ x.pseudoId ∉ inputs.map (·.pseudoId) ∧ Room sid x.pseudoId (u 0) db := by
  refine ⟨h.valid x (by simp), (List.nodup_cons.1 h.once).1, ?_⟩
  by_cases hp : paired sid x.pseudoId db = true
  · exact .inl hp
  · have hids : newIds sid (x :: inputs) u db = u 0 :: newIds sid inputs (fun n => u (n + 1)) db := by
      rw [newIds_cons, if_neg hp]
    exact .inr ⟨h.session (by rw [hids]; simp), h.free _ (by rw [hids]; simp)⟩

section
variable {id : Uuid} {db' : Db} (hrows : participantsT.rows db' = join (participantsT.rows db) (freshRow sid x id e))
include hrows

theorem paired_joined {pid : PseudoId} (hne : pid ≠ x.pseudoId) : paired sid pid db' = paired sid pid db := by
  have hno : ∀ p : Participant, ofPair sid x.pseudoId p = true → ofPair sid pid p = false := fun p hp =>
    Bool.eq_false_iff.2 fun hp' => hne ((ofPair_iff.1 hp').2.symm.trans (ofPair_iff.1 hp).2)
  rw [paired, paired, hrows, join]
  split
  · rw [List.any_map]
    refine congrArg (List.any _) (funext fun q => ?_)
    rw [Function.comp_apply]
    split <;> rfl
  · rw [List.any_append, List.any_cons, List.any_nil, hno _ (ofPair_iff.2 ⟨rfl, rfl⟩), Bool.or_false, Bool.or_false]

theorem newIds_joined (hx : x.pseudoId ∉ inputs.map (·.pseudoId)) : newIds sid inputs u db' = newIds sid inputs u db := by
  refine congrArg (List.map _) (List.filter_congr fun p hp => ?_)
  obtain ⟨n, hn, rfl⟩ := List.mem_mapIdx.1 hp
  rw [paired_joined hrows]
  intro heq
  exact hx (heq ▸ List.mem_map_of_mem (List.getElem_mem hn))

theorem participant_joined {k : Uuid} : Present (Key.participant k) db' ↔
    Present (Key.participant k) db ∨ (paired sid x.pseudoId db = false ∧ k = id) := by
  have hpresent : ∀ {db : Db}, Present (Key.participant k) db ↔ k ∈ (participantsT.rows db).map (·.id) := by
    intro db
    constructor
    · rintro ⟨r, hr, hk⟩
      obtain ⟨p, rfl, hp⟩ := key_participant hk
      exact List.mem_map.2 ⟨p, participantsT.mem_rows.2 hr, hp⟩
    · intro h
      obtain ⟨p, hp, hid⟩ := List.mem_map.1 h
      exact ⟨_, participantsT.mem_rows.1 hp, congrArg Key.participant hid⟩
  rw [hpresent, hpresent, hrows]
  by_cases hp : paired sid x.pseudoId db = true
  · have hids : ∀ q ∈ participantsT.rows db, ((fun p : Participant => p.id) ∘ fun q =>
        if ofPair sid x.pseudoId q then { q with midSessionJoin := x.midSessionJoin } else q) q = q.id := by
      intro q _
      rw [Function.comp_apply]
      split <;> rfl
    rw [join_paired hp, List.map_map, List.map_congr_left hids, hp]
    simp
  · rw [join_unpaired hp, List.map_append, List.mem_append, Bool.eq_false_iff.2 hp]
    simp [freshRow]

end

/-- A batch is joined row by row. -/
theorem joins_cons {db' : Db} (hrows : participantsT.rows db' = join (participantsT.rows db) (freshRow sid x (u 0) e))
    (hs : Present (Key.session sid) db' ↔ Present (Key.session sid) db) :
    Joins sid (x :: inputs) u db ↔ (isValidPseudoId x.pseudoId.raw = true ∧ x.pseudoId ∉ inputs.map (·.pseudoId) ∧
      Room sid x.pseudoId (u 0) db) ∧ Joins sid inputs (fun n => u (n + 1)) db' := by
  by_cases hx : x.pseudoId ∈ inputs.map (·.pseudoId)
  · exact iff_of_false (fun h => h.head.2.1 hx) fun h => h.1.2.1 hx
  have hids : newIds sid inputs (fun n => u (n + 1)) db' = newIds sid inputs (fun n => u (n + 1)) db := newIds_joined hrows hx
  have hfree := @participant_joined _ _ _ _ _ _ hrows
  by_cases hp : paired sid x.pseudoId db = true
  · have hall : newIds sid (x :: inputs) u db = newIds sid inputs (fun n => u (n + 1)) db := by rw [newIds_cons, if_pos hp]
    have hkept : ∀ k, Present (Key.participant k) db' ↔ Present (Key.participant k) db := fun k => by rw [hfree, hp]; simp
    constructor
    · intro h
      refine ⟨h.head, h.valid.tail, (List.nodup_cons.1 h.once).2, ?_, ?_, ?_⟩
      · rw [hids, hs, ← hall]; exact h.session
      · rw [hids, ← hall]; exact fun id hid hk => h.free id hid ((hkept id).1 hk)
      · rw [hids, ← hall]; exact h.distinct
    · rintro ⟨⟨hvalid, -, -⟩, h⟩
      refine ⟨List.forall_mem_cons.2 ⟨hvalid, h.valid⟩, List.nodup_cons.2 ⟨hx, h.once⟩, ?_, ?_, ?_⟩
      · rw [hall, ← hids, ← hs]; exact h.session
      · rw [hall, ← hids]; exact fun id hid hk => h.free id hid ((hkept id).2 hk)
      · rw [hall, ← hids]; exact h.distinct
  · have hall : newIds sid (x :: inputs) u db = u 0 :: newIds sid inputs (fun n => u (n + 1)) db := by rw [newIds_cons, if_neg hp]
    have hkept : ∀ k, Present (Key.participant k) db' ↔ Present (Key.participant k) db ∨ k = u 0 := fun k => by
      rw [hfree, Bool.eq_false_iff.2 hp]; simp
    constructor
    · intro h
      have hdistinct := List.nodup_cons.1 (hall ▸ h.distinct)
      refine ⟨h.head, h.valid.tail, (List.nodup_cons.1 h.once).2, fun _ => hs.2 (h.session (by rw [hall]; simp)), ?_, ?_⟩
      · rw [hids]
        intro id hid hk
        rcases (hkept id).1 hk with hk | rfl
        · exact h.free id (by rw [hall]; exact List.mem_cons_of_mem _ hid) hk
        · exact hdistinct.1 hid
      · rw [hids]; exact hdistinct.2
    · rintro ⟨⟨hvalid, -, hroom⟩, h⟩
      obtain ⟨hsession, hnew⟩ := hroom.resolve_left hp
      have hrest := h.free
      have hdistinct := h.distinct
      rw [hids] at hrest hdistinct
      refine ⟨List.forall_mem_cons.2 ⟨hvalid, h.valid⟩, List.nodup_cons.2 ⟨hx, h.once⟩, fun _ => hsession, ?_, ?_⟩
      · rw [hall]
        intro id hid hk
        rcases List.mem_cons.1 hid with rfl | hid
        · exact hnew hk
        · exact hrest id hid ((hkept id).2 (.inl hk))
      · rw [hall]
        exact List.nodup_cons.2 ⟨fun hmem => hrest _ hmem ((hkept _).2 (.inr rfl)), hdistinct⟩

end

section
variable {sid : Uuid} {e : Env} {inputs : List AddParticipant}

theorem seeds_run : ∀ {inputs : List AddParticipant} {db : Db} {touched : List Key}, Intact db → Valid inputs →
    ∃ rows ws, (insertRows db touched (inputs.map fun x =>
        (Row.user (Users.freshRow x.pseudoId false e), .doNothing onPk))).result = .ok (rows, ws) ∧
      usersT.rows (applyAll ws db) = (users inputs e).foldl seed (usersT.rows db) ∧
      ∀ x ∈ inputs, Present (Key.user x.pseudoId) (applyAll ws db) := by
  intro inputs
  induction inputs with
  | nil => exact fun _ _ => ⟨[], [], rfl, rfl, by simp⟩
  | cons x inputs ih =>
    intro db touched hdb hvalid
    obtain ⟨rows₁, ws₁, h₁, -, -, husers, hpresent⟩ :=
      @seed_row db touched (Users.freshRow x.pseudoId false e) _ hdb (hvalid x (by simp)) (.inl rfl)
    obtain ⟨rows₂, ws₂, h₂, husers₂, hpresent₂⟩ := @ih (applyAll ws₁ db) (ws₁.map Write.key ++ touched) (hdb.insertRow h₁) hvalid.tail
    refine ⟨_, _, insertRows_then h₁ h₂, ?_, fun y hy => ?_⟩
    · rw [applyAll_append, husers₂, husers]; rfl
    · rw [applyAll_append]
      rcases List.mem_cons.1 hy with rfl | hy
      · exact insertRows_present h₂ hpresent
      · exact hpresent₂ y hy

/-- What one row of the batch leaves for the next: it has touched the row of
its own pseudonym only. -/
theorem joined_touched {x : AddParticipant} {id : Uuid} {q : Participant} {db : Db} {touched : List Key} {ws : List (Write Row Key)}
    (hdb₁ : Intact (applyAll ws db)) (hkeys : ∀ v ∈ ws, v.key = Key.participant q.id)
    (hq : q ∈ participantsT.rows (applyAll ws db)) (hpair : ofPair sid x.pseudoId q = true)
    (hrows : participantsT.rows (applyAll ws db) = join (participantsT.rows db) (freshRow sid x id e))
    (hx : x.pseudoId ∉ inputs.map (·.pseudoId))
    (htouched : ∀ y ∈ inputs, ∀ p ∈ participantsT.rows db, ofPair sid y.pseudoId p = true → Key.participant p.id ∉ touched) :
    ∀ y ∈ inputs, ∀ p ∈ participantsT.rows (applyAll ws db), ofPair sid y.pseudoId p = true →
      Key.participant p.id ∉ ws.map Write.key ++ touched := by
  intro y hy p hp hpy hmem
  have hne : p.id ≠ q.id := by
    intro hid
    obtain rfl := id_single hdb₁ hp hq hid
    exact hx (List.mem_map.2 ⟨y, hy, (ofPair_iff.1 hpy).2.symm.trans (ofPair_iff.1 hpair).2⟩)
  rcases List.mem_append.1 hmem with hmem | hmem
  · obtain ⟨v, hv, hk⟩ := List.mem_map.1 hmem
    rw [hkeys v hv] at hk
    exact hne (Key.participant.inj hk).symm
  · rw [hrows] at hp
    obtain ⟨hps, hpp⟩ := ofPair_iff.1 hpy
    rcases mem_join hp with rfl | ⟨p₀, hp₀, hid₀, hs₀, hpid₀⟩
    · exact hx (List.mem_map.2 ⟨y, hy, hpp.symm⟩)
    · refine htouched y hy p₀ hp₀ (ofPair_iff.2 ⟨hs₀.trans hps, hpid₀.trans hpp⟩) ?_
      rw [hid₀]
      exact hmem

/-- The batch goes in exactly where it `Joins`. -/
theorem joins_run : ∀ {inputs : List AddParticipant} {u : Nat → Uuid} {db : Db} {touched : List Key}, Intact db →
    Joins sid inputs u db → (∀ x ∈ inputs, Present (Key.user x.pseudoId) db) →
    (∀ x ∈ inputs, ∀ q ∈ participantsT.rows db, ofPair sid x.pseudoId q = true → Key.participant q.id ∉ touched) →
    ∃ rows ws, (insertRows db touched (inputs.mapIdx fun n x =>
        (Row.participant (freshRow sid x (u n) e), rejoin x))).result = .ok (rows, ws) ∧
      participantsT.rows (applyAll ws db) = (participants sid inputs u e).foldl join (participantsT.rows db) := by
  intro inputs
  induction inputs with
  | nil => exact fun _ _ _ _ => ⟨[], [], rfl, rfl⟩
  | cons x inputs ih =>
    intro u db touched hdb hjoins husers htouched
    obtain ⟨hvalid, hx, hroom⟩ := hjoins.head
    obtain ⟨q, ws₁, h₁, hkeys, hq, hpair, hrows⟩ := join_row (e := e) hdb hvalid hroom (husers x (by simp)) (htouched x (by simp))
    have hdb₁ : Intact (applyAll ws₁ db) := hdb.insertRow h₁
    have hkept : ∀ {k : Key}, (∀ id, k ≠ .participant id) → (Present k (applyAll ws₁ db) ↔ Present k db) := fun hne =>
      present_congr (versions_applyAll_other (fun v hv => by rw [hkeys v hv]; exact (hne q.id).symm) db)
    obtain ⟨rows₂, ws₂, h₂, hrows₂⟩ := ih hdb₁ ((joins_cons hrows (hkept (by simp))).1 hjoins).2
      (fun y hy => (hkept (by simp)).2 (husers y (List.mem_cons_of_mem _ hy)))
      (joined_touched hdb₁ hkeys hq hpair hrows hx fun y hy => htouched y (List.mem_cons_of_mem _ hy))
    refine ⟨[.participant q] ++ rows₂, ws₁ ++ ws₂, ?_, ?_⟩
    · rw [List.mapIdx_cons]
      exact insertRows_then h₁ h₂
    · rw [applyAll_append, hrows₂, hrows, participants_cons]; rfl

/-- A batch that names a pseudonym twice is refused. -/
theorem joins_once {u : Nat → Uuid} {db rows : Db} {touched : List Key} {ws : List (Write Row Key)} (hdb : Intact db)
    (h : (insertRows db touched (inputs.mapIdx fun n x =>
      (Row.participant (freshRow sid x (u n) e), rejoin x))).result = .ok (rows, ws)) : (inputs.map (·.pseudoId)).Nodup := by
  have hxs : ∀ y ∈ inputs.mapIdx (fun n x => (Row.participant (freshRow sid x (u n) e), rejoin x)), ∃ set l,
      y.2 = .doUpdate onUnique set ∧ (slots y.1).filter onUnique = [l] := by
    intro y hy
    obtain ⟨n, hn, rfl⟩ := List.mem_mapIdx.1 hy
    exact ⟨_, _, rfl, rfl⟩
  have hpairs := (insertRows_once hdb hxs h).2
  rw [List.pairwise_iff_getElem] at hpairs
  rw [List.nodup_iff_getElem?_ne_getElem?]
  intro i j hij hj heq
  have hj : j < inputs.length := by simpa using hj
  have hi : i < inputs.length := by omega
  rw [List.getElem?_eq_getElem (by simpa using hi), List.getElem?_eq_getElem (by simpa using hj)] at heq
  have hsame : inputs[i].pseudoId = inputs[j].pseudoId := by simpa using heq
  have hno := hpairs i j (by simpa using hi) (by simpa using hj) hij (.uniq (.participant sid inputs[i].pseudoId))
  rw [List.getElem_mapIdx, List.getElem_mapIdx] at hno
  refine hno (List.mem_singleton.2 rfl) (List.mem_singleton.2 ?_)
  rw [hsame]; rfl

end

/-! ## The handlers -/

/-- What is entered, without ids and timestamps. -/
def erasedUsers (inputs : List AddParticipant) : List User :=
  inputs.map fun x => { pseudoId := x.pseudoId, isAdmin := false, dataWipedAt := none, createdAt := 0 }

def erasedParticipants (sid : Uuid) (inputs : List AddParticipant) : List Participant := inputs.map fun x =>
  { id := 0, sessionId := sid, pseudoId := x.pseudoId, consentScope := none, consentedAt := none
    midSessionJoin := x.midSessionJoin, noLlmTraining := false, noPublicRelease := false, dataWipedAt := none
    createdAt := 0 }

theorem participants_erase (sid : Uuid) (inputs : List AddParticipant) (e : Env) : ∀ u : Nat → Uuid,
    (participants sid inputs u e).map eraseParticipant = erasedParticipants sid inputs := by
  induction inputs with
  | nil => exact fun _ => rfl
  | cons x inputs ih =>
    intro u
    rw [participants_cons, List.map_cons, ih]; rfl

/-- What both ways of adding leave. -/
structure Added (sid : Uuid) (inputs : List AddParticipant) (db db' : Db) : Prop where
  users : (usersT.rows db').map eraseUser = (erasedUsers inputs).foldl seed ((usersT.rows db).map eraseUser)
  participants : (participantsT.rows db').map eraseParticipant =
    (erasedParticipants sid inputs).foldl join ((participantsT.rows db).map eraseParticipant)

/-- Rows that were there are as they were, but for `mid_session_join`. -/
structure Kept (db db' : Db) : Prop where
  users : KeptUsers (usersT.rows db) (usersT.rows db')
  participants : KeptParticipants (participantsT.rows db) (participantsT.rows db')
  others : ∀ k : Key, k.table ≠ .users → k.table ≠ .participants → lookup k db' = lookup k db

theorem Kept.refl (db : Db) : Kept db db := ⟨.refl _, .refl _, fun _ _ _ => rfl⟩

/-- Adding one by one. -/
def addEach (sid : Uuid) : List AddParticipant → Handler Unit
  | [] => pure ()
  | x :: inputs => do
    let _ ← add sid x
    addEach sid inputs

section
variable {sid : Uuid} {inputs : List AddParticipant} {db : Db} {env : Nat → Env} {w : World}

/-- A statement on the two tables, by what it leaves of each. -/
theorem Kept.of_writes {ws : List (Write Row Key)} {db' : Db} (hdb' : db' = applyAll ws db)
    (hws : ∀ v ∈ ws, v.key.table = .users ∨ v.key.table = .participants)
    (husers : KeptUsers (usersT.rows db) (usersT.rows db'))
    (hparticipants : KeptParticipants (participantsT.rows db) (participantsT.rows db')) : Kept db db' := by
  refine ⟨husers, hparticipants, fun k hu hp => ?_⟩
  rw [hdb', lookup_applyAll_other]
  rintro v hv rfl
  rcases hws v hv with h | h
  · exact hu h
  · exact hp h

theorem addMany_adds (hdb : Intact db) (hvalid : Valid inputs) (hs : Present (Key.session sid) db)
    (hworks : ∀ n, (env n).fails = false) (hdraws : Draws db (fun n => Key.participant ((env 2).uuid n)) inputs.length)
    (hnodup : (inputs.map (·.pseudoId)).Nodup) : Ends env 0 ⟨none, db, w⟩ (addMany sid inputs)
      fun a s => (∃ rows, a = .ok rows) ∧ Added sid inputs db s.db ∧ Kept db s.db := by
  rw [addMany]
  cases hinputs : inputs.isEmpty with
  | true =>
    obtain rfl := List.isEmpty_iff.1 hinputs
    exact ⟨⟨[], rfl⟩, ⟨rfl, rfl⟩, .refl db⟩
  | false =>
    refine Ends.begun (hworks 0) ?_
    rw [execute, bind_assoc]
    obtain ⟨rows₁, ws₁, h₁, husers, hpresent⟩ := @seeds_run { env 1 with now := (env 0).now } inputs db [] hdb hvalid
    have hans₁ : answer (seedUsersSql inputs) (env 0) (env 1) db = .ok (rows₁, ws₁) := by
      rw [seedUsersSql, answer_insert (hworks 1) rfl, h₁]
    have hwrites₁ := seedUsersSql_writes inputs _ _ _ _ _ _ (answer_ok hans₁).2
    have hdb₁ : Intact (applyAll ws₁ db) := hdb.insertRows h₁
    have hps₁ : participantsT.rows (applyAll ws₁ db) = participantsT.rows db :=
      participantsT.rows_applyAll_other (fun v hv t hk => by
        have := hwrites₁ v hv
        rw [← hk] at this
        cases this) db
    have hdraws₁ : Draws (applyAll ws₁ db) (fun n => Key.participant ((env 2).uuid n)) inputs.length := by
      refine ⟨fun n hn hp => hdraws.new n hn ((present_congr (versions_applyAll_other (fun v hv hk => ?_) db)).1 hp), hdraws.distinct⟩
      have := hwrites₁ v hv
      rw [hk] at this
      cases this
    obtain ⟨rows₂, ws₂, h₂, hps₂⟩ := @joins_run sid { env 2 with now := (env 0).now } inputs (env 2).uuid (applyAll ws₁ db) []
      hdb₁ (.of_draws hvalid hnodup (insertRows_present h₁ hs) hdraws₁) hpresent (by simp)
    have hans₂ : answer (addManySql sid inputs) (env 0) (env 2) (applyAll ws₁ db) = .ok (rows₂, ws₂) := by
      rw [addManySql, answer_insert (hworks 2) rfl, h₂]
    have hwrites₂ := addManySql_writes sid inputs _ _ _ _ _ _ (answer_ok hans₂).2
    have hus₂ : usersT.rows (applyAll ws₂ (applyAll ws₁ db)) = usersT.rows (applyAll ws₁ db) :=
      usersT.rows_applyAll_other (fun v hv t hk => by
        have := hwrites₂ v hv
        rw [← hk] at this
        cases this) _
    refine Ends.answered_tx hans₁ ?_
    rw [pure_bind, fetchAll, bind_assoc]
    refine Ends.answered_tx hans₂ (Ends.committed (hworks 3) ⟨⟨_, rfl⟩, ?_⟩)
    show Added sid inputs db (applyAll (([] ++ ws₁) ++ ws₂) db) ∧ Kept db (applyAll (([] ++ ws₁) ++ ws₂) db)
    rw [List.nil_append]
    have hus : usersT.rows (applyAll (ws₁ ++ ws₂) db) = (users inputs { env 1 with now := (env 0).now }).foldl seed (usersT.rows db) := by
      rw [applyAll_append, hus₂, husers]
    have hps : participantsT.rows (applyAll (ws₁ ++ ws₂) db) =
        (participants sid inputs (env 2).uuid { env 2 with now := (env 0).now }).foldl join (participantsT.rows db) := by
      rw [applyAll_append, hps₂, hps₁]
    refine ⟨⟨?_, ?_⟩, .of_writes rfl (fun v hv => ?_) ?_ ?_⟩
    · rw [hus, foldl_erase seed_erase, users, List.map_map]; rfl
    · rw [hps, foldl_erase join_erase, participants_erase]
    · rcases List.mem_append.1 hv with hv | hv
      · exact .inl (hwrites₁ v hv)
      · exact .inr (hwrites₂ v hv)
    · rw [hus]
      exact kept_foldl KeptUsers.refl KeptUsers.seed _ _
    · rw [hps]
      exact kept_foldl KeptParticipants.refl KeptParticipants.join _ _

/-- A batch that names a pseudonym twice is refused. -/
theorem addMany_refused (hdb : Intact db) (hvalid : Valid inputs) (hnodup : ¬(inputs.map (·.pseudoId)).Nodup) :
    Ends env 0 ⟨none, db, w⟩ (addMany sid inputs) fun a s => (∃ e, a = .error e) ∧ s.db = db := by
  have hne : inputs.isEmpty = false := by
    cases inputs with
    | nil => exact absurd .nil hnodup
    | cons x rest => rfl
  rw [addMany, if_neg (by simp [hne])]
  refine Ends.begin (fun _ => ⟨⟨_, rfl⟩, rfl⟩) fun _ => ?_
  refine Ends.execute_tx (fun _ _ => ⟨⟨_, rfl⟩, rfl⟩) fun rows₁ ws₁ h₁ => ?_
  refine Ends.fetchAll_tx (fun _ _ => ⟨⟨_, rfl⟩, rfl⟩) fun rows₂ ws₂ h₂ => absurd ?_ hnodup
  have hf₁ := (answer_ok h₁).1
  rw [seedUsersSql, answer_insert hf₁ rfl] at h₁
  have hf₂ := (answer_ok h₂).1
  rw [addManySql, answer_insert hf₂ rfl] at h₂
  exact joins_once (hdb.insertRows h₁) h₂

/-- One statement for a user and a participant. -/
theorem add_answer {x : AddParticipant} {e : Env} (hdb : Intact db) (hvalid : isValidPseudoId x.pseudoId.raw = true)
    (hroom : Room sid x.pseudoId (e.uuid 0) db) (hworks : e.fails = false) :
    ∃ q rows ws, answer (addSql sid x) e e db = .ok (rows, ws) ∧ (participantsT.rows rows).head? = some q ∧
      q.pseudoId = x.pseudoId ∧ (∀ v ∈ ws, v.key = Key.user x.pseudoId ∨ v.key = Key.participant q.id) ∧
      usersT.rows (applyAll ws db) = seed (usersT.rows db) (Users.freshRow x.pseudoId false e) ∧
      participantsT.rows (applyAll ws db) = join (participantsT.rows db) (freshRow sid x (e.uuid 0) e) := by
  obtain ⟨rows₁, ws₁, h₁, hrows₁, hkeys₁, hus₁, hu₁⟩ :=
    @seed_row db [] (Users.freshRow x.pseudoId false e) _ hdb hvalid (.inr ⟨rfl, rfl⟩)
  obtain ⟨hroom₁, hps₁⟩ := @room_seeded db sid (e.uuid 0) _ (fun v hv => by rw [hkeys₁ v hv]; rfl) x.pseudoId
  obtain ⟨q, ws₂, h₂, hkeys₂, -, hpair, hps₂⟩ := @join_row (applyAll ws₁ db) (ws₁.map Write.key ++ []) sid (e.uuid 0) x e
    (hdb.insertRow h₁) hvalid (hroom₁.2 hroom) hu₁ (fun p _ _ hmem => by
      obtain ⟨v, hv, hk⟩ := List.mem_map.1 (by simpa using hmem)
      rw [hkeys₁ v hv] at hk
      cases hk)
  have hans : answer (addSql sid x) e e db = .ok (rows₁ ++ [.participant q], ws₁ ++ ws₂) := by
    rw [addSql, answer_insert hworks rfl]
    exact insertRows_then h₁ (insertRows_one h₂)
  refine ⟨q, _, _, hans, ?_, (ofPair_iff.1 hpair).2, fun v hv => ?_, ?_, ?_⟩
  · rw [participantsT.rows_append, hrows₁]; rfl
  · exact (List.mem_append.1 hv).imp (hkeys₁ v) (hkeys₂ v)
  · rw [applyAll_append, usersT.rows_applyAll_other (fun v hv t hk => by rw [hkeys₂ v hv] at hk; cases hk), hus₁]
  · rw [applyAll_append, hps₂, hps₁]

/-- One participant more. -/
theorem add_adds {x : AddParticipant} {n : Nat} {β : Type} {f : Participant → Handler β}
    {Q : Except AppError β → Moment → Prop} (hdb : Intact db) (hvalid : isValidPseudoId x.pseudoId.raw = true)
    (hs : Present (Key.session sid) db) (hworks : (env n).fails = false)
    (hnew : ¬Present (Key.participant ((env n).uuid 0)) db)
    (hf : ∀ q db', Intact db' → Present (Key.session sid) db' →
      usersT.rows db' = seed (usersT.rows db) (Users.freshRow x.pseudoId false (env n)) →
      participantsT.rows db' = join (participantsT.rows db) (freshRow sid x ((env n).uuid 0) (env n)) →
      (∀ k : Key, k.table ≠ .users → k.table ≠ .participants → lookup k db' = lookup k db) →
      Ends env (n + 1) ⟨none, db', w⟩ (f q) Q) : Ends env n ⟨none, db, w⟩ (add sid x >>= f) Q := by
  obtain ⟨q, rows, ws, hans, hhead, -, hkeys, hus, hps⟩ := add_answer hdb hvalid (.inr ⟨hs, hnew⟩) hworks
  have hkept : ∀ k : Key, k.table ≠ .users → k.table ≠ .participants → versions k (applyAll ws db) = versions k db :=
    fun k hu hp => versions_applyAll_other (fun v hv hkv => by
      rcases hkeys v hv with hk | hk
      · exact hu (by rw [← hkv, hk]; rfl)
      · exact hp (by rw [← hkv, hk]; rfl)) db
  have hdb' : Intact (applyAll ws db) := by
    have hrun := hans
    rw [addSql, answer_insert hworks rfl] at hrun
    exact hdb.insertRows hrun
  rw [add, fetchOne, bind_assoc]
  refine Ends.answered_pool hans ?_
  rw [hhead]
  refine hf q _ hdb' ((present_congr (hkept _ (by rintro ⟨⟩) (by rintro ⟨⟩))).2 hs) hus hps fun k hu hp => ?_
  rw [lookup, hkept k hu hp]; rfl

theorem addEach_adds {db₀ : Db} : ∀ {inputs : List AddParticipant} {n : Nat} {db : Db} {us : List User} {ps : List Participant},
    Intact db → Valid inputs → Present (Key.session sid) db → (∀ n, (env n).fails = false) →
    Draws db (fun k => Key.participant ((env (n + k)).uuid 0)) inputs.length →
    KeptUsers (usersT.rows db₀) (usersT.rows db) → KeptParticipants (participantsT.rows db₀) (participantsT.rows db) →
    (∀ k : Key, k.table ≠ .users → k.table ≠ .participants → lookup k db = lookup k db₀) →
    (usersT.rows db).map eraseUser = us → (participantsT.rows db).map eraseParticipant = ps →
    Ends env n ⟨none, db, w⟩ (addEach sid inputs) fun a s => a = .ok () ∧ Kept db₀ s.db ∧
      (usersT.rows s.db).map eraseUser = (erasedUsers inputs).foldl seed us ∧
      (participantsT.rows s.db).map eraseParticipant = (erasedParticipants sid inputs).foldl join ps := by
  intro inputs
  induction inputs with
  | nil =>
    rintro n db _ _ - - - - - husers hparticipants hothers rfl rfl
    exact ⟨rfl, ⟨husers, hparticipants, hothers⟩, rfl, rfl⟩
  | cons x inputs ih =>
    rintro n db _ _ hdb hvalid hs hworks hdraws husers hparticipants hothers rfl rfl
    rw [addEach]
    refine add_adds hdb (hvalid x (by simp)) hs (hworks n) (hdraws.new 0 (by simp)) fun q db' hdb' hs' hus hps hothers' => ?_
    have hdraws' : Draws db' (fun k => Key.participant ((env (n + 1 + k)).uuid 0)) inputs.length := by
      have := draws_tail hdraws rfl hps
      simpa only [Nat.add_comm, Nat.add_left_comm] using this
    refine (ih hdb' hvalid.tail hs' hworks hdraws' (hus ▸ husers.seed _) (hps ▸ hparticipants.join _)
      (fun k hu hp => (hothers' k hu hp).trans (hothers k hu hp)) rfl rfl).mono fun a s h => ?_
    rw [hus, hps, seed_erase, join_erase] at h
    exact h

end

/-! ## Both ways -/

/-- The same users and participants, up to generated ids and timestamps. -/
def Agree (db db' : Db) : Prop :=
  (usersT.rows db).map eraseUser = (usersT.rows db').map eraseUser ∧
    (participantsT.rows db).map eraseParticipant = (participantsT.rows db').map eraseParticipant

/-- The batch succeeds and leaves what adding one by one leaves. -/
def AsOneByOne (sid : Uuid) (inputs : List AddParticipant) (db : Db) (w : World) (env env' : Nat → Env) : Prop :=
  Ends env 0 ⟨none, db, w⟩ (addMany sid inputs) fun a s => (∃ rows, a = .ok rows) ∧
    Ends env' 0 ⟨none, db, w⟩ (addEach sid inputs) fun a' s' => a' = .ok () ∧ Agree s.db s'.db

/-- Adding in a batch is adding one by one exactly when the batch names no
pseudonym twice; and both keep the rows that were there but for
`mid_session_join`. -/
theorem batch_iff (sid : Uuid) (inputs : List AddParticipant) (db : Db) (w : World) (env env' : Nat → Env)
    (hdb : Intact db) (hs : Present (Key.session sid) db) (hvalid : Valid inputs)
    (hworks : ∀ n, (env n).fails = false) (hworks' : ∀ n, (env' n).fails = false)
    (hdraws : Draws db (fun n => Key.participant ((env 2).uuid n)) inputs.length)
    (hdraws' : Draws db (fun n => Key.participant ((env' n).uuid 0)) inputs.length) :
    (AsOneByOne sid inputs db w env env' ↔ (inputs.map (·.pseudoId)).Nodup) ∧
    Ends env 0 ⟨none, db, w⟩ (addMany sid inputs) (fun _ s => Kept db s.db) ∧
    Ends env' 0 ⟨none, db, w⟩ (addEach sid inputs) (fun _ s => Kept db s.db) := by
  have hdraws₀ : Draws db (fun n => Key.participant ((env' (0 + n)).uuid 0)) inputs.length := by
    simpa only [Nat.zero_add] using hdraws'
  have heach := addEach_adds (w := w) hdb hvalid hs hworks' hdraws₀ (.refl _) (.refl _) (fun _ _ _ => rfl) rfl rfl
  refine ⟨⟨fun hone => ?_, fun hnodup => ?_⟩, ?_, heach.mono fun a s h => h.2.1⟩
  · by_contra hnodup
    obtain ⟨⟨rows, hok⟩, -⟩ := hone
    have hrefused : Ends env 0 ⟨none, db, w⟩ (addMany sid inputs) fun a s => (∃ e, a = .error e) ∧ s.db = db :=
      addMany_refused hdb hvalid hnodup
    obtain ⟨⟨e, herr⟩, -⟩ := hrefused
    rw [hok] at herr
    cases herr
  · refine (addMany_adds hdb hvalid hs hworks hdraws hnodup).mono ?_
    rintro a s ⟨hok, hadded, -⟩
    refine ⟨hok, heach.mono ?_⟩
    rintro a' s' ⟨hok', -, hus, hps⟩
    refine ⟨hok', ?_, ?_⟩
    · rw [hadded.users, hus]
    · rw [hadded.participants, hps]
  · by_cases hnodup : (inputs.map (·.pseudoId)).Nodup
    · exact (addMany_adds hdb hvalid hs hworks hdraws hnodup).mono fun a s h => h.2.2
    · refine (addMany_refused hdb hvalid hnodup).mono fun a s h => ?_
      rw [h.2]
      exact .refl db

def sampleId : PseudoId := ⟨Sample.speaker⟩

def otherId : PseudoId := ⟨"fedcba9876543210fedcba98"⟩

/-- A session with one participant. -/
def sampleDb : Db :=
  [.session Sample.session, .user (Users.freshRow sampleId false (Sample.env 0)),
    .participant (freshRow Sample.sessionId { pseudoId := sampleId } 5 (Sample.env 0))]

theorem sample_intact : Intact sampleDb ∧ Present (Key.session Sample.sessionId) sampleDb := by decide +kernel

theorem sample_draws : Draws sampleDb (fun n => Key.participant ((Sample.env 2).uuid n)) 2 ∧
    Draws sampleDb (fun n => Key.participant ((Sample.env n).uuid 0)) 2 := by
  refine ⟨⟨?_, ?_⟩, ⟨?_, ?_⟩⟩
  · decide +kernel
  · intro n m hnm hm
    obtain ⟨rfl, rfl⟩ : n = 0 ∧ m = 1 := by omega
    decide
  · decide +kernel
  · intro n m hnm hm
    obtain ⟨rfl, rfl⟩ : n = 0 ∧ m = 1 := by omega
    decide

/-- The participant that is there, and another. -/
theorem batch_sample : AsOneByOne Sample.sessionId [{ pseudoId := sampleId, midSessionJoin := true }, { pseudoId := otherId }]
    sampleDb Sample.world Sample.env Sample.env :=
  ((batch_iff Sample.sessionId [{ pseudoId := sampleId, midSessionJoin := true }, { pseudoId := otherId }] sampleDb
    Sample.world Sample.env Sample.env sample_intact.1 sample_intact.2 (by decide +kernel) (fun _ => rfl) (fun _ => rfl)
    sample_draws.1 sample_draws.2).1).2 (by decide)

/-- One new participant, named twice: the batch is refused. -/
theorem named_twice_refused : (solo Sample.env 0 ⟨none, sampleDb, Sample.world⟩
      (addMany Sample.sessionId [{ pseudoId := otherId }, { pseudoId := otherId }]).run).1.isOk = false ∧
    ¬AsOneByOne Sample.sessionId [{ pseudoId := otherId }, { pseudoId := otherId }] sampleDb Sample.world Sample.env
      Sample.env := by
  have hrefused : (solo Sample.env 0 ⟨none, sampleDb, Sample.world⟩
      (addMany Sample.sessionId [{ pseudoId := otherId }, { pseudoId := otherId }]).run).1.isOk = false := by decide +kernel
  refine ⟨hrefused, fun hone => ?_⟩
  obtain ⟨⟨rows, hok⟩, -⟩ := hone
  rw [hok] at hrefused
  cases hrefused

end DataApi.BatchAdd
