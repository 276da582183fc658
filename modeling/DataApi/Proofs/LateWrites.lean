/-
The handlers of one statement, or of one transaction, and an audit row
through the pool: each ends otherwise than claimed exactly when it changes
something and its audit row is refused, or what it looks up after that.
-/
import DataApi.Proofs.ErrorsUnchanged
import DataApi.Proofs.RowPatches

namespace DataApi.ErrorsUnchanged

open Relational ReadCommitted Resumption Handler

/-! ## What audit rows say -/

/-- What the audit log calls a row: its kind and its id. -/
def resource : Row → String × String
  | .user u => ("user", u.pseudoId.raw)
  | .displayName d => ("display_name", s!"{d.pseudoId}/{d.displayName}")
  | .session s => ("session", s.id.text)
  | .participant p => ("participant", p.id.text)
  | .metadata m => ("metadata", m.sessionId.text)
  | .chunk c => ("chunk", s!"{c.sessionId.text}/{c.pseudoId}/{c.seq}")
  | .uniform rt r => (rt.resourceType, r.id.text)
  | .mute m => ("mute_range", m.id.text)
  | .consentToken t => ("consent_token", t.token.text)
  | .audit a => ("audit_log", a.id.text)

/-- An audit row says who did what to which resource. -/
structure Tells (actor action : String) (about : Row → AuditRow → Prop) (r : Row) (a : AuditRow) : Prop where
  actor : a.actorService = actor
  action : a.action = action
  about : about r a

/-- It has the kind and the id of the row. -/
def Named (r : Row) (a : AuditRow) : Prop := (a.resourceType, a.resourceId) = resource r

/-- A user row entered on the way has its pseudonym as the actor. -/
def NamedOrUser (r : Row) (a : AuditRow) : Prop :=
  match r with
  | .user u => a.actorPseudo = some u.pseudoId.raw
  | r => Named r a

/-! ## One row and its audit row -/

section
variable {β τ : Type} {tells : Row → AuditRow → Prop} {db db₁ : Db} {env : Nat → Env} {n : Nat} {w : World}
  {T : Table Row τ} {t : τ}

/-- A new row is entered, and its audit row is refused. -/
def LateEntry (env : Nat → Env) (db : Db) (r : Row) : Prop := Lands (env 0) db r ∧ Unaudited (env 1) db

theorem spoils_entered {q : Sql} {entry : τ → AuditLog.Entry} {k : τ → Unit → Handler β}
    (h : Decided (Lands (env 0) db (T.put t)) q (env 0) (env 0) db [T.put t] [.insert (T.put t)])
    (ht : Told tells (entry t) (T.put t))
    (hk : ∀ db₂, Recorded tells db db₂ → ¬Spoils tells db env 2 ⟨none, db₂, w⟩ (k t ())) :
    Spoils tells db env 0 ⟨none, db, w⟩ (fetchOne .pool T q >>= fun x => AuditLog.append (entry x) >>= k x) ↔
      LateEntry env db (T.put t) := by
  rw [spoils_fetchOne h (T.head_put t), at_first]
  refine and_congr_right fun _ => ?_
  have hdb₁ : ChangesOnly (Told tells (entry t)) db (applyAll [.insert (T.put t)] db) := .insert ht
  rw [spoils_last hdb₁ hk]
  exact and_iff_right insert_ne

end

section
variable {db : Db} {env : Nat → Env} {w : World}

theorem create_late (svc : String) (input : Sessions.CreateSession) :
    Spoils (Tells svc "created" Named) db env 0 ⟨none, db, w⟩ (SessionRoutes.create svc input) ↔
      LateEntry env db (.session (Sessions.createRow input (env 0))) := by
  rw [SessionRoutes.create, Sessions.create]
  exact spoils_entered (decided_insert rfl) ⟨(fun h => by cases h), fun _ => ⟨rfl, rfl, rfl⟩⟩ fun db₂ h hs => hs h

theorem createToken_late (svc : String) (input : ConsentRoutes.CreateTokenRequest) :
    Spoils (Tells svc "created" Named) db env 0 ⟨none, db, w⟩ (ConsentRoutes.createToken svc input) ↔
      LateEntry env db (.consentToken (ConsentTokens.freshRow input.sessionId input.participantId input.pseudoId (env 0))) := by
  rw [ConsentRoutes.createToken, ConsentTokens.create]
  exact spoils_entered (decided_insert rfl) ⟨(fun h => by cases h), fun _ => ⟨rfl, rfl, rfl⟩⟩ fun db₂ h => not_spoils_pure h

end

/-! ## Users and display names -/

section
variable {db : Db} {env : Nat → Env} {w : World} {pid : PseudoId} {b e : Env}

theorem user_free (h : ¬Present (Key.user pid) db) (isAdmin : Bool) (e : Env) :
    ∀ l ∈ slots (Row.user (Users.freshRow pid isAdmin e)), ∀ x ∈ db, l ∉ slots x := by
  intro l hl x hx hlx
  obtain rfl : l = .pk (.user pid) := List.mem_singleton.1 hl
  exact h ⟨x, hx, slots_key hlx⟩

/-- The upsert of a user enters the row or leaves everything as it is. -/
theorem decided_upsertUser (hdb : Intact db) (pid : PseudoId) (b e : Env) :
    (Present (Key.user pid) db ∧ ∃ u, Decided (e.fails = false) (Users.upsertSql pid) b e db [.user u] [.update (.user u)] ∧
      Row.user u ∈ db) ∨
    (¬Present (Key.user pid) db ∧ Decided (Lands e db (.user (Users.freshRow pid false { e with now := b.now })))
      (Users.upsertSql pid) b e db [.user (Users.freshRow pid false { e with now := b.now })]
      [.insert (.user (Users.freshRow pid false { e with now := b.now }))]) := by
  by_cases h : Present (Key.user pid) db
  · refine .inl ⟨h, ?_⟩
    obtain ⟨r, hr, hk⟩ := h
    cases r with
    | user u =>
      obtain rfl : u.pseudoId = pid := Key.user.inj hk
      have hck : check (Row.user u) = true := hdb.checked _ hr
      refine ⟨u, ?_, hr⟩
      have harbiter : (slots (Row.user (Users.freshRow u.pseudoId false { e with now := b.now }))).filter onPk =
          [.pk (.user u.pseudoId)] := rfl
      have htaken : Decided (e.fails = false ∧ check (Row.user u) = true ∧ check (Row.user u) = true)
          (Users.upsertSql u.pseudoId) b e db [.user u] [.update (.user u)] :=
        decided_upsert_taken (usersT.setter id) rfl hdb harbiter hr (pk_mem_slots.2 rfl)
      exact htaken.congr (and_iff_left_of_imp fun _ => ⟨hck, hck⟩)
    | _ => cases hk
  · refine .inr ⟨h, decided_upsert_new rfl fun l hl => user_free h false _ l (List.mem_filter.1 hl).1⟩

theorem upsertUser_late (hdb : Intact db) (svc : String) (pid : PseudoId) :
    Spoils (Tells svc "upserted" Named) db env 0 ⟨none, db, w⟩ (UserRoutes.upsertUser svc pid) ↔
      LateEntry env db (.user (Users.freshRow pid false (env 0))) := by
  rw [UserRoutes.upsertUser, Users.upsert]
  rcases decided_upsertUser hdb pid (env 0) (env 0) with ⟨⟨r, hr, hk⟩, u, hdecided, hu⟩ | ⟨-, hdecided⟩
  · rw [spoils_fetchOne hdecided (usersT.head_put u), at_first]
    refine iff_of_false ?_ fun h => h.1.free _ (pk_mem_slots.2 rfl) r hr (pk_mem_slots.2 hk)
    rintro ⟨-, hs⟩
    rw [applyAll_cons, applyAll_nil, apply_same hdb.keys hu] at hs
    exact ((spoils_answered (.refl _ db)).1 hs).1 rfl
  · exact spoils_entered (T := usersT) hdecided ⟨(fun h => by cases h), fun _ => ⟨rfl, rfl, rfl⟩⟩ fun db₂ h => not_spoils_pure h

/-- The display name is seen: the statement is not failed, the source is a
known one, and the count of a stored row stays in range. -/
structure Seen (e : Env) (db : Db) (pid : PseudoId) (input : DisplayNames.UpsertDisplayName) : Prop where
  works : e.fails = false
  source : DisplayNames.validSource input.source = true
  counts : ∀ d, Row.displayName d ∈ db → d.pseudoId = pid → d.displayName = input.displayName → d.seenCount + 1 < 2 ^ 31

/-- A display name of this pseudonym. -/
def Displays (pid : PseudoId) (name : String) (r : Row) : Prop :=
  ∃ d, r = .displayName d ∧ d.pseudoId = pid ∧ d.displayName = name

theorem check_display {d : DisplayName} : check (Row.displayName d) = true ↔
    DisplayNames.validSource d.source = true ∧ d.seenCount < 2 ^ 31 := by
  show (DisplayNames.validSource d.source && decide (d.seenCount < 2 ^ 31)) = true ↔ _
  rw [Bool.and_eq_true, decide_eq_true_eq]

theorem one_in_range : (1 : Int) < 2 ^ 31 := by decide

theorem seen_again {d : DisplayName} (hdb : Intact db) (hd : Row.displayName d ∈ db) {input : DisplayNames.UpsertDisplayName}
    (hname : d.displayName = input.displayName) : (e.fails = false ∧
      check (Row.displayName (DisplayNames.freshRow d.pseudoId input { e with now := b.now })) = true ∧
      check (Row.displayName (DisplayNames.seeAgain { e with now := b.now } d)) = true) ↔ Seen e db d.pseudoId input := by
  have hck := (check_display.1 (hdb.checked _ hd)).1
  constructor
  · rintro ⟨hf, hfresh, hagain⟩
    refine ⟨hf, (check_display.1 hfresh).1, fun d' hd' hpid hname' => ?_⟩
    have hsame : Row.displayName d' = .displayName d :=
      hdb.keys.row_eq hd' hd (by simp [key, Row.key, hpid, hname', hname])
    rw [Row.displayName.inj hsame]
    exact (check_display.1 hagain).2
  · intro h
    exact ⟨h.works, check_display.2 ⟨h.source, one_in_range⟩, check_display.2 ⟨hck, h.counts d hd rfl hname⟩⟩

theorem seen_first {input : DisplayNames.UpsertDisplayName} (hu : Present (Key.user pid) db)
    (hfree : ¬Present (Key.displayName pid input.displayName) db) :
    Lands e db (.displayName (DisplayNames.freshRow pid input { e with now := b.now })) ↔ Seen e db pid input := by
  constructor
  · intro h
    refine ⟨h.works, (check_display.1 h.checked).1, fun d hd hpid hname => absurd ⟨_, hd, ?_⟩ hfree⟩
    rw [← hpid, ← hname]; rfl
  · intro h
    refine ⟨h.works, check_display.2 ⟨h.source, one_in_range⟩, fun l hl x hx hlx => ?_, fun k hk => ?_⟩
    · obtain rfl : l = .pk (.displayName pid input.displayName) := List.mem_singleton.1 hl
      exact hfree ⟨x, hx, slots_key hlx⟩
    · rwa [List.mem_singleton.1 hk]

/-- The upsert of a display name enters a row or counts one. -/
theorem decided_see (hdb : Intact db) (hu : Present (Key.user pid) db) (input : DisplayNames.UpsertDisplayName) (b e : Env) :
    ∃ d v, Decided (Seen e db pid input) (DisplayNames.upsertSql pid input) b e db [.displayName d] [v] ∧
      d.displayName = input.displayName ∧ Row.displayName d ∈ Write.apply db v ∧ Row.displayName d ∉ db ∧
      ChangesOnly (Displays pid input.displayName) db (Write.apply db v) := by
  by_cases h : Present (Key.displayName pid input.displayName) db
  · obtain ⟨r, hr, hk⟩ := h
    cases r with
    | displayName d =>
      obtain ⟨rfl, hname⟩ := Key.displayName.inj hk
      have harbiter : (slots (Row.displayName (DisplayNames.freshRow d.pseudoId input { e with now := b.now }))).filter onPk =
          [.pk (.displayName d.pseudoId input.displayName)] := rfl
      have htaken : Decided (e.fails = false ∧
            check (Row.displayName (DisplayNames.freshRow d.pseudoId input { e with now := b.now })) = true ∧
            check (Row.displayName (DisplayNames.seeAgain { e with now := b.now } d)) = true)
          (DisplayNames.upsertSql d.pseudoId input) b e db [.displayName (DisplayNames.seeAgain { e with now := b.now } d)]
          [.update (.displayName (DisplayNames.seeAgain { e with now := b.now } d))] :=
        decided_upsert_taken (displayNamesT.setter (DisplayNames.seeAgain { e with now := b.now })) rfl hdb harbiter hr
          (pk_mem_slots.2 hk)
      refine ⟨_, _, htaken.congr (seen_again hdb hr hname), hname, List.mem_map.2 ⟨_, hr, if_pos rfl⟩, fun hmem => ?_, ?_⟩
      · have hrow : Row.displayName (DisplayNames.seeAgain { e with now := b.now } d) = .displayName d :=
          hdb.keys.row_eq hmem hr rfl
        have hcount : d.seenCount + 1 = d.seenCount := congrArg DisplayName.seenCount (Row.displayName.inj hrow)
        omega
      · exact .update hdb.keys hr rfl ⟨d, rfl, rfl, hname⟩ ⟨_, rfl, rfl, hname⟩
    | _ => cases hk
  · have hnew : Decided (Lands e db (.displayName (DisplayNames.freshRow pid input { e with now := b.now })))
        (DisplayNames.upsertSql pid input) b e db _ _ := decided_upsert_new rfl fun l hl x hx hlx => by
      obtain rfl : l = .pk (.displayName pid input.displayName) := List.mem_singleton.1 (List.mem_filter.1 hl).1
      exact h ⟨x, hx, slots_key hlx⟩
    refine ⟨_, _, hnew.congr (seen_first hu h), rfl, List.mem_append_right _ (List.mem_singleton.2 rfl),
      fun hmem => h ⟨_, hmem, rfl⟩, .insert ⟨_, rfl, rfl, rfl⟩⟩

/-- The display name is not seen and the user is new, or it is seen and the
audit row is refused. -/
def LateDisplay (env : Nat → Env) (db : Db) (pid : PseudoId) (input : DisplayNames.UpsertDisplayName) : Prop :=
  (env 0).fails = false ∧
    ((¬Present (Key.user pid) db ∧ ¬Seen (env 1) db pid input) ∨ (Seen (env 1) db pid input ∧ Unaudited (env 2) db))

theorem Seen.congr {db₁ : Db} {input : DisplayNames.UpsertDisplayName}
    (h : ∀ d, Row.displayName d ∈ db₁ ↔ Row.displayName d ∈ db) : Seen e db₁ pid input ↔ Seen e db pid input :=
  ⟨fun hs => ⟨hs.works, hs.source, fun d hd => hs.counts d ((h d).2 hd)⟩,
    fun hs => ⟨hs.works, hs.source, fun d hd => hs.counts d ((h d).1 hd)⟩⟩

/-- What comes after the user is there. -/
theorem spoils_seen {db₁ : Db} {svc : String} (hdb₁ : Intact db₁) (hu : Present (Key.user pid) db₁)
    (hchanges : ChangesOnly (fun r => ∃ u, r = .user u ∧ u.pseudoId = pid) db db₁)
    (hnames : ∀ d, Row.displayName d ∈ db₁ ↔ Row.displayName d ∈ db) (input : DisplayNames.UpsertDisplayName) :
    Spoils (Tells svc "seen" NamedOrUser) db env 1 ⟨none, db₁, w⟩ (DisplayNames.upsert pid input >>= fun row =>
      AuditLog.append (UserRoutes.entry svc pid "display_name" s!"{pid}/{row.displayName}" "seen"
        (some (.obj [("source", .str row.source), ("seen_count", .int row.seenCount)]))) >>= fun _ => pure row) ↔
      (db₁ ≠ db ∧ ¬Seen (env 1) db pid input) ∨ (Seen (env 1) db pid input ∧ Unaudited (env 2) db) := by
  obtain ⟨d, v, hdecided, hname, hmem, hnew, hdisplay⟩ := decided_see hdb₁ hu input (env 1) (env 1)
  have htold : ChangesOnly (Told (Tells svc "seen" NamedOrUser) (UserRoutes.entry svc pid "display_name"
      s!"{pid}/{d.displayName}" "seen" (some (.obj [("source", .str d.source), ("seen_count", .int d.seenCount)]))))
      db (applyAll [v] db₁) := by
    refine .trans (hchanges.mono ?_) (hdisplay.mono ?_)
    · rintro _ ⟨u, rfl, rfl⟩
      exact ⟨(fun h => by cases h), fun _ => ⟨rfl, rfl, rfl⟩⟩
    · rintro _ ⟨d', rfl, rfl, hname'⟩
      refine ⟨(fun h => by cases h), fun _ => ⟨rfl, rfl, ?_⟩⟩
      show ("display_name", _) = resource (.displayName d')
      rw [resource, hname, hname']
      rfl
  have hne : applyAll [v] db₁ ≠ db := fun heq => hnew ((hnames d).2 (heq ▸ hmem))
  rw [DisplayNames.upsert, bind_assoc, spoils_refuseIf, spoils_fetchOne hdecided (displayNamesT.head_put d),
    spoils_answered htold, and_iff_right hne, Seen.congr hnames]
  cases hs : DisplayNames.validSource input.source with
  | true => simp
  | false =>
    have hno : ¬Seen (env 1) db pid input := fun h => by rw [h.source] at hs; cases hs
    simp [hno]

theorem postDisplay_late (hdb : Intact db) (svc raw : String) (input : DisplayNames.UpsertDisplayName) :
    Spoils (Tells svc "seen" NamedOrUser) db env 0 ⟨none, db, w⟩ (UserRoutes.postDisplay svc raw input) ↔
      ∃ pid, PseudoId.new raw = .ok pid ∧ LateDisplay env db pid input := by
  rw [UserRoutes.postDisplay, spoils_pseudoId]
  refine exists_congr fun pid => and_congr_right fun hpid => ?_
  rw [Users.upsert, LateDisplay]
  rcases decided_upsertUser hdb pid (env 0) (env 0) with ⟨hu, u, hdecided, hmem⟩ | ⟨hu, hdecided⟩
  · rw [spoils_fetchOne hdecided (usersT.head_put u), at_first, applyAll_cons, applyAll_nil, apply_same hdb.keys hmem,
      spoils_seen hdb hu (.refl _ db) (fun _ => Iff.rfl), at_first, or_iff_right fun h => h.1 hu]
  · have hvalid : isValidPseudoId pid.raw = true := by
      unfold PseudoId.new at hpid
      split at hpid
      · next h => rw [← Except.ok.inj hpid]; exact h
      · cases hpid
    have hlands : Lands (env 0) db (.user (Users.freshRow pid false (env 0))) ↔ (env 0).fails = false :=
      ⟨fun h => h.works, fun hf => ⟨hf, hvalid, user_free hu false _, fun k hk => by cases hk⟩⟩
    rw [spoils_fetchOne hdecided (usersT.head_put _), at_first, hlands]
    refine and_congr_right fun hf => ?_
    have hl := hlands.2 hf
    have hnames : ∀ d, Row.displayName d ∈ Write.apply db (.insert (.user (Users.freshRow pid false (env 0)))) ↔
        Row.displayName d ∈ db := fun d => by simp [Write.apply]
    refine (spoils_seen (hdb.insert hl.checked hl.free hl.refs) (present_insert.2 (.inr rfl)) (.insert ⟨_, rfl, rfl⟩) hnames
      input).trans ?_
    rw [and_iff_right insert_ne, and_iff_right hu]
    exact Iff.rfl

end

/-! ## Participants -/

section
variable {β : Type} {tells : Row → AuditRow → Prop} {db db₁ : Db} {env : Nat → Env} {n : Nat} {w : World} {id : Uuid}

/-- The stored participant of an id. -/
def participant? (id : Uuid) (db : Db) : Option Participant := (participantsT.rows db).find? (Participants.byId id)

theorem participant?_some {p : Participant} (h : participant? id db = some p) : Row.participant p ∈ db ∧ p.id = id :=
  ⟨participantsT.mem_rows.1 (List.mem_of_find?_eq_some h), by simpa [Participants.byId] using List.find?_some h⟩

/-- An UPDATE of one participant that its CHECK lets pass. -/
theorem spoils_set {set : Env → Participant → Participant} {hk : ∀ e, participantsT.Keeps (set e)}
    {f : Participant → Handler β} (hu : KeysUnique db₁)
    (hck : ∀ p, Row.participant p ∈ db₁ → check (Row.participant (set (env n) p)) = true) :
    Spoils tells db env n ⟨none, db₁, w⟩ (Participants.found id (participantsT.update (Participants.byId id) set hk) >>= f) ↔
      (db₁ ≠ db ∧ ((env n).fails = true ∨ participant? id db₁ = none)) ∨ ((env n).fails = false ∧
        ∃ p, participant? id db₁ = some p ∧ Spoils tells db env (n + 1)
          ⟨none, Write.apply db₁ (.update (.participant (set (env n) p))), w⟩ (f (set (env n) p))) := by
  rw [Participants.found, bind_assoc]
  have hbyId : ∀ p, Participants.byId id p = true → key (participantsT.put p) = Key.participant id :=
    fun p hp => (key_participant _).2 (by rwa [participantsT.is_put])
  cases hp : participant? id db₁ with
  | none =>
    rw [spoils_fetchOptional (decided_update_missing hp) rfl, applyAll_nil]
    have hend : Spoils tells db env (n + 1) ⟨none, db₁, w⟩ (throw (Participants.notFound id) >>= f : Handler β) ↔ db₁ ≠ db :=
      Iff.rfl
    show _ ∨ _ ∧ Spoils tells db env (n + 1) ⟨none, db₁, w⟩ (throw (Participants.notFound id) >>= f : Handler β) ↔ _
    rw [hend]
    cases (env n).fails <;> simp
  | some p =>
    have hcheck := hck p (participant?_some hp).1
    have hdecided : Decided ((env n).fails = false ∧ check (Row.participant (set (env n) p)) = true)
        (participantsT.update (Participants.byId id) set hk) (env n) (env n) db₁ [.participant (set (env n) p)]
        [.update (.participant (set (env n) p))] := decided_update hu hbyId hp
    rw [spoils_fetchOptional (hdecided.congr (and_iff_left hcheck)) (participantsT.head_put _)]
    simp only [not_works, reduceCtorEq, or_false, Option.some.injEq, exists_eq_left']
    exact Iff.rfl

/-- A participant is set otherwise than it was, and the audit row is refused. -/
def LateSet (env : Nat → Env) (db : Db) (id : Uuid) (set : Env → Participant → Participant) : Prop :=
  (env 0).fails = false ∧ Unaudited (env 1) db ∧ ∃ p, participant? id db = some p ∧ set (env 0) p ≠ p

theorem participant_changes {set : Participant → Participant} (hu : KeysUnique db) {p : Participant}
    (hp : participant? id db = some p) (hk : (set p).id = p.id) {P : Row → Prop}
    (hP : ∀ q, q.id = id → P (.participant q)) : ChangesOnly P db (Write.apply db (.update (.participant (set p)))) := by
  obtain ⟨hmem, hid⟩ := participant?_some hp
  exact .update hu hmem (congrArg Key.participant hk) (hP p hid) (hP _ (hk.trans hid))

theorem set_audited {set : Env → Participant → Participant} {hk : ∀ e, participantsT.Keeps (set e)}
    {entry : Participant → AuditLog.Entry} (hu : KeysUnique db) (hid : ∀ p, (set (env 0) p).id = p.id)
    (hck : ∀ p, Row.participant p ∈ db → check (Row.participant (set (env 0) p)) = true)
    (ht : ∀ p q, q.id = id → Told tells (entry p) (.participant q)) :
    Spoils tells db env 0 ⟨none, db, w⟩ (Participants.found id (participantsT.update (Participants.byId id) set hk) >>=
      fun row => AuditLog.append (entry row) >>= fun _ => pure row) ↔ LateSet env db id set := by
  rw [spoils_set hu hck, at_first]
  refine and_congr_right fun _ => ?_
  rw [← exists_and_left]
  refine exists_congr fun p => ?_
  rw [and_left_comm]
  refine and_congr_right fun hp => ?_
  have hne : Write.apply db (.update (.participant (set (env 0) p))) ≠ db ↔ set (env 0) p ≠ p := by
    rw [Ne, update_eq_iff hu (participant?_some hp).1 (congrArg Key.participant (hid p)), Row.participant.injEq]
  rw [spoils_answered (participant_changes hu hp (hid p) (ht _)), hne, and_comm]

theorem patchLicense_late (hdb : Intact db) (svc : String) (id : Uuid) (input : Participants.UpdateLicense) :
    Spoils (Tells svc "license_patched" Named) db env 0 ⟨none, db, w⟩ (ParticipantRoutes.patchLicense svc id input) ↔
      LateSet env db id (Participants.setLicense input) := by
  rw [ParticipantRoutes.patchLicense, Participants.updateLicense, Participants.updateLicenseSql]
  refine set_audited hdb.keys (fun _ => rfl) (fun p hp => (hdb.checked _ hp : check (Row.participant p) = true)) ?_
  rintro p q rfl
  exact ⟨(fun h => by cases h), fun _ => ⟨rfl, rfl, rfl⟩⟩

theorem check_consent {input : Participants.UpdateConsent} (hvalid : Participants.validScope input.consentScope = true)
    {p : Participant} (hp : check (Row.participant p) = true) (e : Env) :
    check (Row.participant (Participants.setConsent input e p)) = true := by
  have hp : (isValidPseudoId p.pseudoId.raw && _) = true := hp
  show (isValidPseudoId p.pseudoId.raw && Participants.validScope input.consentScope) = true
  rw [(Bool.and_eq_true_iff.1 hp).1, hvalid]; rfl

theorem patchParticipantConsent_late (hdb : Intact db) (svc : String) (id : Uuid) (input : Participants.UpdateConsent) :
    Spoils (Tells svc "consent_patched" Named) db env 0 ⟨none, db, w⟩ (ParticipantRoutes.patchConsent svc id input) ↔
      Participants.validScope input.consentScope = true ∧ LateSet env db id (Participants.setConsent input) := by
  rw [ParticipantRoutes.patchConsent, Participants.updateConsent, Participants.updateConsentSql, bind_assoc, spoils_refuseIf,
    at_first, Bool.not_eq_false']
  refine and_congr_right fun hvalid => ?_
  refine set_audited hdb.keys (fun _ => rfl) (fun p hp => check_consent hvalid (hdb.checked _ hp) _) ?_
  rintro p q rfl
  exact ⟨(fun h => by cases h), fun _ => ⟨rfl, rfl, rfl⟩⟩

end

/-! ## Metadata -/

section
variable {db : Db} {env : Nat → Env} {n : Nat} {w : World} {id : Uuid} {b e : Env} {blob : Json} {etag : ETag}

/-- The stored blob of a session. -/
def metadata? (id : Uuid) (db : Db) : Option MetadataBlob := (metadataT.rows db).find? (Metadata.byId id)

theorem metadata?_some {m : MetadataBlob} (h : metadata? id db = some m) : Row.metadata m ∈ db ∧ m.sessionId = id :=
  ⟨metadataT.mem_rows.1 (List.mem_of_find?_eq_some h), by simpa [Metadata.byId] using List.find?_some h⟩

/-- A stored blob is not already what would be written. -/
def Overwrites (id : Uuid) (blob : Json) (etag : ETag) (e : Env) (db : Db) : Prop :=
  ∀ m, metadata? id db = some m → Metadata.overwrite blob etag e m ≠ m

/-- The blob's upsert needs a session only where it enters a row. -/
theorem decided_blob (hu : KeysUnique db) (id : Uuid) (blob : Json) (etag : ETag) (b e : Env) :
    ∃ m v, Decided (e.fails = false ∧ (metadata? id db = none → Present (Key.session id) db)) (Metadata.upsertSql id blob etag)
        b e db [.metadata m] [v] ∧
      (Write.apply db v ≠ db ↔ Overwrites id blob etag { e with now := b.now } db) ∧
      ChangesOnly (fun r => ∃ m, r = .metadata m ∧ m.sessionId = id) db (Write.apply db v) := by
  cases hm : metadata? id db with
  | none =>
    have hnone : ∀ m, metadata? id db ≠ some m := fun m h => by rw [hm] at h; cases h
    refine ⟨_, _, .of (fun h => FailsClosed.upsert_absent h.1 hm (h.2 rfl) blob etag) fun rows ws h => ?_,
      iff_of_true insert_ne fun m h => absurd h (hnone m), .insert ⟨_, rfl, rfl⟩⟩
    exact ⟨(answer_ok h).1, fun _ => FailsClosed.upsert_absent_ok hm h⟩
  | some m =>
    obtain ⟨hmem, hid⟩ := metadata?_some hm
    refine ⟨_, _, .of (fun h => FailsClosed.upsert_present h.1 hu hm blob etag) fun rows ws h => ?_, ?_,
      .update hu hmem rfl ⟨m, rfl, hid⟩ ⟨_, rfl, hid⟩⟩
    · exact ⟨(answer_ok h).1, fun h => by cases h⟩
    · have hkey : key (Row.metadata (Metadata.overwrite blob etag { e with now := b.now } m)) = key (Row.metadata m) := rfl
      rw [Ne, update_eq_iff hu hmem hkey, Row.metadata.injEq, Overwrites, hm]
      simp

theorem told_metadata {db' : Db} (h : ChangesOnly (fun r => ∃ m, r = Row.metadata m ∧ m.sessionId = id) db db')
    (svc action : String) (etag : ETag) :
    ChangesOnly (Told (Tells svc action Named) (MetadataRoutes.entry svc id action etag)) db db' := by
  refine h.mono ?_
  rintro _ ⟨m, rfl, rfl⟩
  exact ⟨(fun h => by cases h), fun _ => ⟨rfl, rfl, rfl⟩⟩

/-- The blob is replaced by another, and the audit row is refused. -/
structure LateReplace (env : Nat → Env) (db : Db) (id : Uuid) (body : Json) : Prop where
  works : (env 1).fails = false
  session : metadata? id db = none → Present (Key.session id) db
  overwrites : Overwrites id body (env 0).etag (env 1) db
  unaudited : Unaudited (env 2) db

theorem replaceMetadata_late (hdb : Intact db) (svc : String) (id : Uuid) (body : Json) :
    Spoils (Tells svc "replaced" Named) db env 0 ⟨none, db, w⟩ (MetadataRoutes.replace svc id body) ↔
      LateReplace env db id body := by
  obtain ⟨m, v, hdecided, hne, hchanges⟩ := decided_blob hdb.keys id body (env 0).etag (env 1) (env 1)
  rw [MetadataRoutes.replace, Metadata.replace, bind_assoc]
  refine ends_outer.trans ((spoils_fetchOne hdecided (metadataT.head_put m)).trans ?_)
  have htold : ChangesOnly _ db (applyAll [v] db) := told_metadata hchanges svc "replaced" m.etag
  rw [at_first, spoils_answered htold]
  refine ⟨fun h => ⟨h.1.1, h.1.2, hne.1 h.2.1, h.2.2⟩, fun h => ⟨⟨h.works, h.session⟩, hne.2 h.overwrites, h.unaudited⟩⟩

/-- The patch is merged in, which changes the blob, and the audit row is
refused. -/
structure LateMerge (env : Nat → Env) (db : Db) (id : Uuid) (headers : HeaderMap) (body : Json) : Prop where
  mergeable : FailsClosed.Mergeable env db id body (metadata? id db)
  matches' : (ifMatch headers).any (· ≠ FailsClosed.tagFor env (metadata? id db)) = false
  overwrites : ∀ merged, Metadata.mergeShallow (FailsClosed.baseOf (metadata? id db)) body = .ok merged →
    Overwrites id merged (env 2).etag { env 3 with now := (env 0).now } db
  unaudited : Unaudited (env (5 + FailsClosed.extra (metadata? id db))) db

theorem spoils_compared (hu : KeysUnique db) {svc : String} {expected : Option ETag} {body base : Json} {t : ETag} :
    Spoils (Tells svc "merged" Named) db env n ⟨some ⟨b, []⟩, db, w⟩ (UsableTags.compared id expected body base t >>= fun row =>
      AuditLog.append (MetadataRoutes.entry svc id "merged" row.etag) >>= fun _ => pure row) ↔
      expected.any (· ≠ t) = false ∧ ∃ merged, Metadata.mergeShallow base body = .ok merged ∧
        ((env (n + 1)).fails = false ∧ (metadata? id db = none → Present (Key.session id) db)) ∧ (env (n + 2)).fails = false ∧
        Overwrites id merged (env n).etag { env (n + 1) with now := b.now } db ∧ Unaudited (env (n + 3)) db := by
  rw [UsableTags.compared]
  simp only [bind_assoc, pure_bind]
  rw [spoils_refuseIf_tx, spoils_ofResult_tx]
  refine and_congr_right fun _ => exists_congr fun merged => and_congr_right fun _ => ?_
  obtain ⟨m, v, hdecided, hne, hchanges⟩ := decided_blob hu id merged (env n).etag b (env (n + 1))
  refine ends_outer.trans ((spoils_fetchOne_tx hdecided (metadataT.head_put m)).trans ?_)
  have htold : ChangesOnly _ db (applyAll [v] db) := told_metadata hchanges svc "merged" m.etag
  rw [spoils_commit, List.nil_append, spoils_answered htold, ← hne]
  exact Iff.rfl

theorem shallowPatch_late (hdb : Intact db) (svc : String) (id : Uuid) (headers : HeaderMap) (body : Json) :
    Spoils (Tells svc "merged" Named) db env 0 ⟨none, db, w⟩ (MetadataRoutes.shallowPatch svc id headers body) ↔
      LateMerge env db id headers body := by
  rw [MetadataRoutes.shallowPatch, UsableTags.shallowMerge_eq]
  simp only [bind_assoc]
  rw [spoils_begin, at_first, Metadata.lockSql, spoils_lock]
  have hlate : ∀ {found}, metadata? id db = found → (LateMerge env db id headers body ↔
      (env 0).fails = false ∧ (env 1).fails = false ∧ (ifMatch headers).any (· ≠ FailsClosed.tagFor env found) = false ∧
        ∃ merged, Metadata.mergeShallow (FailsClosed.baseOf found) body = .ok merged ∧
        ((env (3 + FailsClosed.extra found)).fails = false ∧ (found = none → Present (Key.session id) db)) ∧
        (env (4 + FailsClosed.extra found)).fails = false ∧
        Overwrites id merged (env 2).etag { env 3 with now := (env 0).now } db ∧
        Unaudited (env (5 + FailsClosed.extra found)) db) := by
    rintro found rfl
    constructor
    · rintro ⟨⟨hworks, hsession, merged, hmerged⟩, hc, hover, hun⟩
      simp only [List.mem_cons, List.not_mem_nil, or_false, forall_eq_or_imp, forall_eq] at hworks
      obtain ⟨h0, h1, h3, h4⟩ := hworks
      exact ⟨h0, h1, hc, merged, hmerged, ⟨h3, hsession⟩, h4, hover merged hmerged, hun⟩
    · rintro ⟨h0, h1, hc, merged, hmerged, ⟨h3, hsession⟩, h4, hover, hun⟩
      refine ⟨⟨?_, hsession, merged, hmerged⟩, hc, fun merged' h => ?_, hun⟩
      · simp only [List.mem_cons, List.not_mem_nil, or_false, forall_eq_or_imp, forall_eq]
        exact ⟨h0, h1, h3, h4⟩
      · rwa [Except.ok.inj (h.symm.trans hmerged)]
  cases hm : metadata? id db with
  | none =>
    have hfind : (metadataT.rows db).find? (Metadata.byId id) = none := hm
    have hnothing : ∀ blob etag e, Overwrites id blob etag e db := fun _ _ _ m h => by rw [hm] at h; cases h
    rw [hfind, hlate hm]
    refine and_congr_right fun _ => and_congr_right fun _ => (spoils_compared (n := 3) hdb.keys).trans ?_
    rw [hm]
    refine and_congr_right fun _ => exists_congr fun merged => and_congr_right fun _ => and_congr_right fun _ => ?_
    exact and_congr_right fun _ => and_congr_left fun _ => iff_of_true (hnothing _ _ _) (hnothing _ _ _)
  | some m =>
    have hfind : (metadataT.rows db).find? (Metadata.byId id) = some m := hm
    rw [hfind, hlate hm]
    refine and_congr_right fun _ => and_congr_right fun _ => (spoils_compared (n := 2) hdb.keys).trans ?_
    rw [hm]
    exact Iff.rfl

end
end DataApi.ErrorsUnchanged
