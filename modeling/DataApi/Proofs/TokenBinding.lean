/-
A consent token names a session, a participant and a pseudonym. Each has a
foreign key of its own, and nothing compares the three: a token that is
created for another session than its participant's is stored, and the public
routes take the session from one reference and the pseudonym from another.
Where every created token names one participation, tokens stay bound to it,
and a public request acts for it alone.
-/
import DataApi.Footprint
import DataApi.Proofs.WipePaths

namespace DataApi.TokenBinding

open Relational ReadCommitted Resumption Handler Sweeps Wipes WipePaths

/-- Every stored token names one participation. -/
def Bound (db : Db) : Prop :=
  ∀ t ∈ consentTokensT.rows db, ∃ p ∈ participantsT.rows db,
    p.id = t.participantId ∧ p.sessionId = t.sessionId ∧ p.pseudoId = t.pseudoId

/-- What the INSERT of a token asks of the stored rows. -/
def Accepted (env : Env) (db : Db) (input : ConsentRoutes.CreateTokenRequest) : Prop :=
  env.fails = false ∧ ¬Present (Key.consentToken (env.uuid 0)) db ∧ Present (Key.session input.sessionId) db ∧
    Present (Key.participant input.participantId) db ∧ Present (Key.user input.pseudoId) db

/-- A token that would be stored names one participation. -/
def Honest (x : Call) (db : Db) : Prop :=
  ∀ svc input, x.request = .createToken svc input → Accepted (x.env 0) db input →
    ∀ p ∈ participantsT.rows db, p.id = input.participantId → p.sessionId = input.sessionId ∧ p.pseudoId = input.pseudoId

/-! ## Tokens and the rows they reference -/

/-- What a token says of the participant it references. -/
def Speaks : Row → Row → Prop
  | .consentToken t, .participant p => p.sessionId = t.sessionId ∧ p.pseudoId = t.pseudoId
  | _, _ => True

theorem speaks_fixed : Fixed Speaks := by
  intro x x' y y' hrefs hkey huniques h
  cases x' with
  | consentToken t' =>
    cases y' with
    | participant p' =>
      cases x <;> simp [refs, Row.refs] at hrefs
      cases y <;> simp [uniques, Row.uniques] at huniques
      rename_i t p
      obtain ⟨hsid, -, hpid⟩ := hrefs
      rw [Speaks, hsid, hpid, huniques.1, huniques.2]
      exact h
    | _ => trivial
  | _ => trivial

section
variable {db db' : Db}

theorem bound_iff (hdb : Intact db) : Bound db ↔ Linked Speaks db := by
  constructor
  · intro h x hx y hy hk
    cases x with
    | consentToken t =>
      cases y with
      | participant p =>
        obtain ⟨q, hq, hid, hpair⟩ := h t (consentTokensT.mem_rows.2 hx)
        have hkey : p.id = t.participantId := by simpa [key, Row.key, refs, Row.refs] using hk
        have heq : Row.participant p = .participant q :=
          hdb.slot_eq hy (participantsT.mem_rows.1 hq) (pk_mem_slots.2 rfl)
            (pk_mem_slots.2 (congrArg Key.participant (hid.trans hkey.symm)))
        rw [Row.participant.inj heq]
        exact hpair
      | _ => trivial
    | _ => trivial
  · intro h t ht
    have hmem := consentTokensT.mem_rows.1 ht
    obtain ⟨r, hr, hk⟩ := hdb.referenced _ hmem (.participant t.participantId) (by simp [refs, Row.refs, consentTokensT])
    cases r with
    | participant p =>
      have hid : p.id = t.participantId := Key.participant.inj hk
      refine ⟨p, participantsT.mem_rows.2 hr, hid, h _ hmem _ hr ?_⟩
      rw [hk]
      simp [refs, Row.refs, consentTokensT]
    | _ => cases hk

/-! ## One call -/

/-- A call that creates no token keeps the tokens bound. -/
theorem serve_bound {st : AppState} {x : Call} {sv : Sv Unit} (hdb : Intact sv.db) (h : Bound sv.db)
    (hreq : ∀ svc input, x.request ≠ .createToken svc input) : Bound (serve st x sv).2.db := by
  have hkeeps : ∀ q, Issues x.request q → q.Maintains fun db => Intact db ∧ Linked Speaks db := by
    rintro q hq env db rows ws ⟨hdb, hlinked⟩ hrun
    refine ⟨hdb.run ranks hrun, hlinked.run speaks_fixed hdb hrun fun r hr y => ?_⟩
    cases r with
    | consentToken t =>
      obtain ⟨svc, input, hx⟩ := (hq.entered hrun hr).token rfl
      exact absurd hx (hreq svc input)
    | _ => trivial
  obtain ⟨hdb', hlinked⟩ := serve_maintains hkeeps ⟨hdb, (bound_iff hdb).1 h⟩
  exact (bound_iff hdb').2 hlinked

section
variable {e : Env} {input : ConsentRoutes.CreateTokenRequest} {rows : Db} {ws : List (Write Row Key)}

/-- The row of a new token. -/
def tokenRow (e : Env) (input : ConsentRoutes.CreateTokenRequest) : ConsentToken :=
  ConsentTokens.freshRow input.sessionId input.participantId input.pseudoId e

theorem refs_tokenRow {k : Key} : k ∈ (refs (consentTokensT.put (tokenRow e input)) : List Key) ↔
    k = .session input.sessionId ∨ k = .participant input.participantId ∨ k = .user input.pseudoId := by
  simp [refs, Row.refs, consentTokensT, tokenRow, ConsentTokens.freshRow]

theorem slots_tokenRow {l : Lockable Key Uniq} : l ∈ slots (consentTokensT.put (tokenRow e input)) ↔
    l = .pk (.consentToken (e.uuid 0)) := by
  simp [slots, uniques, Row.uniques, key, Row.key, consentTokensT, tokenRow, ConsentTokens.freshRow]

theorem token_answered (h : answer (ConsentTokens.createSql input.sessionId input.participantId input.pseudoId) e e db =
    .ok (rows, ws)) : Accepted e db input ∧ rows = [.consentToken (tokenRow e input)] ∧
      ws = [.insert (.consentToken (tokenRow e input))] := by
  obtain ⟨hf, hrun⟩ := answer_ok h
  obtain ⟨t, ht, -, hclash, hrefs, hrows, hws⟩ := insert_ok hrun
  obtain rfl : tokenRow e input = t := Except.ok.inj ht
  have hpresent : ∀ k, k = Key.session input.sessionId ∨ k = .participant input.participantId ∨ k = .user input.pseudoId →
      Present k db := fun k hk => hrefs k (refs_tokenRow.2 hk)
  refine ⟨⟨hf, ?_, hpresent _ (.inl rfl), hpresent _ (.inr (.inl rfl)), hpresent _ (.inr (.inr rfl))⟩, hrows, hws⟩
  rintro ⟨r, hr, hk⟩
  exact clash_eq_none.1 hclash _ (slots_tokenRow.2 rfl) r hr (pk_mem_slots.2 hk)

theorem accepted_answer (h : Accepted e db input) :
    answer (ConsentTokens.createSql input.sessionId input.participantId input.pseudoId) e e db =
      .ok ([.consentToken (tokenRow e input)], [.insert (.consentToken (tokenRow e input))]) := by
  obtain ⟨hf, hnew, hs, hp, hu⟩ := h
  rw [answer, if_neg (by simp [hf])]
  refine insert_run (t := tokenRow e input) rfl rfl (fun l hl r hr hlr => ?_) fun k hk => ?_
  · obtain rfl := slots_tokenRow.1 hl
    exact hnew ⟨r, hr, pk_mem_slots.1 hlr⟩
  · rcases refs_tokenRow.1 hk with rfl | rfl | rfl
    · exact hs
    · exact hp
    · exact hu

end

/-- The audit log has no say in it. -/
theorem bound_logged (h : Logged db db') : Bound db' ↔ Bound db := by
  have hrow : ∀ r, (∀ a, r ≠ Row.audit a) → (r ∈ db' ↔ r ∈ db) := fun r hr => h.mem hr
  have htokens : ∀ t, t ∈ consentTokensT.rows db' ↔ t ∈ consentTokensT.rows db := by
    intro t
    rw [consentTokensT.mem_rows, consentTokensT.mem_rows]
    exact hrow _ fun a ha => by cases ha
  have hparticipants : ∀ p, p ∈ participantsT.rows db' ↔ p ∈ participantsT.rows db := by
    intro p
    rw [participantsT.mem_rows, participantsT.mem_rows]
    exact hrow _ fun a ha => by cases ha
  simp only [Bound, htokens, hparticipants]

/-- A new token is bound iff the body names one participation. -/
theorem bound_insert (hdb : Intact db) (h : Bound db) {e : Env} {input : ConsentRoutes.CreateTokenRequest}
    (hp : Present (Key.participant input.participantId) db) :
    Bound (db ++ [.consentToken (tokenRow e input)]) ↔
      ∀ p ∈ participantsT.rows db, p.id = input.participantId → p.sessionId = input.sessionId ∧ p.pseudoId = input.pseudoId := by
  have hrows : participantsT.rows (db ++ [.consentToken (tokenRow e input)]) = participantsT.rows db := by
    simp [Table.rows, participantsT]
  have htokens : consentTokensT.rows (db ++ [.consentToken (tokenRow e input)]) =
      consentTokensT.rows db ++ [tokenRow e input] := by
    simp [Table.rows, consentTokensT]
  constructor
  · intro hbound p hmem hid
    obtain ⟨q, hq, hqid, hpair⟩ := hbound (tokenRow e input) (by simp [htokens])
    rw [hrows] at hq
    have heq : Row.participant p = .participant q := hdb.slot_eq (participantsT.mem_rows.1 hmem) (participantsT.mem_rows.1 hq)
      (pk_mem_slots.2 rfl) (pk_mem_slots.2 (congrArg Key.participant (hqid.trans hid.symm)))
    rw [Row.participant.inj heq]
    exact hpair
  · intro hbody t ht
    rw [hrows]
    rw [htokens] at ht
    rcases List.mem_append.1 ht with ht | ht
    · exact h t ht
    · rw [List.mem_singleton.1 ht]
      obtain ⟨r, hr, hk⟩ := hp
      cases r with
      | participant p =>
        have hmem := participantsT.mem_rows.2 hr
        exact ⟨p, hmem, Key.participant.inj hk, hbody p hmem (Key.participant.inj hk)⟩
      | _ => cases hk

theorem createToken_bound {env : Nat → Env} {w : World} (hdb : Intact db) (h : Bound db) (svc : String)
    (input : ConsentRoutes.CreateTokenRequest) :
    Ends env 0 ⟨none, db, w⟩ (ConsentRoutes.createToken svc input) fun _ s => Bound s.db ↔ (Accepted (env 0) db input →
      ∀ p ∈ participantsT.rows db, p.id = input.participantId → p.sessionId = input.sessionId ∧ p.pseudoId = input.pseudoId) := by
  rw [ConsentRoutes.createToken, ConsentTokens.create]
  refine Ends.fetchOne_pool (fun err herr => ?_) (fun rows ws hok hnone => ?_) fun rows ws t hok ht => ?_
  · refine iff_of_true h fun hacc => ?_
    rw [accepted_answer hacc] at herr
    cases herr
  · obtain ⟨-, rfl, -⟩ := token_answered hok
    cases hnone
  · obtain ⟨hacc, -, rfl⟩ := token_answered hok
    have hiff := bound_insert hdb h (e := env 0) hacc.2.2.2.1
    have hgoal : ∀ db', Logged (db ++ [.consentToken (tokenRow (env 0) input)]) db' → (Bound db' ↔ (Accepted (env 0) db input →
        ∀ p ∈ participantsT.rows db, p.id = input.participantId → p.sessionId = input.sessionId ∧ p.pseudoId = input.pseudoId)) :=
      fun db' hlogged => (bound_logged hlogged).trans (hiff.trans ⟨fun hb _ => hb, fun hb => hb hacc⟩)
    exact Ends.append (fun _ => hgoal _ (.refl _)) fun db' hlogged => hgoal db' hlogged

/-- After a call the tokens are still bound, iff a token it creates is. -/
theorem serve_bound_iff {st : AppState} {x : Call} {sv : Sv Unit} (hdb : Intact sv.db) (h : Bound sv.db) :
    Bound (serve st x sv).2.db ↔ Honest x sv.db := by
  by_cases hreq : ∃ svc input, x.request = .createToken svc input
  · obtain ⟨svc, input, hreq⟩ := hreq
    have hhonest : Honest x sv.db ↔ (Accepted (x.env 0) sv.db input → ∀ p ∈ participantsT.rows sv.db,
        p.id = input.participantId → p.sessionId = input.sessionId ∧ p.pseudoId = input.pseudoId) := by
      refine ⟨fun hx => hx svc input hreq, fun hx svc' input' hreq' => ?_⟩
      obtain ⟨-, rfl⟩ := Request.createToken.inj (hreq.symm.trans hreq')
      exact hx
    rw [hhonest]
    refine serve_ends (Q := fun _ db _ => Bound db ↔ _) |>.2 ?_
    rw [hreq]
    exact ends_map.2 (createToken_bound hdb h svc input)
  · have hno : ∀ svc input, x.request ≠ .createToken svc input := fun svc input he => hreq ⟨svc, input, he⟩
    exact iff_of_true (serve_bound hdb h hno) fun svc input he => absurd he (hno svc input)

end

/-! ## What a public request touches -/

/-- The token a public request comes with. -/
def presented : Request → Option Uuid
  | .getConsent token | .patchConsent token _ | .deleteAudio token => some token
  | _ => none

/-- What no update of a participant's row changes. -/
def who (p : Participant) : Uuid × Uuid × PseudoId := (p.id, p.sessionId, p.pseudoId)

/-- Of the stored rows, only those of one participation differ: its audio may
be gone, and its row changed. The audit log may have grown. -/
structure Within (sid : Uuid) (pid : PseudoId) (db db' : Db) : Prop where
  others : db'.filter (other sid pid) = db.filter (other sid pid)
  participants : (participantsT.rows db').map who = (participantsT.rows db).map who
  audio : ∀ r ∈ db', audio sid pid r = true → r ∈ db
  audited : ∃ as, auditT.rows db' = auditT.rows db ++ as

/-- The same for the rest of the world: objects that its chunks named may be
gone, and one event may tell of it. -/
structure Confined (sid : Uuid) (pid : PseudoId) (db : Db) (w : World) (db' : Db) (w' : World) : Prop where
  rows : Within sid pid db db'
  objects : ∀ k ∉ keysOf (Chunks.ofPair sid pid) db, w'.store.lookup k = w.store.lookup k
  events : w'.bus = w.bus ∨ ∃ t guild, w'.bus = w.bus ++ [.audioDeleted t { sessionId := sid, guildId := guild, pseudoId := pid }]
  counters : w'.counters = w.counters

/-- The rows in an answer are those of one participation. -/
def Shows (sid : Uuid) (pid : PseudoId) : Reply → Prop
  | .consent ctx => ctx.token.sessionId = sid ∧ ctx.token.pseudoId = pid ∧ ctx.session.id = sid ∧
      ctx.participant.sessionId = sid ∧ ctx.participant.pseudoId = pid
  | .participant p => p.sessionId = sid ∧ p.pseudoId = pid
  | .noContent => True
  | _ => False

/-- A public request reads, changes and deletes what belongs to the
participation its token names. Without such a token it does nothing. -/
def Acts (token : Uuid) (db : Db) (w : World) (a : Outcome) (db' : Db) (w' : World) : Prop :=
  (∃ t ∈ consentTokensT.rows db, t.token = token ∧ Confined t.sessionId t.pseudoId db w db' w' ∧
    ∀ r, a = .ok r → Shows t.sessionId t.pseudoId r) ∨
  (db' = db ∧ w' = w ∧ ∀ r, a ≠ .ok r)

section
variable {sid : Uuid} {pid : PseudoId} {db db' db'' : Db} {w : World}

theorem Within.refl (db : Db) : Within sid pid db db := ⟨rfl, rfl, fun _ hr _ => hr, [], by simp⟩

theorem Within.trans (h : Within sid pid db db') (h' : Within sid pid db' db'') : Within sid pid db db'' where
  others := h'.others.trans h.others
  participants := h'.participants.trans h.participants
  audio r hr haudio := h.audio r (h'.audio r hr haudio) haudio
  audited := by
    obtain ⟨as, has⟩ := h.audited
    obtain ⟨bs, hbs⟩ := h'.audited
    exact ⟨as ++ bs, by rw [hbs, has, List.append_assoc]⟩

/-- Entries of the audit log. -/
theorem Within.append (db : Db) (as : List AuditRow) : Within sid pid db (db ++ as.map .audit) := by
  have hnone : (as.map Row.audit).filter (other sid pid) = [] := by
    refine List.filter_eq_nil_iff.2 fun r hr => ?_
    obtain ⟨a, -, rfl⟩ := List.mem_map.1 hr
    simp [other]
  have hrows : participantsT.rows (as.map Row.audit) = [] := by
    simp [Table.rows, List.filterMap_map, participantsT]
  refine ⟨?_, ?_, fun r hr haudio => ?_, as, ?_⟩
  · rw [List.filter_append, hnone, List.append_nil]
  · rw [participantsT.rows_append, hrows, List.append_nil]
  · rcases List.mem_append.1 hr with hr | hr
    · exact hr
    · obtain ⟨a, -, rfl⟩ := List.mem_map.1 hr
      cases haudio
  · rw [auditT.rows_append]
    exact congrArg _ (auditT.rows_map_put as)

theorem Within.logged (h : Logged db db') : Within sid pid db db' := by
  obtain ⟨as, rfl⟩ := h.rows
  exact .append db as

/-- A row after an UPDATE of participants. -/
def changed (p : Participant → Bool) (set : Participant → Participant) (r : Row) : Row :=
  if participantsT.is p r then participantsT.lift set r else r

section
variable {p : Participant → Bool} {set : Participant → Participant}

theorem changed_cases (p : Participant → Bool) (set : Participant → Participant) (r : Row) :
    (∃ q, r = .participant q ∧ p q = true ∧ changed p set r = .participant (set q)) ∨ changed p set r = r := by
  unfold changed
  split
  · next his =>
    obtain ⟨q, rfl, hq⟩ := participantsT.is_iff.1 his
    exact .inl ⟨q, rfl, hq, participantsT.lift_put _ _⟩
  · exact .inr rfl

theorem rows_changed (p : Participant → Bool) (set : Participant → Participant) {τ β : Type} (T : Table Row τ) (g : τ → β)
    (hget : ∀ q, (T.get (.participant (set q))).map g = (T.get (.participant q)).map g) (db : Db) :
    (T.rows (db.map (changed p set))).map g = (T.rows db).map g := by
  simp only [Table.rows, List.filterMap_map, List.map_filterMap]
  refine List.filterMap_congr fun r _ => ?_
  rw [Function.comp_apply]
  rcases changed_cases p set r with ⟨q, rfl, -, hq⟩ | hsame
  · rw [hq, hget]
  · rw [hsame]

/-- An UPDATE of the participation's rows. -/
theorem Within.update (hp : ∀ q ∈ participantsT.rows db, p q = true → Participants.ofPair sid pid q = true)
    (hset : ∀ q, who (set q) = who q) : Within sid pid db (db.map (changed p set)) := by
  have hpair : ∀ q, Participants.ofPair sid pid (set q) = Participants.ofPair sid pid q := by
    intro q
    have h := hset q
    simp only [who, Prod.mk.injEq] at h
    rw [Participants.ofPair, Participants.ofPair, h.2.1, h.2.2]
  have hother : other sid pid ∘ changed p set = other sid pid := by
    funext r
    rw [Function.comp_apply]
    rcases changed_cases p set r with ⟨q, rfl, -, hq⟩ | hsame
    · rw [hq, other, other, hpair]
    · rw [hsame]
  refine ⟨?_, rows_changed p set participantsT who (fun q => congrArg some (hset q)) db, fun r hr haudio => ?_, [], ?_⟩
  · rw [List.filter_map, hother]
    refine (List.map_congr_left fun r hr => ?_).trans (List.map_id _)
    obtain ⟨hr, hkept⟩ := List.mem_filter.1 hr
    rcases changed_cases p set r with ⟨q, rfl, hq, -⟩ | hsame
    · have hown := hp q (participantsT.mem_rows.2 hr) hq
      simp [other, hown] at hkept
    · exact hsame
  · obtain ⟨x, hx, rfl⟩ := List.mem_map.1 hr
    rcases changed_cases p set x with ⟨q, rfl, -, hq⟩ | hsame
    · rw [hq] at haudio
      cases haudio
    · rw [hsame]
      exact hx
  · simpa using rows_changed p set auditT id (fun _ => rfl) db

end

/-- Its audio is gone, and an audit entry tells of it. -/
theorem Within.cleared (db : Db) (a : AuditRow) : Within sid pid db (cleared sid pid db ++ [.audit a]) := by
  suffices h : Within sid pid db (Wipes.cleared sid pid db) from h.trans (.append _ [a])
  refine ⟨?_, ?_, fun r hr _ => List.mem_of_mem_filter hr, [], ?_⟩
  · rw [Wipes.cleared, List.filter_filter]
    refine List.filter_congr fun r _ => ?_
    cases hr : other sid pid r with
    | false => rfl
    | true => simp [other_audio hr]
  · rw [rows_cleared db fun r hr => by cases r <;> first | rfl | cases hr]
  · have hrows : auditT.rows (Wipes.cleared sid pid db) = auditT.rows db :=
      rows_cleared db fun r hr => by cases r <;> first | rfl | cases hr
    rw [hrows, List.append_nil]

/-- All participants with this id are of the participation. -/
def Owns (sid : Uuid) (pid : PseudoId) (id : Uuid) (db : Db) : Prop :=
  ∀ p ∈ participantsT.rows db, p.id = id → Participants.ofPair sid pid p = true

theorem Owns.within {id : Uuid} (h : Owns sid pid id db) (hwithin : Within sid pid db db') : Owns sid pid id db' := by
  intro p hp hid
  have hmem : who p ∈ (participantsT.rows db).map who := hwithin.participants ▸ List.mem_map_of_mem hp
  obtain ⟨q, hq, heq⟩ := List.mem_map.1 hmem
  simp only [who, Prod.mk.injEq] at heq
  obtain ⟨hqid, hsid, hpid⟩ := heq
  have hown := h q hq (hqid.trans hid)
  rwa [Participants.ofPair, hsid, hpid] at hown

theorem Within.confined (h : Within sid pid db db') (w : World) : Confined sid pid db w db' w :=
  ⟨h, fun _ _ => rfl, .inl rfl, rfl⟩

theorem Within.swept (h : Within sid pid db db') (w : World) (fails : String → Bool) : Confined sid pid db w db'
    { w with store := (w.store.deleteMany fails (keysOf (Chunks.ofPair sid pid) db) 0).2 } :=
  ⟨h, fun _ hk => ObjectStore.lookup_deleteMany_other hk, .inl rfl, rfl⟩

theorem Confined.announced {w' : World} (h : Confined sid pid db w db' w') (hbus : w'.bus = w.bus) (t : Timestamp) (guild : Int) :
    Confined sid pid db w db'
      { w' with bus := w'.bus ++ [.audioDeleted t { sessionId := sid, guildId := guild, pseudoId := pid }] } :=
  ⟨h.rows, h.objects, .inr ⟨t, guild, by rw [hbus]⟩, h.counters⟩

/-! ## The public routes -/

/-- The rows that `validate` joins. -/
structure Joined (token : Uuid) (db : Db) (ctx : ConsentTokens.WithContext) : Prop where
  stored : ctx.token ∈ consentTokensT.rows db
  asked : ctx.token.token = token
  session : ctx.session.id = ctx.token.sessionId
  participant : ctx.participant ∈ participantsT.rows db
  participantId : ctx.participant.id = ctx.token.participantId

variable {token : Uuid} {ctx : ConsentTokens.WithContext}

/-- Where tokens are bound, the participant found is the one of the
participation. -/
theorem Joined.owns (hdb : Intact db) (hbound : Bound db) (h : Joined token db ctx) :
    Owns ctx.token.sessionId ctx.token.pseudoId ctx.participant.id db := by
  intro p hp hid
  obtain ⟨q, hq, hqid, hsid, hpid⟩ := hbound ctx.token h.stored
  have heq : Row.participant p = .participant q := hdb.slot_eq (participantsT.mem_rows.1 hp) (participantsT.mem_rows.1 hq)
    (pk_mem_slots.2 rfl) (pk_mem_slots.2 (congrArg Key.participant (hqid.trans (h.participantId.symm.trans hid.symm))))
  rw [Row.participant.inj heq, Participants.ofPair, hsid, hpid]
  simp

theorem Joined.pair (hdb : Intact db) (hbound : Bound db) (h : Joined token db ctx) :
    ctx.participant.sessionId = ctx.token.sessionId ∧ ctx.participant.pseudoId = ctx.token.pseudoId := by
  simpa [Participants.ofPair] using h.owns hdb hbound ctx.participant h.participant rfl

section
variable {α β : Type} {env : Nat → Env} {n : Nat} {tx : Option (Tx Row Key Env)} {Q : Except AppError β → Moment → Prop}

/-- A token without its rows is turned away before anything is written. -/
theorem Ends.validated {f : ConsentTokens.WithContext → Handler β} (herr : ∀ e, Q (.error e) ⟨tx, db, w⟩)
    (hok : ∀ ctx, Joined token db ctx → Ends env (n + 3) ⟨tx, db, w⟩ (f ctx) Q) :
    Ends env n ⟨tx, db, w⟩ (ConsentRoutes.validated token >>= f) Q := by
  rw [ConsentRoutes.validated, ConsentTokens.validate]
  simp only [bind_assoc]
  refine Ends.fetchOptional_pool (fun _ _ => herr _) fun rows ws htoken => ?_
  obtain ⟨hct, rfl⟩ := selectAt_answer htoken
  rw [hct]
  cases hct : (consentTokensT.rows db).find? (ConsentTokens.live token (env n).now) with
  | none => exact herr _
  | some ct =>
    simp only [bind_assoc]
    refine Ends.fetchOne_pool (fun _ _ => herr _) (fun rows ws h _ => ?_) fun rows ws s hsession hs => ?_
    · obtain ⟨-, rfl⟩ := select_answer h
      exact herr _
    obtain ⟨hfind, rfl⟩ := select_answer hsession
    rw [hfind, applyAll_nil] at hs
    refine Ends.fetchOne_pool (fun _ _ => herr _) (fun rows ws h _ => ?_) fun rows ws p hparticipant hp => ?_
    · obtain ⟨-, rfl⟩ := select_answer h
      exact herr _
    obtain ⟨hfind, rfl⟩ := select_answer hparticipant
    rw [hfind, applyAll_nil, applyAll_nil] at hp
    have hlive := List.find?_some hct
    simp only [ConsentTokens.live, Bool.and_eq_true, decide_eq_true_eq] at hlive
    refine hok ⟨ct, s, p⟩ ⟨List.mem_of_find?_eq_some hct, hlive.1.1, ?_, List.mem_of_find?_eq_some hp, ?_⟩
    · simpa [Sessions.byId] using List.find?_some hs
    · simpa [Participants.byId] using List.find?_some hp

/-- An UPDATE of one participant's row by its id. -/
theorem Ends.updated {id : Uuid} {set : Env → Participant → Participant} {hk : ∀ e, participantsT.Keeps (set e)}
    {f : Participant → Handler β} (hdb : Intact db) (hown : Owns sid pid id db) (hset : ∀ e q, who (set e q) = who q)
    (herr : ∀ e db', Within sid pid db db' → Q (.error e) ⟨none, db', w⟩)
    (hok : ∀ p db', Within sid pid db db' → Intact db' → Participants.ofPair sid pid p = true →
      Ends env (n + 1) ⟨none, db', w⟩ (f p) Q) :
    Ends env n ⟨none, db, w⟩ (Participants.found id (participantsT.update (Participants.byId id) set hk) >>= f) Q := by
  rw [Participants.found, bind_assoc]
  refine Ends.fetchOptional_pool (fun _ _ => herr _ _ (.refl db)) fun rows ws h => ?_
  obtain ⟨hrows, -, -⟩ := update_answer h
  have hrun := (answer_ok h).2
  have hwithin : Within sid pid db (applyAll ws db) := by
    rw [(update_applied hdb.keys hrun).1]
    exact .update (fun q hq hid => hown q hq (by simpa [Participants.byId] using hid)) (hset _)
  cases hp : (participantsT.rows rows).head? with
  | none => exact herr _ _ hwithin
  | some p =>
    refine hok p _ hwithin (hdb.run ranks hrun) ?_
    have hmem := List.mem_of_mem_head? hp
    rw [hrows] at hmem
    obtain ⟨q, hq, rfl⟩ := List.mem_map.1 hmem
    obtain ⟨hq, hid⟩ := List.mem_filter.1 hq
    have hpair := hown q hq (by simpa [Participants.byId] using hid)
    have hwho := hset { env n with now := (env n).now } q
    simp only [who, Prod.mk.injEq] at hwho
    rwa [Participants.ofPair, hwho.2.1, hwho.2.2]

end

section
variable {α : Type} {env : Nat → Env} {f : α → Reply} {w' : World}

theorem Acts.refused {e : AppError} : Acts token db w ((.error e : Except AppError α).map f) db w :=
  .inr ⟨rfl, rfl, fun r h => by cases h⟩

theorem Acts.failed {e : AppError} (h : Joined token db ctx)
    (hc : Confined ctx.token.sessionId ctx.token.pseudoId db w db' w') :
    Acts token db w ((.error e : Except AppError α).map f) db' w' :=
  .inl ⟨ctx.token, h.stored, h.asked, hc, fun r hr => by cases hr⟩

theorem Acts.answered {a : α} (h : Joined token db ctx)
    (hc : Confined ctx.token.sessionId ctx.token.pseudoId db w db' w') (hshows : Shows ctx.token.sessionId ctx.token.pseudoId (f a)) :
    Acts token db w ((.ok a : Except AppError α).map f) db' w' := by
  refine .inl ⟨ctx.token, h.stored, h.asked, hc, fun r hr => ?_⟩
  obtain rfl : f a = r := Except.ok.inj hr
  exact hshows

theorem getConsent_acts (hdb : Intact db) (hbound : Bound db) : Ends env 0 ⟨none, db, w⟩ (ConsentRoutes.getConsent token)
    fun a s => Acts token db w (a.map .consent) s.db s.world := by
  rw [ConsentRoutes.getConsent, ← bind_pure (ConsentRoutes.validated token)]
  refine Ends.validated (fun _ => .refused) fun ctx h => ?_
  obtain ⟨hsid, hpid⟩ := h.pair hdb hbound
  exact .answered h ((Within.refl db).confined w) ⟨rfl, rfl, h.session, hsid, hpid⟩

/-- The audit entry, at the end of a change. -/
theorem patched_acts {p : Participant} {entry : AuditLog.Entry} {n : Nat} (h : Joined token db ctx)
    (hwithin : Within ctx.token.sessionId ctx.token.pseudoId db db')
    (hp : Participants.ofPair ctx.token.sessionId ctx.token.pseudoId p = true) :
    Ends env n ⟨none, db', w⟩ (AuditLog.append entry >>= fun _ => pure p) fun a s =>
      Acts token db w (a.map .participant) s.db s.world := by
  refine Ends.append (fun _ => .failed h (hwithin.confined w)) fun db'' hlogged => ?_
  have hpair : p.sessionId = ctx.token.sessionId ∧ p.pseudoId = ctx.token.pseudoId := by
    simpa [Participants.ofPair] using hp
  exact .answered h ((hwithin.trans (.logged hlogged)).confined w) hpair

theorem patchConsent_acts (hdb : Intact db) (hbound : Bound db) (input : ConsentRoutes.PatchConsent) :
    Ends env 0 ⟨none, db, w⟩ (ConsentRoutes.patchConsent token input) fun a s =>
      Acts token db w (a.map .participant) s.db s.world := by
  rw [ConsentRoutes.patchConsent]
  refine Ends.validated (fun _ => .refused) fun ctx h => ?_
  have hown := h.owns hdb hbound
  have flags : ∀ (p : Participant) (db' : Db) (n : Nat), Within ctx.token.sessionId ctx.token.pseudoId db db' → Intact db' →
      Participants.ofPair ctx.token.sessionId ctx.token.pseudoId p = true →
      Ends env n ⟨none, db', w⟩ (ConsentRoutes.patchFlags ctx.participant.id p input >>= fun updated =>
        AuditLog.append (ConsentRoutes.patchedEntry ctx.session.id ctx.participant.id updated input) >>= fun _ =>
          pure updated) fun a s => Acts token db w (a.map .participant) s.db s.world := by
    intro p db' n hwithin hdb' hp
    rw [ConsentRoutes.patchFlags]
    split
    · refine Ends.updated hdb' (hown.within hwithin) (fun _ _ => rfl) (fun _ _ hlast => ?_) fun p' db'' hlast _ hp' => ?_
      · exact .failed h ((hwithin.trans hlast).confined w)
      · exact patched_acts h (hwithin.trans hlast) hp'
    · exact patched_acts h hwithin hp
  cases input.consentScope with
  | none => exact flags ctx.participant db _ (.refl db) hdb (hown ctx.participant h.participant rfl)
  | some scope =>
    rw [ConsentRoutes.patchScope, Participants.updateConsent, bind_assoc]
    refine Ends.refuseIf (fun _ => .failed h ((Within.refl db).confined w)) fun _ => ?_
    refine Ends.updated hdb hown (fun _ _ => rfl) (fun _ _ hlast => ?_) fun p db' hfirst hdb' hp => ?_
    · exact .failed h (hlast.confined w)
    · exact flags p db' _ hfirst hdb' hp

theorem deleteAudio_acts (hdb : Intact db) (hbound : Bound db) : Ends env 0 ⟨none, db, w⟩ (ConsentRoutes.deleteAudio token)
    fun a s => Acts token db w (a.map fun _ => .noContent) s.db s.world := by
  rw [ConsentRoutes.deleteAudio]
  refine Ends.validated (fun _ => .refused) fun ctx h => ?_
  simp only [h.session, (h.pair hdb hbound).2]
  refine Ends.committing ⟨hdb.keys, hdb.checked⟩ (fun _ _ => rfl) (fun _ _ _ => ?_) fun _ a segs mutes _ hsound => ?_
  · exact .failed h ((Within.refl db).confined w)
  have hcleared : Within ctx.token.sessionId ctx.token.pseudoId db (cleared ctx.token.sessionId ctx.token.pseudoId db ++ [.audit a]) :=
    .cleared db a
  refine Ends.marking hsound (fun _ => .failed h (hcleared.confined w)) fun _ => ?_
  have hstamped : ∀ db' t, Within ctx.token.sessionId ctx.token.pseudoId db'
      (db'.map (stampRow ctx.token.sessionId ctx.token.pseudoId t)) :=
    fun _ _ => .update (fun _ _ hq => hq) fun _ => rfl
  refine Ends.sweep fun n => ?_
  have hswept := (hcleared.trans (hstamped _ (env (3 + 6)).now)).swept w (env (3 + 6 + 1)).storeFails
  rw [ConsentRoutes.guildId, bind_assoc]
  refine Ends.fetchOne_pool (fun _ _ => .failed h hswept) (fun rows ws hread _ => ?_) fun rows ws s hread _ => ?_
  · obtain ⟨-, rfl⟩ := select_answer hread
    exact .failed h hswept
  · obtain ⟨-, rfl⟩ := select_answer hread
    exact .answered h (hswept.announced rfl _ s.guildId) trivial

end

/-! ## Runs -/

theorem serve_acts {st : AppState} {x : Call} {sv : Sv Unit} (hdb : Intact sv.db) (hbound : Bound sv.db)
    (hx : presented x.request = some token) :
    Acts token sv.db sv.world (serve st x sv).1 (serve st x sv).2.db (serve st x sv).2.world := by
  refine serve_ends (Q := fun a db w => Acts token sv.db sv.world a db w) |>.2 ?_
  cases hreq : x.request with
  | getConsent t =>
    rw [hreq] at hx
    obtain rfl : t = token := Option.some.inj hx
    exact ends_map.2 (getConsent_acts hdb hbound)
  | patchConsent t input =>
    rw [hreq] at hx
    obtain rfl : t = token := Option.some.inj hx
    exact ends_map.2 (patchConsent_acts hdb hbound input)
  | deleteAudio t =>
    rw [hreq] at hx
    obtain rfl : t = token := Option.some.inj hx
    exact ends_map.2 (deleteAudio_acts hdb hbound)
  | _ =>
    rw [hreq] at hx
    cases hx

end

/-- A step leaves every token bound, and a public request acts for the
participation its token names. -/
def Keeps (st : AppState) (x : Call) (sv : Sv Unit) : Prop :=
  Bound (serve st x sv).2.db ∧ ∀ token, presented x.request = some token →
    Acts token sv.db sv.world (serve st x sv).1 (serve st x sv).2.db (serve st x sv).2.world

/-- Tokens stay bound, and public requests act for one participation, in
exactly the runs in which every token that is stored is created for one. -/
theorem binding_iff (st : AppState) (sv₀ : Sv Unit) (hdb : Intact sv₀.db) (hbound : Bound sv₀.db) (calls : List Call) :
    Steps st sv₀ calls (Keeps st) ↔ Steps st sv₀ calls fun x sv => Honest x sv.db := by
  have hstep : ∀ sv x, Intact sv.db ∧ Bound sv.db → (Keeps st x sv ↔ Honest x sv.db) := by
    rintro sv x ⟨hintact, h⟩
    have hiff : Bound (serve st x sv).2.db ↔ _ := serve_bound_iff hintact h
    rw [← hiff]
    exact ⟨fun hk => hk.1, fun hk => ⟨hk, fun token hx => serve_acts hintact h hx⟩⟩
  constructor
  · intro h done x rest hcalls
    have hdone := h.reached (I := fun sv => Intact sv.db ∧ Bound sv.db) ⟨hdb, hbound⟩
      (fun sv x hsv hk => ⟨serve_intact hsv.1, hk.1⟩) done (x :: rest) hcalls
    exact (hstep _ x hdone).1 (h done x rest hcalls)
  · intro h done x rest hcalls
    have hdone := h.reached (I := fun sv => Intact sv.db ∧ Bound sv.db) ⟨hdb, hbound⟩
      (fun sv x hsv hhonest => ⟨serve_intact hsv.1, ((hstep sv x hsv).2 hhonest).1⟩) done (x :: rest) hcalls
    exact (hstep _ x hdone).2 (h done x rest hcalls)

instance (db : Db) : Decidable (Bound db) :=
  inferInstanceAs (Decidable (∀ t ∈ consentTokensT.rows db, ∃ p ∈ participantsT.rows db,
    p.id = t.participantId ∧ p.sessionId = t.sessionId ∧ p.pseudoId = t.pseudoId))

/-- A call whose operations draw from `n` on. -/
def sampleCall (request : Request) (n : Nat) : Call := { request := request, env := fun k => Sample.env (n + k) }

/-- The id of the participant below. -/
def sampleParticipant : Uuid := (Sample.env 20).uuid 0

def sampleCalls : List Call :=
  [sampleCall (.createSession "bot" Sample.createInput) 0,
    sampleCall (.addOne "bot" Sample.sessionId { pseudoId := ⟨Sample.speaker⟩ }) 20]

/-- A token for the participation. -/
def sampleToken (sessionId : Uuid) : Call :=
  sampleCall (.createToken "bot" { sessionId := sessionId, participantId := sampleParticipant, pseudoId := ⟨Sample.speaker⟩ }) 30

theorem binding_sample : Steps Sample.state (Sample.server []) (sampleCalls ++ [sampleToken Sample.sessionId]) (Keeps Sample.state) := by
  refine (binding_iff Sample.state (Sample.server []) (by decide) (by decide) _).2 fun done x rest h => ?_
  rcases done with - | ⟨a, - | ⟨b, - | ⟨c, done⟩⟩⟩ <;>
    simp only [sampleCalls, List.cons_append, List.nil_append, List.cons.injEq] at h
  · obtain ⟨rfl, -⟩ := h
    exact fun svc input hreq => by cases hreq
  · obtain ⟨rfl, rfl, -⟩ := h
    exact fun svc input hreq => by cases hreq
  · obtain ⟨rfl, rfl, rfl, -⟩ := h
    intro svc input hreq _ p hp _
    obtain ⟨-, rfl⟩ := Request.createToken.inj hreq
    have hall : ∀ p ∈ participantsT.rows (after Sample.state (Sample.server []) sampleCalls).db,
        p.sessionId = Sample.sessionId ∧ p.pseudoId = ⟨Sample.speaker⟩ := by decide +kernel
    exact hall p hp
  · simp at h

/-- A token for session 2 and the participant of session 1 is stored, and by it
the consent given in session 1 is taken back. -/
theorem foreign_token_speaks :
    ¬Bound (after Sample.state (Sample.server []) (sampleCalls ++
      [sampleCall (.createSession "bot" { Sample.createInput with id := 2 }) 10, sampleToken 2])).db ∧
    (participantsT.rows (after Sample.state (Sample.server []) (sampleCalls ++
      [sampleCall (.createSession "bot" { Sample.createInput with id := 2 }) 10, sampleToken 2,
        sampleCall (.patchConsent ((Sample.env 30).uuid 0) { consentScope := some "decline" }) 40])).db).map
      (fun p => (p.sessionId, p.consentScope)) = [(Sample.sessionId, some "decline")] := by
  decide +kernel

end DataApi.TokenBinding
