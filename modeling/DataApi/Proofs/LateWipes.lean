/-
The wipes and the requests of a consent token. A wipe commits its deletions
with their audit row, and goes on to the participant's flag and the guild.
-/
import DataApi.Proofs.LateWrites
import DataApi.Proofs.WipeSteps

namespace DataApi.ErrorsUnchanged

open Relational ReadCommitted Resumption Handler Wipes
open Sweeps (keysOf)

/-! ## The steps both wipes share -/

/-- A row a wipe deletes, or the participant it marks. -/
def OfPair (sid : Uuid) (pid : PseudoId) (r : Row) : Prop :=
  audio sid pid r = true ∨ ∃ p, r = .participant p ∧ Participants.ofPair sid pid p = true

/-- Its audit row spells the session and the pseudonym. -/
def OfWipe (r : Row) (a : AuditRow) : Prop :=
  ∃ sid pid, (a.resourceType, a.resourceId) = ("participant_audio", s!"{sid.text}/{pid}") ∧ OfPair sid pid r

section
variable {β : Type} {tells : Row → AuditRow → Prop} {db : Db} {env : Nat → Env} {n : Nat} {w : World} {sid : Uuid} {pid : PseudoId}

/-- The deletions are committed, and after that the flag is refused or the
lookup of the guild. -/
structure LateWipe (env : Nat → Env) (n : Nat) (db : Db) (sid : Uuid) (pid : PseudoId) : Prop where
  ready : Ready env n db
  refused : (env (n + 6)).fails = true ∨
    NoGuild (env (if (keysOf (Chunks.ofPair sid pid) db).isEmpty then n + 7 else n + 8)) sid db

theorem logged_new {a : AuditRow} (h : Wipes.Sound (cleared sid pid db ++ [Row.audit a])) : Row.audit a ∉ db := by
  intro hmem
  have hkept : Row.audit a ∈ cleared sid pid db := List.mem_filter.2 ⟨hmem, rfl⟩
  have hkeys := h.keys
  rw [KeysUnique, List.map_append] at hkeys
  exact (List.nodup_append.1 hkeys).2.2 _ (List.mem_map_of_mem hkept) _ (by simp) rfl

theorem changes_logged {a : AuditRow} : ChangesOnly (fun r => OfPair sid pid r ∨ r = .audit a) db
    (cleared sid pid db ++ [Row.audit a]) := by
  refine .trans (.filter fun r _ hgone => .inl (.inl (by simpa using hgone))) (.append fun r hr => ?_)
  exact .inr (List.mem_singleton.1 hr)

theorem changes_stamped (t : Timestamp) : ChangesOnly (OfPair sid pid) db (db.map (stampRow sid pid t)) := by
  refine .map fun r _ hne => ?_
  cases r with
  | participant p =>
    by_cases h : Participants.ofPair sid pid p = true
    · refine ⟨.inr ⟨p, rfl, h⟩, .inr ⟨_, stampRow_participant t p, ?_⟩⟩
      rw [ofPair_restamp, h]
    · rw [stampRow_participant, restamp, if_neg h] at hne
      exact absurd rfl hne
  | _ => exact absurd (stampRow_other (fun p h => by cases h) t) hne

theorem noGuild_wiped {e : Env} (a : AuditRow) (t : Timestamp) : NoGuild e sid (wiped sid pid a t db) ↔ NoGuild e sid db := by
  rw [NoGuild, NoGuild, present_iff key_session, present_iff key_session, rows_sessions]

/-- What was committed is recorded, before and after the flag. -/
theorem recorded_wiped {a : AuditRow} {db' : Db} (hnew : Row.audit a ∉ db) (ha : Row.audit a ∈ db')
    (hchanges : ChangesOnly (fun r => OfPair sid pid r ∨ r = .audit a) db db') (ht : ∀ r, OfPair sid pid r → tells r a) :
    Recorded tells db db' := by
  intro r hr hchanged
  rcases hchanges r hchanged with h | rfl
  · exact ⟨a, ha, hnew, ht r h⟩
  · exact absurd rfl hr

theorem spoils_wiped {g : List String × Nat × Nat → Handler β} {entry : Nat → Nat → AuditLog.Entry} {f : Nat → Nat → Handler β}
    (hdb : Intact db) (ht : ∀ segs mutes e r, OfPair sid pid r → tells r (AuditLog.row (entry segs mutes) e))
    (hg : ∀ segs mutes, g (keysOf (Chunks.ofPair sid pid) db, segs, mutes) = do
      AuditLog.appendTx (entry segs mutes)
      commit
      Participants.markWiped sid pid
      SessionRoutes.sweep (keysOf (Chunks.ofPair sid pid) db)
      f segs mutes)
    (hf : ∀ m segs mutes db₁ w, db₁ ≠ db → Recorded tells db db₁ →
      (Spoils tells db env m ⟨none, db₁, w⟩ (f segs mutes) ↔ NoGuild (env m) sid db₁)) :
    Spoils tells db env n ⟨none, db, w⟩ (begin >>= fun _ => MuteRoutes.deleteAudioRows sid pid >>= g) ↔
      LateWipe env n db sid pid := by
  -- A run has one outcome, so both directions are read off where it ends.
  show Ends env n ⟨none, db, w⟩ _ fun a s => (¬Sound tells db a s.db ↔ LateWipe env n db sid pid)
  refine Ends.committing ⟨hdb.keys, hdb.checked⟩ hg (fun hno err tx' => ?_) fun hready a segs mutes hrow hsound => ?_
  · exact iff_of_false (fun hs => hs rfl) fun h => hno h.ready
  have hnew : Row.audit a ∉ db := logged_new hsound
  obtain ⟨e, rfl⟩ := hrow
  refine Ends.marking hsound (fun hm => ?_) fun hm => ?_
  · exact iff_of_true (append_new hnew) ⟨hready, .inl hm⟩
  have hmem : Row.audit (AuditLog.row (entry segs mutes) e) ∈ wiped sid pid (AuditLog.row (entry segs mutes) e) (env (n + 6)).now db :=
    List.mem_map.2 ⟨_, List.mem_append_right _ (List.mem_singleton.2 rfl), rfl⟩
  have hrecorded : Recorded tells db (wiped sid pid (AuditLog.row (entry segs mutes) e) (env (n + 6)).now db) :=
    recorded_wiped hnew hmem (.trans changes_logged ((changes_stamped _).mono fun r hr => .inl hr)) (ht segs mutes e)
  have hne : wiped sid pid (AuditLog.row (entry segs mutes) e) (env (n + 6)).now db ≠ db := fun heq => hnew (heq ▸ hmem)
  have hend : ∀ m w, m = (if (keysOf (Chunks.ofPair sid pid) db).isEmpty then n + 7 else n + 8) →
      Ends env m ⟨none, wiped sid pid (AuditLog.row (entry segs mutes) e) (env (n + 6)).now db, w⟩ (f segs mutes)
        fun a s => (¬Sound tells db a s.db ↔ LateWipe env n db sid pid) := by
    intro m w hm'
    have hiff := hf m segs mutes _ w hne hrecorded
    rw [noGuild_wiped, hm'] at hiff
    rw [hm']
    exact hiff.trans ⟨fun h => ⟨hready, .inr h⟩, fun h => h.refused.resolve_left (by simp [hm])⟩
  cases hkeys : keysOf (Chunks.ofPair sid pid) db with
  | nil => exact hend (n + 7) w (by rw [hkeys]; rfl)
  | cons k ks => exact hend (n + 8) _ (by rw [hkeys]; rfl)

/-! ## The two wipes -/

theorem wipeParticipantAudio_late (hdb : Intact db) (svc : String) (sid : Uuid) (raw : String) :
    Spoils (Tells svc "wiped" OfWipe) db env 0 ⟨none, db, w⟩ (MuteRoutes.wipeParticipantAudio svc sid raw) ↔
      ∃ pid, PseudoId.new raw = .ok pid ∧ LateWipe env 0 db sid pid := by
  rw [MuteRoutes.wipeParticipantAudio, spoils_pseudoId]
  refine exists_congr fun pid => and_congr_right fun _ => ?_
  refine spoils_wiped hdb (fun _ _ _ r hr => ⟨rfl, rfl, sid, pid, rfl, hr⟩) (fun _ _ => rfl) fun m segs mutes db₁ w hne h => ?_
  exact spoils_guildIdForSession hne fun g hs => hs h

/-- The stored rows of a live token: itself, its session and its participant. -/
def context? (token : Uuid) (now : Timestamp) (db : Db) : Option ConsentTokens.WithContext :=
  ((consentTokensT.rows db).find? (ConsentTokens.live token now)).bind fun ct =>
    ((sessionsT.rows db).find? (Sessions.byId ct.sessionId)).bind fun s =>
      ((participantsT.rows db).find? (Participants.byId ct.participantId)).map fun p =>
        { token := ct, session := s, participant := p }

theorem spoils_validated (hdb : Intact db) {token : Uuid} {f : ConsentTokens.WithContext → Handler β} :
    Spoils tells db env 0 ⟨none, db, w⟩ (ConsentRoutes.validated token >>= f) ↔
      (∀ n ∈ [0, 1, 2], (env n).fails = false) ∧ ∃ ctx, context? token (env 0).now db = some ctx ∧
        Spoils tells db env 3 ⟨none, db, w⟩ (f ctx) := by
  rw [ConsentRoutes.validated, ConsentTokens.validate, ConsentTokens.liveSql]
  simp only [bind_assoc]
  rw [spoils_fetchOptional decided_selectAt head_filter_is, at_first, applyAll_nil]
  show (env 0).fails = false ∧ Spoils tells db env 1 ⟨none, db, w⟩ _ ↔ _
  cases hct : (consentTokensT.rows db).find? (ConsentTokens.live token (env 0).now) with
  | none =>
    refine iff_of_false (fun h => h.2 rfl) ?_
    rintro ⟨-, ctx, hctx, -⟩
    have hct' : (consentTokensT.rows db).find? (ConsentTokens.live token (env 0).now) = none := hct
    rw [context?, hct'] at hctx
    cases hctx
  | some ct =>
    have hmem : Row.consentToken ct ∈ db := consentTokensT.mem_rows.1 (List.mem_of_find?_eq_some hct)
    obtain ⟨s, hs⟩ := (present_iff key_session).1 (hdb.referenced _ hmem (Key.session ct.sessionId) (List.mem_cons_self ..))
    obtain ⟨p, hp⟩ := (present_iff key_participant).1 (hdb.referenced _ hmem (Key.participant ct.participantId)
      (List.mem_cons_of_mem _ (List.mem_cons_self ..)))
    have hcontext : context? token (env 0).now db = some { token := ct, session := s, participant := p } := by
      rw [context?, hct, Option.bind_some, hs, Option.bind_some, hp]; rfl
    have hread : ∀ {g : ConsentTokens.WithContext → Handler β}, Spoils tells db env 1 ⟨none, db, w⟩
          (fetchOne .pool sessionsT (Sessions.getSql ct.sessionId) >>= fun session =>
            fetchOne .pool participantsT (ConsentTokens.participantSql ct.participantId) >>= fun participant =>
              g { token := ct, session := session, participant := participant }) ↔
        (env 1).fails = false ∧ (env 2).fails = false ∧
          Spoils tells db env 3 ⟨none, db, w⟩ (g { token := ct, session := s, participant := p }) := by
      intro g
      rw [Sessions.getSql, spoils_fetchOne decided_select (head_filter_is.trans hs), at_first, applyAll_nil,
        ConsentTokens.participantSql, spoils_fetchOne decided_select (head_filter_is.trans hp), at_first, applyAll_nil]
    rw [hcontext]
    simp only [List.mem_cons, List.not_mem_nil, or_false, forall_eq_or_imp, forall_eq, Option.some.injEq, exists_eq_left', and_assoc]
    refine and_congr_right fun _ => ?_
    simp only [bind_assoc, pure_bind]
    exact hread

theorem deleteAudio_late (hdb : Intact db) (token : Uuid) :
    Spoils (Tells "consent_token" "wiped_via_token" OfWipe) db env 0 ⟨none, db, w⟩ (ConsentRoutes.deleteAudio token) ↔
      (∀ n ∈ [0, 1, 2], (env n).fails = false) ∧ ∃ ctx, context? token (env 0).now db = some ctx ∧
        LateWipe env 3 db ctx.session.id ctx.participant.pseudoId := by
  rw [ConsentRoutes.deleteAudio, spoils_validated hdb]
  refine and_congr_right fun _ => exists_congr fun ctx => and_congr_right fun _ => ?_
  refine spoils_wiped hdb (fun _ _ _ r hr => ⟨rfl, rfl, _, _, rfl, hr⟩) (fun _ _ => rfl) fun m segs mutes db₁ w hne h => ?_
  rw [ConsentRoutes.guildId, fetchOne]
  simp only [bind_assoc]
  refine spoils_session hne (fun rows hx => ?_) fun rows s hx hs => ?_
  · rw [hx]
    exact ⟨_, rfl⟩
  · rw [hx] at hs
    exact hs h

end

/-! ## Consent by token -/

section
variable {β : Type} {tells : Row → AuditRow → Prop} {db : Db} {env : Nat → Env} {n : Nat} {w : World}

open ConsentRoutes (PatchConsent)

/-- The participant with its scope set by statement `n`, and the statement
after. -/
def rescoped (env : Nat → Env) (n : Nat) (p : Participant) (input : PatchConsent) : Participant × Nat :=
  match input.consentScope with
  | some scope => (Participants.setConsent { consentScope := scope, consentedAt := none } (env n) p, n + 1)
  | none => (p, n)

def flagsGiven (input : PatchConsent) : Bool := input.noLlmTraining.isSome || input.noPublicRelease.isSome

/-- The same with its flags. -/
def reflagged (env : Nat → Env) (n : Nat) (p : Participant) (input : PatchConsent) : Participant × Nat :=
  if flagsGiven input then
    (Participants.setLicense { noLlmTraining := input.noLlmTraining, noPublicRelease := input.noPublicRelease } (env n) p, n + 1)
  else (p, n)

/-- The flags are refused for the participant as the scope left it, `p₁`, or
they are set, something is changed by then, and the audit row is refused. -/
def LateFlags (env : Nat → Env) (db : Db) (p : Participant) (input : PatchConsent) (p₁ : Participant) (n : Nat) : Prop :=
  (p₁ ≠ p ∧ flagsGiven input = true ∧ (env n).fails = true) ∨
    ((flagsGiven input = true → (env n).fails = false) ∧ (reflagged env n p₁ input).1 ≠ p ∧
      Unaudited (env (reflagged env n p₁ input).2) db)

/-- The scope is set, or none is given, and what comes after is late. -/
structure LateConsent (env : Nat → Env) (db : Db) (p : Participant) (input : PatchConsent) : Prop where
  scope : ∀ scope ∈ input.consentScope, Participants.validScope scope = true ∧ (env 3).fails = false
  refused : LateFlags env db p input (rescoped env 3 p input).1 (rescoped env 3 p input).2

variable {p p₁ : Participant} {input : PatchConsent}

theorem apply_participant (hdb : Intact db) (hp : Row.participant p ∈ db) :
    Write.apply db (.update (.participant p)) = db := apply_same hdb.keys hp

/-- An UPDATE of a participant that has been set before. -/
theorem spoils_again {set : Env → Participant → Participant} {hk : ∀ e, participantsT.Keeps (set e)} {f : Participant → Handler β}
    (hdb : Intact db) (hp : Row.participant p ∈ db) (hid : p₁.id = p.id) (hset : (set (env n) p₁).id = p₁.id)
    (hp₁ : check (Row.participant p₁) = true)
    (hck : ∀ q, check (Row.participant q) = true → check (Row.participant (set (env n) q)) = true) :
    Spoils tells db env n ⟨none, Write.apply db (.update (.participant p₁)), w⟩
        (Participants.found p.id (participantsT.update (Participants.byId p.id) set hk) >>= f) ↔
      (p₁ ≠ p ∧ (env n).fails = true) ∨ ((env n).fails = false ∧ Spoils tells db env (n + 1)
        ⟨none, Write.apply db (.update (.participant (set (env n) p₁))), w⟩ (f (set (env n) p₁))) := by
  have hkey : key (Row.participant p₁) = key (Row.participant p) := congrArg Key.participant hid
  have hmem : Row.participant p₁ ∈ Write.apply db (.update (.participant p₁)) := List.mem_map.2 ⟨_, hp, if_pos hkey.symm⟩
  have hfound : participant? p.id (Write.apply db (.update (.participant p₁))) = some p₁ := by
    have hlookup : lookup (Key.participant p₁.id) (Write.apply db (.update (.participant p₁))) = some (.participant p₁) :=
      (hdb.keys.update (.participant p₁)).lookup_eq hmem
    rw [hid, lookup_rows participantsT key_participant, Option.map_eq_some_iff] at hlookup
    obtain ⟨q, hq, heq⟩ := hlookup
    rwa [participantsT.put_inj heq] at hq
  have hchecked : ∀ q, Row.participant q ∈ Write.apply db (.update (.participant p₁)) →
      check (Row.participant (set (env n) q)) = true := by
    intro q hq
    obtain ⟨x, hx, heq⟩ := List.mem_map.1 hq
    split at heq
    · rw [← Row.participant.inj heq]
      exact hck _ hp₁
    · exact hck _ (heq ▸ hdb.checked x hx)
  have hne : Write.apply db (.update (.participant p₁)) ≠ db ↔ p₁ ≠ p := by
    rw [Ne, update_eq_iff hdb.keys hp hkey, Row.participant.injEq]
  have hkey' : key (Row.participant (set (env n) p₁)) = key (Row.participant p₁) := congrArg Key.participant hset
  rw [spoils_set (hdb.keys.update _) hchecked, hfound, hne]
  simp only [reduceCtorEq, or_false, Option.some.injEq, exists_eq_left', update_update hkey']

theorem spoils_scope (hdb : Intact db) (hp : Row.participant p ∈ db) {f : Participant → Handler β} :
    Spoils tells db env n ⟨none, db, w⟩ (ConsentRoutes.patchScope p input.consentScope >>= f) ↔
      (∀ scope ∈ input.consentScope, Participants.validScope scope = true ∧ (env n).fails = false) ∧
        Spoils tells db env (rescoped env n p input).2
          ⟨none, Write.apply db (.update (.participant (rescoped env n p input).1)), w⟩ (f (rescoped env n p input).1) := by
  rw [rescoped]
  cases input.consentScope with
  | none =>
    rw [and_iff_right (by simp), apply_participant hdb hp]
    exact Iff.rfl
  | some scope =>
    rw [ConsentRoutes.patchScope, Participants.updateConsent, Participants.updateConsentSql, bind_assoc, spoils_refuseIf, at_first,
      Bool.not_eq_false']
    have hck : check (Row.participant p) = true := hdb.checked _ hp
    simp only [Option.mem_def, Option.some.injEq, forall_eq', and_assoc]
    refine and_congr_right fun hvalid => ?_
    have hagain : Spoils tells db env n ⟨none, Write.apply db (.update (.participant p)), w⟩ (Participants.found p.id
          (Participants.updateConsentSql p.id { consentScope := scope, consentedAt := none }) >>= f) ↔
        (p ≠ p ∧ (env n).fails = true) ∨ ((env n).fails = false ∧ _) :=
      spoils_again hdb hp rfl rfl hck fun q hq => check_consent hvalid hq (env n)
    rw [apply_participant hdb hp] at hagain
    exact hagain.trans (or_iff_right fun h => h.1 rfl)

theorem spoils_flags (hdb : Intact db) (hp : Row.participant p ∈ db) (hid : p₁.id = p.id) (hp₁ : check (Row.participant p₁) = true)
    {f : Participant → Handler β} :
    Spoils tells db env n ⟨none, Write.apply db (.update (.participant p₁)), w⟩ (ConsentRoutes.patchFlags p.id p₁ input >>= f) ↔
      (p₁ ≠ p ∧ flagsGiven input = true ∧ (env n).fails = true) ∨ ((flagsGiven input = true → (env n).fails = false) ∧
        Spoils tells db env (reflagged env n p₁ input).2
          ⟨none, Write.apply db (.update (.participant (reflagged env n p₁ input).1)), w⟩ (f (reflagged env n p₁ input).1)) := by
  rw [ConsentRoutes.patchFlags, reflagged]
  cases hflags : flagsGiven input with
  | true =>
    have hgiven : (input.noLlmTraining.isSome || input.noPublicRelease.isSome) = true := hflags
    rw [if_pos hgiven, Participants.updateLicense, if_pos rfl]
    simp only [true_and, forall_const]
    exact spoils_again hdb hp hid rfl hp₁ fun q hq => hq
  | false =>
    have hgiven : ¬(input.noLlmTraining.isSome || input.noPublicRelease.isSome) = true := by
      rw [show (input.noLlmTraining.isSome || input.noPublicRelease.isSome) = flagsGiven input from rfl, hflags]
      simp
    rw [if_neg hgiven, if_neg (by simp)]
    simp only [reduceCtorEq, false_and, and_false, false_or, IsEmpty.forall_iff, true_and]
    exact Iff.rfl

theorem rescoped_id : (rescoped env n p input).1.id = p.id := by
  rw [rescoped]
  cases input.consentScope <;> rfl

theorem reflagged_id : (reflagged env n p input).1.id = p.id := by
  rw [reflagged]
  cases flagsGiven input <;> rfl

theorem check_rescoped (hp : check (Row.participant p) = true)
    (h : ∀ scope ∈ input.consentScope, Participants.validScope scope = true) :
    check (Row.participant (rescoped env n p input).1) = true := by
  rw [rescoped]
  cases hscope : input.consentScope with
  | none => exact hp
  | some scope =>
    exact @check_consent { consentScope := scope, consentedAt := none } (h scope hscope) _ hp _

theorem context?_participant {token : Uuid} {now : Timestamp} {ctx : ConsentTokens.WithContext}
    (h : context? token now db = some ctx) : Row.participant ctx.participant ∈ db := by
  obtain ⟨ct, -, h⟩ := Option.bind_eq_some_iff.1 h
  obtain ⟨s, -, h⟩ := Option.bind_eq_some_iff.1 h
  obtain ⟨p, hp, rfl⟩ := Option.map_eq_some_iff.1 h
  exact participantsT.mem_rows.1 (List.mem_of_find?_eq_some hp)

theorem patchConsent_late (hdb : Intact db) (token : Uuid) (input : PatchConsent) :
    Spoils (Tells "consent_token" "consent_patched_via_token" Named) db env 0 ⟨none, db, w⟩
      (ConsentRoutes.patchConsent token input) ↔
      (∀ n ∈ [0, 1, 2], (env n).fails = false) ∧ ∃ ctx, context? token (env 0).now db = some ctx ∧
        LateConsent env db ctx.participant input := by
  rw [ConsentRoutes.patchConsent, spoils_validated hdb]
  refine and_congr_right fun _ => exists_congr fun ctx => and_congr_right fun hctx => ?_
  have hp : Row.participant ctx.participant ∈ db := context?_participant hctx
  have hiff : ∀ {S : Prop}, ((∀ scope ∈ input.consentScope, Participants.validScope scope = true) →
        (S ↔ LateFlags env db ctx.participant input (rescoped env 3 ctx.participant input).1 (rescoped env 3 ctx.participant input).2)) →
      ((∀ scope ∈ input.consentScope, Participants.validScope scope = true ∧ (env 3).fails = false) ∧ S ↔
        LateConsent env db ctx.participant input) := fun hS =>
    ⟨fun h => ⟨h.1, (hS fun s hs => (h.1 s hs).1).1 h.2⟩, fun h => ⟨h.scope, (hS fun s hs => (h.scope s hs).1).2 h.refused⟩⟩
  rw [spoils_scope hdb hp]
  refine hiff fun hvalid => ?_
  generalize hp₁ : (rescoped env 3 ctx.participant input).1 = p₁
  generalize (rescoped env 3 ctx.participant input).2 = m
  have hid : p₁.id = ctx.participant.id := by rw [← hp₁, rescoped_id]
  have hck : check (Row.participant p₁) = true := hp₁ ▸ check_rescoped (hdb.checked _ hp) hvalid
  rw [spoils_flags hdb hp hid hck, LateFlags]
  refine or_congr_right (and_congr_right fun _ => ?_)
  generalize hp₂ : (reflagged env m p₁ input).1 = p₂
  have hid₂ : p₂.id = ctx.participant.id := by rw [← hp₂, reflagged_id, hid]
  have hkey : key (Row.participant p₂) = key (Row.participant ctx.participant) := congrArg Key.participant hid₂
  have htold : ∀ q : Participant, q.id = ctx.participant.id → Told (Tells "consent_token" "consent_patched_via_token" Named)
      (ConsentRoutes.patchedEntry ctx.session.id ctx.participant.id p₂ input) (.participant q) := by
    intro q hq
    rw [← hq]
    exact ⟨(fun h => by cases h), fun _ => ⟨rfl, rfl, rfl⟩⟩
  rw [spoils_answered (.update hdb.keys hp hkey (htold _ rfl) (htold _ hid₂)), Ne, update_eq_iff hdb.keys hp hkey,
    Row.participant.injEq]

end
end DataApi.ErrorsUnchanged
