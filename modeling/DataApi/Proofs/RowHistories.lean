/-
What becomes of the stored rows, whatever requests run at once. A request
writes only its own parts of the rows that are there (`Request.writes`) and
removes only the rows it names (`Request.Removes`), so a row keeps every column
that no request committed since may write. Users, display names, sessions and
audit entries are there for good.
-/
import DataApi.Db.Writes
import DataApi.Footprint
import DataApi.Lib.History
import DataApi.Speakers

namespace DataApi

open Relational ReadCommitted Resumption Handler

/-- Columns that are written together. -/
inductive Part
  | isAdmin
  | seen
  | status
  | abandonedAt
  | deletedAt
  | endedAt
  | participantCount
  | consent
  | license
  | midSessionJoin
  | wiped
  | blob
  | s3Key
  | content (rt : ResourceTable)
  deriving DecidableEq

/-- The columns PATCH leaves of the text of a row. -/
def TextColumns.kept : TextColumns → TextColumns
  | .segment p _ _ => .segment p "" none
  | .titleSummary _ _ => .titleSummary "" ""

/-- The row with these parts blanked. -/
def Row.without (M : Part → Bool) : Row → Row
  | .user u => .user { u with isAdmin := if M .isAdmin then false else u.isAdmin }
  | .displayName d => .displayName { d with
      lastSeenAt := if M .seen then 0 else d.lastSeenAt
      seenCount := if M .seen then 0 else d.seenCount }
  | .session s => .session { s with
      status := if M .status then .recording else s.status
      abandonedAt := if M .abandonedAt then none else s.abandonedAt
      deletedAt := if M .deletedAt then none else s.deletedAt
      endedAt := if M .endedAt then none else s.endedAt
      participantCount := if M .participantCount then none else s.participantCount }
  | .participant p => .participant { p with
      consentScope := if M .consent then none else p.consentScope
      consentedAt := if M .consent then none else p.consentedAt
      noLlmTraining := if M .license then false else p.noLlmTraining
      noPublicRelease := if M .license then false else p.noPublicRelease
      midSessionJoin := if M .midSessionJoin then false else p.midSessionJoin
      dataWipedAt := if M .wiped then none else p.dataWipedAt }
  | .metadata m => .metadata { m with
      blob := if M .blob then .null else m.blob
      etag := if M .blob then ⟨""⟩ else m.etag
      updatedAt := if M .blob then 0 else m.updatedAt }
  | .chunk c => .chunk { c with s3Key := if M .s3Key then "" else c.s3Key }
  | .uniform rt r => .uniform rt { r with
      startMs := if M (.content rt) then 0 else r.startMs
      endMs := if M (.content rt) then 0 else r.endMs
      columns := if M (.content rt) then r.columns.kept else r.columns
      flags := if M (.content rt) then .null else r.flags
      etag := if M (.content rt) then "" else r.etag
      authorUserPseudoId := if M (.content rt) then none else r.authorUserPseudoId
      updatedAt := if M (.content rt) then 0 else r.updatedAt }
  | .mute m => .mute m
  | .consentToken t => .consentToken t
  | .audit a => .audit a

/-- What never goes back: the times a display name was seen, that a session
was deleted, that a participant answered or was wiped, that a row was edited by
a user. -/
def Row.marks : Row → Int × Bool × Bool × Bool × Bool
  | .displayName d => (d.seenCount, false, false, false, false)
  | .session s => (0, s.deletedAt.isSome, false, false, false)
  | .participant p => (0, false, p.consentScope.isSome && p.consentedAt.isSome, p.dataWipedAt.isSome, false)
  | .uniform _ r => (0, false, false, false, r.authorUserPseudoId.isSome)
  | _ => (0, false, false, false, false)

/-- The parts of stored rows that a request writes. -/
def Request.writes : Request → List Part
  | .patchSession .. => [.status, .abandonedAt, .deletedAt, .endedAt, .participantCount]
  | .resume .. => [.status, .abandonedAt]
  | .deleteCascade .. => [.status, .deletedAt]
  | .upload .. => [.s3Key]
  | .addOne .. | .addBatch .. => [.midSessionJoin]
  | .patchParticipantConsent .. => [.consent]
  | .patchLicense .. => [.license]
  | .patchConsent .. => [.consent, .license]
  | .wipeParticipantAudio .. | .deleteAudio .. => [.wiped]
  | .postDisplay .. => [.seen]
  | .patchUser .. | .grant .. => [.isAdmin]
  | .replaceMetadata .. | .shallowPatch .. => [.blob]
  | .patchRow rt .. => [.content rt]
  | _ => []

/-- The session and the pseudonym of what a speaker left behind. -/
def speechOf : Row → Option (Uuid × String)
  | .chunk c => some (c.sessionId, c.pseudoId.raw)
  | .uniform .segments r => (Uniform.pseudoColumn r.columns).map fun p => (r.sessionId, p)
  | .mute m => some (m.sessionId, m.pseudoId.raw)
  | _ => none

/-- The rows a request may remove. Deleting a participant takes the consent
tokens along. -/
def Request.Removes (stored : Row → Prop) : Request → Row → Prop
  | .deleteCascade _ id, r => childOf r = some id ∨
      ∃ ct p, r = .consentToken ct ∧ stored (.participant p) ∧ p.id = ct.participantId ∧ p.sessionId = id
  | .deleteRow rt _ id, r => key r = .uniform rt id
  | .deleteMute _ sid raw rangeId, r => key r = .mute rangeId ∧ speechOf r = some (sid, raw)
  | .wipeParticipantAudio _ sid raw, r => speechOf r = some (sid, raw)
  | .deleteAudio token, r => ∃ sid raw, SpeaksFor stored token sid raw ∧ speechOf r = some (sid, raw)
  | _, _ => False

/-- A row as it is entered. -/
def Row.Fresh : Row → Prop
  | .user u => u.dataWipedAt = none
  | .displayName d => d.seenCount = 1 ∧ d.lastSeenAt = d.firstSeenAt
  | .session s => s.status = .recording ∧ s.endedAt = none ∧ s.abandonedAt = none ∧ s.deletedAt = none ∧
      s.participantCount = none
  | .participant p => p.consentScope = none ∧ p.consentedAt = none ∧ p.noLlmTraining = false ∧
      p.noPublicRelease = false ∧ p.dataWipedAt = none
  | .uniform _ r => r.updatedAt = r.createdAt
  | .consentToken t => t.revokedAt = none ∧ t.expiresAt = t.createdAt + ConsentTokens.lifetime
  | _ => True

/-- Apart from the parts `M` the row is the same, and its marks stay. -/
structure Altered (M : List Part) (r r' : Row) : Prop where
  same : r'.without M.contains = r.without M.contains
  marks : r.marks ≤ r'.marks

def Request.policy (stored : Row → Prop) (req : Request) : Policy Row Key where
  enters r := r.Fresh ∧ Enters req r
  alters := Altered req.writes
  removes := req.Removes stored

/-- What a request is known to find: the participants of a session it deletes. -/
def Request.finds (stored : Row → Prop) : Request → Row → Prop
  | .deleteCascade .., .participant p => stored (.participant p)
  | _, _ => True

section
variable {M N : List Part} {r r' x y : Row} {req : Request} {q : Sql} {stored : Row → Prop}

theorem Altered.refl (r : Row) : Altered M r r := ⟨rfl, le_refl _⟩

theorem Altered.trans (h : Altered M r x) (h' : Altered M x y) : Altered M r y :=
  ⟨h'.same.trans h.same, le_trans h.marks h'.marks⟩

theorem Request.lawful (req : Request) : (req.policy stored).Lawful where
  refl r := Altered.refl r
  trans _ _ _ h h' := Altered.trans h h'

/-- Blanking more parts. -/
theorem without_without {L M : Part → Bool} (h : ∀ p, L p = true → M p = true) (r : Row) :
    (r.without L).without M = r.without M := by
  have hblank : ∀ {α : Type} (p : Part) (b x : α), (if M p then b else if L p then b else x) = if M p then b else x := by
    intro α p b x
    by_cases hM : M p = true
    · rw [if_pos hM, if_pos hM]
    · rw [if_neg hM, if_neg hM, if_neg fun hL => hM (h p hL)]
  cases r with
  | uniform rt r =>
    have hcolumns : (if M (.content rt) then (if L (.content rt) then r.columns.kept else r.columns).kept
        else if L (.content rt) then r.columns.kept else r.columns) =
        if M (.content rt) then r.columns.kept else r.columns := by
      have hkept : ∀ c : TextColumns, c.kept.kept = c.kept := fun c => by cases c <;> rfl
      split
      · split
        · exact hkept _
        · rfl
      · next hM => rw [if_neg fun hL => hM (h _ hL)]
    simp only [Row.without, hblank, hcolumns]
  | _ => simp only [Row.without, hblank]

theorem Altered.mono (h : Altered M r r') (hM : ∀ p ∈ M, p ∈ N) : Altered N r r' where
  same := by
    have hsub : ∀ p, M.contains p = true → N.contains p = true := by simpa using hM
    rw [← without_without hsub r', h.same, without_without hsub r]
  marks := h.marks

/-! ## The statements -/

/-- The policy of a request, but for what its rows say of it. -/
def Request.loose (stored : Row → Prop) (req : Request) : Policy Row Key where
  enters := Row.Fresh
  alters := Altered req.writes
  removes := req.Removes stored

/-- An upsert of one row. -/
theorem upsert_heeds {τ : Type} {T : Table Row τ} {f : Env → τ → τ} {mk : Env → τ} {oc : Env → OnConflict Row}
    (hnew : ∀ e, (T.put (mk e)).Fresh)
    (hoc : ∀ e a set, oc e = .doUpdate a set → set.set = T.lift (f e))
    (hset : ∀ e t, Altered req.writes (T.put t) (T.put (f e t))) :
    (Stmt.insert fun env _ => .ok [(T.put (mk env), oc env)] : Sql).Heeds (req.finds stored) (req.loose stored) := by
  refine insert_heeds (fun env snap xs hxs x hx => ?_) fun env snap xs hxs x hx a set ho e => ?_
  · obtain rfl := Except.ok.inj hxs
    rw [List.mem_singleton.1 hx]
    exact hnew env
  · obtain rfl := Except.ok.inj hxs
    rw [List.mem_singleton.1 hx] at ho
    rw [hoc env a set ho]
    exact alters_lift (π := req.loose stored) (fun _ => .refl _) (hset env) e

theorem status_altered (new : SessionStatus) (e : Env) (s : Session)
    (hM : .status ∈ M ∧ .deletedAt ∈ M ∧ (new = .abandoned → .abandonedAt ∈ M)) :
    Altered M (.session s) (.session (Sessions.setStatus new e s)) where
  same := by
    obtain ⟨hs, hd, ha⟩ := hM
    by_cases hnew : new = .abandoned
    · simp [Row.without, Sessions.setStatus, hs, hd, ha hnew]
    · simp [Row.without, Sessions.setStatus, hs, hd, hnew]
  marks := by
    simp only [Row.marks, Sessions.setStatus]
    split <;> simp [Prod.mk_le_mk]

theorem consent_altered (input : Participants.UpdateConsent) (e : Env) (p : Participant) (hM : .consent ∈ M) :
    Altered M (.participant p) (.participant (Participants.setConsent input e p)) where
  same := by simp [Row.without, Participants.setConsent, hM]
  marks := by simp [Row.marks, Participants.setConsent, Prod.mk_le_mk]

theorem license_altered (input : Participants.UpdateLicense) (e : Env) (p : Participant) (hM : .license ∈ M) :
    Altered M (.participant p) (.participant (Participants.setLicense input e p)) where
  same := by simp [Row.without, Participants.setLicense, hM]
  marks := by simp [Row.marks, Participants.setLicense]

theorem content_altered (rt : ResourceTable) (patched : Uniform.UniformRow) (author : Option PseudoId) (etag : ETag)
    (e : Env) (r : UniformPgRow) (hM : .content rt ∈ M) :
    Altered M (.uniform rt r) (.uniform rt (Uniform.setPatched patched author etag e r)) where
  same := by
    cases hc : r.columns with
    | segment p t c => simp [Row.without, Uniform.setPatched, hM, hc, TextColumns.kept]
    | titleSummary t s => simp [Row.without, Uniform.setPatched, hM, hc, TextColumns.kept]
  marks := by
    cases author <;> simp [Row.marks, Uniform.setPatched, Prod.mk_le_mk]

theorem fields_altered (endedAt : Option (Option Timestamp)) (count : Option (Option Int)) (e : Env) (s : Session)
    (hM : .endedAt ∈ M ∧ .participantCount ∈ M) :
    Altered M (.session s) (.session (Sessions.setFields endedAt count e s)) where
  same := by simp [Row.without, Sessions.setFields, hM.1, hM.2]
  marks := le_refl _

theorem resumed_altered (e : Env) (s : Session) (hM : .status ∈ M ∧ .abandonedAt ∈ M) :
    Altered M (.session s) (.session (Sessions.setResumed e s)) where
  same := by simp [Row.without, Sessions.setResumed, hM.1, hM.2]
  marks := le_refl _

theorem key_altered (key : String) (c : ChunkRow) (hM : .s3Key ∈ M) :
    Altered M (.chunk c) (.chunk { c with s3Key := key }) where
  same := by simp [Row.without, hM]
  marks := le_refl _

theorem rejoin_altered (joined : Bool) (p : Participant) (hM : .midSessionJoin ∈ M) :
    Altered M (.participant p) (.participant { p with midSessionJoin := joined }) where
  same := by simp [Row.without, hM]
  marks := le_refl _

theorem wiped_altered (now : Timestamp) (p : Participant) (hM : .wiped ∈ M) :
    Altered M (.participant p) (.participant { p with dataWipedAt := some now }) where
  same := by simp [Row.without, hM]
  marks := by simp [Row.marks, Prod.mk_le_mk]

theorem admin_altered (isAdmin : Bool) (u : User) (hM : .isAdmin ∈ M) :
    Altered M (.user u) (.user { u with isAdmin := isAdmin }) where
  same := by simp [Row.without, hM]
  marks := le_refl _

theorem seen_altered (e : Env) (d : DisplayName) (hM : .seen ∈ M) :
    Altered M (.displayName d) (.displayName (DisplayNames.seeAgain e d)) where
  same := by simp [Row.without, DisplayNames.seeAgain, hM]
  marks := by
    simp only [Row.marks, DisplayNames.seeAgain, Prod.mk_le_mk, le_refl, and_true]
    omega

theorem blob_altered (blob : Json) (etag : ETag) (e : Env) (m : MetadataBlob) (hM : .blob ∈ M) :
    Altered M (.metadata m) (.metadata (Metadata.overwrite blob etag e m)) where
  same := by simp [Row.without, Metadata.overwrite, hM]
  marks := le_refl _

theorem Issues.loose (h : Issues req q) (hdelete : q.isDelete = true → q.Heeds (req.finds stored) (req.loose stored)) :
    q.Heeds (req.finds stored) (req.loose stored) := by
  cases h with
  | select p => exact select_heeds p
  | forUpdate p => exact forUpdate_heeds p
  | delete => exact hdelete rfl
  | audit e => exact tableInsert_heeds fun env snap t _ => trivial
  | created svc input =>
    refine tableInsert_heeds fun env snap t ht => ?_
    obtain rfl := Except.ok.inj ht
    exact ⟨rfl, rfl, rfl, rfl, rfl⟩
  | status h => exact update_heeds fun e s => status_altered _ e s (by simp [Request.writes])
  | fields => exact update_heeds fun e s => fields_altered _ _ e s (by simp [Request.writes])
  | resumed => exact update_heeds fun e s => resumed_altered e s (by simp [Request.writes])
  | tombstone => exact update_heeds fun e s => status_altered _ e s (by simp [Request.writes])
  | chunk svc r pid h size =>
    exact tableInsert_heeds fun env snap t _ => trivial
  | chunkKey => exact update_heeds fun e c => key_altered _ c (by simp [Request.writes])
  | added svc sid input =>
    refine insert_heeds (fun env snap xs hxs x hx => ?_) fun env snap xs hxs x hx a set ho => ?_
    · obtain rfl := Except.ok.inj hxs
      rcases List.mem_cons.1 hx with rfl | hx
      · exact rfl
      · rw [List.mem_singleton.1 hx]
        exact ⟨rfl, rfl, rfl, rfl, rfl⟩
    · obtain rfl := Except.ok.inj hxs
      rcases List.mem_cons.1 hx with rfl | hx
      · obtain ⟨rfl, rfl⟩ := ho
        exact alters_lift (fun _ => .refl _) fun u => .refl _
      · rw [List.mem_singleton.1 hx] at ho
        obtain ⟨rfl, rfl⟩ := ho
        exact alters_lift (fun _ => .refl _) fun p => rejoin_altered _ p (by simp [Request.writes])
  | seeded =>
    refine insert_heeds (fun env snap xs hxs x hx => ?_) fun env snap xs hxs x hx a set ho => ?_
    · obtain rfl := Except.ok.inj hxs
      obtain ⟨input, -, rfl⟩ := List.mem_map.1 hx
      exact rfl
    · obtain rfl := Except.ok.inj hxs
      obtain ⟨input, -, rfl⟩ := List.mem_map.1 hx
      cases ho
  | addedAll =>
    refine insert_heeds (fun env snap xs hxs x hx => ?_) fun env snap xs hxs x hx a set ho => ?_
    · obtain rfl := Except.ok.inj hxs
      obtain ⟨n, hn, rfl⟩ := List.mem_mapIdx.1 hx
      exact ⟨rfl, rfl, rfl, rfl, rfl⟩
    · obtain rfl := Except.ok.inj hxs
      obtain ⟨n, hn, rfl⟩ := List.mem_mapIdx.1 hx
      obtain ⟨rfl, rfl⟩ := ho
      exact alters_lift (fun _ => .refl _) fun p => rejoin_altered _ p (by simp [Request.writes])
  | consent => exact update_heeds fun e p => consent_altered _ e p (by simp [Request.writes])
  | license => exact update_heeds fun e p => license_altered _ e p (by simp [Request.writes])
  | user | named =>
    exact upsert_heeds (f := fun _ => id) (fun _ => rfl) (fun _ a set ho => by obtain ⟨rfl, rfl⟩ := ho; rfl)
      fun _ u => .refl _
  | displayName =>
    exact upsert_heeds (T := displayNamesT) (fun _ => ⟨rfl, rfl⟩) (fun _ a set ho => by obtain ⟨rfl, rfl⟩ := ho; rfl)
      fun e d => seen_altered e d (by simp [Request.writes])
  | admin | granted =>
    exact upsert_heeds (fun _ => rfl) (fun _ a set ho => by obtain ⟨rfl, rfl⟩ := ho; rfl)
      fun _ u => admin_altered _ u (by simp [Request.writes])
  | replaced | merged =>
    exact upsert_heeds (T := metadataT) (fun _ => trivial) (fun _ a set ho => by obtain ⟨rfl, rfl⟩ := ho; rfl)
      fun e m => blob_altered _ _ e m (by simp [Request.writes])
  | bulk =>
    refine tableInsert_heeds fun env snap t ht => ?_
    obtain rfl := Except.ok.inj ht
    exact rfl
  | row => exact update_heeds fun e r => content_altered _ _ _ _ e r (by simp [Request.writes])
  | mute => exact tableInsert_heeds fun env snap t _ => trivial
  | wiped => exact update_heeds fun e p => wiped_altered _ p (by simp [Request.writes])
  | token svc input =>
    refine tableInsert_heeds fun env snap t ht => ?_
    obtain rfl := Except.ok.inj ht
    exact ⟨rfl, rfl⟩
  | consentByToken => exact update_heeds fun e p => consent_altered _ e p (by simp [Request.writes])
  | licenseByToken => exact update_heeds fun e p => license_altered _ e p (by simp [Request.writes])
  | wipedByToken => exact update_heeds fun e p => wiped_altered _ p (by simp [Request.writes])

theorem Issues.heeds (h : Issues req q) (hdelete : q.isDelete = true → q.Heeds (req.finds stored) (req.loose stored)) :
    q.Heeds (req.finds stored) (req.policy stored) :=
  (h.loose hdelete).entering fun _ _ _ _ _ _ hrun _ hr => h.entered hrun hr

/-- A deletion of a session writes no participants of its own. -/
theorem Issues.finds (h : Issues req q) {env : Env} {snap alive cur rows : Db} {ws : List (Write Row Key)}
    (hrun : (q.run env snap alive cur).result = .ok (rows, ws)) (hr : Written ws r) : req.finds stored r := by
  cases req with
  | deleteCascade svc id =>
    cases h with
    | select p =>
      simp only [Stmt.run, Except.ok.injEq, Prod.mk.injEq] at hrun
      simp [Written, ← hrun.2] at hr
    | forUpdate p =>
      simp only [Stmt.run, Except.ok.injEq, Prod.mk.injEq] at hrun
      simp [Written, ← hrun.2] at hr
    | delete =>
      obtain ⟨-, rfl⟩ := delete_ok hrun
      simp [Written] at hr
    | audit e =>
      obtain ⟨t, -, -, -, -, -, rfl⟩ := insert_ok hrun
      obtain rfl : r = auditT.put t := by simpa [Written] using hr
      trivial
    | tombstone =>
      rcases hr with hr | hr
      · obtain ⟨t, -, -, heq, -⟩ := update_ok_write hrun hr
        cases heq
      · obtain ⟨t, -, -, heq, -⟩ := update_ok_write hrun hr
        obtain rfl := Write.update.inj heq
        trivial
  | _ => trivial

end

/-! ## The deletes -/

section
variable {β : Type} {req : Request} {r d : Row} {opened : Bool} {stored : Row → Prop}

theorem speech_leaf (h : (speechOf d).isSome = true) : (key d).table.isParent = false := by
  cases d with
  | chunk | uniform | mute => rfl
  | _ => cases h

/-- What references a row that a request may remove, it may remove. -/
theorem removes_closed (r d : Row) (hd : req.finds stored d) (h : req.Removes stored d) (hk : key d ∈ refs r) :
    req.Removes stored r := by
  have hparent : (key d).table.isParent = true := ref_isParent hk
  cases req with
  | deleteCascade svc id =>
    rcases h with h | ⟨ct, p, rfl, -⟩
    · cases d with
      | participant p =>
        obtain ⟨ct, rfl, hid⟩ := ref_participant hk rfl
        exact .inr ⟨ct, p, rfl, hd, Key.participant.inj hid, Option.some.inj h⟩
      | metadata | chunk | uniform | mute => cases hparent
      | _ => cases h
    · cases hparent
  | deleteRow rt svc id =>
    rw [show key d = .uniform rt id from h] at hparent
    cases hparent
  | deleteMute svc sid raw rangeId =>
    rw [h.1] at hparent
    cases hparent
  | wipeParticipantAudio svc sid raw =>
    rw [speech_leaf (Option.isSome_of_eq_some h)] at hparent
    cases hparent
  | deleteAudio token =>
    obtain ⟨sid, raw, -, h⟩ := h
    rw [speech_leaf (Option.isSome_of_eq_some h)] at hparent
    cases hparent
  | _ => exact h.elim

/-- A DELETE of rows the request names. -/
def Clears (stored : Row → Prop) (req : Request) (q : Sql) : Prop :=
  q.isDelete = true → q.Heeds (req.finds stored) (req.loose stored)

theorem clears_delete {τ : Type} {T : Table Row τ} {p : τ → Bool} (hp : ∀ t, p t = true → req.Removes stored (T.put t)) :
    Clears stored req (T.delete p) := fun _ => delete_heeds (fun t _ ht => hp t ht) removes_closed

theorem clears_other {q : Sql} (h : q.isDelete = false) : Clears stored req q := by
  intro hq
  rw [h] at hq
  cases hq

theorem clears_getInTx {id : Uuid} {f : Session → Handler β} (h : ∀ s, Sends (Clears stored req) true (f s)) :
    Sends (Clears stored req) true (Sessions.getInTx id >>= f) := by
  rw [Sessions.getInTx, bind_assoc]
  exact sends_fetchOptional (clears_other rfl) rfl sends_throw h

theorem clears_guildId {id : Uuid} {f : Int → Handler β} (h : ∀ g, Sends (Clears stored req) false (f g)) :
    Sends (Clears stored req) false (Sessions.guildIdForSession id >>= f) := by
  rw [Sessions.guildIdForSession, bind_assoc]
  exact sends_fetchOptional (clears_other rfl) rfl sends_throw fun s => h s.guildId

theorem deleteCascade_clears (svc : String) (id : Uuid) :
    Sends (Clears stored (.deleteCascade svc id)) false (SessionRoutes.deleteCascade svc id) := by
  have under : ∀ {τ : Type} {T : Table Row τ} {p : τ → Bool}, (∀ t, p t = true → childOf (T.put t) = some id) →
      Clears stored (.deleteCascade svc id) (T.delete p) := fun hp => clears_delete fun t ht => .inl (hp t ht)
  rw [SessionRoutes.deleteCascade]
  refine sends_begin (clears_getInTx fun existing => ?_)
  simp only [SessionRoutes.deleteChildren, Chunks.deleteForSession, Uniform.deleteAllForSession,
    MuteRanges.deleteForSession, bind_assoc, pure_bind]
  refine sends_fetchAll (under fun t ht => ?_) rfl fun rows => ?_
  · simpa [childOf, chunksT] using ht
  refine sends_execute (under fun t ht => ?_) rfl fun _ => ?_
  · simpa [childOf, uniformT] using ht
  refine sends_execute (under fun t ht => ?_) rfl fun _ => ?_
  · simpa [childOf, uniformT] using ht
  refine sends_execute (under fun t ht => ?_) rfl fun _ => ?_
  · simpa [childOf, uniformT] using ht
  refine sends_execute (under fun t ht => ?_) rfl fun _ => ?_
  · simpa [childOf, mutesT] using ht
  refine sends_execute (under fun t ht => ?_) rfl fun _ => ?_
  · simpa [childOf, metadataT, Metadata.byId] using ht
  refine sends_execute (under fun t ht => ?_) rfl fun _ => ?_
  · simpa [childOf, participantsT] using ht
  rw [Sessions.updateStatus]
  refine sends_fetchOne (clears_other rfl) rfl fun y => sends_appendTx (clears_other rfl) (sends_commit ?_)
  exact sends_sweep (sends_stateChanged sends_pure)

theorem deleteRow_clears (rt : ResourceTable) (svc : String) (id : Uuid) :
    Sends (Clears stored (.deleteRow rt svc id)) false (UniformRoutes.deleteRow rt svc id) := by
  rw [UniformRoutes.deleteRow, Uniform.delete, Uniform.found]
  simp only [bind_assoc]
  refine sends_fetchOptional (clears_delete fun t ht => ?_) rfl sends_throw fun r => sends_ofResult fun row => ?_
  · have hid : t.id = id := by simpa [Uniform.byId] using ht
    rw [← hid]
    rfl
  · exact sends_append (clears_other rfl) (clears_guildId fun g => sends_outer fun _ => sends_send)

theorem deleteMute_clears (svc : String) (sid : Uuid) (raw : String) (rangeId : Uuid) :
    Sends (Clears stored (.deleteMute svc sid raw rangeId)) false (MuteRoutes.deleteMute svc sid raw rangeId) := by
  rw [MuteRoutes.deleteMute, Handler.pseudoId]
  refine Handler.follows_ofResult (fun _ _ => trivial) fun pid hpid => ?_
  rw [MuteRanges.deleteOne, bind_assoc]
  refine sends_fetchOptional (clears_delete fun t ht => ?_) rfl sends_throw fun row => ?_
  · obtain ⟨⟨hid, hsid⟩, hpseudo⟩ : (t.id = rangeId ∧ t.sessionId = sid) ∧ t.pseudoId = pid := by simpa using ht
    refine ⟨congrArg Key.mute hid, ?_⟩
    rw [← PseudoId.new_raw (mapError_ok hpid), ← hsid, ← hpseudo]
    rfl
  · exact sends_append (clears_other rfl) (clears_guildId fun g => sends_outer fun _ => sends_send)

/-- Where the request may remove all that a speaker left in a session. -/
theorem clears_audioRows {sid : Uuid} {pid : PseudoId} (hreq : ∀ r, speechOf r = some (sid, pid.raw) → req.Removes stored r)
    {f : List String × Nat × Nat → Handler β} (h : ∀ x, Sends (Clears stored req) true (f x)) :
    Sends (Clears stored req) true (MuteRoutes.deleteAudioRows sid pid >>= f) := by
  simp only [MuteRoutes.deleteAudioRows, Chunks.deleteForParticipant, Uniform.deleteForParticipantSegments,
    MuteRanges.deleteForParticipant, bind_assoc, pure_bind]
  refine sends_fetchAll (clears_delete fun t ht => hreq _ ?_) rfl fun _ => ?_
  · obtain ⟨hsid, hpseudo⟩ : t.sessionId = sid ∧ t.pseudoId = pid := by simpa [Chunks.ofPair] using ht
    rw [← hsid, ← hpseudo]
    rfl
  refine sends_execute (clears_delete fun t ht => hreq _ ?_) rfl fun _ => ?_
  · obtain ⟨hsid, hpseudo⟩ : t.sessionId = sid ∧ Uniform.pseudoColumn t.columns = some pid.raw := by simpa using ht
    simp [speechOf, uniformT, hsid, hpseudo]
  refine sends_execute (clears_delete fun t ht => hreq _ ?_) rfl fun _ => h _
  · obtain ⟨hsid, hpseudo⟩ : t.sessionId = sid ∧ t.pseudoId = pid := by simpa using ht
    rw [← hsid, ← hpseudo]
    rfl

theorem wipe_clears (svc : String) (sid : Uuid) (raw : String) :
    Sends (Clears stored (.wipeParticipantAudio svc sid raw)) false (MuteRoutes.wipeParticipantAudio svc sid raw) := by
  rw [MuteRoutes.wipeParticipantAudio, Handler.pseudoId]
  refine Handler.follows_ofResult (fun _ _ => trivial) fun pid hpid => sends_begin (clears_audioRows (fun r hr => ?_) fun x => ?_)
  · rw [PseudoId.new_raw (mapError_ok hpid)] at hr
    exact hr
  · refine sends_appendTx (clears_other rfl) (sends_commit ?_)
    rw [Participants.markWiped, bind_assoc]
    refine sends_execute (clears_other rfl) rfl fun _ => sends_sweep ?_
    exact clears_guildId fun g => sends_outer fun _ => sends_outer fun _ => sends_pure

theorem reads_sending {S : Sql → Prop} {Q : Bool → Except AppError β → Prop} (hS : ∀ p, S (.select p))
    (hQ : ∀ e, Q false (.error e)) : Reading (sending S) Q false where
  may p := ⟨rfl, hS p⟩
  next _ _ _ ht := ht
  fails := hQ

theorem deleteAudio_clears (token : Uuid) : Prog.Follows ((sending (Clears stored (.deleteAudio token))).told (Fetched stored))
    (fun _ _ => True) false (ConsentRoutes.deleteAudio token).run := by
  rw [ConsentRoutes.deleteAudio]
  refine follows_validated (reads_sending (fun p => clears_other rfl) fun e => trivial) fun ctx hctx => Prog.Follows.told ?_
  have hspeaker : ∀ r, speechOf r = some (ctx.session.id, ctx.participant.pseudoId.raw) →
      (Request.deleteAudio token).Removes stored r := fun r hr => ⟨_, _, hctx, hr⟩
  refine sends_begin (clears_audioRows hspeaker fun x => ?_)
  refine sends_appendTx (clears_other rfl) (sends_commit ?_)
  rw [Participants.markWiped, bind_assoc]
  refine sends_execute (clears_other rfl) rfl fun _ => sends_sweep ?_
  rw [ConsentRoutes.guildId, bind_assoc]
  exact sends_fetchOne (clears_other rfl) rfl fun s => sends_outer fun _ => sends_send

/-- The other requests send no DELETE. -/
theorem Issues.clears {q : Sql} (hreq : req.deletes = false) (h : Issues req q) : Clears stored req q := by
  cases h with
  | delete h => rw [h] at hreq; cases hreq
  | _ => exact clears_other rfl

theorem handle_clears (st : AppState) (req : Request) :
    Prog.Follows ((sending (Clears stored req)).told (Fetched stored)) (fun _ _ => True) false (handle st req).run := by
  by_cases hreq : req.deletes = false
  · exact sending_both (fun q hq _ => hq.clears hreq) (handle_sends st req).told (handle_sends st req).told
  · cases req with
    | deleteCascade svc id => exact (sends_map (deleteCascade_clears svc id)).told
    | deleteRow rt svc id => exact (sends_map (deleteRow_clears rt svc id)).told
    | deleteMute svc sid raw rangeId => exact (sends_map (deleteMute_clears svc sid raw rangeId)).told
    | wipeParticipantAudio svc sid raw => exact (sends_map (wipe_clears svc sid raw)).told
    | deleteAudio token => exact Handler.follows_map (deleteAudio_clears token)
    | _ => exact absurd rfl hreq

end

/-! ## Runs -/

namespace RowHistories

section
variable {ι : Type} [DecidableEq ι] {guard : Clients ι Row Env Io Outcome → ι → Env → Prop} {st : AppState}
  {reqs : ι → Request} {sv : Sv ι} {c c' : Clients ι Row Env Io Outcome}

/-- The parts that the requests of these clients write. -/
def written (reqs : ι → Request) (is : List ι) : List Part := is.flatMap fun i => (reqs i).writes

omit [DecidableEq ι] in
theorem leads (stored : Row → Prop) (reqs : ι → Request) :
    Leads (fun i => (reqs i).policy stored) fun is r r' => Altered (written reqs is) r r' where
  lawful i := (reqs i).lawful
  refl r := Altered.refl r
  step is i r x y h h' := by
    rw [written, List.flatMap_append, List.flatMap_singleton]
    exact (h.mono fun p hp => List.mem_append_left _ hp).trans (Altered.mono h' fun p hp => List.mem_append_right _ hp)

/-- What the statements of the requests heed, every commit of a run does. -/
theorem obeyed {π : ι → Policy Row Key} (hq : sv.Quiescent) (h : Run machine guard (Service.start st reqs sv) c)
    (hπ : ∀ i q, Issues (reqs i) q → Clears (Ever sv.db c.shared.log) (reqs i) q →
      q.Heeds ((reqs i).finds (Ever sv.db c.shared.log)) (π i)) :
    ReadCommitted.Logged (fun db i ws => (π i).AllowsAll db ws) sv.db c.shared.log := by
  have hfollows : ∀ i, Prog.Follows ((sending fun q => Issues (reqs i) q ∧ Clears (Ever sv.db c.shared.log) (reqs i) q).told
      (Fetched (Ever sv.db c.shared.log))) (fun _ _ => True) false (handle st (reqs i)).run := fun i =>
    sending_both (fun _ h h' => ⟨h, h'⟩) (handle_sends st (reqs i)).told (handle_clears st (reqs i))
  have hobeys : ∀ i, Obeys ((reqs i).finds (Ever sv.db c.shared.log)) (π i) fun q =>
      Issues (reqs i) q ∧ Clears (Ever sv.db c.shared.log) (reqs i) q := fun i =>
    ⟨fun q hS => hπ i q hS.1 hS.2, fun q hS _ _ _ _ _ _ hrun _ hr => hS.1.finds hrun hr⟩
  refine Run.heeded hq.log (Orderly.start hq) (fun _ => rfl) hobeys ?_ (fun d i e o r l sv hd hx => hd.2.fetched hx)
    hfollows (Run.attested hq.log (Orderly.start hq) (fun _ => rfl) h).1
  intro d i e hd r hr
  have hever := hd.2.stored r hr
  unfold Request.finds
  split
  · exact hever
  · trivial

/-- Every commit of a run heeds the policy of its request. -/
theorem heeded (hq : sv.Quiescent) (h : Run machine guard (Service.start st reqs sv) c) : ReadCommitted.Logged
    (fun db i ws => ((reqs i).policy (Ever sv.db c.shared.log)).AllowsAll db ws) sv.db c.shared.log :=
  obeyed hq h fun _ _ hissues hclears => hissues.heeds hclears

omit [DecidableEq ι] in
theorem audit_unaltered {M : List Part} {r : Row} {a : AuditRow} (h : Altered M r (.audit a)) : r = .audit a := by
  have hsame := h.same
  cases r with
  | audit a' => exact hsame.symm
  | _ => cases hsame

/-- Tables whose rows no request removes. -/
def permanent : List TableName := [.users, .displayNames, .sessions, .audit]

theorem Removes.passing {stored : Row → Prop} {req : Request} {r : Row} (h : req.Removes stored r) : (key r).table ∉ permanent := by
  have hspeech : ∀ {r : Row}, (speechOf r).isSome = true → (key r).table ∉ permanent := by
    intro r h
    cases r with
    | chunk | uniform | mute => simp [permanent, key, Row.key, Key.table]
    | _ => cases h
  cases req with
  | deleteCascade svc id =>
    rcases h with h | ⟨ct, p, rfl, -⟩
    · cases r with
      | participant | metadata | chunk | uniform | mute => simp [permanent, key, Row.key, Key.table]
      | _ => cases h
    · simp [permanent, key, Row.key, Key.table]
  | deleteRow rt svc id =>
    rw [show key r = .uniform rt id from h]
    simp [permanent, Key.table]
  | deleteMute svc sid raw rangeId => exact hspeech (Option.isSome_of_eq_some h.2)
  | wipeParticipantAudio svc sid raw => exact hspeech (Option.isSome_of_eq_some h)
  | deleteAudio token =>
    obtain ⟨sid, raw, -, h⟩ := h
    exact hspeech (Option.isSome_of_eq_some h)
  | _ => exact h.elim

end

/-! ### Results -/

/-- A participant joins, and answers; then the session is deleted. -/
def sampleRequests : Fin 3 → Request
  | 0 => .addOne "bot" Sample.sessionId { pseudoId := ⟨Sample.speaker⟩ }
  | 1 => .patchParticipantConsent "bot" 2000 { consentScope := "full", consentedAt := none }
  | 2 => .deleteCascade "bot" Sample.sessionId

theorem sample_run : ∃ c c' : Clients (Fin 3) Row Env Io Outcome,
    Run machine (fun _ _ _ => True) (Service.start Sample.state sampleRequests (Sample.server [.session Sample.session])) c ∧
      Run machine (fun _ _ _ => True) c c' ∧ (participantsT.rows c.shared.db).map (·.id) = [2000] ∧
      (participantsT.rows c'.shared.db).map (·.id) = [] ∧ (auditT.rows c.shared.db).length = 1 ∧
      (auditT.rows c'.shared.db).length = 3 := by
  have hrun : ((Service.start Sample.state sampleRequests (Sample.server [.session Sample.session])).play machine
      (Sample.moves 0 [(0, 4)])).bind (fun c => (c.play machine (Sample.moves 4 [(1, 4), (2, 24)])).map fun c' =>
        ((participantsT.rows c.shared.db).map (·.id), (participantsT.rows c'.shared.db).map (·.id),
          (auditT.rows c.shared.db).length, (auditT.rows c'.shared.db).length)) = some ([2000], [], 1, 3) := by decide +kernel
  obtain ⟨c, hc, hrest⟩ := Option.bind_eq_some_iff.1 hrun
  obtain ⟨c', hc', hr⟩ := Option.map_eq_some_iff.1 hrest
  simp only [Prod.mk.injEq] at hr
  exact ⟨c, c', Run.play (Config.guarded_of_all (fun _ _ _ => trivial) _) .nil hc,
    Run.play (Config.guarded_of_all (fun _ _ _ => trivial) _) .nil hc', hr⟩

/-- Between two states of any run a row keeps every column that no request
committed in between writes, and its marks; or such a request removed it that
names it, its session or its speaker, by path or by token. No user, display name,
session or audit entry is removed. -/
theorem row_lives {ι : Type} [DecidableEq ι] (st : AppState) (reqs : ι → Request) {sv : Sv ι} (hq : sv.Quiescent)
    {c c' : Clients ι Row Env Io Outcome} (h : Run machine (fun _ _ _ => True) (Service.start st reqs sv) c)
    (h' : Run machine (fun _ _ _ => True) c c') {r : Row} (hr : r ∈ c.shared.db) :
    ∃ log, c'.shared.log = c.shared.log ++ log ∧
      ((∃ r' ∈ c'.shared.db, key r' = key r ∧ Altered (written reqs (log.map (·.1))) r r') ∨
        (key r).table ∉ permanent ∧ ∃ x pre t post, log = pre ++ t :: post ∧ key x = key r ∧
          Altered (written reqs ((pre ++ [t]).map (·.1))) r x ∧
          (reqs t.1).Removes (Ever sv.db c'.shared.log) x) := by
  obtain ⟨log, hlog, hheeded, hdb⟩ := Run.between hq.log (Orderly.start hq) h h' (heeded hq (Run.trans h h'))
  refine ⟨log, hlog, ?_⟩
  rcases hheeded.lives (leads _ reqs) (Run.orderly (Orderly.start hq) h).unique hr with hkept | ⟨x, pre, t, post, heq, hk, ha, hx⟩
  · rw [hdb]
    exact .inl hkept
  · exact .inr ⟨hk ▸ Removes.passing hx, x, pre, t, post, heq, hk, ha, hx⟩

theorem row_lives_sample : ∃ c c' : Clients (Fin 3) Row Env Io Outcome, ∃ r ∈ c.shared.db,
    key r = .participant 2000 ∧ ¬Present (key r) c'.shared.db ∧ ∃ log, c'.shared.log = c.shared.log ++ log ∧
      ∃ x pre t post, log = pre ++ t :: post ∧ key x = key r ∧
        (sampleRequests t.1).Removes (Ever [.session Sample.session] c'.shared.log) x := by
  obtain ⟨c, c', h, h', hids, hnone, -, -⟩ := sample_run
  have hid : (2000 : Uuid) ∈ (participantsT.rows c.shared.db).map (·.id) := by rw [hids]; simp
  obtain ⟨p, hp, hid⟩ := List.mem_map.1 hid
  have hkey : key (Row.participant p) = .participant 2000 := congrArg Key.participant hid
  have hgone : ¬Present (key (Row.participant p)) c'.shared.db := by
    rintro ⟨x, hx, hk⟩
    cases x with
    | participant p' =>
      have hmem : p' ∈ participantsT.rows c'.shared.db := participantsT.mem_rows.2 hx
      rw [List.map_eq_nil_iff.1 hnone] at hmem
      cases hmem
    | _ => rw [hkey] at hk; cases hk
  refine ⟨c, c', _, participantsT.mem_rows.1 hp, hkey, hgone, ?_⟩
  obtain ⟨log, hlog, ⟨r', hr', hk, -⟩ | ⟨-, x, pre, t, post, heq, hk, -, hx⟩⟩ :=
    row_lives Sample.state sampleRequests Sample.quiescent h h' (participantsT.mem_rows.1 hp)
  · exact absurd ⟨r', hr', hk⟩ hgone
  · exact ⟨log, hlog, x, pre, t, post, heq, hk, hx⟩

/-- A stored row was there at the start, or a committed request that enters rows
of its table entered it, under its own session, an audit row in its own name;
since then the requests committed have altered it in their own parts. -/
theorem row_origin {ι : Type} [DecidableEq ι] (st : AppState) (reqs : ι → Request) {sv : Sv ι} (hq : sv.Quiescent)
    {c : Clients ι Row Env Io Outcome} (h : Run machine (fun _ _ _ => True) (Service.start st reqs sv) c) {r : Row}
    (hr : r ∈ c.shared.db) :
    ∃ x, key x = key r ∧ ((x ∈ sv.db ∧ Altered (written reqs (c.shared.log.map (·.1))) x r) ∨
      ∃ pre t post, c.shared.log = pre ++ t :: post ∧ .insert x ∈ t.2 ∧ x.Fresh ∧ Enters (reqs t.1) x ∧
        Altered (written reqs ((t :: post).map (·.1))) x r) := by
  rw [Run.replay hq.log (Orderly.start hq) h] at hr
  obtain ⟨x, hk, hx | ⟨pre, t, post, hlog, hw, ⟨hfresh, henters⟩, ha⟩⟩ := (heeded hq h).traced (leads _ reqs) hr
  · exact ⟨x, hk, .inl hx⟩
  · exact ⟨x, hk, .inr ⟨pre, t, post, hlog, hw, hfresh, henters, ha⟩⟩

theorem row_origin_sample : ∃ c : Clients (Fin 3) Row Env Io Outcome, ∃ r ∈ c.shared.db, key r = .participant 2000 ∧
    ∃ x pre t post, c.shared.log = pre ++ t :: post ∧ key x = key r ∧ x.Fresh ∧ Enters (sampleRequests t.1) x := by
  obtain ⟨c, c', h, -, hids, -, -, -⟩ := sample_run
  have hid : (2000 : Uuid) ∈ (participantsT.rows c.shared.db).map (·.id) := by rw [hids]; simp
  obtain ⟨p, hp, hid⟩ := List.mem_map.1 hid
  refine ⟨c, _, participantsT.mem_rows.1 hp, congrArg Key.participant hid, ?_⟩
  obtain ⟨x, hk, ⟨hx, -⟩ | ⟨pre, t, post, heq, -, hfresh, henters, -⟩⟩ :=
    row_origin Sample.state sampleRequests Sample.quiescent h (participantsT.mem_rows.1 hp)
  · rw [List.mem_singleton.1 hx] at hk
    cases hk
  · exact ⟨x, pre, t, post, heq, hk, hfresh, henters⟩

/-- The audit log is only added to: its entries at an earlier state of any run
come first, unaltered, at a later one. -/
theorem audit_append_only {ι : Type} [DecidableEq ι] (st : AppState) (reqs : ι → Request) {sv : Sv ι} (hq : sv.Quiescent)
    {c c' : Clients ι Row Env Io Outcome} (h : Run machine (fun _ _ _ => True) (Service.start st reqs sv) c)
    (h' : Run machine (fun _ _ _ => True) c c') : auditT.rows c.shared.db <+: auditT.rows c'.shared.db := by
  obtain ⟨log, -, hheeded, hdb⟩ := Run.between hq.log (Orderly.start hq) h h' (heeded hq (Run.trans h h'))
  rw [hdb]
  refine hheeded.append_only (fun i x a hx => ?_) (fun x a hk => ?_) (fun i a hx => ?_) ?_
  · exact audit_unaltered hx
  · cases x with
    | audit a' => exact ⟨a', rfl⟩
    | _ => cases hk
  · exact Removes.passing hx (by simp [auditT, permanent, key, Row.key, Key.table])
  · exact (Run.orderly (Orderly.start hq) h).unique

theorem audit_append_only_sample : ∃ c c' : Clients (Fin 3) Row Env Io Outcome,
    (auditT.rows c.shared.db).length = 1 ∧ (auditT.rows c'.shared.db).length = 3 ∧
      auditT.rows c.shared.db <+: auditT.rows c'.shared.db := by
  obtain ⟨c, c', h, h', -, -, hone, hthree⟩ := sample_run
  exact ⟨c, c', hone, hthree, audit_append_only Sample.state sampleRequests Sample.quiescent h h'⟩

end RowHistories
end DataApi
