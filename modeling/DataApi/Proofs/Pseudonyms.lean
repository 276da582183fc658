/-
Only pseudonyms are stored. Most columns are pinned by their CHECK, or by a
foreign key into a table that has one. Two are not: what an audit row says of
its actor the handler has checked before, and a segment's speaker is read back
before the transaction that entered it commits.
-/
import DataApi.RowRules
import DataApi.Proofs.EtagHistory

namespace DataApi.Pseudonyms

open Relational ReadCommitted Resumption Handler DataApi.Uniform RowRules

/-! ## Pseudonyms -/

/-- Exactly 24 lowercase hex characters. -/
def Hex24 (s : String) : Prop := s.toList.length = 24 ∧ ∀ c ∈ s.toList, c ∈ "0123456789abcdef".toList

theorem isHex_iff {c : Char} : (c.isDigit || ('a' ≤ c && c ≤ 'f')) = true ↔ c ∈ "0123456789abcdef".toList := by
  constructor
  · intro h
    have hbound : (48 ≤ c.toNat ∧ c.toNat ≤ 57) ∨ (97 ≤ c.toNat ∧ c.toNat ≤ 102) := by
      simp only [Char.isDigit, Bool.or_eq_true, Bool.and_eq_true, decide_eq_true_eq] at h
      exact h
    have hall : ∀ n < 103, (48 ≤ n ∧ n ≤ 57) ∨ (97 ≤ n ∧ n ≤ 102) → Char.ofNat n ∈ "0123456789abcdef".toList := by
      decide +kernel
    have := hall c.toNat (by omega) hbound
    rwa [Char.ofNat_toNat] at this
  · intro h
    have hall : "0123456789abcdef".toList.all (fun c => c.isDigit || ('a' ≤ c && c ≤ 'f')) = true := by decide
    exact List.all_eq_true.1 hall c h

theorem utf8ByteSize_ofList {l : List Char} (h : ∀ c ∈ l, c.utf8Size = 1) :
    (String.ofList l).utf8ByteSize = l.length := by
  induction l with
  | nil => rfl
  | cons c l ih =>
    have hc := h c (by simp)
    have hl := ih fun x hx => h x (by simp [hx])
    rw [String.ofList_cons, String.utf8ByteSize_append]
    simp only [String.utf8ByteSize_singleton, hc, hl, List.length_cons]
    omega

/-- The byte count of the code is the character count: hex characters are
single bytes. -/
theorem valid_iff {s : String} : isValidPseudoId s = true ↔ Hex24 s := by
  simp only [isValidPseudoId, Bool.and_eq_true, beq_iff_eq, List.all_eq_true, isHex_iff]
  refine and_congr_left fun h => ?_
  have hone : "0123456789abcdef".toList.all (fun c => c.utf8Size == 1) = true := by decide
  have hsize := utf8ByteSize_ofList fun c hc => by simpa using List.all_eq_true.1 hone c (h c hc)
  rw [String.ofList_toList] at hsize
  rw [hsize]

theorem new_ok {raw : String} {p : PseudoId} (h : PseudoId.new raw = .ok p) : Hex24 p.raw := by
  unfold PseudoId.new at h
  split at h
  · next hv =>
    rw [← Except.ok.inj h]
    exact valid_iff.1 hv
  · cases h

/-- A pseudonym from a path. -/
theorem named {raw : String} {p : PseudoId} (h : (PseudoId.new raw).mapError PseudoIdError.toAppError = .ok p) :
    Hex24 p.raw := by
  cases hn : PseudoId.new raw with
  | error e => rw [hn] at h; cases h
  | ok q =>
    rw [hn] at h
    rw [← Except.ok.inj h]
    exact new_ok hn

/-- Every user-identifying column holds a pseudonym; a chunk may be of the
mixed audio. -/
def Pseudonymous : Row → Prop
  | .user u => Hex24 u.pseudoId.raw
  | .displayName d => Hex24 d.pseudoId.raw
  | .participant p => Hex24 p.pseudoId.raw
  | .chunk c => c.pseudoId.raw = MIXED_PSEUDO_ID ∨ Hex24 c.pseudoId.raw
  | .uniform _ r => (∀ s ∈ pseudoColumn r.columns, Hex24 s) ∧ ∀ s ∈ r.authorUserPseudoId, Hex24 s
  | .mute m => Hex24 m.pseudoId.raw
  | .consentToken t => Hex24 t.pseudoId.raw
  | .audit a => ∀ s ∈ a.actorPseudo, Hex24 s
  | .session _ | .metadata _ => True

/-- Rows that read back are pseudonymous, and conversely. -/
theorem reads_pseudonymous {rt : ResourceTable} {r : UniformPgRow} :
    EtagHistory.Reads r ↔ Pseudonymous (.uniform rt r) := by
  rw [EtagHistory.reads_iff]
  simp only [Pseudonymous, Option.all_eq_true, ← valid_iff]
  rfl

/-! ## Statements -/

/-- Tables whose CHECK pins every pseudonym of a row, or that have none. -/
def pinned : TableName → Bool
  | .users | .sessions | .participants | .metadata | .chunks | .mutes => true
  | _ => false

theorem preserves_pinned {D : TableName → Prop} {q : Sql} (h : Writes D q) (hD : ∀ n, D n → pinned n = true) :
    q.Preserves Pseudonymous := by
  refine preserves_of_checked h fun r hr hck => ?_
  have hr := hD _ hr
  cases r with
  | user u => exact valid_iff.1 hck
  | participant p =>
    have hck : (isValidPseudoId p.pseudoId.raw && _) = true := hck
    exact valid_iff.1 (Bool.and_eq_true_iff.1 hck).1
  | chunk c =>
    have hck : (decide (c.pseudoId.raw = "mixed") || isValidPseudoId c.pseudoId.raw) = true := hck
    exact (Bool.or_eq_true_iff.1 hck).imp of_decide_eq_true valid_iff.1
  | mute m => exact valid_iff.1 hck
  | session s => trivial
  | metadata m => trivial
  | _ => cases hr

theorem appendSql_preserves {e : AuditLog.Entry} (h : ∀ s ∈ e.actorPseudo, Hex24 s) :
    (AuditLog.appendSql e).Preserves Pseudonymous := by
  refine tableInsert_preserves fun env snap t ht _ cur _ _ => ?_
  obtain rfl := Except.ok.inj ht
  exact h

/-- A reference to a user is a reference to a row with a CHECK. -/
theorem user_pseudonym {cur : Db} (hcur : ∀ r ∈ cur, Pseudonymous r) {pid : PseudoId}
    (h : ∃ x ∈ cur, key x = Key.user pid) : Hex24 pid.raw := by
  obtain ⟨x, hx, hk⟩ := h
  have hx := hcur x hx
  cases x with
  | user u =>
    obtain rfl : u.pseudoId = pid := Key.user.inj hk
    exact hx
  | _ => cases hk

theorem displayName_preserves (pid : PseudoId) (input : DisplayNames.UpsertDisplayName) :
    (DisplayNames.upsertSql pid input).Preserves Pseudonymous := by
  refine insertOne_preserves (fun env snap _ cur hcur hrefs => ?_) fun env snap a set hset e he => ?_
  · exact user_pseudonym hcur (hrefs (.user pid) (List.mem_singleton.2 rfl))
  · obtain ⟨-, rfl⟩ := OnConflict.doUpdate.inj hset
    cases e with
    | displayName d => exact he
    | _ => exact he

theorem createToken_preserves (sid participant : Uuid) (pid : PseudoId) :
    (ConsentTokens.createSql sid participant pid).Preserves Pseudonymous := by
  refine tableInsert_preserves fun env snap t ht _ cur hcur hrefs => ?_
  obtain rfl := Except.ok.inj ht
  refine user_pseudonym hcur (hrefs (.user pid) ?_)
  simp [refs, Row.refs, consentTokensT, ConsentTokens.freshRow]

/-- The SET clause of a patch leaves the speaker, and the author is checked. -/
theorem updateSql_preserves (rt : ResourceTable) (id : Uuid) (u : UniformRow) (author : Option PseudoId) (etag : ETag) :
    (updateSql rt id u author etag).Preserves Pseudonymous := by
  refine update_preserves fun env r hr hck => ?_
  exact reads_pseudonymous.1 ((reads_pseudonymous.2 hr).patched hck)

/-! ## Handlers -/

/-- The handler names only pseudonyms. -/
abbrev Follows {β : Type} (p : Handler β) : Prop := Keeps Pseudonymous (fun _ _ => True) p

section
variable {β : Type}

theorem follows_append {e : AuditLog.Entry} (he : ∀ s ∈ e.actorPseudo, Hex24 s) {f : Unit → Handler β}
    (hf : Follows (f ())) : Follows (AuditLog.append e >>= f) := keeps_append (appendSql_preserves he) hf

theorem follows_appendTx {e : AuditLog.Entry} (he : ∀ s ∈ e.actorPseudo, Hex24 s) {f : Unit → Handler β}
    (hf : Follows (f ())) : Follows (AuditLog.appendTx e >>= f) := keeps_appendTx (appendSql_preserves he) hf

/-- A session row names nobody. -/
theorem session_preserves (p : Session → Bool) (set : Env → Session → Session) (hk : ∀ e, sessionsT.Keeps (set e)) :
    (sessionsT.update p set hk).Preserves Pseudonymous := update_preserves fun _ _ _ _ => trivial

theorem no_actor {e : AuditLog.Entry} (h : e.actorPseudo = none) : ∀ s ∈ e.actorPseudo, Hex24 s := by
  rw [h]; simp

theorem an_actor {e : AuditLog.Entry} {a : String} (h : e.actorPseudo = some a) (ha : Hex24 a) :
    ∀ s ∈ e.actorPseudo, Hex24 s := by
  rw [h]; simpa using ha

end

/-! ### Sessions and chunks -/

theorem create_follows (svc : String) (input : Sessions.CreateSession) : Follows (SessionRoutes.create svc input) := by
  rw [SessionRoutes.create, Sessions.create]
  refine keeps_fetchOne (preserves_pinned (Sessions.createSql_writes input) (by simp [pinned])) fun x _ => ?_
  exact follows_append (no_actor rfl) (keeps_outer fun _ => keeps_pure)

theorem patch_follows (svc : String) (id : Uuid) (body : SessionRoutes.PatchSession) :
    Follows (SessionRoutes.patch svc id body) := by
  rw [SessionRoutes.patch]
  refine keeps_begin (keeps_getInTx fun existing => ?_)
  have finish : ∀ (updated : Session) (change : Option (SessionStatus × SessionStatus)),
      Follows (SessionRoutes.patchFields id body updated >>= fun updated =>
        AuditLog.appendTx (SessionRoutes.entry svc id "patched" (.obj
          [("status", .str updated.status.asStr), ("ended_at", Json.optTime updated.endedAt)])) >>= fun _ =>
        commit >>= fun _ => SessionRoutes.announceChange id updated.guildId change >>= fun _ => pure updated) := by
    intro updated change
    have rest : ∀ y : Session, Follows (AuditLog.appendTx (SessionRoutes.entry svc id "patched" (.obj
          [("status", .str y.status.asStr), ("ended_at", Json.optTime y.endedAt)])) >>= fun _ =>
        commit >>= fun _ => SessionRoutes.announceChange id y.guildId change >>= fun _ => pure y) := by
      intro y
      refine follows_appendTx (no_actor rfl) (keeps_commit ?_)
      cases change with
      | none => exact keeps_pure
      | some c =>
        rw [SessionRoutes.announceChange, bind_assoc]
        exact keeps_stateChanged (keeps_outer fun _ => keeps_pure)
    rw [SessionRoutes.patchFields]
    split
    · exact keeps_fetchOne (session_preserves _ _ _) fun y _ => rest y
    · exact rest updated
  cases hs : body.status with
  | none => exact finish existing none
  | some new =>
    rw [SessionRoutes.patchStatus, bind_assoc]
    refine keeps_refuseIf fun _ => ?_
    rw [bind_assoc, Sessions.updateStatus]
    exact keeps_fetchOne (session_preserves _ _ _) fun y _ => finish y _

theorem resume_follows (st : AppState) (svc : String) (id : Uuid) (body : SessionRoutes.ResumeBody) :
    Follows (SessionRoutes.resume st svc id body) := by
  rw [SessionRoutes.resume]
  refine keeps_begin (keeps_getInTx fun existing => keeps_refuseIf fun _ => ?_)
  refine keeps_outer fun now => keeps_refuseIf fun _ => ?_
  rw [Sessions.resumeFromAbandoned]
  refine keeps_fetchOne (session_preserves _ _ _) fun y _ => ?_
  exact follows_appendTx (no_actor rfl) (keeps_commit (keeps_stateChanged (keeps_pure)))

theorem deleteCascade_follows (svc : String) (id : Uuid) : Follows (SessionRoutes.deleteCascade svc id) := by
  rw [SessionRoutes.deleteCascade]
  refine keeps_begin (keeps_getInTx fun existing => ?_)
  simp only [SessionRoutes.deleteChildren, Chunks.deleteForSession, Uniform.deleteAllForSession,
    MuteRanges.deleteForSession, bind_assoc, pure_bind]
  refine keeps_fetchAll (delete_preserves _) fun _ _ => ?_
  refine keeps_execute (delete_preserves _) fun _ => keeps_execute (delete_preserves _) fun _ => ?_
  refine keeps_execute (delete_preserves _) fun _ => keeps_execute (delete_preserves _) fun _ => ?_
  refine keeps_execute (delete_preserves _) fun _ => keeps_execute (delete_preserves _) fun _ => ?_
  rw [Sessions.updateStatus]
  refine keeps_fetchOne (session_preserves _ _ _) fun y _ => ?_
  refine follows_appendTx (no_actor rfl) (keeps_commit (keeps_sweep ?_))
  exact keeps_stateChanged (keeps_pure)

theorem store_follows (svc : String) (sid : Uuid) (pid : PseudoId) (h : ChunkRoutes.ChunkHeaders) (body : Bytes) :
    Follows (ChunkRoutes.store svc sid pid h body) := by
  rw [ChunkRoutes.store]
  refine keeps_getInTx fun session => ?_
  rw [ChunkRoutes.readBody, bind_assoc]
  refine follows_toBytes trivial (fun _ _ _ => trivial) fun bytes t ht => ?_
  obtain rfl : t = false := ht.1
  rw [bind_assoc]
  refine keeps_refuseIf fun _ => ?_
  rw [pure_bind, Chunks.insert]
  refine keeps_fetchOne (preserves_pinned (Chunks.insertSql_writes _) (by simp [pinned])) fun row _ => ?_
  refine follows_put trivial (fun _ _ _ => trivial) fun t ht => ?_
  obtain rfl : t = false := ht.1
  refine keeps_outer fun _ => ?_
  refine keeps_execute (preserves_pinned (Chunks.setKeySql_writes _ _ _ _) (by simp [pinned])) fun _ => ?_
  refine follows_appendTx (no_actor rfl) (keeps_commit ?_)
  exact keeps_outer fun _ => keeps_outer fun _ => keeps_pure

theorem upload_follows (st : AppState) (svc : String) (r : ChunkRoutes.UploadRequest) :
    Follows (ChunkRoutes.upload st svc r) := by
  rw [ChunkRoutes.upload]
  refine keeps_ofResult fun pid _ => keeps_ofResult fun h _ => keeps_begin ?_
  rw [Chunks.lookupByClientId]
  refine keeps_fetchOptional (select_preserves _) (store_follows svc _ pid h _) fun existing _ => ?_
  refine keeps_rollback ?_
  exact keeps_pure

/-! ### Participants and users -/

theorem participant_preserves (p : Participant → Bool) {set : Env → Participant → Participant}
    {hk : ∀ e, participantsT.Keeps (set e)} (h : ∀ e x, (set e x).pseudoId = x.pseudoId) :
    (participantsT.update p set hk).Preserves Pseudonymous := by
  refine update_preserves fun e x hx _ => ?_
  show Hex24 (set e x).pseudoId.raw
  rw [h]; exact hx

section
variable {β : Type} {f : Participant → Handler β}

theorem follows_updateConsent {id : Uuid} {input : Participants.UpdateConsent}
    (h : ∀ p, Hex24 p.pseudoId.raw → Follows (f p)) : Follows (Participants.updateConsent id input >>= f) := by
  rw [Participants.updateConsent, bind_assoc]
  refine keeps_refuseIf fun _ => ?_
  rw [Participants.found, bind_assoc]
  refine keeps_fetchOptional ?_ ?_ fun p hp => h p hp
  · exact participant_preserves _ fun _ _ => rfl
  · exact keeps_throw

theorem follows_updateLicense {id : Uuid} {input : Participants.UpdateLicense}
    (h : ∀ p, Hex24 p.pseudoId.raw → Follows (f p)) : Follows (Participants.updateLicense id input >>= f) := by
  rw [Participants.updateLicense, Participants.found, bind_assoc]
  refine keeps_fetchOptional ?_ ?_ fun p hp => h p hp
  · exact participant_preserves _ fun _ _ => rfl
  · exact keeps_throw

end

theorem addOne_follows (svc : String) (sid : Uuid) (input : Participants.AddParticipant) :
    Follows (ParticipantRoutes.addOne svc sid input) := by
  rw [ParticipantRoutes.addOne, Participants.add]
  refine keeps_fetchOne (preserves_pinned (Participants.addSql_writes sid input) ?_) fun row hrow => ?_
  · rintro n (rfl | rfl) <;> rfl
  · exact follows_append (an_actor rfl hrow) (keeps_pure)

theorem addBatch_follows (svc : String) (sid : Uuid) (ps : List Participants.AddParticipant) :
    Follows (ParticipantRoutes.addBatch svc sid ps) := by
  rw [ParticipantRoutes.addBatch, Participants.addMany]
  split
  · exact follows_append (no_actor rfl) (keeps_pure)
  · simp only [bind_assoc, pure_bind]
    refine keeps_begin ?_
    refine keeps_execute (preserves_pinned (Participants.seedUsersSql_writes ps) (by simp [pinned])) fun _ => ?_
    refine keeps_fetchAll (preserves_pinned (Participants.addManySql_writes sid ps) (by simp [pinned])) fun rows _ => ?_
    exact keeps_commit (follows_append (no_actor rfl) (keeps_pure))

theorem patchConsent_follows (svc : String) (id : Uuid) (input : Participants.UpdateConsent) :
    Follows (ParticipantRoutes.patchConsent svc id input) := by
  rw [ParticipantRoutes.patchConsent]
  exact follows_updateConsent fun p hp => follows_append (an_actor rfl hp) (keeps_pure)

theorem patchLicense_follows (svc : String) (id : Uuid) (input : Participants.UpdateLicense) :
    Follows (ParticipantRoutes.patchLicense svc id input) := by
  rw [ParticipantRoutes.patchLicense]
  exact follows_updateLicense fun p hp => follows_append (an_actor rfl hp) (keeps_pure)

/-- An upsert of a user: the pseudonym has passed the CHECK. -/
theorem follows_user {β : Type} {via : Via} {pid : PseudoId} {isAdmin : Bool} {oc : OnConflict Row} {f : User → Handler β}
    (hq : Writes (· = .users) (usersT.insert (fun env _ => .ok (Users.freshRow pid isAdmin env)) oc))
    (h : ∀ u, Hex24 pid.raw → Follows (f u)) :
    Follows (fetchOne via usersT (usersT.insert (fun env _ => .ok (Users.freshRow pid isAdmin env)) oc) >>= f) := by
  refine keeps_returned (preserves_pinned hq (by simp [pinned])) fun u rows hret _ _ => h u ?_
  have hret : Returns (.insert fun env _ => .ok [(Row.user (Users.freshRow pid isAdmin env), oc)]) rows := hret
  obtain ⟨env, -, hck⟩ := hret.checked
  exact valid_iff.1 hck

theorem upsertUser_follows (svc : String) (pid : PseudoId) : Follows (UserRoutes.upsertUser svc pid) := by
  rw [UserRoutes.upsertUser, Users.upsert]
  exact follows_user (Users.upsertSql_writes pid) fun u hpid => follows_append (an_actor rfl hpid) (keeps_pure)

theorem patchUser_follows (svc pid : String) (isAdmin : Bool) : Follows (UserRoutes.patchUser svc pid isAdmin) := by
  rw [UserRoutes.patchUser, Handler.pseudoId]
  refine keeps_ofResult fun pid _ => keeps_begin ?_
  rw [Users.setAdmin]
  refine follows_user (Users.setAdminSql_writes pid isAdmin) fun u hpid => ?_
  exact follows_appendTx (an_actor rfl hpid) (keeps_commit (keeps_pure))

theorem grant_follows (st : AppState) (req : UserRoutes.GrantRequest) : Follows (UserRoutes.grant st req) := by
  rw [UserRoutes.grant]
  refine keeps_refuseIf fun _ => (keeps_begin ?_)
  rw [Users.setAdmin]
  refine follows_user (Users.setAdminSql_writes req.pseudoId req.isAdmin) fun u hpid => ?_
  exact follows_appendTx (an_actor rfl hpid) (keeps_commit (keeps_pure))

theorem postDisplay_follows (svc : String) (pid : String) (input : DisplayNames.UpsertDisplayName) :
    Follows (UserRoutes.postDisplay svc pid input) := by
  rw [UserRoutes.postDisplay, Handler.pseudoId]
  refine keeps_ofResult fun pid hpid => ?_
  rw [Users.upsert]
  refine follows_user (Users.upsertSql_writes pid) fun _ _ => ?_
  rw [DisplayNames.upsert, bind_assoc]
  refine keeps_refuseIf fun _ => (keeps_fetchOne (displayName_preserves pid input) fun row _ => ?_)
  exact follows_append (an_actor rfl (named hpid)) (keeps_pure)

/-! ### Metadata -/

theorem upsertSql_preserves (id : Uuid) (blob : Json) (etag : ETag) :
    (Metadata.upsertSql id blob etag).Preserves Pseudonymous :=
  preserves_pinned (Metadata.upsertSql_writes id blob etag) (by simp [pinned])

theorem replaceMetadata_follows (svc : String) (id : Uuid) (body : Json) : Follows (MetadataRoutes.replace svc id body) := by
  rw [MetadataRoutes.replace, Metadata.replace, bind_assoc]
  refine keeps_outer fun etag => keeps_fetchOne (upsertSql_preserves _ _ _) fun row _ => ?_
  exact follows_append (no_actor rfl) (keeps_pure)

theorem shallowPatch_follows (svc : String) (id : Uuid) (headers : HeaderMap) (body : Json) :
    Follows (MetadataRoutes.shallowPatch svc id headers body) := by
  rw [MetadataRoutes.shallowPatch, Metadata.shallowMerge]
  simp only [bind_assoc, pure_bind]
  have merge : ∀ x : Json × ETag, Follows (refuseIf ((ifMatch headers).any (· ≠ x.2)) (.preconditionFailed x.2) >>= fun _ =>
      ofResult (Metadata.mergeShallow x.1 body) >>= fun merged => newEtag >>= fun etag =>
      fetchOne .tx metadataT (Metadata.upsertSql id merged etag) >>= fun row => commit >>= fun _ =>
      AuditLog.append (MetadataRoutes.entry svc id "merged" row.etag) >>= fun _ => pure row) := by
    intro x
    refine keeps_refuseIf fun _ => (keeps_ofResult fun merged _ => keeps_outer fun etag => ?_)
    refine keeps_fetchOne (upsertSql_preserves _ _ _) fun row _ => keeps_commit ?_
    exact follows_append (no_actor rfl) (keeps_pure)
  refine keeps_begin (keeps_fetchOptional (forUpdate_preserves _) ?_ fun row _ => ?_)
  · rw [Metadata.current, bind_assoc]
    exact keeps_outer fun etag => merge _
  · exact merge (row.blob, row.etag)

/-! ### Segments, beats and scenes -/

theorem parsePseudo_hex {x : Option String} {p : Option PseudoId} (h : parsePseudo x = .ok p) :
    ∀ a ∈ p, Hex24 a.raw := by
  cases x with
  | none =>
    obtain rfl := Except.ok.inj h
    simp
  | some s =>
    simp only [parsePseudo] at h
    cases hn : PseudoId.new s with
    | error e => rw [hn] at h; cases h
    | ok q =>
      rw [hn] at h
      obtain rfl := Except.ok.inj h
      simpa using new_ok hn

/-- A row that was read has a pseudonym as its author, if any. -/
theorem author_hex {r : UniformPgRow} {u : UniformRow} (h : rowFromPg r = .ok u) :
    ∀ a ∈ u.authorUserPseudoId, Hex24 a.raw := by
  obtain ⟨p, -, h⟩ := bind_ok h
  obtain ⟨a, ha, h⟩ := bind_ok h
  obtain rfl := Except.ok.inj h
  exact parsePseudo_hex ha

section
variable {β : Type} {rt : ResourceTable} {sid : Uuid} {svc : String}

/-- The row that is entered may name anybody as its speaker; what follows runs
only if it reads back. -/
theorem follows_insertRow {inp : CreateInput} {etag : ETag} {f : UniformRow → Handler β}
    (h : ∀ u : UniformRow, (∀ a ∈ u.authorUserPseudoId, Hex24 a.raw) → Follows (f u)) :
    Follows (insertRowInTx rt sid svc inp etag >>= f) := by
  rw [insertRowInTx, bind_assoc]
  refine Handler.follows_fetchOne rfl (fun _ _ _ => trivial) (fun _ _ _ _ => trivial) fun rows t x ht hx => ?_
  obtain ⟨⟨⟨env, snap, alive, cur, ws, hrun⟩, -, hclean⟩, -⟩ := ht
  refine Handler.follows_ofResult (fun _ _ => trivial) fun u hu => ?_
  obtain ⟨r, -, -, -, -, rfl, -⟩ := insert_ok hrun
  have hmem := (uniformT rt).mem_rows.1 (List.mem_of_mem_head? hx)
  have hone := List.mem_singleton.1 hmem
  obtain rfl : t = false := by
    refine hclean fun y hy => ?_
    rw [List.mem_singleton.1 hy, ← hone]
    exact reads_pseudonymous.1 ⟨u, hu⟩
  exact h u (author_hex hu)

theorem follows_insertRows {inputs : List CreateInput} : ∀ {f : List UniformRow → Handler β},
    (∀ us : List UniformRow, (∀ u ∈ us, ∀ a ∈ u.authorUserPseudoId, Hex24 a.raw) → Follows (f us)) →
    Follows (Uniform.insertRows rt sid svc inputs >>= f) := by
  induction inputs with
  | nil => exact fun h => h [] (by simp)
  | cons inp rest ih =>
    intro f h
    simp only [Uniform.insertRows, bind_assoc, pure_bind]
    refine keeps_outer fun etag => follows_insertRow fun u hu => ih fun us hus => ?_
    exact h (u :: us) (by simpa using ⟨hu, hus⟩)

theorem follows_bulkInsert {inputs : List CreateInput} {f : BulkResult → Handler β}
    (h : ∀ res : BulkResult, (∀ u ∈ res.inserted, ∀ a ∈ u.authorUserPseudoId, Hex24 a.raw) → Follows (f res)) :
    Follows (bulkInsert rt sid svc inputs >>= f) := by
  rw [bulkInsert]
  split
  · exact h _ (by simp)
  · simp only [bind_assoc, pure_bind]
    refine keeps_ofResult fun _ _ => keeps_begin ?_
    refine keeps_fetchAll (select_preserves _) fun existing _ => ?_
    exact follows_insertRows fun us hus => keeps_commit (h _ hus)

theorem follows_announce {g : Int} {rows : List UniformRow} (hrows : ∀ u ∈ rows, ∀ a ∈ u.authorUserPseudoId, Hex24 a.raw)
    {k : Handler β} (h : Follows k) : Follows (UniformRoutes.announce rt svc sid g rows >>= fun _ => k) := by
  induction rows with
  | nil => exact h
  | cons u rest ih =>
    simp only [UniformRoutes.announce, bind_assoc]
    refine follows_append (fun s hs => ?_) (keeps_outer fun _ => keeps_outer fun _ => ih fun v hv => hrows v (by simp [hv]))
    obtain ⟨a, ha, rfl⟩ := Option.map_eq_some_iff.1 hs
    exact hrows u (by simp) a ha

theorem follows_found {via : Via} {id : Uuid} {q : Sql} (hq : q.Preserves Pseudonymous) {f : UniformPgRow → Handler β}
    (h : ∀ r, Follows (f r)) : Follows (found via rt id q >>= f) := by
  rw [found, bind_assoc]
  exact keeps_fetchOptional hq keeps_throw fun r _ => h r

end

theorem bulkCreate_follows (rt : ResourceTable) (svc : String) (sid : Uuid) (req : UniformRoutes.BulkRequest) :
    Follows (UniformRoutes.bulkCreate rt svc sid req) := by
  rw [UniformRoutes.bulkCreate]
  refine keeps_guildId fun g => follows_bulkInsert fun res hres => ?_
  exact follows_announce hres (keeps_pure)

theorem patchRow_follows (rt : ResourceTable) (svc : String) (id : Uuid) (headers : HeaderMap) (body : PatchInput) :
    Follows (UniformRoutes.patchRow rt svc id headers body) := by
  rw [UniformRoutes.patchRow, Uniform.patch]
  simp only [bind_assoc, pure_bind]
  refine keeps_begin (follows_found (forUpdate_preserves _) fun existing => ?_)
  refine keeps_ofResult fun row _ => keeps_refuseIf fun _ => (keeps_outer fun etag => ?_)
  refine keeps_fetchOne (updateSql_preserves rt id _ _ etag) fun r _ => ?_
  refine keeps_ofResult fun out hout => keeps_commit (follows_append (fun s hs => ?_) ?_)
  · obtain ⟨a, ha, rfl⟩ := Option.map_eq_some_iff.1 hs
    exact author_hex hout a ha
  · exact keeps_guildId fun g => keeps_outer fun _ => keeps_outer fun _ => keeps_pure

theorem deleteRow_follows (rt : ResourceTable) (svc : String) (id : Uuid) : Follows (UniformRoutes.deleteRow rt svc id) := by
  rw [UniformRoutes.deleteRow, Uniform.delete, bind_assoc]
  refine follows_found (delete_preserves _) fun r => keeps_ofResult fun row _ => ?_
  exact follows_append (no_actor rfl) (keeps_guildId fun g => keeps_outer fun _ => keeps_send)

/-! ### Mute ranges and the wipes -/

theorem createMute_follows (svc : String) (sid : Uuid) (pid : String) (input : MuteRanges.CreateMuteRange) :
    Follows (MuteRoutes.createMute svc sid pid input) := by
  rw [MuteRoutes.createMute, Handler.pseudoId]
  refine keeps_ofResult fun pid hpid => ?_
  rw [MuteRanges.create, bind_assoc]
  refine keeps_refuseIf fun _ => ?_
  refine keeps_fetchOne (preserves_pinned (MuteRanges.createSql_writes _ _ _) (by simp [pinned])) fun row _ => ?_
  refine follows_append (an_actor rfl (named hpid)) (keeps_guildId fun g => ?_)
  exact keeps_outer fun _ => keeps_outer fun _ => keeps_pure

theorem deleteMute_follows (svc : String) (sid : Uuid) (pid : String) (rangeId : Uuid) :
    Follows (MuteRoutes.deleteMute svc sid pid rangeId) := by
  rw [MuteRoutes.deleteMute, Handler.pseudoId]
  refine keeps_ofResult fun pid hpid => ?_
  rw [MuteRanges.deleteOne, bind_assoc]
  refine keeps_fetchOptional (delete_preserves _) keeps_throw fun row _ => ?_
  refine follows_append (an_actor rfl (named hpid)) (keeps_guildId fun g => ?_)
  exact keeps_outer fun _ => keeps_send

section
variable {β : Type} {sid : Uuid} {pid : PseudoId}

theorem follows_deleteAudioRows {f : List String × Nat × Nat → Handler β} (h : ∀ x, Follows (f x)) :
    Follows (MuteRoutes.deleteAudioRows sid pid >>= f) := by
  simp only [MuteRoutes.deleteAudioRows, Chunks.deleteForParticipant, Uniform.deleteForParticipantSegments,
    MuteRanges.deleteForParticipant, bind_assoc, pure_bind]
  refine keeps_fetchAll (delete_preserves _) fun _ _ => ?_
  exact keeps_execute (delete_preserves _) fun _ => keeps_execute (delete_preserves _) fun _ => h _

theorem follows_markWiped {k : Handler β} (h : Follows k) : Follows (Participants.markWiped sid pid >>= fun _ => k) := by
  rw [Participants.markWiped, bind_assoc]
  refine keeps_execute ?_ fun _ => h
  exact preserves_pinned (Participants.markWipedSql_writes sid pid) (by simp [pinned])

end

theorem wipe_follows (svc : String) (sid : Uuid) (pid : String) :
    Follows (MuteRoutes.wipeParticipantAudio svc sid pid) := by
  rw [MuteRoutes.wipeParticipantAudio, Handler.pseudoId]
  refine keeps_ofResult fun pid hpid => keeps_begin (follows_deleteAudioRows fun x => ?_)
  refine follows_appendTx (an_actor rfl (named hpid)) (keeps_commit (follows_markWiped (keeps_sweep ?_)))
  exact keeps_guildId fun g => keeps_outer fun _ => keeps_outer fun _ => keeps_pure

/-! ### Consent tokens -/

theorem createToken_follows (svc : String) (input : ConsentRoutes.CreateTokenRequest) :
    Follows (ConsentRoutes.createToken svc input) := by
  rw [ConsentRoutes.createToken, ConsentTokens.create]
  refine keeps_returned (createToken_preserves _ _ _) fun ct rows hret hmem hct => ?_
  -- the audit row names the pseudonym of the body: it is the one of the token
  obtain ⟨env, snap, alive, cur, ws, hrun⟩ := hret
  obtain ⟨t, ht, -, -, -, rfl, -⟩ := insert_ok hrun
  obtain rfl := Except.ok.inj ht
  obtain rfl : ct = ConsentTokens.freshRow input.sessionId input.participantId input.pseudoId env :=
    consentTokensT.put_inj (List.mem_singleton.1 hmem)
  exact follows_append (an_actor rfl hct) (keeps_pure)

section
variable {β : Type} {token : Uuid} {f : ConsentTokens.WithContext → Handler β}

theorem follows_validated (h : ∀ ctx, Hex24 ctx.participant.pseudoId.raw → Follows (f ctx)) :
    Follows (ConsentRoutes.validated token >>= f) := by
  rw [ConsentRoutes.validated, ConsentTokens.validate]
  simp only [bind_assoc]
  refine keeps_fetchOptional (select_preserves _) keeps_throw fun ct _ => ?_
  simp only [bind_assoc, pure_bind]
  refine keeps_fetchOne (select_preserves _) fun session _ => ?_
  exact keeps_fetchOne (select_preserves _) fun p hp => h ⟨ct, session, p⟩ hp

end

theorem getConsent_follows (token : Uuid) : Follows (ConsentRoutes.getConsent token) := by
  rw [ConsentRoutes.getConsent, ← bind_pure (ConsentRoutes.validated token)]
  exact follows_validated fun _ _ => keeps_pure

theorem patchByToken_follows (token : Uuid) (input : ConsentRoutes.PatchConsent) :
    Follows (ConsentRoutes.patchConsent token input) := by
  rw [ConsentRoutes.patchConsent]
  refine follows_validated fun ctx hctx => ?_
  have finish : ∀ p : Participant, Hex24 p.pseudoId.raw →
      Follows (AuditLog.append (ConsentRoutes.patchedEntry ctx.session.id ctx.participant.id p input) >>= fun _ =>
        pure p) := fun p hp => follows_append (an_actor rfl hp) (keeps_pure)
  have flags : ∀ p : Participant, Hex24 p.pseudoId.raw →
      Follows (ConsentRoutes.patchFlags ctx.participant.id p input >>= fun updated =>
        AuditLog.append (ConsentRoutes.patchedEntry ctx.session.id ctx.participant.id updated input) >>= fun _ =>
          pure updated) := by
    intro p hp
    rw [ConsentRoutes.patchFlags]
    split
    · exact follows_updateLicense finish
    · exact finish p hp
  cases hs : input.consentScope with
  | none => exact flags ctx.participant hctx
  | some scope => exact follows_updateConsent flags

theorem deleteAudio_follows (token : Uuid) : Follows (ConsentRoutes.deleteAudio token) := by
  rw [ConsentRoutes.deleteAudio]
  refine follows_validated fun ctx hctx => keeps_begin (follows_deleteAudioRows fun x => ?_)
  refine follows_appendTx (an_actor rfl hctx) (keeps_commit (follows_markWiped (keeps_sweep ?_)))
  rw [ConsentRoutes.guildId, bind_assoc]
  refine keeps_fetchOne (select_preserves _) fun s _ => ?_
  exact keeps_outer fun _ => keeps_send

/-! ## Runs -/

theorem handle_follows (st : AppState) (req : Request) : Follows (handle st req) := by
  cases req with
  | createSession svc input => exact keeps_map (create_follows svc input)
  | patchSession svc id body => exact keeps_map (patch_follows svc id body)
  | resume svc id body => exact keeps_map (resume_follows st svc id body)
  | deleteCascade svc id => exact keeps_map (deleteCascade_follows svc id)
  | upload svc r => exact keeps_map (upload_follows st svc r)
  | addOne svc sid input => exact keeps_map (addOne_follows svc sid input)
  | addBatch svc sid ps => exact keeps_map (addBatch_follows svc sid ps)
  | patchParticipantConsent svc id input => exact keeps_map (patchConsent_follows svc id input)
  | patchLicense svc id input => exact keeps_map (patchLicense_follows svc id input)
  | upsertUser svc pid => exact keeps_map (upsertUser_follows svc pid)
  | postDisplay svc pid input => exact keeps_map (postDisplay_follows svc pid input)
  | patchUser svc pid isAdmin => exact keeps_map (patchUser_follows svc pid isAdmin)
  | grant req => exact keeps_map (grant_follows st req)
  | replaceMetadata svc id body => exact keeps_map (replaceMetadata_follows svc id body)
  | shallowPatch svc id headers body => exact keeps_map (shallowPatch_follows svc id headers body)
  | bulkCreate rt svc sid req => exact keeps_map (bulkCreate_follows rt svc sid req)
  | patchRow rt svc id headers body => exact keeps_map (patchRow_follows rt svc id headers body)
  | deleteRow rt svc id => exact keeps_map (deleteRow_follows rt svc id)
  | createMute svc sid pid input => exact keeps_map (createMute_follows svc sid pid input)
  | deleteMute svc sid pid rangeId => exact keeps_map (deleteMute_follows svc sid pid rangeId)
  | wipeParticipantAudio svc sid pid => exact keeps_map (wipe_follows svc sid pid)
  | createToken svc input => exact keeps_map (createToken_follows svc input)
  | getConsent token => exact keeps_map (getConsent_follows token)
  | patchConsent token input => exact keeps_map (patchByToken_follows token input)
  | deleteAudio token => exact keeps_map (deleteAudio_follows token)

section
variable {ι : Type} [DecidableEq ι] {guard : Clients ι Row Env Io Outcome → ι → Env → Prop}
  {c : Clients ι Row Env Io Outcome}

/-- Rows that name only pseudonyms at the start do so in every state reached. -/
theorem run_pseudonymous {st : AppState} {reqs : ι → Request} {sv : Sv ι} (hdb : ∀ r ∈ sv.db, Pseudonymous r)
    (h : Run machine guard (Service.start st reqs sv) c) : ∀ r ∈ c.shared.db, Pseudonymous r := by
  have hfollows : ∀ i, Follows (handle st (reqs i)) := fun i => handle_follows st (reqs i)
  exact Run.rows_told hdb (fun i => .closed rfl rfl) (fun _ _ _ _ _ _ _ _ _ _ _ => trivial) hfollows h

end

/-- Rows that name only pseudonyms at the start do so in every state reached,
so every stored segment, beat and scene reads back. -/
theorem only_pseudonyms {ι : Type} [DecidableEq ι] (st : AppState) (reqs : ι → Request) (sv : Sv ι)
    (hdb : ∀ r ∈ sv.db, Pseudonymous r) {c : Clients ι Row Env Io Outcome}
    (h : Run machine (fun _ _ _ => True) (Service.start st reqs sv) c) :
    (∀ r ∈ c.shared.db, Pseudonymous r) ∧
      ∀ rt r, Row.uniform rt r ∈ c.shared.db → ∃ u, rowFromPg r = .ok u := by
  have hrows : ∀ r ∈ c.shared.db, Pseudonymous r := run_pseudonymous hdb h
  exact ⟨hrows, fun rt r hr => reads_pseudonymous.2 (hrows _ hr)⟩

def segment (clientId speaker : String) : CreateInput :=
  { clientId := clientId, startMs := 0, endMs := 1, pseudoId := some ⟨speaker⟩, text := some "" }

/-- A participant joins, and then two segments arrive: one of that speaker,
and one of the mixed audio, which a request body may name. -/
def sampleRequests : Fin 3 → Request
  | 0 => .addOne "bot" Sample.sessionId { pseudoId := ⟨Sample.speaker⟩ }
  | 1 => .bulkCreate .segments "bot" Sample.sessionId { segments := some [segment "a" Sample.speaker] }
  | 2 => .bulkCreate .segments "bot" Sample.sessionId { segments := some [segment "b" MIXED_PSEUDO_ID] }

theorem only_pseudonyms_sample : ∃ c : Clients (Fin 3) Row Env Io Outcome,
    (errorOf (c.returned 2)).isSome ∧ ∃ r, Row.uniform .segments r ∈ c.shared.db ∧
      pseudoColumn r.columns = some Sample.speaker ∧ ∃ u, rowFromPg r = .ok u := by
  have hrun : ((Service.start Sample.state sampleRequests (Sample.server [.session Sample.session])).play machine
      (Sample.moves 0 [(0, 4), (1, 13), (2, 9)])).map (fun c => ((errorOf (c.returned 2)).isSome,
        ((uniformT .segments).rows c.shared.db).map fun r => pseudoColumn r.columns)) =
      some (true, [some Sample.speaker]) := by decide +kernel
  obtain ⟨c, hc, hr⟩ := Option.map_eq_some_iff.1 hrun
  obtain ⟨herr, hrows⟩ := Prod.mk.inj hr
  have hspeaker : some Sample.speaker ∈ ((uniformT .segments).rows c.shared.db).map fun r => pseudoColumn r.columns := by
    rw [hrows]; simp
  obtain ⟨r, hmem, hspeaker⟩ := List.mem_map.1 hspeaker
  have hmem := (uniformT .segments).mem_rows.1 hmem
  have hdb : ∀ r ∈ [Row.session Sample.session], Pseudonymous r := by simp [Pseudonymous]
  have hreads := (only_pseudonyms Sample.state sampleRequests (Sample.server [.session Sample.session]) hdb
    (Run.play (Config.guarded_of_all (fun _ _ _ => trivial) _) .nil hc)).2 .segments r hmem
  exact ⟨c, herr, r, hmem, hspeaker, hreads⟩

end DataApi.Pseudonyms
