/-
Which tables each statement of the repository writes. Users, sessions and
participants are the only tables something references, so a DELETE on any
other stays in its table.
-/
import DataApi.Lib.Statements
import DataApi.Db.Metadata
import DataApi.Db.Participants
import DataApi.Db.Uniform

namespace DataApi

open Relational

/-- `q` writes rows of the tables in `D` only. -/
def Writes (D : TableName → Prop) (q : Sql) : Prop := q.WritesIn fun k => D (Key.table k)

theorem Writes.mono {D D' : TableName → Prop} {q : Sql} (h : Writes D q) (hD : ∀ n, D n → D' n) : Writes D' q :=
  Stmt.WritesIn.mono h fun _ hk => hD _ hk

/-- Tables that other tables reference. -/
def TableName.isParent : TableName → Bool
  | .users | .sessions | .participants => true
  | _ => false

theorem ref_isParent {r : Row} {k : Key} (h : k ∈ refs r) : k.table.isParent = true := by
  cases r <;> simp only [refs, Row.refs, List.mem_cons, List.not_mem_nil, or_false] at h
  all_goals first | exact h.elim | (rcases h with rfl | rfl | rfl <;> rfl)

theorem ref_participant {r : Row} {k : Key} (h : k ∈ refs r) (hk : k.table = .participants) :
    ∃ ct, r = .consentToken ct ∧ k = .participant ct.participantId := by
  cases r with
  | consentToken ct =>
    simp only [refs, Row.refs, List.mem_cons, List.not_mem_nil, or_false] at h
    rcases h with rfl | rfl | rfl
    · cases hk
    · exact ⟨ct, rfl, rfl⟩
    · cases hk
  | _ =>
    simp only [refs, Row.refs, List.mem_cons, List.not_mem_nil, or_false] at h <;>
      rcases h with rfl | rfl | rfl <;> cases hk

/-- A row of a table nothing references takes nothing with it. -/
theorem deleteLeaf_writes {τ : Type} {T : Table Row τ} {n : TableName} (hn : n.isParent = false)
    (h : ∀ t, (key (T.put t) : Key).table = n) (p : τ → Bool) : Writes (· = n) (T.delete p) := by
  refine delete_writesIn h (fun r k hk hkn => ?_) p
  have := ref_isParent hk
  rw [hkn, hn] at this
  cases this

theorem slots_key {k : Key} {r : Row} (h : Lockable.pk k ∈ (slots r : List (Lockable Key Uniq))) : key r = k :=
  pk_mem_slots.1 h

/-- An upsert on the primary key meets rows of its own table. -/
theorem onPk_key {x e : Row} {l : Lockable Key Uniq} (hl : l ∈ slots x) (ha : onPk l = true) (he : l ∈ slots e) :
    key e = key x := by
  cases l with
  | pk k => rw [slots_key he, slots_key hl]
  | row k => cases ha
  | uniq u => cases ha

theorem participant_of_uniq {r : Row} {sid : Uuid} {pid : PseudoId} (h : Uniq.participant sid pid ∈ uniques r) :
    ∃ p, r = .participant p ∧ p.sessionId = sid ∧ p.pseudoId = pid := by
  cases r with
  | participant p =>
    simp only [uniques, Row.uniques, List.mem_singleton, Uniq.participant.injEq] at h
    exact ⟨p, rfl, h.1.symm, h.2.symm⟩
  | chunk c => simp [uniques, Row.uniques] at h
  | uniform rt r => simp [uniques, Row.uniques] at h
  | _ => simp [uniques, Row.uniques] at h

/-! ## The audit log and sessions -/

theorem AuditLog.appendSql_writes (e : AuditLog.Entry) : Writes (· = .audit) (AuditLog.appendSql e) :=
  tableInsert_writesIn (fun _ => rfl) _

theorem Sessions.createSql_writes (input : Sessions.CreateSession) :
    Writes (· = .sessions) (Sessions.createSql input) := tableInsert_writesIn (fun _ => rfl) _

/-! ## Chunks -/

theorem Chunks.insertSql_writes (x : Chunks.Insert) : Writes (· = .chunks) (Chunks.insertSql x) :=
  tableInsert_writesIn (fun _ => rfl) _

theorem Chunks.setKeySql_writes (sid : Uuid) (pid : PseudoId) (seq : Int) (key : String) :
    Writes (· = .chunks) (Chunks.setKeySql sid pid seq key) := update_writesIn (fun _ => rfl) _ _ _

theorem Chunks.deleteForSessionSql_writes (sid : Uuid) : Writes (· = .chunks) (Chunks.deleteForSessionSql sid) :=
  deleteLeaf_writes rfl (fun _ => rfl) _

/-! ## Segments, beats, scenes and mute ranges -/

theorem Uniform.deleteAllForSessionSql_writes (rt : ResourceTable) (sid : Uuid) :
    Writes (· = .uniform rt) (Uniform.deleteAllForSessionSql rt sid) := deleteLeaf_writes rfl (fun _ => rfl) _

theorem Uniform.deleteForParticipantSegmentsSql_writes (sid : Uuid) (pid : PseudoId) :
    Writes (· = .uniform .segments) (Uniform.deleteForParticipantSegmentsSql sid pid) :=
  deleteLeaf_writes rfl (fun _ => rfl) _

theorem MuteRanges.deleteForSessionSql_writes (sid : Uuid) :
    Writes (· = .mutes) (MuteRanges.deleteForSessionSql sid) := deleteLeaf_writes rfl (fun _ => rfl) _

theorem MuteRanges.deleteForParticipantSql_writes (sid : Uuid) (pid : PseudoId) :
    Writes (· = .mutes) (MuteRanges.deleteForParticipantSql sid pid) := deleteLeaf_writes rfl (fun _ => rfl) _

theorem MuteRanges.createSql_writes (sid : Uuid) (pid : PseudoId) (input : MuteRanges.CreateMuteRange) :
    Writes (· = .mutes) (MuteRanges.createSql sid pid input) := tableInsert_writesIn (fun _ => rfl) _

/-! ## Metadata -/

theorem Metadata.upsertSql_writes (sid : Uuid) (blob : Json) (etag : ETag) :
    Writes (· = .metadata) (Metadata.upsertSql sid blob etag) := by
  refine insert_writesIn fun env snap xs hxs x hx => ?_
  simp only [Except.ok.injEq] at hxs
  subst hxs
  obtain rfl := List.mem_singleton.1 hx
  refine ⟨rfl, fun a set ho e l hl ha he => ?_⟩
  simp only [OnConflict.doUpdate.injEq] at ho
  obtain ⟨rfl, rfl⟩ := ho
  cases l with
  | pk k => rw [slots_key he, ← slots_key hl]; rfl
  | row k => cases ha
  | uniq u => cases ha

theorem Metadata.deleteSql_writes (sid : Uuid) : Writes (· = .metadata) (Metadata.deleteSql sid) :=
  deleteLeaf_writes rfl (fun _ => rfl) _

/-! ## Users and participants -/

theorem Users.upsertSql_writes (pid : PseudoId) : Writes (· = .users) (Users.upsertSql pid) := by
  refine insert_writesIn fun env snap xs hxs x hx => ?_
  simp only [Except.map, Except.ok.injEq] at hxs
  subst hxs
  obtain rfl := List.mem_singleton.1 hx
  refine ⟨rfl, fun a set ho e l hl ha he => ?_⟩
  simp only [Users.upsertConflict, OnConflict.doUpdate.injEq] at ho
  obtain ⟨rfl, rfl⟩ := ho
  rw [onPk_key hl ha he]; rfl

theorem Users.setAdminSql_writes (pid : PseudoId) (isAdmin : Bool) :
    Writes (· = .users) (Users.setAdminSql pid isAdmin) := by
  refine insert_writesIn fun env snap xs hxs x hx => ?_
  simp only [Except.map, Except.ok.injEq] at hxs
  subst hxs
  obtain rfl := List.mem_singleton.1 hx
  refine ⟨rfl, fun a set ho e l hl ha he => ?_⟩
  simp only [OnConflict.doUpdate.injEq] at ho
  obtain ⟨rfl, rfl⟩ := ho
  rw [onPk_key hl ha he]; rfl

theorem DisplayNames.upsertSql_writes (pid : PseudoId) (input : DisplayNames.UpsertDisplayName) :
    Writes (· = .displayNames) (DisplayNames.upsertSql pid input) := by
  refine insert_writesIn fun env snap xs hxs x hx => ?_
  simp only [Except.ok.injEq] at hxs
  subst hxs
  obtain rfl := List.mem_singleton.1 hx
  refine ⟨rfl, fun a set ho e l hl ha he => ?_⟩
  simp only [OnConflict.doUpdate.injEq] at ho
  obtain ⟨rfl, rfl⟩ := ho
  rw [onPk_key hl ha he]; rfl

/-- Where a participant row stands in the way, it is of the same session and
pseudonym. -/
theorem onUnique_participant {p : Participant} {e : Row} {l : Lockable Key Uniq}
    (hl : l ∈ slots (Row.participant p)) (ha : onUnique l = true) (he : l ∈ slots e) :
    ∃ p', e = .participant p' ∧ p'.sessionId = p.sessionId ∧ p'.pseudoId = p.pseudoId := by
  cases l with
  | pk k => cases ha
  | row k => cases ha
  | uniq u =>
    have hu : u = .participant p.sessionId p.pseudoId := by
      simpa [slots, uniques, Row.uniques] using hl
    subst hu
    have : Uniq.participant p.sessionId p.pseudoId ∈ uniques e := by
      simpa [slots] using he
    exact participant_of_uniq this

theorem Participants.addSql_writes (sid : Uuid) (input : Participants.AddParticipant) :
    Writes (fun n => n = .users ∨ n = .participants) (Participants.addSql sid input) := by
  refine insert_writesIn fun env snap xs hxs x hx => ?_
  simp only [Except.ok.injEq] at hxs
  subst hxs
  rcases List.mem_cons.1 hx with rfl | hx
  · refine ⟨.inl rfl, fun a set ho e l hl ha he => .inl ?_⟩
    simp only [Users.upsertConflict, OnConflict.doUpdate.injEq] at ho
    obtain ⟨rfl, rfl⟩ := ho
    rw [onPk_key hl ha he]; rfl
  · obtain rfl := List.mem_singleton.1 hx
    refine ⟨.inr rfl, fun a set ho e l hl ha he => .inr ?_⟩
    simp only [Participants.rejoin, OnConflict.doUpdate.injEq] at ho
    obtain ⟨rfl, rfl⟩ := ho
    obtain ⟨p', rfl, _⟩ := onUnique_participant hl ha he
    rfl

theorem Participants.seedUsersSql_writes (inputs : List Participants.AddParticipant) :
    Writes (· = .users) (Participants.seedUsersSql inputs) := by
  refine insert_writesIn fun env snap xs hxs x hx => ?_
  simp only [Except.ok.injEq] at hxs
  subst hxs
  obtain ⟨input, _, rfl⟩ := List.mem_map.1 hx
  exact ⟨rfl, fun a set ho => by cases ho⟩

theorem Participants.addManySql_writes (sid : Uuid) (inputs : List Participants.AddParticipant) :
    Writes (· = .participants) (Participants.addManySql sid inputs) := by
  refine insert_writesIn fun env snap xs hxs x hx => ?_
  simp only [Except.ok.injEq] at hxs
  subst hxs
  obtain ⟨n, hn, rfl⟩ := List.mem_mapIdx.1 hx
  refine ⟨rfl, fun a set ho e l hl ha he => ?_⟩
  simp only [Participants.rejoin, OnConflict.doUpdate.injEq] at ho
  obtain ⟨rfl, rfl⟩ := ho
  obtain ⟨p', rfl, _⟩ := onUnique_participant hl ha he
  rfl

theorem Participants.markWipedSql_writes (sid : Uuid) (pid : PseudoId) :
    Writes (· = .participants) (Participants.markWipedSql sid pid) := update_writesIn (fun _ => rfl) _ _ _

/-- Deleting participants deletes their consent tokens. -/
theorem Participants.deleteForSessionSql_writes (sid : Uuid) :
    Writes (fun n => n = .participants ∨ n = .consentTokens) (Participants.deleteForSessionSql sid) := by
  refine delete_writesIn (fun _ => .inl rfl) (fun r k hk hD => ?_) _
  rcases hD with hD | hD
  · obtain ⟨ct, rfl, -⟩ := ref_participant hk hD
    exact .inr rfl
  · have hp := ref_isParent hk
    rw [hD] at hp; cases hp

end DataApi
