/-
The handlers that audit through the pool, together: each ends otherwise than
claimed exactly when a statement after its first committed change is refused
(`Late`), by the request, the tables before it and the statements that fail.
-/
import DataApi.Proofs.LateBatches
import DataApi.Proofs.LateWipes

namespace DataApi.ErrorsUnchanged

open Relational ReadCommitted Resumption Handler

/-- The handlers that audit through the pool, and what their audit rows say. -/
def tellsOf : Request → Option (Row → AuditRow → Prop)
  | .createSession svc _ => some (Tells svc "created" Named)
  | .upsertUser svc _ => some (Tells svc "upserted" Named)
  | .postDisplay svc _ _ => some (Tells svc "seen" NamedOrUser)
  | .addOne svc _ _ => some (Tells svc "added" NamedOrUser)
  | .addBatch svc sid inputs => some (Tells svc "batch_added" (OfBatch sid inputs))
  | .patchParticipantConsent svc _ _ => some (Tells svc "consent_patched" Named)
  | .patchLicense svc _ _ => some (Tells svc "license_patched" Named)
  | .replaceMetadata svc _ _ => some (Tells svc "replaced" Named)
  | .shallowPatch svc _ _ _ => some (Tells svc "merged" Named)
  | .bulkCreate _ svc _ _ => some (Tells svc "created" Named)
  | .patchRow _ svc _ _ _ => some (Tells svc "patched" Named)
  | .deleteRow _ svc _ => some (Tells svc "deleted" Named)
  | .createMute svc _ _ _ => some (Tells svc "created" Named)
  | .deleteMute svc _ _ _ => some (Tells svc "deleted" Named)
  | .wipeParticipantAudio svc _ _ => some (Tells svc "wiped" OfWipe)
  | .createToken svc _ => some (Tells svc "created" Named)
  | .patchConsent _ _ => some (Tells "consent_token" "consent_patched_via_token" Named)
  | .deleteAudio _ => some (Tells "consent_token" "wiped_via_token" OfWipe)
  | _ => none

/-- A statement after the first committed change is refused. -/
def Late (req : Request) (env : Nat → Env) (db : Db) : Prop :=
  match req with
  | .createSession _ input => LateEntry env db (.session (Sessions.createRow input (env 0)))
  | .upsertUser _ pid => LateEntry env db (.user (Users.freshRow pid false (env 0)))
  | .postDisplay _ raw input => ∃ pid, PseudoId.new raw = .ok pid ∧ LateDisplay env db pid input
  | .addOne _ sid input => LateAdd env db sid input
  | .addBatch _ sid inputs => LateBatch env db sid inputs
  | .patchParticipantConsent _ id input =>
    Participants.validScope input.consentScope = true ∧ LateSet env db id (Participants.setConsent input)
  | .patchLicense _ id input => LateSet env db id (Participants.setLicense input)
  | .replaceMetadata _ id body => LateReplace env db id body
  | .shallowPatch _ id headers body => LateMerge env db id headers body
  | .bulkCreate rt _ sid req => LateBulk env db rt sid (req.take rt)
  | .patchRow rt _ id headers body => ∃ r, RowPatches.stored rt id db = some r ∧ LatePatch env db rt headers body r
  | .deleteRow rt _ id => (env 0).fails = false ∧
      ∃ r, RowPatches.stored rt id db = some r ∧ (¬EtagHistory.Reads r ∨ LateTold env 1 db)
  | .createMute _ sid raw input => ∃ pid, PseudoId.new raw = .ok pid ∧ LateMute env db sid pid input
  | .deleteMute _ sid raw rangeId => ∃ pid, PseudoId.new raw = .ok pid ∧ LateUnmute env db sid pid rangeId
  | .wipeParticipantAudio _ sid raw => ∃ pid, PseudoId.new raw = .ok pid ∧ LateWipe env 0 db sid pid
  | .createToken _ input => LateEntry env db
      (.consentToken (ConsentTokens.freshRow input.sessionId input.participantId input.pseudoId (env 0)))
  | .patchConsent token input => (∀ n ∈ [0, 1, 2], (env n).fails = false) ∧
      ∃ ctx, context? token (env 0).now db = some ctx ∧ LateConsent env db ctx.participant input
  | .deleteAudio token => (∀ n ∈ [0, 1, 2], (env n).fails = false) ∧
      ∃ ctx, context? token (env 0).now db = some ctx ∧ LateWipe env 3 db ctx.session.id ctx.participant.pseudoId
  | _ => False

theorem handle_late (st : AppState) {req : Request} {tells : Row → AuditRow → Prop} (h : tellsOf req = some tells)
    (env : Nat → Env) {db : Db} (hdb : Intact db) (w : World) :
    Spoils tells db env 0 ⟨none, db, w⟩ (handle st req) ↔ Late req env db := by
  cases req with
  | createSession svc input => cases h; exact spoils_map.trans (create_late svc input)
  | upsertUser svc pid => cases h; exact spoils_map.trans (upsertUser_late hdb svc pid)
  | postDisplay svc raw input => cases h; exact spoils_map.trans (postDisplay_late hdb svc raw input)
  | addOne svc sid input => cases h; exact spoils_map.trans (addOne_late hdb svc sid input)
  | addBatch svc sid inputs => cases h; exact spoils_map.trans (addBatch_late hdb svc sid inputs)
  | patchParticipantConsent svc id input => cases h; exact spoils_map.trans (patchParticipantConsent_late hdb svc id input)
  | patchLicense svc id input => cases h; exact spoils_map.trans (patchLicense_late hdb svc id input)
  | replaceMetadata svc id body => cases h; exact spoils_map.trans (replaceMetadata_late hdb svc id body)
  | shallowPatch svc id headers body => cases h; exact spoils_map.trans (shallowPatch_late hdb svc id headers body)
  | bulkCreate rt svc sid req => cases h; exact spoils_map.trans (bulkCreate_late rt svc sid req)
  | patchRow rt svc id headers body => cases h; exact spoils_map.trans (patchRow_late hdb rt svc id headers body)
  | deleteRow rt svc id => cases h; exact spoils_map.trans (deleteRow_late hdb rt svc id)
  | createMute svc sid raw input => cases h; exact spoils_map.trans (createMute_late svc sid raw input)
  | deleteMute svc sid raw rangeId => cases h; exact spoils_map.trans (deleteMute_late hdb svc sid raw rangeId)
  | wipeParticipantAudio svc sid raw => cases h; exact spoils_map.trans (wipeParticipantAudio_late hdb svc sid raw)
  | createToken svc input => cases h; exact spoils_map.trans (createToken_late svc input)
  | patchConsent token input => cases h; exact spoils_map.trans (patchConsent_late hdb token input)
  | deleteAudio token => cases h; exact spoils_map.trans (deleteAudio_late hdb token)
  | _ => cases h

/-- Whatever the request and the failures, and whatever the tables hold that
their definitions let in: an error has changed nothing and a success is in the
audit log, exactly unless a statement after the first committed change is
refused. -/
theorem errors_unchanged_iff (st : AppState) (x : Call) (sv : Sv Unit) (tells : Row → AuditRow → Prop)
    (h : tellsOf x.request = some tells) (hdb : Intact sv.db) :
    Sound tells sv.db (serve st x sv).1 (serve st x sv).2.db ↔ ¬Late x.request x.env sv.db := by
  rw [← handle_late st h x.env hdb sv.world]
  have hserve : ¬Sound tells sv.db (serve st x sv).1 (serve st x sv).2.db ↔
      Spoils tells sv.db x.env 0 ⟨none, sv.db, sv.world⟩ (handle st x.request) :=
    serve_ends (Q := fun a db' _ => ¬Sound tells sv.db a db')
  exact (not_iff_comm.1 hserve).symm

/-- A display name of a known source, for a pseudonym never seen. -/
def sampleSeen : Call :=
  { request := .postDisplay "bot" Sample.speaker { displayName := "Ann", source := "bot" }, env := Sample.env }

/-- It is seen, and its user is in the audit log with it. -/
theorem errors_unchanged_sample : Sound (Tells "bot" "seen" NamedOrUser) [] (serve Sample.state sampleSeen (Sample.server [])).1
    (serve Sample.state sampleSeen (Sample.server [])).2.db := by
  refine (errors_unchanged_iff Sample.state sampleSeen (Sample.server []) _ rfl (by decide)).2 ?_
  rintro ⟨pid, -, -, ⟨-, hseen⟩ | ⟨-, hf | ⟨r, hr, -⟩⟩⟩
  · exact hseen ⟨rfl, rfl, (fun d hd => by cases hd)⟩
  · cases hf
  · cases hr

/-- A display name of an unknown source, for a pseudonym never seen. -/
def sampleDisplay : Call :=
  { request := .postDisplay "bot" Sample.speaker { displayName := "Ann", source := "web" }, env := Sample.env }

/-- It is refused, and the user is there, with no word in the audit log. -/
theorem refused_display_kept : tellsOf sampleDisplay.request = some (Tells "bot" "seen" NamedOrUser) ∧
    ¬Sound (Tells "bot" "seen" NamedOrUser) [] (serve Sample.state sampleDisplay (Sample.server [])).1
      (serve Sample.state sampleDisplay (Sample.server [])).2.db := by
  have hrefused : (serve Sample.state sampleDisplay (Sample.server [])).1.isOk = false := by decide +kernel
  have hleft : (serve Sample.state sampleDisplay (Sample.server [])).2.db.map (key ·) = [.user ⟨Sample.speaker⟩] := by
    decide +kernel
  refine ⟨rfl, fun h => ?_⟩
  cases ha : (serve Sample.state sampleDisplay (Sample.server [])).1 with
  | ok r =>
    rw [ha] at hrefused
    cases hrefused
  | error e =>
    rw [ha] at h
    rw [show (serve Sample.state sampleDisplay (Sample.server [])).2.db = [] from h] at hleft
    cases hleft

end DataApi.ErrorsUnchanged
