/-
Whose audio a request deletes: the speaker its path names, or the one its
consent token stands for. A handler that has let a token pass has read its row
and the participant's (`follows_validated`).
-/
import DataApi.Lib.Fetched
import DataApi.Rules

namespace DataApi

open Relational ReadCommitted Resumption Handler

/-- The token is for this session, and for the participant of this pseudonym. -/
def SpeaksFor (stored : Row → Prop) (token sid : Uuid) (raw : String) : Prop :=
  ∃ ct p, stored (.consentToken ct) ∧ ct.token = token ∧ ct.sessionId = sid ∧
    stored (.participant p) ∧ p.id = ct.participantId ∧ p.pseudoId.raw = raw

/-- The request deletes the audio of this pseudonym in this session. -/
def Request.Wipes (stored : Row → Prop) : Request → Uuid → String → Prop
  | .wipeParticipantAudio _ sid' raw', sid, raw => sid = sid' ∧ raw = raw'
  | .deleteAudio token, sid, raw => SpeaksFor stored token sid raw
  | _, _, _ => False

section
variable {σ β τ : Type} {P : Protocol (@Answer Row Key Uniq Env Io World _ _) σ} {Q : σ → Except AppError β → Prop} {s : σ}
  {stored : Row → Prop} {T : Table Row τ}

/-- A protocol in which reading changes nothing. -/
structure Reading (P : Protocol (@Answer Row Key Uniq Env Io World _ _) σ) (Q : σ → Except AppError β → Prop) (s : σ) : Prop where
  may : ∀ p, P.may s (.query .pool (.select p))
  next : ∀ p r t, P.next s (.query .pool (.select p)) r t → t = s
  fails : ∀ e, Q s (.error e)

/-- A row that was read satisfies the WHERE clause, and is stored. -/
theorem fetched_row {p : Env → τ → Bool} {rows : Db} (h : Fetched stored (.query .pool (T.selectAt p) : Operation) (.ok rows))
    {x : τ} (hx : (T.rows rows).head? = some x) : (∃ e, p e x = true) ∧ stored (T.put x) := by
  obtain ⟨e, hrows⟩ := h
  obtain ⟨hp, hstored⟩ := hrows _ (T.mem_rows.1 (List.mem_of_mem_head? hx))
  exact ⟨⟨e, by simpa using hp⟩, hstored⟩

theorem follows_read (hP : Reading P Q s) {p : Env → τ → Bool} {f : τ → Handler β}
    (hf : ∀ x, (∃ e, p e x = true) → stored (T.put x) → Prog.Follows (P.told (Fetched stored)) Q s (f x).run) :
    Prog.Follows (P.told (Fetched stored)) Q s (fetchOne .pool T (T.selectAt p) >>= f).run := by
  refine Handler.follows_fetchOne (hP.may _) (fun e t ht => ?_) (fun rows t ht _ => ?_) fun rows t x ht hx => ?_
  · rw [hP.next _ _ t ht.1]; exact hP.fails _
  · rw [hP.next _ _ t ht.1]; exact hP.fails _
  · rw [hP.next _ _ t ht.1]
    obtain ⟨hp, hstored⟩ := fetched_row ht.2 hx
    exact hf x hp hstored

/-- What begins with `validated` goes on for the speaker of the token. -/
theorem follows_validated (hP : Reading P Q s) {token : Uuid} {f : ConsentTokens.WithContext → Handler β}
    (hf : ∀ ctx, SpeaksFor stored token ctx.session.id ctx.participant.pseudoId.raw →
      Prog.Follows (P.told (Fetched stored)) Q s (f ctx).run) :
    Prog.Follows (P.told (Fetched stored)) Q s (ConsentRoutes.validated token >>= f).run := by
  rw [ConsentRoutes.validated, ConsentTokens.validate]
  simp only [bind_assoc]
  refine Handler.follows_fetchOptional (hP.may _) (fun e t ht => ?_) fun rows t ht => ?_
  · rw [hP.next _ _ t ht.1]; exact hP.fails _
  rw [hP.next _ _ t ht.1]
  cases hct : (consentTokensT.rows rows).head? with
  | none => exact hP.fails _
  | some ct =>
    obtain ⟨⟨e, hlive⟩, hstored⟩ := fetched_row ht.2 hct
    simp only [bind_assoc, pure_bind]
    refine follows_read (p := fun _ => Sessions.byId ct.sessionId) hP fun x hx _ => ?_
    refine follows_read (p := fun _ => Participants.byId ct.participantId) hP fun p hp hpstored => hf _ ?_
    obtain ⟨-, hsid⟩ := hx
    obtain ⟨-, hid⟩ := hp
    simp only [ConsentTokens.live, Bool.and_eq_true, decide_eq_true_eq] at hlive
    simp only [Sessions.byId, Participants.byId, decide_eq_true_eq] at hsid hid
    exact ⟨ct, p, hstored, hlive.1.1, hsid.symm, hpstored, hid, rfl⟩

end
end DataApi
