/-
The steps of a wipe of one participant's audio, which two handlers share: rows
and audit entry in one transaction, then the flag on the participant, then the
objects. What each leaves, whether it fails or not.
-/
import DataApi.Proofs.Lifecycle
import DataApi.Proofs.Sweeps
import DataApi.Verdicts

namespace DataApi.Wipes

open Relational ReadCommitted Resumption Handler Sweeps

/-- A row of the participant's audio: a chunk, a segment or a mute range. -/
def audio (sid : Uuid) (pid : PseudoId) : Row → Bool
  | .chunk c => Chunks.ofPair sid pid c
  | .uniform .segments r => r.sessionId = sid && Uniform.pseudoColumn r.columns = some pid.raw
  | .mute m => m.sessionId = sid && m.pseudoId = pid
  | _ => false

def stamp (t : Timestamp) (p : Participant) : Participant := { p with dataWipedAt := some t }

/-- The row as a wipe at `t` leaves it. -/
def restamp (sid : Uuid) (pid : PseudoId) (t : Timestamp) (p : Participant) : Participant :=
  if Participants.ofPair sid pid p then stamp t p else p

/-! ## One statement -/

section
variable {τ : Type} {T : Table Row τ} {p : τ → Bool} {b e : Env} {db : Db} {n : TableName}

/-- An UPDATE whose rows pass their CHECK, as a map on the rows. -/
theorem answer_updateAll {set : Env → τ → τ} {hk : ∀ e, T.Keeps (set e)} (hf : e.fails = false) (hu : KeysUnique db)
    (hck : ∀ t, T.put t ∈ db → p t = true → check (T.put (set { e with now := b.now } t)) = true) :
    ∃ rows ws, answer (T.update p set hk) b e db = .ok (rows, ws) ∧
      applyAll ws db = db.map fun r => if T.is p r then T.lift (set { e with now := b.now }) r else r := by
  have hanswer : ∃ rows ws, answer (T.update p set hk) b e db = .ok (rows, ws) := answer_update_ok hf hck
  obtain ⟨rows, ws, hanswer⟩ := hanswer
  exact ⟨rows, ws, hanswer, (update_applied hu (answer_ok hanswer).2).1⟩

end

section
variable {β τ : Type} {env : Nat → Env} {n : Nat} {tx : Option (Tx Row Key Env)} {db : Db} {w : World} {b : Env}
  {vs : List (Write Row Key)} {T : Table Row τ} {p : τ → Bool} {Q : Except AppError β → Moment → Prop}

/-- A row read by itself. -/
theorem Ends.found {τ : Type} {T : Table Row τ} {p : τ → Bool} {t : τ} {f : τ → Handler β} (hf : (env n).fails = false)
    (ht : (T.rows db).find? p = some t) (h : Ends env (n + 1) ⟨tx, db, w⟩ (f t) Q) :
    Ends env n ⟨tx, db, w⟩ (Handler.fetchOne .pool T (T.select p) >>= f) Q := by
  rw [Handler.fetchOne, bind_assoc]
  refine .answered_pool (answer_select hf) ?_
  rw [T.rows_filter_is, List.head?_filter, ht]
  exact h

theorem Ends.deleteLeaf {name : TableName} {f : List Row → Handler β} (hu : KeysUnique (applyAll vs db))
    (hn : name.isParent = false) (hT : ∀ t, (key (T.put t) : Key).table = name)
    (herr : (env n).fails = true → Q (.error (.database .failure)) ⟨some ⟨b, vs⟩, db, w⟩)
    (hok : (env n).fails = false → ∀ ws, applyAll (vs ++ ws) db = (applyAll vs db).filter (fun r => !T.is p r) →
      Ends env (n + 1) ⟨some ⟨b, vs ++ ws⟩, db, w⟩ (f ((applyAll vs db).filter (T.is p))) Q) :
    Ends env n ⟨some ⟨b, vs⟩, db, w⟩ (Handler.query .tx (T.delete p) >>= f) Q := by
  cases hf : (env n).fails with
  | true =>
    rw [ends_tx, answer_fails hf]
    exact herr hf
  | false =>
    obtain ⟨ws, hanswer, hws⟩ := answer_deleteLeaf (p := p) (b := b) hf hu hn hT
    exact .answered_tx hanswer (hok hf ws ((applyAll_append _ _ _).trans hws))

end

/-! ## The transaction -/

section
variable {β : Type} {env : Nat → Env} {n : Nat} {tx : Option (Tx Row Key Env)} {db : Db} {w : World} {b : Env}
  {sid : Uuid} {pid : PseudoId} {Q : Except AppError β → Moment → Prop}

/-- The stored rows after a wipe, but for its audit entry. -/
def cleared (sid : Uuid) (pid : PseudoId) (db : Db) : Db := db.filter fun r => !audio sid pid r

theorem audio_eq (r : Row) : audio sid pid r = (chunksT.is (Chunks.ofPair sid pid) r ||
    (uniformT .segments).is (fun x => x.sessionId = sid && Uniform.pseudoColumn x.columns = some pid.raw) r ||
    mutesT.is (fun m => m.sessionId = sid && m.pseudoId = pid) r) := by
  cases r with
  | uniform rt x => cases rt <;> simp [audio, Table.is, chunksT, uniformT, mutesT]
  | _ => simp [audio, Table.is, chunksT, uniformT, mutesT]

theorem present_cleared {id : Uuid} : Present (Key.audit id) (cleared sid pid db) ↔ Present (Key.audit id) db := by
  constructor
  · rintro ⟨r, hr, hk⟩
    exact ⟨r, List.mem_of_mem_filter hr, hk⟩
  · rintro ⟨r, hr, hk⟩
    refine ⟨r, List.mem_filter.2 ⟨hr, ?_⟩, hk⟩
    cases r <;> first | rfl | cases hk

/-- What the transaction that begins at `n` needs: its six operations work, and
the id drawn for its audit entry is new. -/
def Ready (env : Nat → Env) (n : Nat) (db : Db) : Prop :=
  (∀ i < 6, (env (n + i)).fails = false) ∧ ¬Present (Key.audit ((env (n + 4)).uuid 0)) db

theorem not_ready {i : Nat} (hi : i < 6) (h : (env (n + i)).fails = true) : ¬Ready env n db := by
  intro hready
  rw [hready.1 i hi] at h
  cases h

/-- The rows of one participant are dropped. -/
theorem Ends.clearing {f : List String × Nat × Nat → Handler β} (hu : KeysUnique db)
    (herr : (∃ i < 3, (env (n + i)).fails = true) → ∀ err vs, Q (.error err) ⟨some ⟨b, vs⟩, db, w⟩)
    (hok : (∀ i < 3, (env (n + i)).fails = false) → ∀ ws segs mutes, applyAll ws db = cleared sid pid db →
      Ends env (n + 3) ⟨some ⟨b, ws⟩, db, w⟩ (f (keysOf (Chunks.ofPair sid pid) db, segs, mutes)) Q) :
    Ends env n ⟨some ⟨b, []⟩, db, w⟩ (MuteRoutes.deleteAudioRows sid pid >>= f) Q := by
  have hkeys : (chunksT.rows (db.filter (chunksT.is (Chunks.ofPair sid pid)))).map (·.s3Key) =
      keysOf (Chunks.ofPair sid pid) db := by
    rw [chunksT.rows_filter_is]; rfl
  rw [MuteRoutes.deleteAudioRows, Chunks.deleteForParticipant]
  simp only [fetchAll, bind_assoc]
  refine Ends.deleteLeaf hu rfl (fun _ => rfl) (fun h => herr ⟨0, by omega, h⟩ _ _) fun h₀ ws₁ hdb₁ => ?_
  have hu₁ : KeysUnique (applyAll ([] ++ ws₁) db) := by
    rw [hdb₁]
    exact hu.filter _
  rw [pure_bind, pure_bind, applyAll_nil, hkeys, Uniform.deleteForParticipantSegments, execute, bind_assoc]
  refine Ends.deleteLeaf hu₁ rfl (fun _ => rfl) (fun h => herr ⟨1, by omega, h⟩ _ _) fun h₁ ws₂ hdb₂ => ?_
  have hu₂ : KeysUnique (applyAll ([] ++ ws₁ ++ ws₂) db) := by
    rw [hdb₂]
    exact hu₁.filter _
  rw [pure_bind, MuteRanges.deleteForParticipant, execute, bind_assoc]
  refine Ends.deleteLeaf hu₂ rfl (fun _ => rfl) (fun h => herr ⟨2, by omega, h⟩ _ _) fun h₂ ws₃ hdb₃ => ?_
  have hworks : ∀ i < 3, (env (n + i)).fails = false := by
    intro i hi
    rcases i with - | - | - | i
    · exact h₀
    · exact h₁
    · exact h₂
    · omega
  refine hok hworks _ _ _ ?_
  rw [hdb₃, hdb₂, hdb₁, applyAll_nil, List.filter_filter, List.filter_filter]
  refine List.filter_congr fun r _ => ?_
  simp only [audio_eq, Bool.not_or]
  ac_rfl

/-- The audit entry goes in, if its id is new. -/
theorem Ends.auditing {entry : AuditLog.Entry} {vs : List (Write Row Key)} {f : Unit → Handler β}
    (herr : (env n).fails = true ∨ Present (Key.audit ((env n).uuid 0)) (applyAll vs db) →
      ∀ err, Q (.error err) ⟨some ⟨b, vs⟩, db, w⟩)
    (hok : (env n).fails = false → ¬Present (Key.audit ((env n).uuid 0)) (applyAll vs db) → ∀ ws a,
      applyAll ws db = applyAll vs db ++ [.audit a] → a.id = (env n).uuid 0 → (∃ e, a = AuditLog.row entry e) →
      Ends env (n + 1) ⟨some ⟨b, ws⟩, db, w⟩ (f ()) Q) :
    Ends env n ⟨some ⟨b, vs⟩, db, w⟩ (AuditLog.appendTx entry >>= f) Q := by
  rw [AuditLog.appendTx]
  simp only [bind_assoc]
  refine Ends.execute_tx (fun err h => herr ?_ _) fun rows ws h => ?_
  · rcases answer_error h with hf | hrun
    · exact .inl hf
    · refine .inr (by_contra fun hnew => ?_)
      have hins : ((AuditLog.appendSql entry).run { env n with now := b.now } (applyAll vs db) (applyAll vs db)
          (applyAll vs db)).result = .ok _ := Lifecycle.appendSql_run fun r hr hk => hnew ⟨r, hr, hk⟩
      rw [hins] at hrun
      cases hrun
  · obtain ⟨hf, hrun⟩ := answer_ok h
    obtain ⟨a, ha, -, hclash, -, -, rfl⟩ := insert_ok hrun
    obtain rfl := Except.ok.inj ha
    refine hok hf ?_ _ _ (applyAll_append _ _ _) rfl ⟨_, rfl⟩
    rintro ⟨r, hr, hk⟩
    exact clash_eq_none.1 hclash _ (by simp [slots, key, Row.key, auditT, AuditLog.row]) r hr (pk_mem_slots.2 hk)

/-- What the table definitions promise, as far as a wipe relies on it. -/
structure Sound (db : Db) : Prop where
  keys : KeysUnique db
  checked : ∀ r ∈ db, check r = true

theorem Sound.logged (h : Sound db) {a : AuditRow} (ha : ¬Present (Key.audit a.id) db) :
    Sound (cleared sid pid db ++ [Row.audit a]) where
  keys := (h.keys.filter _).insert fun r hr hk => ha ⟨r, List.mem_of_mem_filter hr, hk⟩
  checked r hr := by
    rcases List.mem_append.1 hr with hr | hr
    · exact h.checked r (List.mem_of_mem_filter hr)
    · rw [List.mem_singleton.1 hr]; rfl

/-- From `BEGIN` to `COMMIT`. -/
theorem Ends.committing {g : List String × Nat × Nat → Handler β} {entry : Nat → Nat → AuditLog.Entry}
    {f : Nat → Nat → Handler β} (hdb : Sound db)
    (hg : ∀ segs mutes, g (keysOf (Chunks.ofPair sid pid) db, segs, mutes) = do
      AuditLog.appendTx (entry segs mutes)
      commit
      f segs mutes)
    (herr : ¬Ready env n db → ∀ err tx', Q (.error err) ⟨tx', db, w⟩)
    (hok : Ready env n db → ∀ a segs mutes, (∃ e, a = AuditLog.row (entry segs mutes) e) →
      Sound (cleared sid pid db ++ [Row.audit a]) → Ends env (n + 6) ⟨none, cleared sid pid db ++ [Row.audit a], w⟩ (f segs mutes) Q) :
    Ends env n ⟨tx, db, w⟩ (begin >>= fun _ => MuteRoutes.deleteAudioRows sid pid >>= g) Q := by
  refine Ends.begin (fun h => herr (not_ready (i := 0) (by omega) h) _ _) fun h₀ => ?_
  refine Ends.clearing hdb.keys (fun h => ?_) fun h₁ ws segs mutes hws => ?_
  · obtain ⟨i, hi, hf⟩ := h
    have hf' : (env (n + (i + 1))).fails = true := by rwa [show n + (i + 1) = n + 1 + i by omega]
    exact fun err vs => herr (not_ready (by omega) hf') err _
  rw [hg]
  refine Ends.auditing (fun h => ?_) fun h₄ hnew ws' a hws' hid hrow => ?_
  · rcases h with hf | hold
    · exact fun err => herr (not_ready (i := 4) (by omega) hf) err _
    · rw [hws, present_cleared] at hold
      exact fun err => herr (fun hready => hready.2 hold) err _
  rw [hws, present_cleared] at hnew
  rw [hws] at hws'
  refine Ends.commit (fun h => herr (not_ready (i := 5) (by omega) h) _ _) fun h₅ => ?_
  rw [hws']
  refine hok ⟨fun i hi => ?_, hnew⟩ a segs mutes hrow (hdb.logged (hid ▸ hnew))
  rcases i with - | - | - | - | - | - | i
  · exact h₀
  · exact h₁ 0 (by omega)
  · exact h₁ 1 (by omega)
  · exact h₁ 2 (by omega)
  · exact h₄
  · exact h₅
  · omega

/-! ## The flag and the objects -/

/-- The participant's row is stamped. -/
def stampRow (sid : Uuid) (pid : PseudoId) (t : Timestamp) (r : Row) : Row :=
  if participantsT.is (Participants.ofPair sid pid) r then participantsT.lift (stamp t) r else r

theorem Ends.marking {f : Unit → Handler β} (hdb : Sound db)
    (herr : (env n).fails = true → Q (.error (.database .failure)) ⟨tx, db, w⟩)
    (hok : (env n).fails = false → Ends env (n + 1) ⟨tx, db.map (stampRow sid pid (env n).now), w⟩ (f ()) Q) :
    Ends env n ⟨tx, db, w⟩ (Participants.markWiped sid pid >>= f) Q := by
  rw [Participants.markWiped, execute]
  simp only [bind_assoc]
  cases hf : (env n).fails with
  | true =>
    rw [ends_pool, answer_fails hf]
    exact herr hf
  | false =>
    have hstamp : ∀ t p, check (Row.participant (stamp t p)) = check (Row.participant p) := fun _ _ => rfl
    obtain ⟨rows, ws, hanswer, hws⟩ : ∃ rows ws, answer (Participants.markWipedSql sid pid) (env n) (env n) db =
        .ok (rows, ws) ∧ applyAll ws db = db.map (stampRow sid pid (env n).now) :=
      answer_updateAll hf hdb.keys fun p hp _ => (hstamp _ p).trans (hdb.checked _ hp)
    refine .answered_pool hanswer ?_
    rw [hws]
    exact hok hf

/-- The stored rows after a wipe. -/
def wiped (sid : Uuid) (pid : PseudoId) (a : AuditRow) (t : Timestamp) (db : Db) : Db :=
  (cleared sid pid db ++ [Row.audit a]).map (stampRow sid pid t)

theorem stampRow_participant (t : Timestamp) (p : Participant) : stampRow sid pid t (.participant p) =
    .participant (restamp sid pid t p) := by
  unfold stampRow restamp
  cases h : Participants.ofPair sid pid p <;> simp [Table.is, Table.lift, participantsT, h]

theorem ofPair_restamp (t : Timestamp) (p : Participant) :
    Participants.ofPair sid pid (restamp sid pid t p) = Participants.ofPair sid pid p := by
  unfold restamp
  split <;> rfl

theorem restamp_restamp (t u : Timestamp) (p : Participant) :
    restamp sid pid t (restamp sid pid u p) = restamp sid pid t p := by
  cases h : Participants.ofPair sid pid p with
  | true =>
    rw [restamp, if_pos ((ofPair_restamp u p).trans h), restamp, restamp, if_pos h, if_pos h]
    rfl
  | false =>
    have hneg : ¬Participants.ofPair sid pid p = true := by simp [h]
    have hu : restamp sid pid u p = p := if_neg hneg
    rw [hu]

theorem stampRow_other {r : Row} (h : ∀ p, r ≠ .participant p) (t : Timestamp) : stampRow sid pid t r = r := by
  cases r with
  | participant p => exact absurd rfl (h p)
  | _ => rfl

theorem audio_stampRow (t : Timestamp) (r : Row) : audio sid pid (stampRow sid pid t r) = audio sid pid r := by
  cases r with
  | participant p => rw [stampRow_participant]; rfl
  | _ => rfl

theorem Sound.stamped (h : Sound db) (t : Timestamp) : Sound (db.map (stampRow sid pid t)) where
  keys := by
    have hkeys : key ∘ stampRow sid pid t = key := by
      funext r
      cases r with
      | participant p =>
        rw [Function.comp_apply, stampRow_participant, restamp]
        split <;> rfl
      | _ => rfl
    rw [KeysUnique, List.map_map, hkeys]
    exact h.keys
  checked r hr := by
    obtain ⟨x, hx, rfl⟩ := List.mem_map.1 hr
    rw [← h.checked x hx]
    cases x with
    | participant p =>
      rw [stampRow_participant, restamp]
      split <;> rfl
    | _ => rfl

theorem wiped_gone {a : AuditRow} {t : Timestamp} : ∀ r ∈ wiped sid pid a t db, audio sid pid r = false := by
  intro r hr
  obtain ⟨x, hx, rfl⟩ := List.mem_map.1 hr
  rw [audio_stampRow]
  rcases List.mem_append.1 hx with hx | hx
  · simpa using (List.mem_filter.1 hx).2
  · rw [List.mem_singleton.1 hx]; rfl

/-- A table a wipe stamps nothing in. -/
theorem rows_wiped {τ : Type} {T : Table Row τ} (a : AuditRow) (t : Timestamp) (db : Db) (hp : ∀ p, T.get (.participant p) = none) :
    T.rows (wiped sid pid a t db) = T.rows (cleared sid pid db) ++ T.rows [Row.audit a] := by
  have hget : T.get ∘ stampRow sid pid t = T.get := by
    funext r
    rw [Function.comp_apply]
    by_cases hr : ∃ p, r = .participant p
    · obtain ⟨p, rfl⟩ := hr
      rw [stampRow_participant, hp, hp]
    · rw [stampRow_other fun p h => hr ⟨p, h⟩]
  rw [wiped, Table.rows, List.filterMap_map, hget, List.filterMap_append]
  rfl

/-- A table with no audio in it. -/
theorem rows_cleared {τ : Type} {T : Table Row τ} (db : Db) (h : ∀ r, audio sid pid r = true → T.get r = none) :
    T.rows (cleared sid pid db) = T.rows db := by
  rw [cleared, Table.rows, List.filterMap_filter]
  refine List.filterMap_congr fun r _ => ?_
  cases hr : audio sid pid r with
  | true => simp [h r hr]
  | false => simp

theorem rows_sessions (a : AuditRow) (t : Timestamp) (db : Db) : sessionsT.rows (wiped sid pid a t db) = sessionsT.rows db := by
  have hcleared : sessionsT.rows (cleared sid pid db) = sessionsT.rows db := by
    refine rows_cleared db fun r hr => ?_
    cases r <;> first | rfl | cases hr
  rw [rows_wiped a t db fun _ => rfl, hcleared]
  exact List.append_nil _

theorem rows_participants (a : AuditRow) (t : Timestamp) (db : Db) : participantsT.rows (wiped sid pid a t db) =
    (participantsT.rows db).map (restamp sid pid t) := by
  have hget : participantsT.get ∘ stampRow sid pid t = fun r => (participantsT.get r).map (restamp sid pid t) := by
    funext r
    cases r with
    | participant p => rw [Function.comp_apply, stampRow_participant]; rfl
    | _ => rfl
  have hcleared : participantsT.rows (cleared sid pid db) = participantsT.rows db := by
    refine rows_cleared db fun r hr => ?_
    cases r <;> first | rfl | cases hr
  rw [← hcleared, wiped, Table.rows, List.filterMap_map, hget, List.filterMap_append,
    Table.rows, List.map_filterMap]
  exact List.append_nil _

/-- What is left of the world but for the event. -/
def sweptWorld (sid : Uuid) (pid : PseudoId) (db : Db) (w : World) : World :=
  { w with store := (w.store.deleteMany (fun _ => false) (keysOf (Chunks.ofPair sid pid) db) 0).2 }

/-- What a valid token stands for. -/
theorem subject_some {token : Uuid} {now : Timestamp} (h : subject token now db = some (sid, pid)) :
    ∃ ct s p, (consentTokensT.rows db).find? (ConsentTokens.live token now) = some ct ∧
      (sessionsT.rows db).find? (Sessions.byId ct.sessionId) = some s ∧
      (participantsT.rows db).find? (Participants.byId ct.participantId) = some p ∧
      ct.sessionId = sid ∧ s.id = sid ∧ p.pseudoId = pid := by
  unfold subject at h
  split at h
  · cases h
  · rename_i ct hct
    split at h
    · rename_i s p hs hp
      obtain ⟨rfl, rfl⟩ := Prod.mk.inj (Option.some.inj h)
      have hid : s.id = ct.sessionId := by simpa [Sessions.byId] using List.find?_some hs
      exact ⟨ct, s, p, hct, hs, hp, hid.symm, rfl, rfl⟩
    · cases h

end
end DataApi.Wipes
