/-
The sweep of the object store after rows are gone (`src/storage/s3.rs`,
`delete_many`). It stops at the first key whose delete fails: what stands
behind that key stays in the store, and no row names it any more.
-/
import DataApi.Outcomes

namespace DataApi.Sweeps

open Relational ReadCommitted Resumption Handler

/-- Every listed key whose own delete works is gone after the sweep. -/
def Removes (fails : String → Bool) (st : ObjectStore) (keys : List String) : Prop :=
  ∀ k ∈ keys, fails k = false → (st.deleteMany fails keys 0).2.lookup k = none

/-- The objects whose own delete works stand before the first key that
fails. -/
def Ahead (fails : String → Bool) (st : ObjectStore) (keys : List String) : Prop :=
  ∀ k ∈ keys, fails k = false → st.lookup k ≠ none → k ∈ keys.takeWhile fun k => !fails k

theorem removes_iff (fails : String → Bool) (st : ObjectStore) (keys : List String) :
    Removes fails st keys ↔ Ahead fails st keys := by
  refine forall_congr' fun k => forall_congr' fun _ => forall_congr' fun _ => ?_
  rw [ObjectStore.lookup_deleteMany]
  split
  · next hmem => simp [hmem]
  · next hmem => simp [hmem]

/-! ## The requests that sweep -/

def keysOf (p : ChunkRow → Bool) (db : Db) : List String := ((chunksT.rows db).filter p).map (·.s3Key)

/-- The session and the pseudonym a consent token speaks for. -/
def subject (token : Uuid) (now : Timestamp) (db : Db) : Option (Uuid × PseudoId) :=
  match (consentTokensT.rows db).find? (ConsentTokens.live token now) with
  | none => none
  | some ct =>
    match (sessionsT.rows db).find? (Sessions.byId ct.sessionId),
      (participantsT.rows db).find? (Participants.byId ct.participantId) with
    | some s, some p => some (s.id, p.pseudoId)
    | _, _ => none

/-- The keys of the rows a request drops, and the number of the operation
that sweeps them. -/
def swept (x : Call) (db : Db) : List String × Nat :=
  match x.request with
  | .deleteCascade _ id => (keysOf (fun c => c.sessionId = id) db, 12)
  | .wipeParticipantAudio _ sid pid => (keysOf (Chunks.ofPair sid ⟨pid⟩) db, 7)
  | .deleteAudio token =>
    (((subject token (x.env 0).now db).map fun t => keysOf (Chunks.ofPair t.1 t.2) db).getD [], 10)
  | _ => ([], 0)

/-- Does the request drop rows that name objects? -/
def Sweeping : Request → Bool
  | .deleteCascade _ _ | .wipeParticipantAudio _ _ _ | .deleteAudio _ => true
  | _ => false

/-- Which deletes fail, when the call sweeps. -/
def fails (x : Call) (db : Db) : String → Bool := (x.env (swept x db).2).storeFails

/-! ## What the handlers leave -/

section
variable {α β : Type} {env : Nat → Env} {n : Nat} {tx : Option (Tx Row Key Env)} {db : Db} {w : World} {b : Env}
  {vs : List (Write Row Key)} {f : Unit → Handler β} {Q : Except AppError β → Moment → Prop}

/-- An answer comes with this store. -/
def Leaving (st : ObjectStore) (a : Except AppError β) (s : Moment) : Prop := ∀ r, a = .ok r → s.world.store = st

theorem Leaving.error {st : ObjectStore} {e : AppError} {s : Moment} :
    Leaving st (.error e : Except AppError β) s := by
  intro r h
  cases h

theorem Leaving.map {st : ObjectStore} {a : Except AppError α} {g : α → β} {s : Moment} (h : Leaving st a s) :
    Leaving st (a.map g) s := by
  intro r hr
  cases a with
  | error e => cases hr
  | ok x => exact h x rfl

/-- Whether it finds anything to delete or not. -/
theorem Ends.sweep {keys : List String} (h : ∀ n', Ends env n'
      ⟨tx, db, { w with store := (w.store.deleteMany (env n).storeFails keys 0).2 }⟩ (f ()) Q) :
    Ends env n ⟨tx, db, w⟩ (SessionRoutes.sweep keys >>= f) Q := by
  cases keys with
  | nil => exact h n
  | cons k ks => exact h (n + 1)

theorem deleteCascade_leaving (svc : String) (id : Uuid) : Ends env 0 ⟨none, db, w⟩ (SessionRoutes.deleteCascade svc id)
    (Leaving (w.store.deleteMany (env 12).storeFails (keysOf (fun c => c.sessionId = id) db) 0).2) := by
  refine Ends.begin (fun _ => .error) fun _ => ?_
  rw [Sessions.getInTx]
  simp only [bind_assoc]
  refine Ends.fetchOptional_tx (fun _ _ => .error) fun rows ws hlock => ?_
  obtain ⟨-, rfl⟩ := forUpdate_answer hlock
  cases (sessionsT.rows rows).head? with
  | none => exact .error
  | some existing =>
    rw [pure_bind, SessionRoutes.deleteChildren]
    simp only [bind_assoc]
    rw [Chunks.deleteForSession]
    simp only [bind_assoc]
    refine Ends.fetchAll_tx (fun _ _ => .error) fun rows ws hdelete => ?_
    have hkeys : (chunksT.rows rows).map (·.s3Key) = keysOf (fun c => c.sessionId = id) db := by
      rw [delete_answer hdelete]; rfl
    rw [hkeys]
    refine Ends.execute_tx (fun _ _ => .error) fun _ _ _ => ?_
    refine Ends.execute_tx (fun _ _ => .error) fun _ _ _ => ?_
    refine Ends.execute_tx (fun _ _ => .error) fun _ _ _ => ?_
    refine Ends.execute_tx (fun _ _ => .error) fun _ _ _ => ?_
    refine Ends.execute_tx (fun _ _ => .error) fun _ _ _ => ?_
    refine Ends.execute_tx (fun _ _ => .error) fun _ _ _ => ?_
    refine Ends.fetchOne_tx (fun _ _ => .error) (fun _ _ _ _ => .error) fun _ _ _ _ _ => ?_
    rw [AuditLog.appendTx, bind_assoc]
    refine Ends.execute_tx (fun _ _ => .error) fun _ _ _ => ?_
    refine Ends.commit (fun _ => .error) fun _ => ?_
    refine Ends.sweep fun _ r _ => ?_
    rfl

/-- The rows of one participant, at the start of a transaction. -/
theorem Ends.deleteAudioRows {sid : Uuid} {pid : PseudoId} {st : ObjectStore} {f : List String × Nat × Nat → Handler β}
    (h : ∀ ws segs mutes, Ends env (n + 3) ⟨some ⟨b, ws⟩, db, w⟩ (f (keysOf (Chunks.ofPair sid pid) db, segs, mutes))
      (Leaving st)) :
    Ends env n ⟨some ⟨b, []⟩, db, w⟩ (MuteRoutes.deleteAudioRows sid pid >>= f) (Leaving st) := by
  rw [MuteRoutes.deleteAudioRows, Chunks.deleteForParticipant]
  simp only [bind_assoc]
  refine Ends.fetchAll_tx (fun _ _ => .error) fun rows ws hdelete => ?_
  have hkeys : (chunksT.rows rows).map (·.s3Key) = keysOf (Chunks.ofPair sid pid) db := by
    rw [delete_answer hdelete]; rfl
  rw [pure_bind, hkeys]
  refine Ends.execute_tx (fun _ _ => .error) fun _ _ _ => ?_
  refine Ends.execute_tx (fun _ _ => .error) fun _ _ _ => ?_
  exact h _ _ _

theorem wipe_leaving (svc : String) (sid : Uuid) (raw : String) :
    Ends env 0 ⟨none, db, w⟩ (MuteRoutes.wipeParticipantAudio svc sid raw)
      (Leaving (w.store.deleteMany (env 7).storeFails (keysOf (Chunks.ofPair sid ⟨raw⟩) db) 0).2) := by
  rw [MuteRoutes.wipeParticipantAudio, pseudoId]
  refine Ends.ofResult (fun _ _ => .error) fun pid hpid => ?_
  obtain rfl : pid = ⟨raw⟩ := by
    unfold PseudoId.new at hpid
    split at hpid
    · exact (Except.ok.inj hpid).symm
    · cases hpid
  refine Ends.begin (fun _ => .error) fun _ => ?_
  refine Ends.deleteAudioRows fun ws segs mutes => ?_
  simp only [AuditLog.appendTx, bind_assoc]
  refine Ends.execute_tx (fun _ _ => .error) fun _ _ _ => ?_
  refine Ends.commit (fun _ => .error) fun _ => ?_
  rw [Participants.markWiped, bind_assoc]
  refine Ends.execute_pool (fun _ _ => .error) fun _ _ _ => ?_
  refine Ends.sweep fun _ => ?_
  rw [Sessions.guildIdForSession]
  simp only [bind_assoc]
  refine Ends.fetchOptional_pool (fun _ _ => .error) fun rows _ _ => ?_
  cases (sessionsT.rows rows).head? with
  | none => exact .error
  | some s =>
    intro r _
    rfl

theorem deleteAudio_leaving (token : Uuid) : Ends env 0 ⟨none, db, w⟩ (ConsentRoutes.deleteAudio token)
    (Leaving (w.store.deleteMany (env 10).storeFails
      (((subject token (env 0).now db).map fun t => keysOf (Chunks.ofPair t.1 t.2) db).getD []) 0).2) := by
  rw [ConsentRoutes.deleteAudio, ConsentRoutes.validated, ConsentTokens.validate]
  simp only [bind_assoc]
  refine Ends.fetchOptional_pool (fun _ _ => .error) fun rows ws htoken => ?_
  obtain ⟨hct, rfl⟩ := selectAt_answer htoken
  rw [hct]
  cases hct : (consentTokensT.rows db).find? (ConsentTokens.live token (env 0).now) with
  | none => exact .error
  | some ct =>
    simp only [bind_assoc]
    refine Ends.fetchOne_pool (fun _ _ => .error) (fun _ _ _ _ => .error) fun rows ws s hsession hs => ?_
    obtain ⟨hfind, rfl⟩ := select_answer hsession
    rw [hfind, applyAll_nil] at hs
    refine Ends.fetchOne_pool (fun _ _ => .error) (fun _ _ _ _ => .error) fun rows ws p hparticipant hp => ?_
    obtain ⟨hfind, rfl⟩ := select_answer hparticipant
    rw [hfind, applyAll_nil, applyAll_nil] at hp
    have hsubject : subject token (env 0).now db = some (s.id, p.pseudoId) := by
      rw [subject, hct]
      simp only
      rw [hs, hp]
    rw [hsubject]
    refine Ends.begin (fun _ => .error) fun _ => ?_
    refine Ends.deleteAudioRows fun ws segs mutes => ?_
    simp only [AuditLog.appendTx, bind_assoc]
    refine Ends.execute_tx (fun _ _ => .error) fun _ _ _ => ?_
    refine Ends.commit (fun _ => .error) fun _ => ?_
    rw [Participants.markWiped, bind_assoc]
    refine Ends.execute_pool (fun _ _ => .error) fun _ _ _ => ?_
    refine Ends.sweep fun _ => ?_
    rw [ConsentRoutes.guildId, bind_assoc]
    refine Ends.fetchOne_pool (fun _ _ => .error) (fun _ _ _ _ => .error) fun _ _ _ _ _ r _ => ?_
    rfl

end

/-- A call that sweeps leaves the store its one sweep leaves. -/
theorem serve_store {st : AppState} {x : Call} {sv : Sv Unit} (hx : Sweeping x.request = true) {r : Reply}
    (hr : (serve st x sv).1 = .ok r) :
    (serve st x sv).2.world.store = (sv.world.store.deleteMany (fails x sv.db) (swept x sv.db).1 0).2 := by
  have hends : Ends x.env 0 ⟨none, sv.db, sv.world⟩ (handle st x.request)
      (Leaving (sv.world.store.deleteMany (fails x sv.db) (swept x sv.db).1 0).2) := by
    unfold fails swept
    cases hreq : x.request with
    | deleteCascade svc id => exact ends_map.2 ((deleteCascade_leaving svc id).mono fun _ _ h => h.map)
    | wipeParticipantAudio svc sid pid => exact ends_map.2 ((wipe_leaving svc sid pid).mono fun _ _ h => h.map)
    | deleteAudio token => exact ends_map.2 ((deleteAudio_leaving token).mono fun _ _ h => h.map)
    | _ => rw [hreq] at hx; cases hx
  exact serve_ends (Q := fun a _ w => ∀ r, a = .ok r → w.store = _) |>.2 hends r hr

/-! ## The sweep, and the requests that sweep -/

/-- Of the objects named by the rows a call dropped, only those are left whose
own delete failed. -/
def Cleaned (st : AppState) (x : Call) (sv : Sv Unit) : Prop :=
  ∀ k ∈ (swept x sv.db).1, (serve st x sv).2.world.store.lookup k ≠ none → fails x sv.db k = true

/-- A sweep removes what can be removed, and a request that sweeps leaves only
what cannot, exactly when the objects that can be removed stand before the
first key that fails. -/
theorem swept_clean_iff (st : AppState) :
    (∀ (fails : String → Bool) (store : ObjectStore) (keys : List String),
      Removes fails store keys ↔ Ahead fails store keys) ∧
    ∀ (x : Call) (sv : Sv Unit), Sweeping x.request = true → ∀ r, (serve st x sv).1 = .ok r →
      (Cleaned st x sv ↔ Ahead (fails x sv.db) sv.world.store (swept x sv.db).1) := by
  refine ⟨removes_iff, fun x sv hx r hr => ?_⟩
  rw [← removes_iff, Cleaned, serve_store hx hr]
  refine forall_congr' fun k => forall_congr' fun _ => ?_
  cases fails x sv.db k with
  | true => simp
  | false => simp

/-- Two chunks of the mixed audio, under the keys `a` and `b`. -/
def sampleChunk (seq : Int) (key : String) : Row :=
  .chunk { sessionId := Sample.sessionId, pseudoId := ⟨"mixed"⟩, seq := seq, s3Key := key, sizeBytes := 1
           captureStartedAt := 0, durationMs := 0, clientChunkId := key, createdAt := 0 }

def sampleServer : Sv Unit :=
  { db := [.session Sample.session, sampleChunk 0 "a", sampleChunk 1 "b"]
    world := { Sample.world with store := [("a", [1]), ("b", [2])] } }

/-- The session is deleted, while one object cannot be. -/
def sampleCall (bad : String) : Call :=
  { request := .deleteCascade "bot" Sample.sessionId
    env := fun n => { Sample.env n with storeFails := fun key => key = bad } }

theorem sampleCall_ok (bad : String) (h : bad = "a" ∨ bad = "b") :
    ∃ r, (serve Sample.state (sampleCall bad) sampleServer).1 = .ok r := by
  have hok : (serve Sample.state (sampleCall bad) sampleServer).1.isOk = true := by
    rcases h with rfl | rfl <;> decide +kernel
  cases hr : (serve Sample.state (sampleCall bad) sampleServer).1 with
  | error e => rw [hr] at hok; cases hok
  | ok r => exact ⟨r, rfl⟩

theorem swept_clean_sample : Cleaned Sample.state (sampleCall "b") sampleServer := by
  obtain ⟨r, hr⟩ := sampleCall_ok "b" (.inr rfl)
  refine ((swept_clean_iff Sample.state).2 (sampleCall "b") sampleServer rfl r hr).2 fun k hk hf _ => ?_
  have hkeys : (swept (sampleCall "b") sampleServer.db).1 = ["a", "b"] := by decide +kernel
  rw [hkeys] at hk ⊢
  rcases List.mem_cons.1 hk with rfl | hk
  · decide
  · obtain rfl := List.mem_singleton.1 hk
    cases hf

/-- The object `a` cannot be deleted, and `b` stays for it: the answer is a
success, the row that named `b` is gone, and its own delete would have worked. -/
theorem one_bad_object_stops_the_sweep : ¬Removes (fun key => key = "a") [("a", [1]), ("b", [2])] ["a", "b"] ∧
    (serve Sample.state (sampleCall "a") sampleServer).1.isOk = true ∧
    (chunksT.rows (serve Sample.state (sampleCall "a") sampleServer).2.db).isEmpty = true ∧
    ¬Cleaned Sample.state (sampleCall "a") sampleServer := by
  refine ⟨fun h => ?_, by decide +kernel, by decide +kernel, fun h => ?_⟩
  · have hgone := h "b" (by decide) (by decide)
    revert hgone
    decide
  · have hfails := h "b" (by decide +kernel) (by decide +kernel)
    revert hfails
    decide

end DataApi.Sweeps
