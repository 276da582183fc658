/-
Wipes that fail and are tried again. The keys of the objects stand only in the
rows the transaction drops, and a statement that can fail runs between its
commit and the deletes of the objects: when it fails, no later wipe knows the
keys any more.
-/
import DataApi.Lib.Intact
import DataApi.Proofs.WipeSteps
import Mathlib.Data.List.TakeWhile

namespace DataApi.WipeRetries

open Relational ReadCommitted Resumption Handler Sweeps Wipes

/-! ## Runs of wipes -/

/-- The call wipes this pair, by its path or by what its token speaks for. -/
def Concerns (sid : Uuid) (pid : PseudoId) (db : Db) (x : Call) : Prop :=
  match x.request with
  | .wipeParticipantAudio _ s p => s = sid ∧ p = pid.raw
  | .deleteAudio token => ∀ t, subject token (x.env 0).now db = some t → t = (sid, pid)
  | _ => False

/-- Wipes of one pair, one after another; the object store never fails. -/
def WipesOf (st : AppState) (sid : Uuid) (pid : PseudoId) : Sv Unit → List Call → Prop
  | _, [] => True
  | sv, x :: xs => Concerns sid pid sv.db x ∧ (∀ n k, (x.env n).storeFails k = false) ∧
      WipesOf st sid pid (serve st x sv).2 xs

/-- The operation that begins the transaction. -/
def begins (x : Call) : Nat :=
  match x.request with
  | .deleteAudio _ => 3
  | _ => 0

/-- The call reaches its transaction. -/
def Admitted (x : Call) (db : Db) : Prop :=
  match x.request with
  | .wipeParticipantAudio _ _ pid => isValidPseudoId pid = true
  | .deleteAudio token => (∀ i < 3, (x.env i).fails = false) ∧ (subject token (x.env 0).now db).isSome = true
  | _ => False

/-- The call commits the rows it drops. -/
def Commits (x : Call) (db : Db) : Prop := Admitted x db ∧ Ready x.env (begins x) db

/-- The statement after the commit, which marks the participant, fails. -/
def markFails (x : Call) : Bool := (x.env (begins x + 6)).fails

/-- The first call that commits marks the participant. -/
def FirstMarks (db : Db) : List Call → Prop
  | [] => True
  | x :: xs => (Commits x db → markFails x = false) ∧ (¬Commits x db → FirstMarks db xs)

/-! ## One call -/

section
variable {β : Type} {env : Nat → Env} {n : Nat} {db db' : Db} {w w' : World} {sid : Uuid} {pid : PseudoId}

/-- What a call leaves that commits or not, and marks or not. -/
structure Served (sid : Uuid) (pid : PseudoId) (commits : Prop) (unmarked : Bool) (db : Db) (w : World) (ok : Bool) (db' : Db)
    (w' : World) : Prop where
  refused : ¬commits → db' = db ∧ w'.store = w.store ∧ ok = false
  committed : commits → Sound db' ∧ keysOf (Chunks.ofPair sid pid) db' = [] ∧
    w'.store = if unmarked then w.store else (w.store.deleteMany (fun _ => false) (keysOf (Chunks.ofPair sid pid) db) 0).2

theorem keysOf_gone (h : ∀ r ∈ db, audio sid pid r = false) : keysOf (Chunks.ofPair sid pid) db = [] := by
  have hnone : (chunksT.rows db).filter (Chunks.ofPair sid pid) = [] := by
    refine List.filter_eq_nil_iff.2 fun c hc hp => ?_
    have hgone := h _ (chunksT.mem_rows.1 hc)
    rw [show audio sid pid (chunksT.put c) = Chunks.ofPair sid pid c from rfl, hp] at hgone
    cases hgone
  rw [keysOf, hnone]
  rfl

theorem logged_gone (a : AuditRow) : ∀ r ∈ cleared sid pid db ++ [Row.audit a], audio sid pid r = false := by
  intro r hr
  rcases List.mem_append.1 hr with hr | hr
  · simpa using (List.mem_filter.1 hr).2
  · rw [List.mem_singleton.1 hr]; rfl

theorem Ends.served {g : List String × Nat × Nat → Handler β} {entry : Nat → Nat → AuditLog.Entry} {f : Nat → Nat → Handler β}
    (hdb : Sound db) (hstores : ∀ n k, (env n).storeFails k = false)
    (hg : ∀ segs mutes, g (keysOf (Chunks.ofPair sid pid) db, segs, mutes) = do
      AuditLog.appendTx (entry segs mutes)
      commit
      Participants.markWiped sid pid
      SessionRoutes.sweep (keysOf (Chunks.ofPair sid pid) db)
      f segs mutes)
    (hf : ∀ n segs mutes db w, Ends env n ⟨none, db, w⟩ (f segs mutes) fun _ m => m.db = db ∧ m.world.store = w.store) :
    Ends env n ⟨none, db, w⟩ (begin >>= fun _ => MuteRoutes.deleteAudioRows sid pid >>= g)
      fun a m => Served sid pid (Ready env n db) (env (n + 6)).fails db w a.isOk m.db m.world := by
  refine Ends.committing hdb hg (fun h _ _ => ⟨fun _ => ⟨rfl, rfl, rfl⟩, fun hready => absurd hready h⟩)
    fun hready a segs mutes _ hlogged => ?_
  refine Ends.marking hlogged (fun hm => ?_) fun hm => ?_
  · refine ⟨absurd hready, fun _ => ⟨hlogged, keysOf_gone (logged_gone a), ?_⟩⟩
    rw [hm]
    rfl
  · refine Ends.sweep fun m => (hf m segs mutes _ _).mono fun _ s hs => ⟨absurd hready, fun _ => ?_⟩
    have hstore : (env (n + 6 + 1)).storeFails = fun _ => false := funext fun k => hstores (n + 6 + 1) k
    rw [hs.1, hs.2, hm, hstore]
    exact ⟨hlogged.stamped _, keysOf_gone wiped_gone, rfl⟩

/-- The service's path. -/
theorem wipe_served (hdb : Sound db) (hstores : ∀ n k, (env n).storeFails k = false) (svc : String) (sid : Uuid) (pid : PseudoId) :
    Ends env 0 ⟨none, db, w⟩ (MuteRoutes.wipeParticipantAudio svc sid pid.raw) fun a m =>
      Served sid pid (isValidPseudoId pid.raw = true ∧ Ready env 0 db) (env 6).fails db w a.isOk m.db m.world := by
  rw [MuteRoutes.wipeParticipantAudio, Handler.pseudoId, PseudoId.new]
  by_cases hvalid : isValidPseudoId pid.raw = true
  · rw [if_pos hvalid]
    refine (Ends.served hdb hstores (fun _ _ => rfl) fun n segs mutes db w => ?_).mono fun a m h =>
      ⟨fun hno => h.refused fun hready => hno ⟨hvalid, hready⟩, fun hyes => h.committed hyes.2⟩
    rw [Sessions.guildIdForSession]
    simp only [bind_assoc]
    refine Ends.select_pool (fun _ => ⟨rfl, rfl⟩) fun _ => ?_
    cases (sessionsT.rows db).find? _ with
    | none => exact ⟨rfl, rfl⟩
    | some s => exact ⟨rfl, rfl⟩
  · rw [if_neg hvalid]
    exact ⟨fun _ => ⟨rfl, rfl, rfl⟩, fun h => absurd h.1 hvalid⟩

theorem liveSql_answer {token : Uuid} (hf : (env n).fails = false) : answer (ConsentTokens.liveSql token) (env n) (env n) db =
    .ok (db.filter (consentTokensT.is (ConsentTokens.live token (env n).now)), []) := by
  rw [answer, if_neg (by simp [hf])]; rfl

/-- The token's path. -/
theorem deleteAudio_served {token : Uuid} (hdb : Sound db) (hstores : ∀ n k, (env n).storeFails k = false)
    (hc : ∀ t, subject token (env 0).now db = some t → t = (sid, pid)) :
    Ends env 0 ⟨none, db, w⟩ (ConsentRoutes.deleteAudio token) fun a m =>
      Served sid pid (((∀ i < 3, (env i).fails = false) ∧ (subject token (env 0).now db).isSome = true) ∧ Ready env 3 db)
        (env 9).fails db w a.isOk m.db m.world := by
  by_cases hadmitted : (∀ i < 3, (env i).fails = false) ∧ (subject token (env 0).now db).isSome = true
  · obtain ⟨t, ht⟩ := Option.isSome_iff_exists.1 hadmitted.2
    rw [hc t ht] at ht
    obtain ⟨ct, s, p, hct, hs, hp, rfl, hid, rfl⟩ := subject_some ht
    rw [ConsentRoutes.deleteAudio, ConsentRoutes.validated, ConsentTokens.validate, fetchOptional]
    simp only [bind_assoc]
    refine .answered_pool (liveSql_answer (hadmitted.1 0 (by omega))) ?_
    rw [pure_bind, consentTokensT.rows_filter_is, List.head?_filter, hct]
    simp only [bind_assoc]
    refine Ends.found (hadmitted.1 1 (by omega)) hs ?_
    refine Ends.found (hadmitted.1 2 (by omega)) hp ?_
    simp only [pure_bind, hid]
    refine (Ends.served hdb hstores (fun _ _ => rfl) fun n segs mutes db w => ?_).mono fun a m h =>
      ⟨fun hno => h.refused fun hready => hno ⟨hadmitted, hready⟩, fun hyes => h.committed hyes.2⟩
    rw [ConsentRoutes.guildId, bind_assoc]
    refine Ends.fetchOne_pool (fun _ _ => ⟨rfl, rfl⟩) (fun rows ws h _ => ?_) fun rows ws s h _ => ?_
    · obtain ⟨-, rfl⟩ := select_answer h
      exact ⟨rfl, rfl⟩
    · obtain ⟨-, rfl⟩ := select_answer h
      exact ⟨rfl, rfl⟩
  · have idle : Served sid pid (((∀ i < 3, (env i).fails = false) ∧ (subject token (env 0).now db).isSome = true) ∧
        Ready env 3 db) (env 9).fails db w false db w := ⟨fun _ => ⟨rfl, rfl, rfl⟩, fun h => absurd h.1 hadmitted⟩
    rw [ConsentRoutes.deleteAudio, ConsentRoutes.validated, ConsentTokens.validate]
    simp only [bind_assoc]
    refine Ends.fetchOptional_pool (fun _ _ => idle) fun rows ws htoken => ?_
    obtain ⟨hct, rfl⟩ := selectAt_answer htoken
    rw [hct]
    cases hct : (consentTokensT.rows db).find? (ConsentTokens.live token (env 0).now) with
    | none => exact idle
    | some ct =>
      simp only [bind_assoc]
      refine Ends.fetchOne_pool (fun _ _ => idle) (fun rows ws h _ => ?_) fun rows ws s hsession hs => ?_
      · obtain ⟨-, rfl⟩ := select_answer h
        exact idle
      obtain ⟨hfind, rfl⟩ := select_answer hsession
      rw [hfind, applyAll_nil] at hs
      refine Ends.fetchOne_pool (fun _ _ => idle) (fun rows ws h _ => ?_) fun rows ws p hparticipant hp => ?_
      · obtain ⟨-, rfl⟩ := select_answer h
        exact idle
      obtain ⟨hfind, rfl⟩ := select_answer hparticipant
      rw [hfind, applyAll_nil, applyAll_nil] at hp
      refine absurd ⟨fun i hi => ?_, ?_⟩ hadmitted
      · rcases i with - | - | - | i
        · exact (answer_ok htoken).1
        · exact (answer_ok hsession).1
        · exact (answer_ok hparticipant).1
        · omega
      · rw [subject, hct]
        simp only
        rw [hs, hp]
        rfl

end

/-- What a call that wipes this pair leaves. -/
theorem serve_served (st : AppState) {sid : Uuid} {pid : PseudoId} {x : Call} {sv : Sv Unit} (hdb : Sound sv.db)
    (hc : Concerns sid pid sv.db x) (hstores : ∀ n k, (x.env n).storeFails k = false) :
    Served sid pid (Commits x sv.db) (markFails x) sv.db sv.world (serve st x sv).1.isOk (serve st x sv).2.db
      (serve st x sv).2.world := by
  refine serve_ends (Q := fun a db' w' => Served sid pid (Commits x sv.db) (markFails x) sv.db sv.world a.isOk db' w') |>.2 ?_
  unfold Commits markFails Admitted begins
  unfold Concerns at hc
  cases hreq : x.request with
  | wipeParticipantAudio svc s p =>
    rw [hreq] at hc
    obtain ⟨rfl, rfl⟩ := hc
    exact ends_map.2 ((wipe_served hdb hstores svc s pid).mono fun a _ h => by cases a <;> exact h)
  | deleteAudio token =>
    rw [hreq] at hc
    exact ends_map.2 ((deleteAudio_served hdb hstores hc).mono fun a _ h => by cases a <;> exact h)
  | _ => rw [hreq] at hc; exact hc.elim

/-! ## Runs -/

section
variable {st : AppState} {sid : Uuid} {pid : PseudoId} {calls : List Call} {sv : Sv Unit}

/-- The keys are unknown once no row names them. -/
theorem after_done (hdb : Sound sv.db) (hkeys : keysOf (Chunks.ofPair sid pid) sv.db = []) (h : WipesOf st sid pid sv calls) :
    (after st sv calls).world.store = sv.world.store := by
  induction calls generalizing sv with
  | nil => rfl
  | cons x xs ih =>
    have hx := serve_served st hdb h.1 h.2.1
    have hrest : after st sv (x :: xs) = after st (serve st x sv).2 xs := rfl
    rw [hrest]
    by_cases hcommits : Commits x sv.db
    · obtain ⟨hdb', hkeys', hstore⟩ := hx.committed hcommits
      have hsame : (serve st x sv).2.world.store = sv.world.store := by
        rw [hstore, hkeys]
        split <;> rfl
      rw [ih hdb' hkeys' h.2.2, hsame]
    · obtain ⟨hdb', hstore, -⟩ := hx.refused hcommits
      rw [ih (hdb'.symm ▸ hdb) (hdb'.symm ▸ hkeys) h.2.2, hstore]

/-- A run none of whose calls commits leaves everything as it is. -/
theorem after_idle (hdb : Sound sv.db) (h : WipesOf st sid pid sv calls) (hidle : ∀ x ∈ calls, ¬Commits x sv.db) :
    (after st sv calls).db = sv.db := by
  induction calls generalizing sv with
  | nil => rfl
  | cons x xs ih =>
    obtain ⟨hdb', -, -⟩ := (serve_served st hdb h.1 h.2.1).refused (hidle x (by simp))
    have hrest : after st sv (x :: xs) = after st (serve st x sv).2 xs := rfl
    rw [hrest, ih (hdb'.symm ▸ hdb) h.2.2 (fun y hy => hdb'.symm ▸ hidle y (List.mem_cons_of_mem _ hy)), hdb']

theorem WipesOf.last {last : Call} (h : WipesOf st sid pid sv (calls ++ [last])) : WipesOf st sid pid sv calls ∧
    Concerns sid pid (after st sv calls).db last ∧ ∀ n k, (last.env n).storeFails k = false := by
  induction calls generalizing sv with
  | nil => exact ⟨trivial, h.1, h.2.1⟩
  | cons x xs ih =>
    obtain ⟨hxs, hlast⟩ := ih h.2.2
    exact ⟨⟨h.1, h.2.1, hxs⟩, hlast⟩

/-- The objects are gone after the run. -/
def Gone (sid : Uuid) (pid : PseudoId) (db : Db) (store : ObjectStore) : Prop :=
  ∀ k ∈ keysOf (Chunks.ofPair sid pid) db, store.lookup k = none

theorem gone_after (hdb : Sound sv.db) (h : WipesOf st sid pid sv calls) (hcommits : ∃ x ∈ calls, Commits x sv.db) :
    Gone sid pid sv.db (after st sv calls).world.store ↔ FirstMarks sv.db calls ∨ Gone sid pid sv.db sv.world.store := by
  induction calls generalizing sv with
  | nil =>
    obtain ⟨x, hx, -⟩ := hcommits
    cases hx
  | cons x xs ih =>
    have hx := serve_served st hdb h.1 h.2.1
    have hrest : after st sv (x :: xs) = after st (serve st x sv).2 xs := rfl
    rw [hrest]
    by_cases hcx : Commits x sv.db
    · obtain ⟨hdb', hkeys', hstore⟩ := hx.committed hcx
      rw [after_done hdb' hkeys' h.2.2, hstore]
      cases hmark : markFails x with
      | true =>
        have hnot : ¬FirstMarks sv.db (x :: xs) := by
          intro hfirst
          rw [hfirst.1 hcx] at hmark
          cases hmark
        exact ⟨.inr, fun hor => hor.resolve_left hnot⟩
      | false =>
        refine iff_of_true (fun k hk => ?_) (.inl ⟨fun _ => hmark, fun hno => absurd hcx hno⟩)
        have hall : ∀ ks : List String, ks.takeWhile (fun _ => !false) = ks :=
          fun _ => List.takeWhile_eq_self_iff.2 fun _ _ => rfl
        simp only [Bool.false_eq_true, if_false]
        rw [ObjectStore.lookup_deleteMany, hall, if_pos hk]
    · obtain ⟨hdb', hstore, -⟩ := hx.refused hcx
      have hlater : ∃ y ∈ xs, Commits y (serve st x sv).2.db := by
        obtain ⟨y, hy, hcy⟩ := hcommits
        rcases List.mem_cons.1 hy with rfl | hy
        · exact absurd hcy hcx
        · exact ⟨y, hy, hdb'.symm ▸ hcy⟩
      have hfirst : FirstMarks sv.db (x :: xs) ↔ FirstMarks sv.db xs :=
        ⟨fun hf => hf.2 hcx, fun hf => ⟨fun hyes => absurd hyes hcx, fun _ => hf⟩⟩
      have hstep := ih (hdb'.symm ▸ hdb) h.2.2 hlater
      rw [hdb', hstore] at hstep
      rw [hstep, hfirst]

end

/-- Wipes of one pair, the last of which succeeds, leave none of the objects
exactly when the first of them that commits also marks the participant, unless
there were no objects. -/
theorem retried_iff (st : AppState) (sv : Sv Unit) (sid : Uuid) (pid : PseudoId) (calls : List Call) (last : Call)
    (hdb : Intact sv.db) (h : WipesOf st sid pid sv (calls ++ [last]))
    (hlast : (serve st last (after st sv calls)).1.isOk = true) :
    Gone sid pid sv.db (after st sv (calls ++ [last])).world.store ↔
      FirstMarks sv.db (calls ++ [last]) ∨ Gone sid pid sv.db sv.world.store := by
  have hsound : Sound sv.db := ⟨hdb.keys, hdb.checked⟩
  refine gone_after hsound h (by_contra fun hno => ?_)
  obtain ⟨hcalls, hc, hstores⟩ := h.last
  have hidle : ∀ x ∈ calls ++ [last], ¬Commits x sv.db := fun x hx hcx => hno ⟨x, hx, hcx⟩
  have hsame := after_idle hsound hcalls fun x hx => hidle x (List.mem_append_left _ hx)
  obtain ⟨-, -, herr⟩ := (serve_served st (hsame.symm ▸ hsound) hc hstores).refused
    (hsame.symm ▸ hidle last (by simp))
  rw [herr] at hlast
  cases hlast

/-- The chunk of a speaker, stored. -/
def sampleServer : Sv Unit :=
  after Sample.state (Sample.server [])
    [{ request := .createSession "bot" Sample.createInput, env := Sample.env },
      { request := .upload "bot" (Sample.speakerChunk 'a' [1]), env := fun n => Sample.env (n + 100) }]

/-- The wipe of the speaker, of which operation `bad` fails. -/
def sampleWipe (n : Nat) (bad : Option Nat) : Call :=
  { request := .wipeParticipantAudio "bot" Sample.sessionId Sample.speaker
    env := fun k => { Sample.env (n + k) with fails := bad = some k } }

theorem sample_wipes (bad : Option Nat) :
    WipesOf Sample.state Sample.sessionId ⟨Sample.speaker⟩ sampleServer ([sampleWipe 200 bad] ++ [sampleWipe 300 none]) :=
  ⟨⟨rfl, rfl⟩, fun _ _ => rfl, ⟨rfl, rfl⟩, fun _ _ => rfl, trivial⟩

/-- The commit fails, and the wipe is tried again. -/
theorem retried_sample : Gone Sample.sessionId ⟨Sample.speaker⟩ sampleServer.db
    (after Sample.state sampleServer ([sampleWipe 200 (some 5)] ++ [sampleWipe 300 none])).world.store := by
  refine (retried_iff Sample.state sampleServer Sample.sessionId ⟨Sample.speaker⟩ [sampleWipe 200 (some 5)] (sampleWipe 300 none)
    (by decide +kernel) (sample_wipes _) (by decide +kernel)).2 (.inl ?_)
  exact ⟨fun _ => rfl, fun _ => ⟨fun _ => rfl, fun _ => trivial⟩⟩

/-- The wipe commits and cannot mark the participant. It is tried again, the
answer is a success, and the object is still there. -/
theorem object_stays : WipesOf Sample.state Sample.sessionId ⟨Sample.speaker⟩ sampleServer
      ([sampleWipe 200 (some 6)] ++ [sampleWipe 300 none]) ∧
    (serve Sample.state (sampleWipe 300 none) (after Sample.state sampleServer [sampleWipe 200 (some 6)])).1.isOk = true ∧
    ¬Gone Sample.sessionId ⟨Sample.speaker⟩ sampleServer.db
      (after Sample.state sampleServer ([sampleWipe 200 (some 6)] ++ [sampleWipe 300 none])).world.store := by
  refine ⟨sample_wipes _, by decide +kernel, ?_⟩
  unfold Gone
  decide +kernel

end DataApi.WipeRetries
