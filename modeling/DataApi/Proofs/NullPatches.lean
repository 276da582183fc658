/-
Absent, null and given in the body of a patch. Both bodies declare their
nullable columns as a double `Option`, and only one of them decodes it so that
null is told from absent.
-/
import DataApi.Bodies
import DataApi.Proofs.RowPatches

namespace DataApi.NullPatches

open Relational ReadCommitted Resumption Handler

/-! ## Reading one field -/

/-- The column follows the body: it stays where the key is absent, is NULL where
the key is null, and is otherwise the value given. -/
structure Follows {α : Type} (read : Reader α) (fs : Fields) (key : String) (before after : Option α) : Prop where
  absent : (∀ v, (key, v) ∉ fs) → after = before
  null : (key, .null) ∈ fs → after = none
  given : ∀ v x, (key, v) ∈ fs → v ≠ .null → read v = .ok x → after = some x

section
variable {α : Type} {read : Reader α} {fs : Fields} {key : String}

/-- A field is absent, or given once. -/
theorem getD_ok {d a : α} (h : fs.getD key read d = .ok a) :
    (a = d ∧ ∀ v, (key, v) ∉ fs) ∨ ∃ v, read v = .ok a ∧ ∀ v', (key, v') ∈ fs ↔ v' = v := by
  have hmem : ∀ v, (key, v) ∈ fs ↔ (key, v) ∈ fs.filter fun f => f.1 = key := by
    intro v
    rw [List.mem_filter]
    simp
  unfold Fields.getD at h
  split at h
  · rename_i hnil
    refine .inl ⟨(Except.ok.inj h).symm, fun v => ?_⟩
    rw [hmem, hnil]
    simp
  · rename_i f hone
    refine .inr ⟨f.2, h, fun v => ?_⟩
    have hkey : f.1 = key := by
      have hf : f ∈ fs.filter fun f => f.1 = key := by
        rw [hone]
        simp
      simpa using (List.mem_filter.1 hf).2
    rw [hmem, hone, List.mem_singleton, ← hkey]
    exact ⟨fun h => (congrArg Prod.snd h).trans rfl, fun h => by rw [h]⟩
  · cases h

theorem opt_ok {v : Json} {a : Option α} (h : Reader.opt read v = .ok a) :
    (v = .null ∧ a = none) ∨ v ≠ .null ∧ ∃ x, read v = .ok x ∧ a = some x := by
  unfold Reader.opt at h
  split at h
  · exact .inl ⟨rfl, (Except.ok.inj h).symm⟩
  · rename_i hv
    refine .inr ⟨hv, ?_⟩
    cases hr : read v with
    | error e => rw [hr] at h; cases h
    | ok x =>
      rw [hr] at h
      exact ⟨x, rfl, (Except.ok.inj h).symm⟩

/-- With `deserialize_optional_optional`, the column follows the body. -/
theorem follows_optionalOptional {o : Option (Option α)} (h : fs.getD key (Reader.optionalOptional read) none = .ok o)
    (before : Option α) : Follows read fs key before (o.getD before) := by
  rcases getD_ok h with ⟨rfl, habsent⟩ | ⟨v, hv, hmem⟩
  · exact ⟨fun _ => rfl, fun hn => absurd hn (habsent _), fun v x hv => absurd hv (habsent _)⟩
  · obtain ⟨a, ha, rfl⟩ : ∃ a, Reader.opt read v = .ok a ∧ o = some a := by
      unfold Reader.optionalOptional at hv
      cases ha : Reader.opt read v with
      | error e => rw [ha] at hv; cases hv
      | ok a =>
        rw [ha] at hv
        exact ⟨a, rfl, (Except.ok.inj hv).symm⟩
    refine ⟨fun habsent => absurd ((hmem v).2 rfl) (habsent v), fun hn => ?_, fun v' x hv' hne hx => ?_⟩
    · obtain rfl := (hmem _).1 hn
      exact (Except.ok.inj ha).symm
    · obtain rfl := (hmem _).1 hv'
      rcases opt_ok ha with ⟨hnull, -⟩ | ⟨-, y, hy, rfl⟩
      · exact absurd hnull hne
      · rw [hx] at hy
        rw [Option.getD_some, Except.ok.inj hy]

/-- With the plain instance, null reads as absent. -/
theorem follows_plain_iff {o : Option (Option α)} (h : fs.getD key (Reader.opt (Reader.opt read)) none = .ok o)
    (before : Option α) : Follows read fs key before (o.getD before) ↔ ((key, .null) ∈ fs → before = none) := by
  rcases getD_ok h with ⟨rfl, habsent⟩ | ⟨v, hv, hmem⟩
  · exact iff_of_true ⟨fun _ => rfl, fun hn => absurd hn (habsent _), fun v x hv => absurd hv (habsent _)⟩
      fun hn => absurd hn (habsent _)
  · rcases opt_ok hv with ⟨rfl, rfl⟩ | ⟨hne, a, ha, rfl⟩
    · have hnull := (hmem .null).2 rfl
      constructor
      · exact fun h _ => h.null hnull
      · intro hbefore
        exact ⟨fun habsent => absurd hnull (habsent _), fun _ => hbefore hnull,
          fun v' x hv' hne => absurd ((hmem v').1 hv') hne⟩
    · refine iff_of_true ⟨fun habsent => absurd ((hmem v).2 rfl) (habsent v), fun hn => absurd ((hmem _).1 hn).symm hne,
        fun v' x hv' _ hx => ?_⟩ fun hn => absurd ((hmem _).1 hn).symm hne
      obtain rfl := (hmem _).1 hv'
      rcases opt_ok ha with ⟨hnull, -⟩ | ⟨-, y, hy, rfl⟩
      · exact absurd hnull hne
      · rw [hx] at hy
        rw [Option.getD_some, Except.ok.inj hy]

end

/-! ## Sessions -/

/-- The row of a session. -/
def session? (id : Uuid) (db : Db) : Option Session := (sessionsT.rows db).find? (Sessions.byId id)

section
variable {env : Nat → Env} {db : Db} {w : World} {id : Uuid} {s : Session} {b e : Env} {rows : Db} {ws : List (Write Row Key)}

theorem lookup_session (id : Uuid) (db : Db) : lookup (Key.session id) db = (session? id db).map .session := by
  refine lookup_rows sessionsT (fun r => ?_) db
  cases r <;> simp [key, Row.key, Table.is, sessionsT, Sessions.byId]

theorem session?_eq {db db' : Db} (h : lookup (Key.session id) db' = lookup (Key.session id) db) :
    session? id db' = session? id db := by
  rw [lookup_session, lookup_session] at h
  exact Option.map_injective (fun _ _ h => Row.session.inj h) h

/-- An UPDATE of the session by its id. -/
theorem updated_session {set : Env → Session → Session} {hk : ∀ e, sessionsT.Keeps (set e)} (hu : KeysUnique db)
    (hs : session? id db = some s) (h : answer (sessionsT.update (Sessions.byId id) set hk) b e db = .ok (rows, ws)) :
    (sessionsT.rows rows).head? = some (set { e with now := b.now } s) ∧
      session? id (applyAll ws db) = some (set { e with now := b.now } s) ∧ KeysUnique (applyAll ws db) := by
  have hbyId : ∀ t, Sessions.byId id t = true → key (sessionsT.put t) = Key.session id := by
    intro t ht
    exact congrArg Key.session (by simpa [Sessions.byId] using ht)
  have hanswer := h.symm.trans (answer_update (answer_ok h).1 hu hbyId hs rfl)
  obtain ⟨rfl, rfl⟩ := Prod.mk.inj (Except.ok.inj hanswer)
  refine ⟨sessionsT.head_put _, ?_, hu.update _⟩
  have hkey : key (sessionsT.put (set { e with now := b.now } s)) = Key.session id :=
    (hk _ s).1.trans (hbyId s (List.find?_some hs))
  have hbefore : lookup (key (sessionsT.put (set { e with now := b.now } s))) db = some (.session s) := by
    rw [hkey, lookup_session, hs]; rfl
  have hafter := lookup_update hbefore
  rw [hkey, lookup_session, Option.map_eq_some_iff] at hafter
  obtain ⟨s', hs', heq⟩ := hafter
  exact hs'.trans (congrArg some (Row.session.inj heq))

/-- The columns of the session are set as the body says. -/
def Sets (id : Uuid) (body : SessionRoutes.PatchSession) (db db' : Db) : Prop :=
  ∃ s s', session? id db = some s ∧ session? id db' = some s' ∧ s'.endedAt = body.endedAt.getD s.endedAt ∧
    s'.participantCount = body.participantCount.getD s.participantCount

/-- A session patch that succeeds sets the columns it gives. -/
theorem session_patched (hu : KeysUnique db) (svc : String) (id : Uuid) (body : SessionRoutes.PatchSession) :
    Ends env 0 ⟨none, db, w⟩ (SessionRoutes.patch svc id body) fun a m => a.isOk = true → Sets id body db m.db := by
  rw [SessionRoutes.patch]
  refine Ends.begin (fun _ h => by cases h) fun _ => ?_
  rw [Sessions.getInTx]
  simp only [bind_assoc]
  refine Ends.lock_tx (fun _ h => by cases h) fun _ => ?_
  cases hs : session? id db with
  | none =>
    rw [show (sessionsT.rows (applyAll [] db)).find? (Sessions.byId id) = none from hs]
    exact fun h => by cases h
  | some s =>
    rw [show (sessionsT.rows (applyAll [] db)).find? (Sessions.byId id) = some s from hs]
    simp only [pure_bind]
    have last : ∀ (n : Nat) (vs : List (Write Row Key)) (updated s' : Session) (change : Option (SessionStatus × SessionStatus)),
        session? id (applyAll vs db) = some s' → s'.endedAt = body.endedAt.getD s.endedAt →
        s'.participantCount = body.participantCount.getD s.participantCount →
        Ends env n ⟨some ⟨env 0, vs⟩, db, w⟩ (do
          AuditLog.appendTx (SessionRoutes.entry svc id "patched"
            (.obj [("status", .str updated.status.asStr), ("ended_at", Json.optTime updated.endedAt)]))
          commit
          SessionRoutes.announceChange id updated.guildId change
          return updated) fun a m => a.isOk = true → Sets id body db m.db := by
      intro n vs updated s' change hs' hended hcount
      rw [AuditLog.appendTx, bind_assoc]
      refine Ends.execute_tx (fun _ _ h => by cases h) fun rows ws happend => ?_
      refine Ends.commit (fun _ h => by cases h) fun _ => ?_
      have hafter : session? id (applyAll (vs ++ ws) db) = some s' := by
        rw [applyAll_append, session?_eq ((appendSql_logged happend).lookup (by simp [Key.table]))]
        exact hs'
      cases change with
      | none => exact fun _ => ⟨s, s', hs, hafter, hended, hcount⟩
      | some c => exact fun _ => ⟨s, s', hs, hafter, hended, hcount⟩
    -- The status is set before: it is another column.
    have fields : ∀ (n : Nat) (vs : List (Write Row Key)) (updated s₁ : Session) (change : Option (SessionStatus × SessionStatus)),
        KeysUnique (applyAll vs db) → session? id (applyAll vs db) = some s₁ → s₁.endedAt = s.endedAt →
        s₁.participantCount = s.participantCount → Ends env n ⟨some ⟨env 0, vs⟩, db, w⟩ (do
          let updated ← SessionRoutes.patchFields id body updated
          AuditLog.appendTx (SessionRoutes.entry svc id "patched"
            (.obj [("status", .str updated.status.asStr), ("ended_at", Json.optTime updated.endedAt)]))
          commit
          SessionRoutes.announceChange id updated.guildId change
          return updated) fun a m => a.isOk = true → Sets id body db m.db := by
      intro n vs updated s₁ change hu₁ hs₁ hended hcount
      rw [SessionRoutes.patchFields]
      split
      · rw [Sessions.patchFields]
        refine Ends.fetchOne_tx (fun _ _ h => by cases h) (fun _ _ _ _ h => by cases h) fun rows ws x hupdate _ => ?_
        obtain ⟨-, hs₂, -⟩ := updated_session hu₁ hs₁ hupdate
        rw [← applyAll_append] at hs₂
        exact last _ _ _ _ change hs₂ (by rw [← hended]; rfl) (by rw [← hcount]; rfl)
      · rename_i hnone
        rw [Bool.or_eq_true, not_or, Option.not_isSome_iff_eq_none, Option.not_isSome_iff_eq_none] at hnone
        refine last _ _ _ _ change hs₁ ?_ ?_
        · rw [hnone.1, hended]; rfl
        · rw [hnone.2, hcount]; rfl
    cases body.status with
    | none => exact fields _ _ _ _ none hu hs rfl rfl
    | some new =>
      rw [SessionRoutes.patchStatus, bind_assoc]
      refine Ends.refuseIf (fun _ h => by cases h) fun _ => ?_
      rw [bind_assoc, Sessions.updateStatus]
      refine Ends.fetchOne_tx (fun _ _ h => by cases h) (fun _ _ _ _ h => by cases h) fun rows ws x hupdate _ => ?_
      obtain ⟨-, hs₁, hu₁⟩ := updated_session hu hs hupdate
      exact fields _ _ _ _ _ hu₁ hs₁ rfl rfl

end

/-! ## The law -/

/-- A patch of a row with nullable columns. -/
inductive NullPatch
  | session (svc : String) (id : Uuid) (body : Fields)
  | segment (svc : String) (id : Uuid) (headers : HeaderMap) (body : Fields)

def NullPatch.request : NullPatch → BodyRequest
  | .session svc id fs => .patchSession svc id (.obj fs)
  | .segment svc id headers fs => .patchRow .segments svc id headers (.obj fs)

/-- The `confidence` column. -/
def confidence (r : UniformPgRow) : Option F64 :=
  match r.columns with
  | .segment _ _ c => c
  | .titleSummary _ _ => none

/-- A row of `session_segments`, with the columns that table has. -/
def segment? (id : Uuid) (db : Db) (r : UniformPgRow) : Prop :=
  RowPatches.stored .segments id db = some r ∧ ∃ pid t c, r.columns = .segment pid t c

/-- Every nullable column of the patched row follows the body. -/
def Respects (rd : Readers) (db db' : Db) : NullPatch → Prop
  | .session _ id fs => ∀ s s', session? id db = some s → session? id db' = some s' →
    Follows rd.time fs "ended_at" s.endedAt s'.endedAt ∧
    Follows (Reader.int 32) fs "participant_count" s.participantCount s'.participantCount
  | .segment _ id _ fs => ∀ r r', segment? id db r → segment? id db' r' →
    Follows rd.f64 fs "confidence" (confidence r) (confidence r')

/-- No confidence that is stored is asked to be null. -/
def Clear (db : Db) : NullPatch → Prop
  | .session _ _ _ => True
  | .segment _ id _ fs => ("confidence", .null) ∈ fs → ∀ r, segment? id db r → confidence r = none

section
variable {rd : Readers} {st : AppState} {sv : Sv Unit} {env : Nat → Env} {svc : String} {id : Uuid} {headers : HeaderMap}
  {fs : Fields}

theorem map_ok {α β : Type} {f : α → β} {x : Except JsonRejection α} {b : β} (h : f <$> x = .ok b) :
    ∃ a, x = .ok a ∧ f a = b := by
  cases x with
  | error e => cases h
  | ok a => exact ⟨a, rfl, Except.ok.inj h⟩

theorem isOk_map {α β : Type} {f : α → β} {x : Except AppError α} : (x.map f).isOk = x.isOk := by
  cases x <;> rfl

/-- Both columns of a session follow the body. -/
theorem session_respects (hu : KeysUnique sv.db) {body : SessionRoutes.PatchSession}
    (hbody : SessionRoutes.PatchSession.deserialize rd fs = .ok body)
    (hok : (serve st ⟨.patchSession svc id body, env⟩ sv).1.isOk = true) :
    Respects rd sv.db (serve st ⟨.patchSession svc id body, env⟩ sv).2.db (.session svc id fs) := by
  have hends : Ends env 0 ⟨none, sv.db, sv.world⟩ (SessionRoutes.patch svc id body)
      fun a m => a.isOk = true → Sets id body sv.db m.db := session_patched hu svc id body
  have hsets : (serve st ⟨.patchSession svc id body, env⟩ sv).1.isOk = true →
      Sets id body sv.db (serve st ⟨.patchSession svc id body, env⟩ sv).2.db :=
    (serve_ends (Q := fun a db _ => a.isOk = true → Sets id body sv.db db)).2
      (ends_map.2 (hends.mono fun a m h ha => h (isOk_map.symm.trans ha)))
  obtain ⟨s, s', hs, hs', hended, hcount⟩ := hsets hok
  intro t t' ht ht'
  obtain rfl := Option.some.inj (hs.symm.trans ht)
  obtain rfl := Option.some.inj (hs'.symm.trans ht')
  obtain ⟨status, -, hbody⟩ := bind_ok hbody
  obtain ⟨endedAt, hendedAt, hbody⟩ := bind_ok hbody
  obtain ⟨count, hcountAt, hbody⟩ := bind_ok hbody
  obtain rfl := Except.ok.inj hbody
  rw [hended, hcount]
  exact ⟨follows_optionalOptional hendedAt _, follows_optionalOptional hcountAt _⟩

/-- A segment patch that succeeds writes the confidence it gives. -/
theorem segment_patched (hu : KeysUnique sv.db) {body : Uniform.PatchInput}
    (hok : (serve st ⟨.patchRow .segments svc id headers body, env⟩ sv).1.isOk = true) {r : UniformPgRow}
    (hr : segment? id sv.db r) :
    ∃ r', segment? id (serve st ⟨.patchRow .segments svc id headers body, env⟩ sv).2.db r' ∧
      confidence r' = body.confidence.getD (confidence r) := by
  obtain ⟨hr, pid, t, c, hc⟩ := hr
  let x : RowPatches.Patch := { rt := .segments, id := id, svc := svc, headers := headers, body := body, env := env }
  have hok : (serve st x.call sv).1.isOk = true := hok
  rcases RowPatches.patch_spec st x hu with ⟨r₀, tag, t₀, hr₀, -, hlogged⟩ | ⟨-, ⟨e, he⟩, -⟩
  · obtain rfl := Option.some.inj (hr.symm.trans hr₀)
    have hcolumns : (RowPatches.applied .segments body r).columns = .segment pid (body.text.getD t) (body.confidence.getD c) := by
      simp [RowPatches.applied, RowPatches.appliedColumns, hc, ResourceTable.shape]
    refine ⟨_, ⟨RowPatches.stored_written hr hlogged rfl, _, _, _, hcolumns⟩, ?_⟩
    have hafter : confidence (RowPatches.stamp tag t₀ (RowPatches.applied .segments body r)) = body.confidence.getD c := by
      rw [confidence, show (RowPatches.stamp tag t₀ (RowPatches.applied .segments body r)).columns = _ from hcolumns]
    rw [show confidence r = c by rw [confidence, hc]]
    exact hafter
  · rw [he] at hok
    cases hok

/-- The confidence of a segment follows the body, unless it is to be null and is
not. -/
theorem segment_respects_iff (hu : KeysUnique sv.db) {body : Uniform.PatchInput}
    (hbody : Uniform.PatchInput.deserialize rd fs = .ok body)
    (hok : (serve st ⟨.patchRow .segments svc id headers body, env⟩ sv).1.isOk = true) :
    Respects rd sv.db (serve st ⟨.patchRow .segments svc id headers body, env⟩ sv).2.db (.segment svc id headers fs) ↔
      Clear sv.db (.segment svc id headers fs) := by
  have hconfidence : fs.getD "confidence" (Reader.opt (Reader.opt rd.f64)) none = .ok body.confidence := by
    obtain ⟨text, -, hbody⟩ := bind_ok hbody
    obtain ⟨title, -, hbody⟩ := bind_ok hbody
    obtain ⟨summary, -, hbody⟩ := bind_ok hbody
    obtain ⟨o, ho, hbody⟩ := bind_ok hbody
    obtain ⟨startMs, -, hbody⟩ := bind_ok hbody
    obtain ⟨endMs, -, hbody⟩ := bind_ok hbody
    obtain ⟨flags, -, hbody⟩ := bind_ok hbody
    obtain ⟨author, -, hbody⟩ := bind_ok hbody
    obtain rfl := Except.ok.inj hbody
    exact ho
  constructor
  · intro h hnull r hr
    obtain ⟨r', hr', hafter⟩ := segment_patched hu hok hr
    have hfollows := h r r' hr hr'
    rw [hafter, follows_plain_iff hconfidence] at hfollows
    exact hfollows hnull
  · intro h r r' hr hr'
    obtain ⟨r'', hr'', hafter⟩ := segment_patched hu hok hr
    obtain rfl := Option.some.inj (hr'.1.symm.trans hr''.1)
    rw [hafter]
    exact (follows_plain_iff hconfidence _).2 fun hnull => h hnull r hr

/-- A patch that is read and succeeds respects the body, unless it asks a
confidence that is stored to be null. -/
theorem respects_iff (st : AppState) (hu : KeysUnique sv.db) {x : NullPatch} {req : Request}
    (hreq : x.request.deserialize rd = .ok req) (hok : (serve st ⟨req, env⟩ sv).1.isOk = true) :
    Respects rd sv.db (serve st ⟨req, env⟩ sv).2.db x ↔ Clear sv.db x := by
  cases x with
  | session svc id fs =>
    obtain ⟨body, hbody, rfl⟩ := map_ok hreq
    exact iff_of_true (session_respects hu hbody hok) trivial
  | segment svc id headers fs =>
    obtain ⟨body, hbody, rfl⟩ := map_ok hreq
    exact segment_respects_iff hu hbody hok

end

/-! ## A sample -/

/-- A segment whose confidence is known. -/
def sampleServer : Sv Unit :=
  Sample.server [.session Sample.session,
    .uniform .segments { RowPatches.sampleRow with columns := .segment none "hello" (some 7) }]

def sampleBody (v : Json) : Fields := [("text", .str "hi"), ("confidence", v)]

def samplePatch (v : Json) : NullPatch := .segment "bot" 5 [] (sampleBody v)

/-- A new confidence is stored. -/
theorem respects_sample : ∃ req, (samplePatch (.float 9)).request.deserialize Sample.readers = .ok req ∧
    (serve Sample.state ⟨req, Sample.env⟩ sampleServer).1.isOk = true ∧
    Respects Sample.readers sampleServer.db (serve Sample.state ⟨req, Sample.env⟩ sampleServer).2.db (samplePatch (.float 9)) := by
  have hreq : (samplePatch (.float 9)).request.deserialize Sample.readers =
    .ok (.patchRow .segments "bot" 5 [] { text := some "hi", confidence := some (some 9) }) := rfl
  have hok : (serve Sample.state ⟨.patchRow .segments "bot" 5 [] { text := some "hi", confidence := some (some 9) },
    Sample.env⟩ sampleServer).1.isOk = true := by decide +kernel
  refine ⟨_, hreq, hok, (respects_iff Sample.state (by decide) hreq hok).2 ?_⟩
  simp [samplePatch, Clear, sampleBody]

/-- A null leaves the stored confidence. -/
theorem null_ignored : ∃ req, (samplePatch .null).request.deserialize Sample.readers = .ok req ∧
    (serve Sample.state ⟨req, Sample.env⟩ sampleServer).1.isOk = true ∧
    ¬Respects Sample.readers sampleServer.db (serve Sample.state ⟨req, Sample.env⟩ sampleServer).2.db (samplePatch .null) := by
  have hbody : Uniform.PatchInput.deserialize Sample.readers (sampleBody .null) = .ok { text := some "hi" } := rfl
  have hok : (serve Sample.state ⟨.patchRow .segments "bot" 5 [] { text := some "hi" }, Sample.env⟩ sampleServer).1.isOk =
    true := by decide +kernel
  refine ⟨_, rfl, hok, fun h => ?_⟩
  have hclear := (segment_respects_iff (by decide) hbody hok).1 h (by simp [sampleBody]) _ ⟨rfl, _, _, _, rfl⟩
  cases hclear

end DataApi.NullPatches
