/-
The handlers that look up the guild of the session after their audit row:
what they changed is in the tables by then, and in the audit log.
-/
import DataApi.Proofs.LateWrites

namespace DataApi.ErrorsUnchanged

open Relational ReadCommitted Resumption Handler

section
variable {β : Type} {tells : Row → AuditRow → Prop} {db db₁ : Db} {env : Nat → Env} {n : Nat} {w : World} {sid : Uuid}

/-- The audit row is refused or, after it, the lookup of the guild. -/
def LateTold (env : Nat → Env) (n : Nat) (db : Db) : Prop := Unaudited (env n) db ∨ (env (n + 1)).fails = true

theorem noGuild_iff {e : Env} (h : Present (Key.session sid) db) : NoGuild e sid db ↔ e.fails = true :=
  or_iff_left (not_not.2 h)

/-- A change, its audit row, and an event for the guild of a session that is
there. -/
theorem spoils_told {entry : AuditLog.Entry} {f : Int → Handler β} (hdb₁ : ChangesOnly (Told tells entry) db db₁)
    (hs : Present (Key.session sid) db₁)
    (hf : ∀ g db₂, Recorded tells db db₂ → ¬Spoils tells db env (n + 2) ⟨none, db₂, w⟩ (f g)) :
    Spoils tells db env n ⟨none, db₁, w⟩ (AuditLog.append entry >>= fun _ => Sessions.guildIdForSession sid >>= f) ↔
      (db₁ ≠ db ∧ Unaudited (env n) db) ∨ (¬Unaudited (env n) db ∧ (env (n + 1)).fails = true) := by
  rw [spoils_announced hdb₁ hf, noGuild_iff hs]

/-- The same where something was changed for certain. -/
theorem spoils_changed {entry : AuditLog.Entry} {f : Int → Handler β} (hdb₁ : ChangesOnly (Told tells entry) db db₁)
    (hne : db₁ ≠ db) (hs : Present (Key.session sid) db₁)
    (hf : ∀ g db₂, Recorded tells db db₂ → ¬Spoils tells db env (n + 2) ⟨none, db₂, w⟩ (f g)) :
    Spoils tells db env n ⟨none, db₁, w⟩ (AuditLog.append entry >>= fun _ => Sessions.guildIdForSession sid >>= f) ↔
      LateTold env n db := by
  rw [spoils_told hdb₁ hs hf, and_iff_right hne, LateTold]
  by_cases h : Unaudited (env n) db <;> simp [h]

end

/-! ## Segments, beats and scenes -/

section
variable {db : Db} {env : Nat → Env} {n : Nat} {w : World} {rt : ResourceTable} {id : Uuid} {r : UniformPgRow}

theorem key_uniform (r : Row) : key r = Key.uniform rt id ↔ (uniformT rt).is (Uniform.byId id) r = true := by
  cases r with
  | uniform rt' r =>
    by_cases hrt : rt' = rt
    · subst hrt
      simp [key, Row.key, Table.is, uniformT, Uniform.byId]
    · simp [key, Row.key, Table.is, uniformT, hrt]
  | _ => simp [key, Row.key, Table.is, uniformT]

theorem told_uniform {svc action : String} {actorPseudo : Option PseudoId} {detail : Option Json} (hid : r.id = id) :
    Told (Tells svc action Named) (UniformRoutes.entry rt svc actorPseudo sid id action detail) (.uniform rt r) := by
  rw [← hid]
  exact ⟨(fun h => by cases h), fun _ => ⟨rfl, rfl, rfl⟩⟩

/-- The patch is taken, and the audit row of a change is refused or, after
the audit row, the lookup of the guild. -/
structure LatePatch (env : Nat → Env) (db : Db) (rt : ResourceTable) (headers : HeaderMap) (body : Uniform.PatchInput)
    (r : UniformPgRow) : Prop where
  patchable : FailsClosed.Patchable env body r
  matches' : (ifMatch headers).any (· ≠ ⟨r.etag⟩) = false
  refused : (RowPatches.stamp (env 2).etag.raw (env 0).now (RowPatches.applied rt body r) ≠ r ∧ Unaudited (env 5) db) ∨
    (¬Unaudited (env 5) db ∧ (env 6).fails = true)

theorem exists_ok {ε α : Type} {x : Except ε α} {S : α → Prop} {X : Prop} (h : ∀ a, x = .ok a → (S a ↔ X)) :
    (∃ a, x = .ok a ∧ S a) ↔ (∃ a, x = .ok a) ∧ X := by
  rw [← exists_and_right]
  exact exists_congr fun a => and_congr_right (h a)

/-- The patch of a row that is there and locked. -/
theorem spoils_patching (env : Nat → Env) (hdb : Intact db) (hr : RowPatches.stored rt id db = some r) (svc : String) (expected : Option ETag)
    (body : Uniform.PatchInput) {f : Uniform.UniformRow → Int → Handler Uniform.UniformRow}
    (hf : ∀ u g db₂ w, Recorded (Tells svc "patched" Named) db db₂ →
      ¬Spoils (Tells svc "patched" Named) db env 7 ⟨none, db₂, w⟩ (f u g)) :
    Spoils (Tells svc "patched" Named) db env 2 ⟨some ⟨env 0, []⟩, db, w⟩
      (ofResult (Uniform.rowFromPg r) >>= fun existing => refuseIf (expected.any (· ≠ existing.etag)) (.preconditionFailed existing.etag) >>=
        fun _ => newEtag >>= fun etag => fetchOne .tx (uniformT rt) (Uniform.updateSql rt id (Uniform.applyPatch rt body existing)
          body.authorUserPseudoId etag) >>= fun pgRow => ofResult (Uniform.rowFromPg pgRow) >>= fun out => commit >>= fun _ =>
          AuditLog.append (UniformRoutes.entry rt svc out.authorUserPseudoId out.sessionId id "patched" none) >>= fun _ =>
          Sessions.guildIdForSession out.sessionId >>= f out) ↔
      EtagHistory.Reads r ∧ expected.any (· ≠ ⟨r.etag⟩) = false ∧ ((env 3).fails = false ∧
        ((body.authorUserPseudoId.map (·.raw)).or r.authorUserPseudoId).all isValidPseudoId = true) ∧ (env 4).fails = false ∧
        ((RowPatches.stamp (env 2).etag.raw (env 0).now (RowPatches.applied rt body r) ≠ r ∧ Unaudited (env 5) db) ∨
          (¬Unaudited (env 5) db ∧ (env 6).fails = true)) := by
  rw [spoils_ofResult_tx, EtagHistory.Reads]
  refine exists_ok fun u hu => ?_
  rw [spoils_refuseIf_tx, (EtagHistory.rowFromPg_ok hu).2.2]
  refine and_congr_right fun _ => ?_
  have hstored := (RowPatches.stored_iff hdb.keys).1 hr
  have hbyId : ∀ t, Uniform.byId id t = true → key ((uniformT rt).put t) = Key.uniform rt id :=
    fun t ht => (key_uniform _).2 (by rwa [(uniformT rt).is_put])
  obtain ⟨r', hr'⟩ : ∃ r', r' = Uniform.setPatched (Uniform.applyPatch rt body u) body.authorUserPseudoId (env 2).etag
    { env 3 with now := (env 0).now } r := ⟨_, rfl⟩
  have hset : r' = RowPatches.stamp (env 2).etag.raw (env 0).now (RowPatches.applied rt body r) :=
    hr'.trans (RowPatches.setPatched_eq hu _ _)
  have hdecided : Decided ((env 3).fails = false ∧ check (Row.uniform rt r') = true)
      (Uniform.updateSql rt id (Uniform.applyPatch rt body u) body.authorUserPseudoId (env 2).etag) (env 0) (env 3) db
      [.uniform rt r'] [.update (.uniform rt r')] := by
    rw [hr']
    exact decided_update hdb.keys hbyId hr
  refine ends_outer.trans ((spoils_fetchOne_tx hdecided ((uniformT rt).head_put r')).trans ?_)
  have hauthor : check (Row.uniform rt r') = ((body.authorUserPseudoId.map (·.raw)).or r.authorUserPseudoId).all isValidPseudoId := by
    rw [hr']; rfl
  rw [← hauthor]
  refine and_congr_right fun hchecked => ?_
  obtain ⟨out, hout⟩ : EtagHistory.Reads r' := by
    rw [hr'] at hchecked ⊢
    exact EtagHistory.Reads.patched ⟨u, hu⟩ hchecked.2
  have hid : r'.id = r.id := by rw [hset]; rfl
  have hsid : out.sessionId = r.sessionId := by rw [← (rowFromPg_ids hout).2, hset]; rfl
  have hkey : key (Row.uniform rt r') = key (Row.uniform rt r) := congrArg (Key.uniform rt) hid
  have hchanges : ChangesOnly (Told (Tells svc "patched" Named)
      (UniformRoutes.entry rt svc out.authorUserPseudoId out.sessionId id "patched" none)) db
      (Write.apply db (.update (.uniform rt r'))) :=
    .update hdb.keys hstored.1 hkey (told_uniform hstored.2) (told_uniform (hid.trans hstored.2))
  have hsession : Present (Key.session out.sessionId) (Write.apply db (.update (.uniform rt r'))) := by
    rw [present_update, hsid]
    exact hdb.referenced _ hstored.1 _ (List.mem_singleton.2 rfl)
  have hne : Write.apply db (.update (.uniform rt r')) ≠ db ↔
      RowPatches.stamp (env 2).etag.raw (env 0).now (RowPatches.applied rt body r) ≠ r := by
    rw [Ne, update_eq_iff hdb.keys hstored.1 hkey, hset]
    simp
  rw [spoils_ofResult_tx, hout]
  simp only [Except.ok.injEq, exists_eq_left', List.nil_append]
  rw [spoils_commit]
  refine and_congr_right fun _ => ?_
  rw [← hne]
  exact spoils_told hchanges hsession fun g db₂ h => hf out g db₂ _ h

theorem patchRow_late (hdb : Intact db) (rt : ResourceTable) (svc : String) (id : Uuid) (headers : HeaderMap)
    (body : Uniform.PatchInput) :
    Spoils (Tells svc "patched" Named) db env 0 ⟨none, db, w⟩ (UniformRoutes.patchRow rt svc id headers body) ↔
      ∃ r, RowPatches.stored rt id db = some r ∧ LatePatch env db rt headers body r := by
  rw [UniformRoutes.patchRow, Uniform.patch, Uniform.found]
  simp only [bind_assoc]
  rw [spoils_begin, at_first, Uniform.lockSql, spoils_lock]
  cases hr : RowPatches.stored rt id db with
  | none =>
    have hfind : ((uniformT rt).rows db).find? (Uniform.byId id) = none := hr
    rw [hfind]
    refine iff_of_false ?_ ?_
    · rintro ⟨-, -, hs⟩
      exact hs rfl
    · rintro ⟨r, h, -⟩
      cases h
  | some r =>
    have hfind : ((uniformT rt).rows db).find? (Uniform.byId id) = some r := hr
    rw [hfind]
    have hpatching := spoils_patching (w := w) env hdb hr svc (ifMatch headers) body (f := fun row guildId => utcNow >>= fun atTs =>
        send (UniformRoutes.updated atTs { sessionId := row.sessionId, guildId := guildId, id := id } rt) >>= fun _ => pure row) fun u g db₂ w h hs => hs h
    constructor
    · rintro ⟨h0, h1, hs⟩
      obtain ⟨hreads, hc, ⟨h3, hauthor⟩, h4, href⟩ := hpatching.1 hs
      refine ⟨r, rfl, ⟨?_, hreads, hauthor⟩, hc, href⟩
      simp only [List.mem_cons, List.not_mem_nil, or_false, forall_eq_or_imp, forall_eq]
      exact ⟨h0, h1, h3, h4⟩
    · rintro ⟨r', hr', ⟨⟨hworks, hreads, hauthor⟩, hc, href⟩⟩
      obtain rfl := Option.some.inj hr'
      simp only [List.mem_cons, List.not_mem_nil, or_false, forall_eq_or_imp, forall_eq] at hworks
      obtain ⟨h0, h1, h3, h4⟩ := hworks
      exact ⟨h0, h1, hpatching.2 ⟨hreads, hc, ⟨h3, hauthor⟩, h4, href⟩⟩

end

/-! ## Rows that are deleted -/

section
variable {β τ : Type} {tells : Row → AuditRow → Prop} {db : Db} {env : Nat → Env} {n : Nat} {w : World} {T : Table Row τ}
  {p : τ → Bool} {name : TableName}

/-- The rows without those of a DELETE. -/
def without (T : Table Row τ) (p : τ → Bool) (db : Db) : Db := db.filter fun r => !T.is p r

theorem without_eq (h : (T.rows db).find? p = none) : without T p db = db := by
  refine List.filter_eq_self.2 fun r hr => ?_
  rw [Bool.not_eq_true', Bool.eq_false_iff]
  intro his
  obtain ⟨t, rfl, ht⟩ := T.is_iff.1 his
  exact List.find?_eq_none.1 h t (T.mem_rows.2 hr) ht

theorem without_ne {t : τ} (h : (T.rows db).find? p = some t) : without T p db ≠ db := by
  intro heq
  have hmem : T.put t ∈ without T p db := by
    rw [heq]
    exact T.mem_rows.1 (List.mem_of_find?_eq_some h)
  have hkept := (List.mem_filter.1 hmem).2
  rw [T.is_put, List.find?_some h] at hkept
  cases hkept

theorem present_without {k : Key} (hT : ∀ t, (key (T.put t) : Key).table = name) (hk : k.table ≠ name)
    (h : Present k db) : Present k (without T p db) := by
  obtain ⟨r, hr, rfl⟩ := h
  refine ⟨r, List.mem_filter.2 ⟨hr, ?_⟩, rfl⟩
  rw [Bool.not_eq_true', Bool.eq_false_iff]
  intro his
  obtain ⟨t, rfl, -⟩ := T.is_iff.1 his
  exact hk (hT t)

theorem without_changes {P : Row → Prop} (hP : ∀ t, p t = true → P (T.put t)) : ChangesOnly P db (without T p db) := by
  refine .filter fun r _ hgone => ?_
  obtain ⟨t, rfl, ht⟩ := T.is_iff.1 (by simpa using hgone)
  exact hP t ht

theorem spoils_delete (hu : KeysUnique db) (hn : name.isParent = false) (hT : ∀ t, (key (T.put t) : Key).table = name)
    {f : Option τ → Handler β} : Spoils tells db env n ⟨none, db, w⟩ (fetchOptional .pool T (T.delete p) >>= f) ↔
      (env n).fails = false ∧ Spoils tells db env (n + 1) ⟨none, without T p db, w⟩ (f ((T.rows db).find? p)) := by
  obtain ⟨ws, hdecided, hws⟩ := decided_deleteLeaf (p := p) (b := env n) (e := env n) hu hn hT
  rw [spoils_fetchOptional hdecided head_filter_is, at_first, hws]
  exact Iff.rfl

end

section
variable {db : Db} {env : Nat → Env} {w : World}

theorem deleteRow_late (hdb : Intact db) (rt : ResourceTable) (svc : String) (id : Uuid) :
    Spoils (Tells svc "deleted" Named) db env 0 ⟨none, db, w⟩ (UniformRoutes.deleteRow rt svc id) ↔
      (env 0).fails = false ∧ ∃ r, RowPatches.stored rt id db = some r ∧ (¬EtagHistory.Reads r ∨ LateTold env 1 db) := by
  rw [UniformRoutes.deleteRow, Uniform.delete, Uniform.found, Uniform.deleteSql]
  simp only [bind_assoc]
  have hleaf : (TableName.uniform rt).isParent = false := rfl
  rw [spoils_delete hdb.keys hleaf fun _ => rfl]
  refine and_congr_right fun _ => ?_
  cases hr : RowPatches.stored rt id db with
  | none =>
    have hfind : ((uniformT rt).rows db).find? (Uniform.byId id) = none := hr
    rw [hfind, without_eq hfind]
    refine iff_of_false (fun hs => hs rfl) ?_
    rintro ⟨r, h, -⟩
    cases h
  | some r =>
    have hfind : ((uniformT rt).rows db).find? (Uniform.byId id) = some r := hr
    have hstored := (RowPatches.stored_iff hdb.keys).1 hr
    rw [hfind]
    simp only [Option.some.injEq, exists_eq_left', pure_bind]
    rw [spoils_ofResult, and_iff_right (without_ne hfind), EtagHistory.Reads]
    cases hu : Uniform.rowFromPg r with
    | error e =>
      refine iff_of_true (.inl rfl) (.inl ?_)
      rintro ⟨u, h⟩
      cases h
    | ok u =>
      have hchanges : ChangesOnly (Told (Tells svc "deleted" Named) (UniformRoutes.entry rt svc none u.sessionId id "deleted" none))
          db (without (uniformT rt) (Uniform.byId id) db) :=
        without_changes fun t ht => told_uniform (by simpa [Uniform.byId] using ht)
      have hsession : Present (Key.session u.sessionId) (without (uniformT rt) (Uniform.byId id) db) := by
        refine present_without (fun _ => rfl) (by simp [Key.table]) ?_
        rw [← (rowFromPg_ids hu).2]
        exact hdb.referenced _ hstored.1 _ (List.mem_singleton.2 rfl)
      have hafter : Spoils (Tells svc "deleted" Named) db env 1 ⟨none, without (uniformT rt) (Uniform.byId id) db, w⟩
            (AuditLog.append (UniformRoutes.entry rt svc none u.sessionId id "deleted" none) >>= fun _ =>
              Sessions.guildIdForSession u.sessionId >>= fun guildId => utcNow >>= fun atTs =>
                send (UniformRoutes.deleted atTs { sessionId := u.sessionId, guildId := guildId, id := id } rt)) ↔
          LateTold env 1 db := spoils_changed hchanges (without_ne hfind) hsession fun g db₂ h hs => hs h
      rw [← hafter]
      have hreads : ∃ u', (Except.ok u : Except AppError Uniform.UniformRow) = .ok u' := ⟨u, rfl⟩
      rw [or_iff_right (not_not.2 hreads)]
      simp only [Except.isOk, Except.toBool, Bool.true_eq_false, false_or, Except.ok.injEq, exists_eq_left']

/-! ## Mute ranges -/

theorem told_mute {svc action : String} {pid : PseudoId} {sid : Uuid} {m : MuteRange} {detail : Option Json} :
    Told (Tells svc action Named) (MuteRoutes.entry svc pid sid "mute_range" m.id.text action detail) (.mute m) :=
  ⟨(fun h => by cases h), fun _ => ⟨rfl, rfl, rfl⟩⟩

/-- The range is entered, and after it the audit row is refused or the lookup
of the guild. -/
structure LateMute (env : Nat → Env) (db : Db) (sid : Uuid) (pid : PseudoId) (input : MuteRanges.CreateMuteRange) : Prop where
  forward : input.startOffsetMs ≤ input.endOffsetMs
  lands : Lands (env 0) db (.mute (MuteRanges.freshRow sid pid input (env 0)))
  refused : LateTold env 1 db

theorem createMute_late (svc : String) (sid : Uuid) (raw : String) (input : MuteRanges.CreateMuteRange) :
    Spoils (Tells svc "created" Named) db env 0 ⟨none, db, w⟩ (MuteRoutes.createMute svc sid raw input) ↔
      ∃ pid, PseudoId.new raw = .ok pid ∧ LateMute env db sid pid input := by
  rw [MuteRoutes.createMute, spoils_pseudoId]
  refine exists_congr fun pid => and_congr_right fun _ => ?_
  have hdecided : Decided (Lands (env 0) db (.mute (MuteRanges.freshRow sid pid input (env 0)))) (MuteRanges.createSql sid pid input)
      (env 0) (env 0) db _ _ := decided_insert (T := mutesT) rfl
  rw [MuteRanges.create, bind_assoc, spoils_refuseIf, at_first, spoils_fetchOne hdecided (mutesT.head_put _), at_first]
  have hiff : ∀ {S : Prop}, (Lands (env 0) db (.mute (MuteRanges.freshRow sid pid input (env 0))) → (S ↔ LateTold env 1 db)) →
      (decide (input.endOffsetMs < input.startOffsetMs) = false ∧ Lands (env 0) db (.mute (MuteRanges.freshRow sid pid input (env 0))) ∧ S ↔
        LateMute env db sid pid input) := by
    intro S hS
    constructor
    · rintro ⟨hf, hl, hs⟩
      exact ⟨Int.not_lt.1 (of_decide_eq_false hf), hl, (hS hl).1 hs⟩
    · rintro ⟨hf, hl, ht⟩
      exact ⟨decide_eq_false (Int.not_lt.2 hf), hl, (hS hl).2 ht⟩
  refine hiff fun hl => ?_
  have hsession : Present (Key.session sid) (applyAll [.insert (.mute (MuteRanges.freshRow sid pid input (env 0)))] db) :=
    present_insert.2 (.inl (hl.refs _ (List.mem_singleton.2 rfl)))
  exact spoils_changed (.insert told_mute) insert_ne hsession fun g db₂ h hs => hs h

/-- The range is deleted, and after it the audit row is refused or the lookup
of the guild. -/
structure LateUnmute (env : Nat → Env) (db : Db) (sid : Uuid) (pid : PseudoId) (rangeId : Uuid) : Prop where
  works : (env 0).fails = false
  stored : ∃ m, (mutesT.rows db).find? (fun m => m.id = rangeId && m.sessionId = sid && m.pseudoId = pid) = some m
  refused : LateTold env 1 db

theorem deleteMute_late (hdb : Intact db) (svc : String) (sid : Uuid) (raw : String) (rangeId : Uuid) :
    Spoils (Tells svc "deleted" Named) db env 0 ⟨none, db, w⟩ (MuteRoutes.deleteMute svc sid raw rangeId) ↔
      ∃ pid, PseudoId.new raw = .ok pid ∧ LateUnmute env db sid pid rangeId := by
  rw [MuteRoutes.deleteMute, spoils_pseudoId]
  refine exists_congr fun pid => and_congr_right fun _ => ?_
  have hleaf : TableName.mutes.isParent = false := rfl
  rw [MuteRanges.deleteOne, MuteRanges.deleteOneSql, bind_assoc, spoils_delete hdb.keys hleaf fun _ => rfl]
  cases hm : (mutesT.rows db).find? (fun m => m.id = rangeId && m.sessionId = sid && m.pseudoId = pid) with
  | none =>
    rw [without_eq hm]
    refine iff_of_false (fun hs => hs.2 rfl) fun h => ?_
    obtain ⟨m, hm'⟩ := h.stored
    rw [hm] at hm'
    cases hm'
  | some m =>
    have hmem : Row.mute m ∈ db := mutesT.mem_rows.1 (List.mem_of_find?_eq_some hm)
    have hpred := List.find?_some hm
    simp only [Bool.and_eq_true, decide_eq_true_eq] at hpred
    obtain ⟨⟨rfl, hsid⟩, -⟩ := hpred
    have hchanges : ChangesOnly (Told (Tells svc "deleted" Named) (MuteRoutes.entry svc pid sid "mute_range" m.id.text "deleted" none)) db
        (without mutesT (fun x => x.id = m.id && x.sessionId = sid && x.pseudoId = pid) db) := by
      refine without_changes fun t ht => ?_
      simp only [Bool.and_eq_true, decide_eq_true_eq] at ht
      rw [← ht.1.1]
      exact told_mute
    have hsession : Present (Key.session sid) (without mutesT (fun x => x.id = m.id && x.sessionId = sid && x.pseudoId = pid) db) := by
      refine present_without (fun _ => rfl) (by simp [Key.table]) ?_
      rw [← hsid]
      exact hdb.referenced _ hmem _ (List.mem_singleton.2 rfl)
    have hafter : Spoils (Tells svc "deleted" Named) db env 1
          ⟨none, without mutesT (fun x => x.id = m.id && x.sessionId = sid && x.pseudoId = pid) db, w⟩
          (AuditLog.append (MuteRoutes.entry svc pid sid "mute_range" m.id.text "deleted" none) >>= fun _ =>
            Sessions.guildIdForSession sid >>= fun guildId => utcNow >>= fun atTs =>
              send (.muteRangeDeleted atTs { sessionId := sid, guildId := guildId, pseudoId := pid, rangeId := m.id })) ↔
        LateTold env 1 db := spoils_changed hchanges (without_ne hm) hsession fun g db₂ h hs => hs h
    refine (and_congr_right fun _ => hafter).trans ?_
    exact ⟨fun h => ⟨h.1, ⟨m, hm⟩, h.2⟩, fun h => ⟨h.works, h.refused⟩⟩

end
end DataApi.ErrorsUnchanged
