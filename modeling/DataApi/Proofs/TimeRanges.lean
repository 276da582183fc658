/-
Time ranges. A bulk insert and a new mute range are checked before they are
entered. A patch is not: it may move one bound past the other, stored one. So
ranges stay in order as long as every patch, on the row that it locks, asks
for bounds in order.
-/
import DataApi.Db.Writes
import DataApi.Proofs.EtagHistory
import DataApi.RowRules

namespace DataApi.TimeRanges

open Relational ReadCommitted Resumption Handler DataApi.Uniform RowRules

/-- The start is not after the end. -/
def Forward : Row → Prop
  | .uniform _ r => r.startMs ≤ r.endMs
  | .mute m => m.startOffsetMs ≤ m.endOffsetMs
  | _ => True

/-! ## Statements -/

/-- Tables of time ranges. -/
def ranged : TableName → Bool
  | .uniform _ | .mutes => true
  | _ => false

theorem preserves_elsewhere {D : TableName → Prop} {q : Sql} (h : Writes D q) (hD : ∀ n, D n → ranged n = false) :
    q.Preserves Forward := by
  refine preserves_of_checked h fun r hr _ => ?_
  have hr := hD _ hr
  cases r with
  | uniform rt r => cases hr
  | mute m => cases hr
  | _ => trivial

theorem appendSql_preserves (e : AuditLog.Entry) : (AuditLog.appendSql e).Preserves Forward :=
  preserves_elsewhere (AuditLog.appendSql_writes e) (by rintro n rfl; rfl)

theorem insertRow_preserves {rt : ResourceTable} {sid : Uuid} {svc : String} {i : CreateInput} {etag : ETag}
    (h : i.startMs ≤ i.endMs) : (insertRowSql rt sid svc i etag).Preserves Forward := by
  refine tableInsert_preserves fun env snap r hr _ cur _ _ => ?_
  obtain rfl := Except.ok.inj hr
  exact h

/-- The SET clause of a patch writes both bounds. -/
theorem updateRow_preserves {rt : ResourceTable} {id : Uuid} {u : UniformRow} {author : Option PseudoId} {etag : ETag}
    (h : u.startMs ≤ u.endMs) : (updateSql rt id u author etag).Preserves Forward :=
  update_preserves fun _ _ _ _ => h

theorem createMute_preserves {sid : Uuid} {pid : PseudoId} {input : MuteRanges.CreateMuteRange}
    (h : input.startOffsetMs ≤ input.endOffsetMs) : (MuteRanges.createSql sid pid input).Preserves Forward := by
  refine tableInsert_preserves fun env snap r hr _ cur _ _ => ?_
  obtain rfl := Except.ok.inj hr
  exact h

/-! ## The checks -/

theorem validateInput_ok {rt : ResourceTable} {i : CreateInput} (h : validateInput rt i = .ok ()) :
    i.startMs ≤ i.endMs := by
  by_contra hlt
  have hlt : i.endMs < i.startMs := by omega
  have hthrow : ∀ (b : Bool) (e e' : AppError), (if b = true then (throw e >>= fun _ : Unit => throw e') else throw e' :
      Except AppError Unit) ≠ .ok () := by
    intro b e e'
    cases b <;> exact fun h => by cases h
  unfold validateInput at h
  simp only [if_pos hlt] at h
  split at h
  · exact hthrow _ _ _ h
  · exact hthrow _ _ _ h

theorem validateInputs_ok {rt : ResourceTable} {inputs : List CreateInput} (h : validateInputs rt inputs = .ok ()) :
    ∀ i ∈ inputs, i.startMs ≤ i.endMs := by
  induction inputs with
  | nil => simp
  | cons i rest ih =>
    change (validateInput rt i >>= fun _ => validateInputs rt rest) = .ok () at h
    obtain ⟨u, hi, hrest⟩ := bind_ok h
    intro j hj
    rcases List.mem_cons.1 hj with rfl | hj
    · exact validateInput_ok hi
    · exact ih hrest j hj

/-! ## What is asked of a patch -/

/-- The bounds of a patch, completed by those that are stored. -/
def Asks (body : PatchInput) (r : UniformPgRow) : Prop := body.startMs.getD r.startMs ≤ body.endMs.getD r.endMs

/-- The patch goes on with this row: it reads back, and its tag is the one that
the header names, if it names one. -/
def Accepts (headers : HeaderMap) (r : UniformPgRow) : Prop :=
  EtagHistory.Reads r ∧ ∀ t ∈ ifMatch headers, t = ⟨r.etag⟩

/-- The rows a client's statement acts on: what is committed, under its own
writes. -/
def view {ι α : Type} (c : Clients ι Row Env Io α) (i : ι) : Db := applyAll (c.threads i).loc.writes c.shared.db

/-- A patch that is about to lock its row asks for bounds in order. -/
def BoundsInOrder {ι : Type} (reqs : ι → Request) (c : Clients ι Row Env Io Outcome) (i : ι) (_ : Env) : Prop :=
  ∀ rt svc id headers body, reqs i = .patchRow rt svc id headers body →
    (∃ k, (c.threads i).prog = .op (.query .tx (lockSql rt id)) k) →
    ∀ r, Row.uniform rt r ∈ view c i → r.id = id → Accepts headers r → Asks body r

/-- What a patch is told: of the rows that it locks, that its bounds are in
order. -/
def tells (req : Request) : (o : Operation) → Answer o → Prop
  | .query .tx q, .ok rows => ∀ rt svc id headers body, req = .patchRow rt svc id headers body → q = lockSql rt id →
      ∀ r, Row.uniform rt r ∈ rows → Accepts headers r → Asks body r
  | _, _ => True

theorem tells_of_guard {ι : Type} [DecidableEq ι] {reqs : ι → Request} {c : Clients ι Row Env Io Outcome} {i : ι} {e : Env}
    {o : Operation} {k : Answer o → Code Outcome} {r : Answer o} {l : Conn} {sv : Sv ι} (hg : BoundsInOrder reqs c i e)
    (hp : (c.threads i).prog = .op o k) (hx : machine.exec i e (c.threads i).loc c.shared o = some (some r, l, sv)) :
    tells (reqs i) o r := by
  cases o with
  | query via q =>
    cases via with
    | pool => exact trivial
    | tx =>
      cases r with
      | error e => exact trivial
      | ok rows =>
        rintro rt svc id headers body hreq rfl r hr
        have hmem : Row.uniform rt r ∈ view c i ∧ r.id = id := by
          rcases query_tx_done hx with ⟨err, herr, -⟩ | ⟨t, snap, rows', ws, eff, ht, -, -, rfl, hres, -, hok, -⟩
          · cases herr
          · obtain rfl := Except.ok.inj hok
            obtain ⟨rfl, -, -⟩ := forUpdate_ok hres
            obtain ⟨r', hrr, hcur, hid, -⟩ := (mem_hits (uniformT rt)).1 hr
            obtain rfl := (uniformT rt).put_inj hrr
            refine ⟨?_, by simpa [byId] using hid⟩
            rw [view, show (c.threads i).loc.writes = t.writes by simp [Client.writes, ht]]
            exact hcur
        exact hg rt svc id headers body hreq ⟨k, hp⟩ r hmem.1 hmem.2
  | _ => exact trivial

/-! ## Handlers -/

section
variable {told : (o : Operation) → Answer o → Prop} {β : Type}

abbrev Follows (told : (o : Operation) → Answer o → Prop) (p : Handler β) : Prop := Keeps Forward told p

theorem follows_insertRows {rt : ResourceTable} {sid : Uuid} {svc : String} {inputs : List CreateInput} :
    ∀ {f : List UniformRow → Handler β}, (∀ i ∈ inputs, i.startMs ≤ i.endMs) → (∀ us, Follows told (f us)) →
    Follows told (Uniform.insertRows rt sid svc inputs >>= f) := by
  induction inputs with
  | nil => exact fun _ h => h []
  | cons i rest ih =>
    intro f hi h
    simp only [Uniform.insertRows, insertRowInTx, bind_assoc, pure_bind]
    refine keeps_outer fun etag => keeps_fetchOne (insertRow_preserves (hi i (by simp))) fun r _ => ?_
    exact keeps_ofResult fun u _ => ih (fun j hj => hi j (List.mem_cons_of_mem _ hj)) fun us => h _

theorem follows_announce {rt : ResourceTable} {sid : Uuid} {svc : String} {g : Int} {rows : List UniformRow} {k : Handler β}
    (h : Follows told k) : Follows told (UniformRoutes.announce rt svc sid g rows >>= fun _ => k) := by
  induction rows with
  | nil => exact h
  | cons u rest ih =>
    simp only [UniformRoutes.announce, bind_assoc]
    exact keeps_append (appendSql_preserves _) (keeps_outer fun _ => keeps_outer fun _ => ih)

theorem bulkCreate_follows (rt : ResourceTable) (svc : String) (sid : Uuid) (req : UniformRoutes.BulkRequest) :
    Follows told (UniformRoutes.bulkCreate rt svc sid req) := by
  rw [UniformRoutes.bulkCreate]
  refine keeps_guildId fun g => ?_
  rw [bulkInsert]
  split
  · exact follows_announce keeps_pure
  · simp only [bind_assoc, pure_bind]
    refine keeps_ofResult fun _ hvalid => keeps_begin (keeps_fetchAll (select_preserves _) fun existing _ => ?_)
    refine follows_insertRows (fun i hi => validateInputs_ok hvalid i (List.mem_filter.1 hi).1) fun us => ?_
    exact keeps_commit (follows_announce keeps_pure)

theorem applyPatch_bounds {rt : ResourceTable} {body : PatchInput} {r : UniformPgRow} {u : UniformRow}
    (hu : rowFromPg r = .ok u) (h : Asks body r) : (applyPatch rt body u).startMs ≤ (applyPatch rt body u).endMs := by
  have hsame : u.startMs = r.startMs ∧ u.endMs = r.endMs := by
    obtain ⟨p, -, hu⟩ := bind_ok hu
    obtain ⟨a, -, hu⟩ := bind_ok hu
    obtain rfl := Except.ok.inj hu
    exact ⟨rfl, rfl⟩
  rw [Asks, ← hsame.1, ← hsame.2] at h
  unfold applyPatch
  split <;> exact h

/-- A patch goes on with the row that it has locked. -/
theorem patchRow_follows (rt : ResourceTable) (svc : String) (id : Uuid) (headers : HeaderMap) (body : PatchInput) :
    Follows (tells (.patchRow rt svc id headers body)) (UniformRoutes.patchRow rt svc id headers body) := by
  rw [UniformRoutes.patchRow, Uniform.patch]
  simp only [bind_assoc, pure_bind]
  refine keeps_begin ?_
  rw [found, bind_assoc]
  refine keeps_told (forUpdate_preserves _) keeps_throw fun r rows hmem htold _ => ?_
  refine keeps_ofResult fun u hu => keeps_refuseIf fun hmatch => keeps_outer fun etag => ?_
  have hasks : Asks body r := by
    refine htold rt svc id headers body rfl rfl r hmem ⟨⟨u, hu⟩, fun t ht => ?_⟩
    have htag : u.etag = ⟨r.etag⟩ := (EtagHistory.rowFromPg_ok hu).2.2
    rw [← htag]
    by_contra hne
    rw [show ifMatch headers = some t from ht] at hmatch
    simp [hne] at hmatch
  refine keeps_fetchOne (updateRow_preserves (applyPatch_bounds hu hasks)) fun r' _ => ?_
  refine keeps_ofResult fun out _ => keeps_commit (keeps_append (appendSql_preserves _) ?_)
  exact keeps_guildId fun g => keeps_outer fun _ => keeps_outer fun _ => keeps_pure

theorem deleteRow_follows (rt : ResourceTable) (svc : String) (id : Uuid) :
    Follows told (UniformRoutes.deleteRow rt svc id) := by
  rw [UniformRoutes.deleteRow, Uniform.delete, bind_assoc, found, bind_assoc]
  refine keeps_fetchOptional (delete_preserves _) keeps_throw fun r _ => keeps_ofResult fun u _ => ?_
  exact keeps_append (appendSql_preserves _) (keeps_guildId fun g => keeps_outer fun _ => keeps_send)

theorem createMute_follows (svc : String) (sid : Uuid) (pid : String) (input : MuteRanges.CreateMuteRange) :
    Follows told (MuteRoutes.createMute svc sid pid input) := by
  rw [MuteRoutes.createMute, Handler.pseudoId]
  refine keeps_ofResult fun pid _ => ?_
  rw [MuteRanges.create, bind_assoc]
  refine keeps_refuseIf fun hle => ?_
  have hle : input.startOffsetMs ≤ input.endOffsetMs := by simpa using hle
  refine keeps_fetchOne (createMute_preserves hle) fun row _ => ?_
  refine keeps_append (appendSql_preserves _) (keeps_guildId fun g => ?_)
  exact keeps_outer fun _ => keeps_outer fun _ => keeps_pure

theorem deleteMute_follows (svc : String) (sid : Uuid) (pid : String) (rangeId : Uuid) :
    Follows told (MuteRoutes.deleteMute svc sid pid rangeId) := by
  rw [MuteRoutes.deleteMute, Handler.pseudoId]
  refine keeps_ofResult fun pid _ => ?_
  rw [MuteRanges.deleteOne, bind_assoc]
  refine keeps_fetchOptional (delete_preserves _) keeps_throw fun row _ => ?_
  exact keeps_append (appendSql_preserves _) (keeps_guildId fun g => keeps_outer fun _ => keeps_send)

theorem follows_deleteAudioRows {sid : Uuid} {pid : PseudoId} {f : List String × Nat × Nat → Handler β}
    (h : ∀ x, Follows told (f x)) : Follows told (MuteRoutes.deleteAudioRows sid pid >>= f) := by
  simp only [MuteRoutes.deleteAudioRows, Chunks.deleteForParticipant, Uniform.deleteForParticipantSegments,
    MuteRanges.deleteForParticipant, bind_assoc, pure_bind]
  refine keeps_fetchAll (delete_preserves _) fun _ _ => ?_
  exact keeps_execute (delete_preserves _) fun _ => keeps_execute (delete_preserves _) fun _ => h _

theorem follows_markWiped {sid : Uuid} {pid : PseudoId} {k : Handler β} (h : Follows told k) :
    Follows told (Participants.markWiped sid pid >>= fun _ => k) := by
  rw [Participants.markWiped, bind_assoc]
  exact keeps_execute (preserves_elsewhere (Participants.markWipedSql_writes sid pid) (by rintro n rfl; rfl)) fun _ => h

theorem wipe_follows (svc : String) (sid : Uuid) (pid : String) :
    Follows told (MuteRoutes.wipeParticipantAudio svc sid pid) := by
  rw [MuteRoutes.wipeParticipantAudio, Handler.pseudoId]
  refine keeps_ofResult fun pid _ => keeps_begin (follows_deleteAudioRows fun x => ?_)
  refine keeps_appendTx (appendSql_preserves _) (keeps_commit (follows_markWiped (keeps_sweep ?_)))
  exact keeps_guildId fun g => keeps_outer fun _ => keeps_outer fun _ => keeps_pure

theorem deleteAudio_follows (token : Uuid) : Follows told (ConsentRoutes.deleteAudio token) := by
  rw [ConsentRoutes.deleteAudio, ConsentRoutes.validated, ConsentTokens.validate]
  simp only [bind_assoc]
  refine keeps_fetchOptional (select_preserves _) keeps_throw fun ct _ => ?_
  simp only [bind_assoc, pure_bind]
  refine keeps_fetchOne (select_preserves _) fun session _ => keeps_fetchOne (select_preserves _) fun p _ => ?_
  refine keeps_begin (follows_deleteAudioRows fun x => ?_)
  refine keeps_appendTx (appendSql_preserves _) (keeps_commit (follows_markWiped (keeps_sweep ?_)))
  rw [ConsentRoutes.guildId, bind_assoc]
  exact keeps_fetchOne (select_preserves _) fun s _ => keeps_outer fun _ => keeps_send

theorem deleteCascade_follows (svc : String) (id : Uuid) : Follows told (SessionRoutes.deleteCascade svc id) := by
  rw [SessionRoutes.deleteCascade]
  refine keeps_begin (keeps_getInTx fun existing => ?_)
  simp only [SessionRoutes.deleteChildren, Chunks.deleteForSession, Uniform.deleteAllForSession,
    MuteRanges.deleteForSession, bind_assoc, pure_bind]
  refine keeps_fetchAll (delete_preserves _) fun _ _ => ?_
  refine keeps_execute (delete_preserves _) fun _ => keeps_execute (delete_preserves _) fun _ => ?_
  refine keeps_execute (delete_preserves _) fun _ => keeps_execute (delete_preserves _) fun _ => ?_
  refine keeps_execute (delete_preserves _) fun _ => keeps_execute (delete_preserves _) fun _ => ?_
  rw [Sessions.updateStatus]
  refine keeps_fetchOne (update_preserves fun _ _ _ _ => trivial) fun y _ => ?_
  exact keeps_appendTx (appendSql_preserves _) (keeps_commit (keeps_sweep (keeps_stateChanged keeps_pure)))

end

/-! ## Runs -/

/-- The requests on time ranges. -/
def OnRanges : Request → Bool
  | .bulkCreate .. | .patchRow .. | .deleteRow .. | .createMute .. | .deleteMute .. | .wipeParticipantAudio ..
  | .deleteAudio .. | .deleteCascade .. => true
  | _ => false

theorem handle_follows (st : AppState) {req : Request} (h : OnRanges req = true) : Follows (tells req) (handle st req) := by
  cases req with
  | bulkCreate rt svc sid req => exact keeps_map (bulkCreate_follows rt svc sid req)
  | patchRow rt svc id headers body => exact keeps_map (patchRow_follows rt svc id headers body)
  | deleteRow rt svc id => exact keeps_map (deleteRow_follows rt svc id)
  | createMute svc sid pid input => exact keeps_map (createMute_follows svc sid pid input)
  | deleteMute svc sid pid rangeId => exact keeps_map (deleteMute_follows svc sid pid rangeId)
  | wipeParticipantAudio svc sid pid => exact keeps_map (wipe_follows svc sid pid)
  | deleteAudio token => exact keeps_map (deleteAudio_follows token)
  | deleteCascade svc id => exact keeps_map (deleteCascade_follows svc id)
  | _ => cases h

/-- In a run in which every patch asks for bounds in order, every stored range
is in order in every state reached. -/
theorem ranges_forward {ι : Type} [DecidableEq ι] (st : AppState) (reqs : ι → Request) (sv : Sv ι)
    (hreqs : ∀ i, OnRanges (reqs i) = true) (hdb : ∀ r ∈ sv.db, Forward r) {c : Clients ι Row Env Io Outcome}
    (h : Run machine (BoundsInOrder reqs) (Service.start st reqs sv) c) :
    (∀ rt r, Row.uniform rt r ∈ c.shared.db → r.startMs ≤ r.endMs) ∧
      ∀ m, Row.mute m ∈ c.shared.db → m.startOffsetMs ≤ m.endOffsetMs := by
  have hstart : ∀ i, RowsKept Forward ((Service.start st reqs sv).threads i).loc false := fun i => .closed rfl rfl
  have hfollows : ∀ i, Follows (tells (reqs i)) (handle st (reqs i)) := fun i => handle_follows st (hreqs i)
  have htells : ∀ (c : Clients ι Row Env Io Outcome) i e o (k : Answer o → Code Outcome) (r : Answer o) l (sv : Sv ι),
      BoundsInOrder reqs c i e → (c.threads i).prog = .op o k →
      machine.exec i e (c.threads i).loc c.shared o = some (some r, l, sv) → tells (reqs i) o r :=
    fun c i e o k r l sv hg hp hx => tells_of_guard hg hp hx
  have hrows : ∀ r ∈ c.shared.db, Forward r := Run.rows_told hdb hstart htells hfollows h
  exact ⟨fun rt r hr => hrows _ hr, fun m hm => hrows _ hm⟩

/-- A beat of one millisecond is entered, and patched. -/
def sampleRequests (body : PatchInput) : Fin 2 → Request
  | 0 => .bulkCreate .beats "bot" Sample.sessionId
      { beats := some [{ clientId := "a", startMs := 0, endMs := 1, title := some "" }] }
  | 1 => .patchRow .beats "bot" 8000 [] body

theorem sample_ranges (body : PatchInput) : ∀ i, OnRanges (sampleRequests body i) = true :=
  Fin.forall_fin_two.2 ⟨rfl, rfl⟩

/-- Both bounds are asked for, in order. -/
theorem ranges_sample : ∃ c : Clients (Fin 2) Row Env Io Outcome,
    (((uniformT .beats).rows c.shared.db).map fun r => (r.startMs, r.endMs)) = [(2, 3)] ∧
      (∀ rt r, Row.uniform rt r ∈ c.shared.db → r.startMs ≤ r.endMs) ∧
      ∀ m, Row.mute m ∈ c.shared.db → m.startOffsetMs ≤ m.endOffsetMs := by
  have hrun : ((Service.start Sample.state (sampleRequests { startMs := some 2, endMs := some 3 })
      (Sample.server [.session Sample.session])).play machine (Sample.moves 0 [(0, 13), (1, 8)])).map (fun c =>
        ((uniformT .beats).rows c.shared.db).map fun r => (r.startMs, r.endMs)) = some [(2, 3)] := by decide +kernel
  obtain ⟨c, hc, hr⟩ := Option.map_eq_some_iff.1 hrun
  have hguard : ∀ c i e, BoundsInOrder (sampleRequests { startMs := some 2, endMs := some 3 }) c i e := by
    intro c i e rt svc id headers body hreq _ r _ _ _
    match i with
    | 0 => cases hreq
    | 1 =>
      cases hreq
      show (2 : Int) ≤ 3
      decide
  have hdb : ∀ r ∈ [Row.session Sample.session], Forward r := by simp [Forward]
  exact ⟨c, hr, ranges_forward Sample.state (sampleRequests { startMs := some 2, endMs := some 3 })
    (Sample.server [.session Sample.session]) (sample_ranges _) hdb (Run.play (Config.guarded_of_all hguard _) .nil hc)⟩

/-- Only the start is asked for, and it is past the stored end. -/
theorem patch_inverts : ∃ c : Clients (Fin 2) Row Env Io Outcome,
    Run machine (fun _ _ _ => True) (Service.start Sample.state (sampleRequests { startMs := some 5 })
      (Sample.server [.session Sample.session])) c ∧
      (((uniformT .beats).rows c.shared.db).map fun r => (r.startMs, r.endMs)) = [(5, 1)] := by
  have hrun : ((Service.start Sample.state (sampleRequests { startMs := some 5 })
      (Sample.server [.session Sample.session])).play machine (Sample.moves 0 [(0, 13), (1, 8)])).map (fun c =>
        ((uniformT .beats).rows c.shared.db).map fun r => (r.startMs, r.endMs)) = some [(5, 1)] := by decide +kernel
  obtain ⟨c, hc, hr⟩ := Option.map_eq_some_iff.1 hrun
  exact ⟨c, Run.play (Config.guarded_of_all (fun _ _ _ => trivial) _) .nil hc, hr⟩

end DataApi.TimeRanges
