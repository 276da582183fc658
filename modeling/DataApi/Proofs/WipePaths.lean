/-
The two ways to wipe a participant's audio: by a service, which names the
session and the pseudonym, and by a consent token, which speaks for them. Each
has its own copy of the nine steps. Alone on a state the table definitions
allow, and where nothing fails, the copies do the same.
-/
import DataApi.Lib.Intact
import DataApi.Proofs.WipeSteps

namespace DataApi.WipePaths

open Relational ReadCommitted Resumption Handler Sweeps Wipes

/-! ## What a wipe is to do -/

/-- The rows a wipe has no business with. The audit log is no domain table. -/
def other (sid : Uuid) (pid : PseudoId) : Row → Bool
  | .audit _ => false
  | .participant p => !Participants.ofPair sid pid p
  | r => !audio sid pid r

/-- A wipe: the audio is gone, the participant's row is stamped, every other row
stays, and so does the rest of the world, but for the objects of the chunks
and one event. -/
structure Wipes (sid : Uuid) (pid : PseudoId) (guild : Int) (db : Db) (w : World) (db' : Db) (w' : World) : Prop where
  gone : ∀ r ∈ db', audio sid pid r = false
  stamped : ∃ t, (participantsT.rows db').filter (Participants.ofPair sid pid) =
    ((participantsT.rows db).filter (Participants.ofPair sid pid)).map (stamp t)
  others : db'.filter (other sid pid) = db.filter (other sid pid)
  audited : ∃ a, auditT.rows db' = auditT.rows db ++ [a]
  world : ∃ t, w' = { w with
    store := (w.store.deleteMany (fun _ => false) (keysOf (Chunks.ofPair sid pid) db) 0).2
    bus := w.bus ++ [.audioDeleted t { sessionId := sid, guildId := guild, pseudoId := pid }] }

/-- The same tables, up to the time stamped on the participant's row, the same
objects, and the same event on the bus `bus`, up to its time. -/
structure Agree (sid : Uuid) (pid : PseudoId) (bus : List Event) (a b : Sv Unit) : Prop where
  chunks : chunksT.rows a.db = chunksT.rows b.db
  segments : (uniformT .segments).rows a.db = (uniformT .segments).rows b.db
  mutes : mutesT.rows a.db = mutesT.rows b.db
  participants : ∀ t, (participantsT.rows a.db).map (restamp sid pid t) = (participantsT.rows b.db).map (restamp sid pid t)
  store : a.world.store = b.world.store
  event : ∃ t u data, a.world.bus = bus ++ [.audioDeleted t data] ∧ b.world.bus = bus ++ [.audioDeleted u data]

/-- Nothing fails, and every id drawn is new to the audit log. -/
structure Smooth (env : Nat → Env) (db : Db) : Prop where
  works : ∀ n, (env n).fails = false
  stores : ∀ n k, (env n).storeFails k = false
  fresh : ∀ n, ¬Present (Key.audit ((env n).uuid 0)) db

/-! ## The two requests -/

section
variable {β : Type} {env : Nat → Env} {n : Nat} {tx : Option (Tx Row Key Env)} {db : Db} {w : World} {b : Env}
  {sid : Uuid} {pid : PseudoId} {Q : Except AppError β → Moment → Prop}

/-- The steps both requests share. -/
theorem Ends.wiping {g : List String × Nat × Nat → Handler β} {entry : Nat → Nat → AuditLog.Entry}
    {f : Nat → Nat → Handler β} (hdb : Intact db) (henv : Smooth env db)
    (hg : ∀ segs mutes, g (keysOf (Chunks.ofPair sid pid) db, segs, mutes) = do
      AuditLog.appendTx (entry segs mutes)
      commit
      Participants.markWiped sid pid
      SessionRoutes.sweep (keysOf (Chunks.ofPair sid pid) db)
      f segs mutes)
    (h : ∀ a t m segs mutes, Ends env m ⟨none, wiped sid pid a t db, sweptWorld sid pid db w⟩ (f segs mutes) Q) :
    Ends env n ⟨none, db, w⟩ (begin >>= fun _ => MuteRoutes.deleteAudioRows sid pid >>= g) Q := by
  have hready : Ready env n db := ⟨fun i _ => henv.works (n + i), henv.fresh (n + 4)⟩
  refine Ends.committing ⟨hdb.keys, hdb.checked⟩ hg (fun h => absurd hready h) fun _ a segs mutes _ hlogged => ?_
  refine Ends.marking hlogged (fun h => absurd h (by simp [henv.works])) fun _ => ?_
  refine Ends.sweep fun m => ?_
  have hstores : (env (n + 6 + 1)).storeFails = fun _ => false := funext fun k => henv.stores (n + 6 + 1) k
  rw [hstores]
  exact h a _ m segs mutes

/-- What both requests leave. -/
def Left (sid : Uuid) (pid : PseudoId) (guild : Int) (db : Db) (w : World) (db' : Db) (w' : World) : Prop :=
  ∃ a t u, db' = wiped sid pid a t db ∧ w' = { sweptWorld sid pid db w with
    bus := w.bus ++ [.audioDeleted u { sessionId := sid, guildId := guild, pseudoId := pid }] }

/-- The service's path. -/
theorem wipe_left {s : Session} (hdb : Intact db) (henv : Smooth env db) (hpid : isValidPseudoId pid.raw = true)
    (hs : (sessionsT.rows db).find? (Sessions.byId sid) = some s) (svc : String) :
    Ends env 0 ⟨none, db, w⟩ (MuteRoutes.wipeParticipantAudio svc sid pid.raw)
      fun a m => a.isOk = true ∧ Left sid pid s.guildId db w m.db m.world := by
  have hnew : Handler.pseudoId pid.raw = Handler.ofResult (.ok pid) := by
    rw [Handler.pseudoId, PseudoId.new, if_pos hpid]; rfl
  rw [MuteRoutes.wipeParticipantAudio, hnew]
  refine .ofOk rfl ?_
  refine Ends.wiping hdb henv (fun _ _ => rfl) fun a t n segs mutes => ?_
  rw [Sessions.guildIdForSession]
  simp only [bind_assoc]
  refine Ends.select_pool (fun h => absurd h (by simp [henv.works])) fun _ => ?_
  rw [rows_sessions, hs]
  exact ⟨rfl, a, t, (env (n + 1)).now, rfl, rfl⟩

/-- The token's path. -/
theorem deleteAudio_left {token : Uuid} {s : Session} (hdb : Intact db) (henv : Smooth env db)
    (htoken : subject token (env 0).now db = some (sid, pid)) (hs : (sessionsT.rows db).find? (Sessions.byId sid) = some s) :
    Ends env 0 ⟨none, db, w⟩ (ConsentRoutes.deleteAudio token)
      fun a m => a.isOk = true ∧ Left sid pid s.guildId db w m.db m.world := by
  obtain ⟨ct, s', p, hct, hs', hp, rfl, hid, rfl⟩ := subject_some htoken
  obtain rfl : s = s' := Option.some.inj (hs.symm.trans hs')
  have hanswer : answer (ConsentTokens.liveSql token) (env 0) (env 0) db =
      .ok (db.filter (consentTokensT.is (ConsentTokens.live token (env 0).now)), []) := by
    rw [answer, if_neg (by simp [henv.works])]; rfl
  rw [ConsentRoutes.deleteAudio, ConsentRoutes.validated, ConsentTokens.validate, fetchOptional]
  simp only [bind_assoc]
  refine .answered_pool hanswer ?_
  rw [pure_bind, consentTokensT.rows_filter_is, List.head?_filter, hct]
  simp only [bind_assoc]
  refine Ends.found (henv.works 1) hs ?_
  refine Ends.found (henv.works 2) hp ?_
  simp only [pure_bind, hid]
  refine Ends.wiping hdb henv (fun _ _ => rfl) fun a t n segs mutes => ?_
  rw [ConsentRoutes.guildId, bind_assoc]
  have hfound : (sessionsT.rows (wiped ct.sessionId p.pseudoId a t db)).find? (Sessions.byId ct.sessionId) = some s := by
    rw [rows_sessions, hs]
  refine Ends.found (henv.works n) hfound ?_
  exact ⟨rfl, a, t, (env (n + 1)).now, rfl, rfl⟩

/-! ## What they leave -/

theorem other_stampRow (t : Timestamp) {r : Row} (h : other sid pid r = true) : stampRow sid pid t r = r := by
  cases r with
  | participant p =>
    rw [stampRow_participant, restamp, if_neg (by simpa [other] using h)]
  | _ => rfl

theorem other_of_stampRow (t : Timestamp) (r : Row) : other sid pid (stampRow sid pid t r) = other sid pid r := by
  cases r with
  | participant p =>
    rw [stampRow_participant, other, other, ofPair_restamp]
  | _ => rfl

theorem other_audio {r : Row} (h : other sid pid r = true) : audio sid pid r = false := by
  cases r with
  | chunk c => simpa [other] using h
  | uniform rt x => simpa [other] using h
  | mute m => simpa [other] using h
  | _ => rfl

theorem Left.wipes {guild : Int} {db' : Db} {w' : World} (h : Left sid pid guild db w db' w') :
    Wipes sid pid guild db w db' w' := by
  obtain ⟨a, t, u, rfl, rfl⟩ := h
  refine ⟨wiped_gone, ⟨t, ?_⟩, ?_, ⟨a, ?_⟩, ⟨u, rfl⟩⟩
  · have hpair : Participants.ofPair sid pid ∘ restamp sid pid t = Participants.ofPair sid pid :=
      funext fun p => ofPair_restamp t p
    rw [rows_participants, List.filter_map, hpair]
    refine List.map_congr_left fun p hp => ?_
    exact if_pos (List.mem_filter.1 hp).2
  · have hother : other sid pid ∘ stampRow sid pid t = other sid pid := funext fun r => other_of_stampRow t r
    have haudit : [Row.audit a].filter (other sid pid) = [] := rfl
    rw [wiped, List.filter_map, hother, List.filter_append, haudit, List.append_nil, cleared, List.filter_filter]
    have hkeep : (db.filter fun r => other sid pid r && !audio sid pid r) = db.filter (other sid pid) := by
      refine List.filter_congr fun r _ => ?_
      cases hr : other sid pid r with
      | false => rfl
      | true => simp [other_audio hr]
    rw [hkeep]
    refine (List.map_congr_left fun r hr => ?_).trans (List.map_id _)
    exact other_stampRow t (List.mem_filter.1 hr).2
  · have hcleared : auditT.rows (cleared sid pid db) = auditT.rows db := by
      refine rows_cleared db fun r hr => ?_
      cases r <;> first | rfl | cases hr
    rw [rows_wiped a t db fun _ => rfl, hcleared]
    rfl

/-- Two wipes of the same rows agree. -/
theorem Left.agree {guild : Int} {a b : Sv Unit} (h : Left sid pid guild db w a.db a.world)
    (h' : Left sid pid guild db w b.db b.world) : Agree sid pid w.bus a b := by
  obtain ⟨entry, t, u, ha, hwa⟩ := h
  obtain ⟨entry', t', u', hb, hwb⟩ := h'
  have hrows : ∀ {τ : Type} {T : Table Row τ}, (∀ p, T.get (.participant p) = none) → (∀ e, T.rows [Row.audit e] = []) →
      T.rows a.db = T.rows b.db := by
    intro τ T hp he
    rw [ha, hb, rows_wiped _ _ _ hp, rows_wiped _ _ _ hp, he, he]
  refine ⟨hrows (fun _ => rfl) fun _ => rfl, hrows (fun _ => rfl) fun _ => rfl, hrows (fun _ => rfl) fun _ => rfl,
    fun t₀ => ?_, ?_, u, u', { sessionId := sid, guildId := guild, pseudoId := pid }, ?_, ?_⟩
  · rw [ha, hb, rows_participants, rows_participants, List.map_map, List.map_map]
    refine List.map_congr_left fun p _ => ?_
    rw [Function.comp_apply, Function.comp_apply, restamp_restamp, restamp_restamp]
  · rw [hwa, hwb]
  · rw [hwa]
  · rw [hwb]

end

/-- From one state, the token's path and the service's path wipe the same
audio, and nothing else. -/
theorem wipes_agree (st : AppState) (sv : Sv Unit) (svc : String) (token sid : Uuid) (pid : PseudoId) (env env' : Nat → Env)
    (hdb : Intact sv.db) (htoken : subject token (env 0).now sv.db = some (sid, pid)) (henv : Smooth env sv.db)
    (henv' : Smooth env' sv.db) :
    ∃ a b, serve st { request := .deleteAudio token, env := env } sv = a ∧
      serve st { request := .wipeParticipantAudio svc sid pid.raw, env := env' } sv = b ∧
      a.1.isOk = true ∧ b.1.isOk = true ∧ Agree sid pid sv.world.bus a.2 b.2 ∧
      ∃ s, (sessionsT.rows sv.db).find? (Sessions.byId sid) = some s ∧
        Wipes sid pid s.guildId sv.db sv.world a.2.db a.2.world ∧
        Wipes sid pid s.guildId sv.db sv.world b.2.db b.2.world := by
  obtain ⟨ct, s, p, -, hs, hp, hct, -, hpid⟩ := subject_some htoken
  rw [hct] at hs
  have hvalid : isValidPseudoId pid.raw = true := by
    have hck := hdb.checked _ (participantsT.mem_rows.1 (List.mem_of_find?_eq_some hp))
    rw [← hpid]
    exact (Bool.and_eq_true_iff.1 hck).1
  have hserve : ∀ x, Ends x.env 0 ⟨none, sv.db, sv.world⟩ (handle st x.request)
      (fun a m => a.isOk = true ∧ Left sid pid s.guildId sv.db sv.world m.db m.world) → (serve st x sv).1.isOk = true ∧
        Left sid pid s.guildId sv.db sv.world (serve st x sv).2.db (serve st x sv).2.world :=
    fun x h => serve_ends (Q := fun a db' w' => a.isOk = true ∧ Left sid pid s.guildId sv.db sv.world db' w') |>.2 h
  have hdelete := hserve { request := .deleteAudio token, env := env }
    (ends_map.2 ((deleteAudio_left hdb henv htoken hs).mono fun a _ h => ⟨by cases a <;> exact h.1, h.2⟩))
  have hwipe := hserve { request := .wipeParticipantAudio svc sid pid.raw, env := env' }
    (ends_map.2 ((wipe_left hdb henv' hvalid hs svc).mono fun a _ h => ⟨by cases a <;> exact h.1, h.2⟩))
  exact ⟨_, _, rfl, rfl, hdelete.1, hwipe.1, hdelete.2.agree hwipe.2, s, hs, hdelete.2.wipes, hwipe.2.wipes⟩

/-- A speaker with a chunk, a mute range and a token, and a chunk of the mixed
audio. -/
def sampleServer : Sv Unit :=
  { db := [.user (Users.freshRow ⟨Sample.speaker⟩ false (Sample.env 0)), .session Sample.session,
      .participant (Participants.freshRow Sample.sessionId { pseudoId := ⟨Sample.speaker⟩ } 2 (Sample.env 0)),
      .chunk { sessionId := Sample.sessionId, pseudoId := ⟨Sample.speaker⟩, seq := 0, s3Key := "a", sizeBytes := 1
               captureStartedAt := 0, durationMs := 0, clientChunkId := "a", createdAt := 0 },
      sampleChunk 0 "b",
      .mute { id := 4, sessionId := Sample.sessionId, pseudoId := ⟨Sample.speaker⟩, startOffsetMs := 0
              endOffsetMs := 1, reason := none, createdAt := 0 },
      .consentToken { token := 3, sessionId := Sample.sessionId, participantId := 2, pseudoId := ⟨Sample.speaker⟩
                      createdAt := 0, expiresAt := 100, revokedAt := none }]
    world := { Sample.world with store := [("a", [1]), ("b", [2])] } }

theorem sample_smooth : Smooth Sample.env sampleServer.db where
  works _ := rfl
  stores _ _ := rfl
  fresh n := by
    rintro ⟨r, hr, hk⟩
    have hnone : ∀ r ∈ sampleServer.db, (key r).table ≠ .audit := by decide
    exact hnone r hr (congrArg Key.table hk)

theorem wipes_agree_sample : ∃ a b,
    serve Sample.state { request := .deleteAudio 3, env := Sample.env } sampleServer = a ∧
      serve Sample.state { request := .wipeParticipantAudio "bot" Sample.sessionId Sample.speaker, env := Sample.env }
        sampleServer = b ∧
      a.1.isOk = true ∧ b.1.isOk = true ∧ Agree Sample.sessionId ⟨Sample.speaker⟩ [] a.2 b.2 ∧
      ∃ s, (sessionsT.rows sampleServer.db).find? (Sessions.byId Sample.sessionId) = some s ∧
        Wipes Sample.sessionId ⟨Sample.speaker⟩ s.guildId sampleServer.db sampleServer.world a.2.db a.2.world ∧
        Wipes Sample.sessionId ⟨Sample.speaker⟩ s.guildId sampleServer.db sampleServer.world b.2.db b.2.world :=
  wipes_agree Sample.state sampleServer "bot" 3 Sample.sessionId ⟨Sample.speaker⟩ Sample.env Sample.env (by decide +kernel)
    (by decide +kernel) sample_smooth sample_smooth

end DataApi.WipePaths
