/-
Every event ever broadcast is true: the change it announces is committed, made
on the rows it speaks of, and the guild it is filed under is that of its
session, however the requests run among each other. Clients only send what they
know (`handle_tells`), and what they know of a session outlasts every commit, as
sessions stay where they are.
-/
import DataApi.Proofs.RowHistories
import DataApi.Telling

namespace DataApi.EventTruth

open Relational ReadCommitted Resumption

section
variable {ι : Type} [DecidableEq ι] {st : AppState} {reqs : ι → Request} {sv : Sv ι}
  {guard : Clients ι Row Env Io Outcome → ι → Env → Prop} {c c' : Clients ι Row Env Io Outcome}

omit [DecidableEq ι] in
/-- No request moves a session to another guild. -/
theorem altered_guild {M : List Part} {s : Session} {r : Row} (h : Altered M (.session s) r) :
    ∃ s', r = .session s' ∧ s'.id = s.id ∧ s'.guildId = s.guildId := by
  have hsame := h.same
  cases r with
  | session s' =>
    simp only [Row.without, Row.session.injEq, Session.mk.injEq] at hsame
    exact ⟨s', rfl, hsame.1, hsame.2.1⟩
  | _ => cases hsame

/-- A session stays, in its guild. -/
theorem guilds_kept (hq : sv.Quiescent) (h : Run machine guard (Service.start st reqs sv) c) (h' : Run machine guard c c')
    {p : Uuid × Int} (hp : p ∈ guilds c.shared.db) : p ∈ guilds c'.shared.db := by
  obtain ⟨s, hs, rfl⟩ := mem_guilds.1 hp
  obtain ⟨log, -, hheeded, hdb⟩ :=
    Run.between hq.log (Orderly.start hq) h h' (RowHistories.heeded hq (Run.trans h h'))
  rw [hdb]
  rcases hheeded.lives (RowHistories.leads _ reqs) (Run.orderly (Orderly.start hq) h).unique hs with
    ⟨r', hr', -, ha⟩ | ⟨x, _, t, _, -, hk, -, hx⟩
  · obtain ⟨s', rfl, hid, hguild⟩ := altered_guild ha
    exact mem_guilds.2 ⟨s', hr', by rw [hid, hguild]⟩
  · refine absurd ?_ (RowHistories.Removes.passing hx)
    rw [hk]
    simp [RowHistories.permanent, key, Row.key, Key.table]

/-- The token was there at the start, or a committed request created it. -/
def Granted (reqs : ι → Request) (db₀ : Db) (log : List (ι × List (Write Row Key))) (token : Uuid) : Prop :=
  Present (.consentToken token) db₀ ∨ ∃ t ∈ log, (∃ ct, .insert (.consentToken ct) ∈ t.2 ∧ ct.token = token) ∧
    ∃ svc input, reqs t.1 = .createToken svc input

omit [DecidableEq ι] in
theorem Granted.mono {db₀ : Db} {log log' : List (ι × List (Write Row Key))} {token : Uuid}
    (h : Granted reqs db₀ log token) (hlog : log <+: log') : Granted reqs db₀ log' token := by
  rcases h with h | ⟨t, ht, h⟩
  · exact .inl h
  · exact .inr ⟨t, hlog.subset ht, h⟩

theorem granted (hq : sv.Quiescent) (h : Run machine guard (Service.start st reqs sv) c) {ct : ConsentToken}
    (hct : .consentToken ct ∈ c.shared.db) : Granted reqs sv.db c.shared.log ct.token := by
  rw [Run.replay hq.log (Orderly.start hq) h] at hct
  obtain ⟨x, hk, ⟨hx, -⟩ | ⟨pre, t, post, hlog, hw, ⟨-, henters⟩, -⟩⟩ :=
    (RowHistories.heeded hq h).traced (RowHistories.leads _ reqs) hct
  · exact .inl ⟨x, hx, hk⟩
  · cases x with
    | consentToken ct' =>
      refine .inr ⟨t, by simp [hlog], ⟨ct', hw, ?_⟩, henters.token rfl⟩
      simpa [key, Row.key] using hk
    | _ => cases hk

/-- What a row that was seen says of the committed ones. -/
abbrev KnownIn (reqs : ι → Request) (db₀ : Db) (p : Past ι Row Key) : Row → Prop :=
  Known (· ∈ guilds p.1) (Granted reqs db₀ p.2)

theorem known_stored (hq : sv.Quiescent) (h : Run machine guard (Service.start st reqs sv) c) {r : Row}
    (hr : r ∈ c.shared.db) : KnownIn reqs sv.db c.shared.past r := by
  cases r with
  | session s => exact mem_guilds.2 ⟨s, hr, rfl⟩
  | consentToken ct => exact granted hq h hr
  | _ => trivial

theorem known_kept (hq : sv.Quiescent) (h : Run machine guard (Service.start st reqs sv) c) (h' : Run machine guard c c')
    {r : Row} (hr : KnownIn reqs sv.db c.shared.past r) : KnownIn reqs sv.db c'.shared.past r := by
  cases r with
  | session s => exact guilds_kept hq h h' hr
  | consentToken ct => exact hr.mono (Run.log_grows (Run.orderly (Orderly.start hq) h) h')
  | _ => trivial

/-- A commit made the change the event is about. -/
def Happened (db₀ : Db) (log : List (ι × List (Write Row Key))) (ev : Event) : Prop :=
  ∃ pre t post, log = pre ++ t :: post ∧ ∃ w ∈ t.2, Announces (replay db₀ pre) w ev

omit [DecidableEq ι] in
theorem announces_mono {db db' : Db} {w : Write Row Key} {ev : Event} (h : Announces db w ev) (hsub : ∀ r ∈ db, r ∈ db') :
    Announces db' w ev := by
  unfold Announces at h ⊢
  split at h
  all_goals first | exact h | exact ⟨h.1, h.2.1, h.2.2.imp fun _ hx => ⟨hsub _ hx.1, hx.2⟩⟩ |
    exact ⟨h.1, h.2.imp fun _ hx => ⟨hsub _ hx.1, hx.2⟩⟩

omit [DecidableEq ι] in
theorem Happened.mono {db₀ : Db} {log log' : List (ι × List (Write Row Key))} {ev : Event} (h : Happened db₀ log ev)
    (hlog : log <+: log') : Happened db₀ log' ev := by
  obtain ⟨pre, t, post, rfl, h⟩ := h
  obtain ⟨more, rfl⟩ := hlog
  exact ⟨pre, t, post ++ more, by simp, h⟩

omit [DecidableEq ι] in
theorem happened_made {db₀ : Db} {log : List (ι × List (Write Row Key))} {i : ι} {d : Db × List (Write Row Key)}
    {w : Write Row Key} {ev : Event} (hd : Made db₀ log i d) (hw : w ∈ d.2) (h : Announces d.1 w ev) : Happened db₀ log ev := by
  obtain ⟨pre, post, hlog, hrows⟩ := hd
  exact ⟨pre, _, post, hlog, w, hw, announces_mono h hrows⟩

/-- What is on the bus, and on what the writes were made. -/
theorem told (hq : sv.Quiescent) (h : Run machine guard (Service.start st reqs sv) c) :
    (∃ evs, c.shared.world.bus = sv.world.bus ++ evs ∧ ∀ ev ∈ evs, Happened sv.db c.shared.log ev ∧
      (ev.sessionId, ev.guildId) ∈ guilds c.shared.db) ∧
    ∀ t ∈ c.shared.log, ∀ w ∈ t.2, Signed (reqs t.1).actor w ∧ (reqs t.1).Trusted st ∧
      ∀ token, (reqs t.1).consentToken = some token → Granted reqs sv.db c.shared.log token := by
  refine Run.announced (V := KnownIn reqs sv.db) (W := fun i p w => Signed (reqs i).actor w ∧ (reqs i).Trusted st ∧
      ∀ token, (reqs i).consentToken = some token → Granted reqs sv.db p.2 token)
    (J := fun sv' => ∃ evs, sv'.world.bus = sv.world.bus ++ evs ∧ ∀ ev ∈ evs,
      Happened sv.db sv'.log ev ∧ (ev.sessionId, ev.guildId) ∈ guilds sv'.db)
    hq.log (Orderly.start hq) (fun _ => ⟨rfl, rfl⟩) (fun i p => founded_vouched st (reqs i) _ _)
    (fun c hc r hr => known_stored hq hc hr) ?_ (fun i => handle_founded st (reqs i))
    ⟨[], (List.append_nil _).symm, by simp⟩ ?_ ?_ h
  · intro c i e c' hr hg hs
    have h' : Run machine guard c c' := .move .nil hg hs
    refine ⟨fun r hknown => known_kept hq hr h' hknown, fun j w hw => ⟨hw.1, hw.2.1, fun token ht => ?_⟩⟩
    exact (hw.2.2 token ht).mono (Run.log_grows (Run.orderly (Orderly.start hq) hr) h')
  · rintro sv₁ sv' ⟨evs, hbus, hevs⟩ hworld hlog hV
    refine ⟨evs, by rw [hworld, hbus], fun ev hev => ?_⟩
    obtain ⟨hann, hguild⟩ := hevs ev hev
    obtain ⟨s, -, hp⟩ := mem_guilds.1 hguild
    exact ⟨hann.mono hlog, hp ▸ hV (.session s) (show (s.id, s.guildId) ∈ guilds sv₁.db from hp ▸ hguild)⟩
  · rintro sv₁ i s x e ⟨evs, hbus, hevs⟩ hx hdone hseen
    cases x with
    | send ev' =>
      refine ⟨evs ++ [ev'], ?_, fun ev hev => ?_⟩
      · show sv₁.world.bus ++ [ev'] = _
        rw [hbus, List.append_assoc]
      rcases List.mem_append.1 hev with hev | hev
      · exact hevs ev hev
      · obtain rfl := List.mem_singleton.1 hev
        obtain ⟨⟨d, hd, w, hw, hann⟩, hguild⟩ := hx
        obtain ⟨s', hs', hp⟩ := mem_guilds.1 hguild
        exact ⟨happened_made (hdone d hd) hw hann, hp ▸ hseen _ hs'⟩
    | _ => exact ⟨evs, hbus, hevs⟩

end

/-! ### Results -/

/-- Every event that goes onto the bus announces a change that was committed on
the rows it speaks of, and names the guild of a stored session. -/
theorem events_true {ι : Type} [DecidableEq ι] (st : AppState) (reqs : ι → Request) {sv : Sv ι} (hq : sv.Quiescent)
    {c : Clients ι Row Env Io Outcome} (h : Run machine (fun _ _ _ => True) (Service.start st reqs sv) c) :
    ∃ evs, c.shared.world.bus = sv.world.bus ++ evs ∧ ∀ ev ∈ evs, Happened sv.db c.shared.log ev ∧
      ∃ s, .session s ∈ c.shared.db ∧ s.id = ev.sessionId ∧ s.guildId = ev.guildId := by
  obtain ⟨evs, hbus, hevs⟩ := (told hq h).1
  refine ⟨evs, hbus, fun ev hev => ?_⟩
  obtain ⟨hann, hguild⟩ := hevs ev hev
  obtain ⟨s, hs, hp⟩ := mem_guilds.1 hguild
  obtain ⟨hid, hg⟩ := Prod.mk.inj hp
  exact ⟨hann, s, hs, hid, hg⟩

/-- A mute range is made and taken back, while the session moves on. -/
def sampleRequests : Fin 3 → Request
  | 0 => .createMute "bot" Sample.sessionId Sample.speaker { startOffsetMs := 0, endOffsetMs := 5, reason := none }
  | 1 => .patchSession "bot" Sample.sessionId { status := some .uploaded }
  | 2 => .deleteMute "bot" Sample.sessionId Sample.speaker 2000

theorem events_true_sample : ∃ c : Clients (Fin 3) Row Env Io Outcome, c.shared.world.bus.length = 3 ∧
    ∀ ev ∈ c.shared.world.bus, Happened [.session Sample.session] c.shared.log ev ∧
      ∃ s, .session s ∈ c.shared.db ∧ s.id = ev.sessionId ∧ s.guildId = ev.guildId := by
  have hrun : ((Service.start Sample.state sampleRequests (Sample.server [.session Sample.session])).play machine
      (Sample.moves 0 [(0, 6), (1, 8), (0, 2), (2, 3), (1, 3), (2, 5)])).map (fun c => c.shared.world.bus.length) =
        some 3 := by decide +kernel
  obtain ⟨c, hc, hlen⟩ := Option.map_eq_some_iff.1 hrun
  obtain ⟨evs, hbus, hevs⟩ := events_true Sample.state sampleRequests Sample.quiescent
    (Run.play (Config.guarded_of_all (fun _ _ _ => trivial) _) .nil hc)
  have hbus : c.shared.world.bus = evs := hbus
  exact ⟨c, hlen, hbus ▸ hevs⟩

end DataApi.EventTruth
