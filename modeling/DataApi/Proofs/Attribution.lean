/-
Who may write. Whatever arrives, in whatever order services authenticate, send
heartbeats and are reaped, a write is committed on the authority of a service
that knew the shared secret, of the secret in the request itself, or of a
consent token, and the audit rows written with it name that authority.
-/
import DataApi.Gateway
import DataApi.Proofs.EventTruth

namespace DataApi.Attribution

open Relational ReadCommitted Resumption

variable {ι : Type} {st : Gateway.Settings} {arrivals : ι → Arrival} {t : ServiceSessions} {ms : List (Gateway.Move ι)}

/-- Somebody who knew the secret registered the service under this token. -/
def Issued (st : Gateway.Settings) (t : ServiceSessions) (ms : List (Gateway.Move ι)) (name hash : String) : Prop :=
  (∃ r ∈ t, r.serviceName = name ∧ r.tokenHash = hash) ∨
    ∃ env req, .authenticate env req ∈ ms ∧ req.sharedSecret = st.auth.sharedSecret ∧ req.serviceName = name ∧
      st.auth.hashToken env.token = hash

/-- On whose authority a request writes, and under which name: a service that
is let in, the shared secret, or a consent token, which was stored from the
start or was created by a service. -/
inductive Authority (st : Gateway.Settings) (t : ServiceSessions) (db₀ : Db) (arrivals : ι → Arrival)
    (ms : List (Gateway.Move ι)) (log : List (ι × List (Write Row Key))) : ι → String → Prop
  | service (i : ι) (name token : String) (hbearer : Auth.extractBearer (arrivals i).headers = .ok token)
      (hissued : Issued st t ms name (st.auth.hashToken token)) : Authority st t db₀ arrivals ms log i name
  | secret (i : ι) (g : UserRoutes.GrantRequest) (hreq : (arrivals i).request = .grant g)
      (hsecret : g.sharedSecret = st.app.sharedSecret) : Authority st t db₀ arrivals ms log i "admin_bootstrap"
  | stored (i : ι) (token : Uuid) (hreq : (arrivals i).request.consentToken = some token)
      (hstored : Present (.consentToken token) db₀) : Authority st t db₀ arrivals ms log i "consent_token"
  | created (i j : ι) (token : Uuid) (svc name : String) (input : ConsentRoutes.CreateTokenRequest)
      (hreq : (arrivals i).request.consentToken = some token) (hj : Authority st t db₀ arrivals ms log j name)
      (hcreate : (arrivals j).request = .createToken svc input)
      (hlogged : ∃ ws ct, (j, ws) ∈ log ∧ .insert (.consentToken ct) ∈ ws ∧ ct.token = token) :
      Authority st t db₀ arrivals ms log i "consent_token"

/-- How the request of a handler was let in. -/
structure LetInAs (st : Gateway.Settings) (t : ServiceSessions) (ms : List (Gateway.Move ι)) (a : Arrival) (req : Request) :
    Prop where
  isPublic : a.request.isPublic = true → req = a.request
  service : a.request.isPublic = false → ∃ name token, req = a.request.calledBy name ∧
    Auth.extractBearer a.headers = .ok token ∧ Issued st t ms name (st.auth.hashToken token)

/-! ## The tokens -/

theorem Issued.mono {m : Gateway.Move ι} {name hash : String} (h : Issued st t ms name hash) :
    Issued st t (ms ++ [m]) name hash := by
  rcases h with h | ⟨env, req, hm, h⟩
  · exact .inl h
  · exact .inr ⟨env, req, List.mem_append_left _ hm, h⟩

theorem LetInAs.mono {m : Gateway.Move ι} {a : Arrival} {req : Request} (h : LetInAs st t ms a req) :
    LetInAs st t (ms ++ [m]) a req where
  isPublic := h.isPublic
  service hp := by
    obtain ⟨name, token, hreq, hbearer, hissued⟩ := h.service hp
    exact ⟨name, token, hreq, hbearer, hissued.mono⟩

/-- Name and token of a row are those of a row of `t`. -/
def Stem (t t' : ServiceSessions) : Prop := ∀ r ∈ t', ∃ r' ∈ t, r'.serviceName = r.serviceName ∧ r'.tokenHash = r.tokenHash

theorem stem_refresh (now : Timestamp) (hash : String) : Stem t (t.refresh now hash) := by
  intro r hr
  obtain ⟨r', hr', rfl⟩ := List.mem_map.1 hr
  refine ⟨r', hr', ?_⟩
  split <;> exact ⟨rfl, rfl⟩

theorem stem_filter (p : ServiceSession → Bool) : Stem t (t.filter p) :=
  fun r hr => ⟨r, (List.mem_filter.1 hr).1, rfl, rfl⟩

theorem stem_statement {α : Type} {env : AuthEnv} {run : α × ServiceSessions} (h : Stem t run.2) :
    Stem t (Auth.statement env t run).2 := by
  unfold Auth.statement
  split
  · exact fun r hr => ⟨r, hr, rfl, rfl⟩
  · exact h

/-- A row of the table after a call of `authenticate`. -/
theorem authenticate_rows {env : AuthEnv} {req : AuthRequest} {r : ServiceSession}
    (hr : r ∈ (Auth.authenticate st.auth env req t).2) :
    (∃ r' ∈ t, r'.serviceName = r.serviceName ∧ r'.tokenHash = r.tokenHash) ∨
      req.sharedSecret = st.auth.sharedSecret ∧ req.serviceName = r.serviceName ∧
        st.auth.hashToken env.token = r.tokenHash := by
  unfold Auth.authenticate at hr
  split at hr
  · exact .inl ⟨r, hr, rfl, rfl⟩
  next hsecret =>
    simp only [Auth.statement, ServiceSessions.insert] at hr
    split at hr
    · exact .inl ⟨r, hr, rfl, rfl⟩
    split at hr
    · exact .inl (stem_refresh _ _ r hr)
    · rcases List.mem_append.1 hr with hr | hr
      · exact .inl ⟨r, hr, rfl, rfl⟩
      · obtain rfl := List.mem_singleton.1 hr
        exact .inr ⟨not_not.1 hsecret, rfl, rfl⟩

theorem heartbeat_stem (env : AuthEnv) (headers : HeaderMap) : Stem t (Auth.heartbeat st.auth env headers t).2 := by
  unfold Auth.heartbeat
  split
  · exact fun r hr => ⟨r, hr, rfl, rfl⟩
  · exact stem_statement (stem_refresh _ _)

theorem reaperPass_stem (env : AuthEnv) : Stem t (Auth.reaperPass st.auth env t) := stem_statement (stem_filter _)

/-- The row of a service that is alive. -/
theorem alive_row {now : Timestamp} {hash name : String} {reap : Nat} (h : t.lookupAlive now hash reap = some name) :
    ∃ r ∈ t, r.serviceName = name ∧ r.tokenHash = hash := by
  obtain ⟨r, hr, rfl⟩ := Option.map_eq_some_iff.1 h
  have hp := List.find?_some hr
  simp only [Bool.and_eq_true, decide_eq_true_eq] at hp
  exact ⟨r, List.mem_of_find?_eq_some hr, rfl, hp.1⟩

/-- The row that lets a request in. -/
theorem admits {env : AuthEnv} {headers : HeaderMap} {name : String}
    (h : Auth.requireServiceAuth st.auth env headers t = .ok name) :
    ∃ token, Auth.extractBearer headers = .ok token ∧
      ∃ r ∈ t, r.serviceName = name ∧ r.tokenHash = st.auth.hashToken token := by
  unfold Auth.requireServiceAuth at h
  split at h
  · cases h
  next token htoken =>
    refine ⟨token, htoken, ?_⟩
    split at h
    · cases h
    split at h
    next name' hname =>
      obtain rfl := Except.ok.inj h
      exact alive_row hname
    · cases h

/-! ## The runs -/

theorem actor_calledBy {req : Request} (h : req.isPublic = false) (name : String) : (req.calledBy name).actor = name := by
  cases req with
  | grant | getConsent | patchConsent | deleteAudio => cases h
  | _ => rfl

theorem public_cases {req : Request} (h : req.isPublic = true) : (∃ g, req = .grant g) ∨
    ∃ token, req.consentToken = some token ∧ req.actor = "consent_token" := by
  cases req with
  | grant g => exact .inl ⟨g, rfl⟩
  | getConsent token | patchConsent token | deleteAudio token => exact .inr ⟨token, rfl, rfl⟩
  | _ => cases h

/-- Only `create_token` is called as `create_token`. -/
theorem calledBy_createToken {req : Request} {name svc : String} {input : ConsentRoutes.CreateTokenRequest}
    (h : req.calledBy name = .createToken svc input) : ∃ svc', req = .createToken svc' input := by
  cases req with
  | createToken svc' input' =>
    cases h
    exact ⟨svc', rfl⟩
  | _ => cases h

theorem letIn_as {t' : ServiceSessions} {env : AuthEnv} {a : Arrival} {req : Request}
    (htokens : ∀ r ∈ t', Issued st t ms r.serviceName r.tokenHash) (h : a.letIn st.auth env t' = .ok req) :
    LetInAs st t ms a req := by
  unfold Arrival.letIn at h
  split at h
  next hpublic => exact ⟨fun _ => (Except.ok.inj h).symm, fun hp => by rw [hpublic] at hp; cases hp⟩
  next hpublic =>
    refine ⟨fun hp => absurd hp hpublic, fun _ => ?_⟩
    obtain ⟨name, hname, rfl⟩ : ∃ name, Auth.requireServiceAuth st.auth env a.headers t' = .ok name ∧
        a.request.calledBy name = req := by
      cases hx : Auth.requireServiceAuth st.auth env a.headers t' with
      | error e => rw [hx] at h; cases h
      | ok name => rw [hx] at h; exact ⟨name, rfl, Except.ok.inj h⟩
    obtain ⟨token, htoken, r, hr, rfl, hhash⟩ := admits hname
    exact ⟨_, token, rfl, htoken, hhash ▸ htokens r hr⟩

variable [DecidableEq ι] {sv : Sv ι} {g g' : Gateway ι}

/-- The clients as if every request that was let in had been there from the
start. -/
def overlay (st : Gateway.Settings) (reqs : ι → Request) (g : Gateway ι) : Clients ι Row Env Io Outcome where
  threads i := match g.admission i with
    | .handled _ => g.clients.threads i
    | _ => (Service.start st.app reqs g.clients.shared).threads i
  shared := g.clients.shared

omit [DecidableEq ι] in
theorem overlay_handled {reqs : ι → Request} {i : ι} {req : Request} (h : g.admission i = .handled req) :
    (overlay st reqs g).threads i = g.clients.threads i := by
  simp only [overlay, h]

/-- What holds along a run of the gateway. -/
structure Governed (st : Gateway.Settings) (arrivals : ι → Arrival) (t : ServiceSessions) (sv : Sv ι)
    (ms : List (Gateway.Move ι)) (g : Gateway ι) : Prop where
  tokens : ∀ r ∈ g.tokens, Issued st t ms r.serviceName r.tokenHash
  letIn : ∀ i req, g.admission i = .handled req → LetInAs st t ms (arrivals i) req
  run : ∀ reqs : ι → Request, (∀ i req, g.admission i = .handled req → reqs i = req) →
    Run machine (fun _ _ _ => True) (Service.start st.app reqs sv) (overlay st reqs g)
  logged : ∀ e ∈ g.clients.shared.log, ∃ req, g.admission e.1 = .handled req

theorem Governed.start (hlog : sv.log = []) : Governed st arrivals t sv [] (Gateway.start st arrivals t sv) where
  tokens r hr := .inl ⟨r, hr, rfl, rfl⟩
  letIn i req h := by cases h
  run reqs _ := .nil
  logged e he := by
    have he : e ∈ sv.log := he
    rw [hlog] at he
    cases he

/-- The table changes, and nothing else. -/
theorem Governed.retabled {m : Gateway.Move ι} (h : Governed st arrivals t sv ms g) {t' : ServiceSessions}
    (ht : ∀ r ∈ t', Issued st t (ms ++ [m]) r.serviceName r.tokenHash) :
    Governed st arrivals t sv (ms ++ [m]) { g with tokens := t' } where
  tokens := ht
  letIn i req hreq := (h.letIn i req hreq).mono
  run := h.run
  logged := h.logged

theorem Governed.stem {m : Gateway.Move ι} (h : Governed st arrivals t sv ms g) {t' : ServiceSessions}
    (ht : Stem g.tokens t') : Governed st arrivals t sv (ms ++ [m]) { g with tokens := t' } := by
  refine h.retabled fun r hr => ?_
  obtain ⟨r', hr', hname, hhash⟩ := ht r hr
  rw [← hname, ← hhash]
  exact (h.tokens r' hr').mono

theorem not_handled {i j : ι} {x : Admission} {req : Request} (hx : g.admission i = .waiting)
    (h : g.admission j = .handled req) : Function.update g.admission i x j = .handled req := by
  have hj : j ≠ i := by
    rintro rfl
    rw [hx] at h
    cases h
  rw [Function.update_of_ne hj, h]

/-- A request is let in. -/
theorem Governed.admitted {m : Gateway.Move ι} {i : ι} {req : Request} (h : Governed st arrivals t sv ms g)
    (hwaiting : g.admission i = .waiting) (hreq : LetInAs st t ms (arrivals i) req) :
    Governed st arrivals t sv (ms ++ [m]) (g.admitted st i req) where
  tokens r hr := (h.tokens r hr).mono
  letIn j req' hj := by
    by_cases hji : j = i
    · subst hji
      obtain rfl : req = req' := by simpa [Gateway.admitted] using hj
      exact hreq.mono
    · refine (h.letIn j req' ?_).mono
      simpa [Gateway.admitted, hji] using hj
  run reqs hreqs := by
    have hi : reqs i = req := hreqs i req (by simp [Gateway.admitted])
    have hsame : overlay st reqs (g.admitted st i req) = overlay st reqs g := by
      simp only [overlay, Config.mk.injEq]
      refine ⟨funext fun j => ?_, rfl⟩
      by_cases hji : j = i
      · subst hji
        simp [Gateway.admitted, hwaiting, Service.start, hi]
      · simp [Gateway.admitted, hji, Config.put_other, Service.start]
    rw [hsame]
    exact h.run reqs fun j req' hj => hreqs j req' (not_handled hwaiting hj)
  logged e he := by
    obtain ⟨req', hreq'⟩ := h.logged e he
    exact ⟨req', not_handled hwaiting hreq'⟩

theorem Governed.refused {m : Gateway.Move ι} {i : ι} {r : Auth.Refusal} (h : Governed st arrivals t sv ms g)
    (hwaiting : g.admission i = .waiting) :
    Governed st arrivals t sv (ms ++ [m]) { g with admission := Function.update g.admission i (.refused r) } where
  tokens r hr := (h.tokens r hr).mono
  letIn j req' hj := by
    have hji : j ≠ i := by
      rintro rfl
      simp at hj
    exact (h.letIn j req' (by simpa [hji] using hj)).mono
  run reqs hreqs := by
    have hsame : overlay st reqs { g with admission := Function.update g.admission i (.refused r) } = overlay st reqs g := by
      simp only [overlay, Config.mk.injEq, and_true]
      funext j
      by_cases hji : j = i
      · subst hji
        simp [hwaiting]
      · simp [hji]
    rw [hsame]
    exact h.run reqs fun j req' hj => hreqs j req' (not_handled hwaiting hj)
  logged e he := by
    obtain ⟨req', hreq'⟩ := h.logged e he
    exact ⟨req', not_handled hwaiting hreq'⟩

/-- What a client's handler was called with, once it is let in. -/
def requestOf (arrivals : ι → Arrival) (g : Gateway ι) (j : ι) : Request :=
  match g.admission j with
  | .handled req => req
  | _ => (arrivals j).request

omit [DecidableEq ι] in
theorem requestOf_handled {j : ι} {req : Request} (h : g.admission j = .handled req) : requestOf arrivals g j = req := by
  simp [requestOf, h]

/-- A handler moves. -/
theorem Governed.moved {m : Gateway.Move ι} {i : ι} {e : Env} {req : Request} {c : Clients ι Row Env Io Outcome}
    (hq : sv.Quiescent) (h : Governed st arrivals t sv ms g) (hi : g.admission i = .handled req)
    (hc : g.clients.step machine i e = some c) : Governed st arrivals t sv (ms ++ [m]) { g with clients := c } where
  tokens r hr := (h.tokens r hr).mono
  letIn j req' hj := (h.letIn j req' hj).mono
  run reqs hreqs := by
    obtain ⟨th, hth, hstep⟩ := Config.step_local (d := overlay st reqs g) (overlay_handled hi) rfl hc
    have hsame : overlay st reqs { g with clients := c } = (overlay st reqs g).put i th c.shared := by
      rw [hth]
      simp only [overlay, Config.put, Config.mk.injEq, and_true]
      funext j
      by_cases hji : j = i
      · subst hji
        simp [hi]
      · simp [hji]
        rfl
    rw [hsame]
    exact .move (h.run reqs hreqs) trivial hstep
  logged x hx := by
    have hrun := h.run (requestOf arrivals g) fun j req' hj => requestOf_handled hj
    obtain ⟨th, hth, hstep⟩ := Config.step_local (d := overlay st (requestOf arrivals g) g) (overlay_handled hi) rfl hc
    rcases (Run.orderly (Orderly.start hq) hrun).log_cases hstep with ⟨-, hlog⟩ | ⟨ws, -, hlog, -⟩
    · exact h.logged x (hlog ▸ hx)
    · have hlog : c.shared.log = g.clients.shared.log ++ [(i, ws)] := hlog
      rcases List.mem_append.1 (hlog ▸ hx) with hx | hx
      · exact h.logged x hx
      · obtain rfl := List.mem_singleton.1 hx
        exact ⟨req, hi⟩

theorem Governed.step {m : Gateway.Move ι} (hq : sv.Quiescent) (h : Governed st arrivals t sv ms g)
    (hs : g.step st arrivals m = some g') : Governed st arrivals t sv (ms ++ [m]) g' := by
  cases m with
  | authenticate env req =>
    obtain rfl := Option.some.inj hs
    refine h.retabled fun r hr => ?_
    rcases authenticate_rows hr with ⟨r', hr', hname, hhash⟩ | hnew
    · rw [← hname, ← hhash]
      exact (h.tokens r' hr').mono
    · exact .inr ⟨env, req, by simp, hnew⟩
  | heartbeat env headers =>
    obtain rfl := Option.some.inj hs
    exact h.stem (heartbeat_stem env headers)
  | reap env =>
    obtain rfl := Option.some.inj hs
    exact h.stem (reaperPass_stem env)
  | arrive i env =>
    simp only [Gateway.step] at hs
    split at hs
    next hwaiting =>
      split at hs
      next req hletIn =>
        obtain rfl := Option.some.inj hs
        exact h.admitted hwaiting (letIn_as h.tokens hletIn)
      next r hletIn =>
        obtain rfl := Option.some.inj hs
        exact h.refused hwaiting
    · cases hs
  | run i e =>
    simp only [Gateway.step] at hs
    split at hs
    next req hreq =>
      obtain ⟨c, hc, rfl⟩ := Option.map_eq_some_iff.1 hs
      exact h.moved hq hreq hc
    · cases hs

theorem play_append {m : Gateway.Move ι} : ∀ {ms : List (Gateway.Move ι)} {g : Gateway ι},
    g.play st arrivals (ms ++ [m]) = (g.play st arrivals ms).bind fun g' => g'.step st arrivals m
  | [], g => by simp [Gateway.play]
  | m' :: ms, g => by
    simp only [List.cons_append, Gateway.play, Option.bind_assoc]
    exact congrArg _ (funext fun g' => play_append)

theorem governed (hq : sv.Quiescent) (h : (Gateway.start st arrivals t sv).play st arrivals ms = some g) :
    Governed st arrivals t sv ms g := by
  induction ms using List.reverseRecOn generalizing g with
  | nil =>
    obtain rfl := Option.some.inj h
    exact .start hq.log
  | append_singleton ms m ih =>
    rw [play_append] at h
    obtain ⟨g₁, h₁, hs⟩ := Option.bind_eq_some_iff.1 h
    exact (ih h₁).step hq hs

/-! ### Results -/

/-- Every write of every commit is made on an authority, and an audit row
written names it. -/
theorem commits_authorized {ι : Type} [DecidableEq ι] (st : Gateway.Settings) (arrivals : ι → Arrival)
    (t : ServiceSessions) {sv : Sv ι} (hq : sv.Quiescent) {ms : List (Gateway.Move ι)} {g : Gateway ι}
    (h : (Gateway.start st arrivals t sv).play st arrivals ms = some g) {i : ι} {ws : List (Write Row Key)}
    (hws : (i, ws) ∈ g.clients.shared.log) {w : Write Row Key} (hw : w ∈ ws) :
    ∃ who, Authority st t sv.db arrivals ms g.clients.shared.log i who ∧
      ∀ a, w = .insert (.audit a) → a.actorService = who := by
  have hg := governed hq h
  have hreqs : ∀ j req, g.admission j = .handled req → requestOf arrivals g j = req := fun j req hj => requestOf_handled hj
  obtain ⟨req, hreq⟩ := hg.logged _ hws
  obtain ⟨hsigned, htrusted, hgranted⟩ := (EventTruth.told hq (hg.run (requestOf arrivals g) hreqs)).2 (i, ws) hws w hw
  rw [hreqs i req hreq] at hsigned htrusted hgranted
  refine ⟨req.actor, ?_, hsigned⟩
  cases hpublic : (arrivals i).request.isPublic with
  | false =>
    obtain ⟨name, token, rfl, hbearer, hissued⟩ := (hg.letIn i req hreq).service hpublic
    rw [actor_calledBy hpublic]
    exact .service i name token hbearer hissued
  | true =>
    obtain rfl := (hg.letIn i req hreq).isPublic hpublic
    rcases public_cases hpublic with ⟨grant, hgrant⟩ | ⟨token, htoken, hactor⟩
    · have hactor : (arrivals i).request.actor = "admin_bootstrap" := by rw [hgrant]; rfl
      rw [hactor]
      exact .secret i grant hgrant (htrusted grant hgrant)
    · rw [hactor]
      rcases hgranted token htoken with hstored | ⟨⟨j, vs⟩, hvs, ⟨ct, hct, hid⟩, svc, input, hcreate⟩
      · exact .stored i token htoken hstored
      · -- The token was created by a service that was let in.
        obtain ⟨req', hreq'⟩ := hg.logged _ hvs
        have hcreate : req' = .createToken svc input := (hreqs j req' hreq').symm.trans hcreate
        have hletIn := hg.letIn j req' hreq'
        have hprivate : (arrivals j).request.isPublic = false := by
          cases hp : (arrivals j).request.isPublic with
          | false => rfl
          | true =>
            have hsame := hletIn.isPublic hp
            rw [← hsame, hcreate] at hp
            cases hp
        obtain ⟨name, bearer, hcalled, hbearer, hissued⟩ := hletIn.service hprivate
        obtain ⟨svc', harrival⟩ := calledBy_createToken (hcalled.symm.trans hcreate)
        exact .created i j token svc' name input htoken (.service j name bearer hbearer hissued) harrival
          ⟨vs, ct, hvs, hct, hid⟩

def sampleSettings : Gateway.Settings where
  app := Sample.state
  auth := { sharedSecret := "secret", heartbeatReap := 60, hashToken := fun t => "sha256:" ++ t }

/-- A service creates a consent token, which somebody uses. -/
def sampleArrivals : Bool → Arrival
  | false =>
    { headers := [("authorization", [66, 101, 97, 114, 101, 114, 32, 107])]
      request := .createToken "" { sessionId := Sample.sessionId, participantId := 5, pseudoId := ⟨Sample.speaker⟩ } }
  | true => { headers := [], request := .patchConsent 2000 { noLlmTraining := some true } }

def sampleServer : Sv Bool := Sample.server [.session Sample.session,
  .user (Users.freshRow ⟨Sample.speaker⟩ false (Sample.env 0)),
  .participant (Participants.freshRow Sample.sessionId { pseudoId := ⟨Sample.speaker⟩ } 5 (Sample.env 0))]

def sampleAuth : AuthEnv := { now := 0, id := 9, token := "k", fails := false }

def sampleMoves : List (Gateway.Move Bool) :=
  [.authenticate sampleAuth { sharedSecret := "secret", serviceName := "bot" }, .arrive false sampleAuth, .arrive true sampleAuth] ++
    (Sample.moves 0 [(false, 4), (true, 10)]).map fun m => .run m.1 m.2

theorem commits_authorized_sample : ∃ g : Gateway Bool,
    (auditT.rows g.clients.shared.db).map (·.actorService) = ["bot", "consent_token"] ∧
    ∀ i ws w, (i, ws) ∈ g.clients.shared.log → w ∈ ws →
      ∃ who, Authority sampleSettings [] sampleServer.db sampleArrivals sampleMoves g.clients.shared.log i who ∧
        ∀ a, w = .insert (.audit a) → a.actorService = who := by
  have hrun : ((Gateway.start sampleSettings sampleArrivals [] sampleServer).play sampleSettings sampleArrivals sampleMoves).map
      (fun g => (auditT.rows g.clients.shared.db).map (·.actorService)) = some ["bot", "consent_token"] := by decide +kernel
  obtain ⟨g, hg, hactors⟩ := Option.map_eq_some_iff.1 hrun
  have hq : sampleServer.Quiescent := ⟨by simp [sampleServer, Sample.server, KeysUnique, key, Row.key], rfl, rfl⟩
  exact ⟨g, hactors, fun i ws w hws hw => commits_authorized sampleSettings sampleArrivals [] hq hg hws hw⟩

end DataApi.Attribution
