/-
The life of a service token. A lookup compares the last heartbeat with the
window and the reaper deletes what is past it, but a heartbeat compares
nothing: it brings an expired row back as long as the reaper has not been
there (`Revives`). Without such a heartbeat a token lives exactly as long as
its heartbeats (`Exact`).
-/
import DataApi.ServiceAuth
import Mathlib.Data.List.Chain
import Mathlib.Data.List.Nodup
import Mathlib.Data.Set.Function

namespace DataApi.TokenLife

open ServiceSessions

/-! ## Runs -/

inductive Call
  | authenticate (req : AuthRequest)
  | heartbeat (h : HeaderMap)
  | request (h : HeaderMap)
  | reap

abbrev Step := AuthEnv × Call

/-- What a call does to the table, and the token it issued or refreshed. -/
def serve (st : AuthState) (x : Step) (t : ServiceSessions) : Option String × ServiceSessions :=
  match x.2 with
  | .authenticate req => match Auth.authenticate st x.1 req t with
    | (.ok token, t) => (some token, t)
    | (.error _, t) => (none, t)
  | .heartbeat h => match Auth.heartbeat st x.1 h t with
    | (.ok (), t) => (Auth.bearer h, t)
    | (.error _, t) => (none, t)
  | .request _ => (none, t)
  | .reap => (none, Auth.reaperPass st x.1 t)

/-- The table, and per token the times of its issue and of its heartbeats. -/
structure Seen where
  table : ServiceSessions
  beats : String → List Timestamp

/-- `now` goes to the beats of `token`. -/
def beat (beats : String → List Timestamp) (now : Timestamp) (token : String) : String → List Timestamp :=
  fun x => if x = token then beats x ++ [now] else beats x

def observe (st : AuthState) (s : Seen) (x : Step) : Seen where
  table := (serve st x s.table).2
  beats := match (serve st x s.table).1 with
    | some token => beat s.beats x.1.now token
    | none => s.beats

/-- A run from the empty table. -/
def seen (st : AuthState) (run : List Step) : Seen := run.foldl (observe st) { table := [], beats := fun _ => [] }

/-- The token a call draws. -/
def drawn (st : AuthState) (x : Step) : Option String :=
  match x.2 with
  | .authenticate req => if req.sharedSecret = st.sharedSecret then some x.1.token else none
  | _ => none

/-- The token a caller brings. -/
def brought (x : Step) : Option String :=
  match x.2 with
  | .heartbeat h | .request h => Auth.bearer h
  | _ => none

/-- The tokens of a run. -/
def shown (st : AuthState) (run : List Step) : Set String :=
  {token | ∃ x ∈ run, drawn st x = some token ∨ brought x = some token}

/-- `t` is not before any call of the run. -/
def After (run : List Step) (t : Timestamp) : Prop := ∀ x ∈ run, x.1.now ≤ t

/-- Issued, and from the issue over the heartbeats to `t` without a gap as
long as the window. -/
def Kept (window : Nat) (beats : List Timestamp) (t : Timestamp) : Prop :=
  beats ≠ [] ∧ (beats ++ [t]).IsChain fun a b => b - a < interval window

/-- From now on a request with one of these tokens is let in iff the token was
kept. -/
def Exact (st : AuthState) (tokens : Set String) (run : List Step) : Prop :=
  ∀ (env : AuthEnv) h, ∀ token ∈ tokens, Auth.bearer h = some token → env.fails = false → After run env.now →
    ((∃ name, Auth.requireServiceAuth st env h (seen st run).table = .ok name) ↔
      Kept st.heartbeatReap ((seen st run).beats token) env.now)

/-- A heartbeat whose token is past the window, its row not yet reaped. -/
def Revives (st : AuthState) (t : ServiceSessions) (x : Step) : Prop :=
  ∃ h token, x.2 = .heartbeat h ∧ x.1.fails = false ∧ Auth.bearer h = some token ∧
    ∃ r ∈ t, r.tokenHash = st.hashToken token ∧ interval st.heartbeatReap ≤ x.1.now - r.lastSeenAt

/-! ## One call -/

theorem seen_snoc (st : AuthState) (run : List Step) (x : Step) :
    seen st (run ++ [x]) = observe st (seen st run) x := by
  simp [seen, List.foldl_append]

theorem mem_refresh {t : ServiceSessions} {now : Timestamp} {hash : String} {r : ServiceSession} :
    r ∈ t.refresh now hash ↔ (∃ x ∈ t, x.tokenHash = hash ∧ r = seenAt now x) ∨ (r ∈ t ∧ r.tokenHash ≠ hash) := by
  simp only [refresh, List.mem_map]
  constructor
  · rintro ⟨x, hx, rfl⟩
    by_cases h : x.tokenHash = hash
    · exact .inl ⟨x, hx, h, by rw [if_pos h]⟩
    · rw [if_neg h]; exact .inr ⟨hx, h⟩
  · rintro (⟨x, hx, h, rfl⟩ | ⟨hr, h⟩)
    · exact ⟨x, hx, by rw [if_pos h]⟩
    · exact ⟨r, hr, by rw [if_neg h]⟩

theorem refresh_absent {t : ServiceSessions} {now : Timestamp} {hash : String} (h : ∀ r ∈ t, r.tokenHash ≠ hash) :
    t.refresh now hash = t := by
  have hid : t.refresh now hash = t.map id := List.map_congr_left fun r hr => by rw [if_neg (h r hr)]; rfl
  rw [hid, List.map_id]

/-- What one call is to the tokens: nothing, an issue, a heartbeat, or a
round of the reaper. -/
inductive Observed (st : AuthState) (s : Seen) (x : Step) : Seen → Prop
  | quiet : Observed st s x s
  | issued (token svc : String) (draw : drawn st x = some token) :
      Observed st s x { table := (s.table.insert x.1.now x.1.id svc (st.hashToken token)).2
                        beats := beat s.beats x.1.now token }
  | beat (h : HeaderMap) (token : String) (r : ServiceSession) (call : x.2 = .heartbeat h) (ok : x.1.fails = false)
      (asked : Auth.bearer h = some token) (row : r ∈ s.table) (hash : r.tokenHash = st.hashToken token) :
      Observed st s x { table := s.table.refresh x.1.now (st.hashToken token)
                        beats := TokenLife.beat s.beats x.1.now token }
  | reaped : Observed st s x { s with table := s.table.filter fun r => !stale x.1.now st.heartbeatReap r }

theorem observe_cases (st : AuthState) (s : Seen) (x : Step) : Observed st s x (observe st s x) := by
  obtain ⟨env, call⟩ := x
  cases call with
  | authenticate req =>
    by_cases hs : req.sharedSecret = st.sharedSecret
    · by_cases hf : env.fails = true
      · simpa [observe, serve, Auth.authenticate, Auth.statement, hs, hf, Except.map] using Observed.quiet
      · have hd : drawn st (env, .authenticate req) = some env.token := by simp [drawn, hs]
        simpa [observe, serve, Auth.authenticate, Auth.statement, hs, hf, Except.map] using
          Observed.issued env.token req.serviceName hd
    · simpa [observe, serve, Auth.authenticate, hs] using Observed.quiet
  | heartbeat h =>
    cases hb : Auth.bearer h with
    | none => simpa [observe, serve, Auth.heartbeat, hb] using Observed.quiet
    | some token =>
      by_cases hf : env.fails = true
      · simpa [observe, serve, Auth.heartbeat, Auth.statement, hb, hf, Except.bind] using Observed.quiet
      · have hf' : env.fails = false := by simpa using hf
        by_cases hr : ∃ r ∈ s.table, r.tokenHash = st.hashToken token
        · obtain ⟨r, hmem, hash⟩ := hr
          have hany : (s.table.any fun r => r.tokenHash = st.hashToken token) = true :=
            List.any_eq_true.2 ⟨r, hmem, by simpa using hash⟩
          have := @Observed.beat st s (env, .heartbeat h) h token r rfl hf' hb hmem hash
          simpa [observe, serve, Auth.heartbeat, Auth.statement, hb, hf', Except.bind, touch, hany] using this
        · have hno : ∀ r ∈ s.table, r.tokenHash ≠ st.hashToken token := fun r hmem hash => hr ⟨r, hmem, hash⟩
          have hany : (s.table.any fun r => r.tokenHash = st.hashToken token) = false := by simpa using hno
          simpa [observe, serve, Auth.heartbeat, Auth.statement, hb, hf', Except.bind, touch, hany,
            refresh_absent hno] using Observed.quiet
  | request h => exact .quiet
  | reap =>
    by_cases hf : env.fails = true
    · simpa [observe, serve, Auth.reaperPass, Auth.statement, hf] using Observed.quiet
    · simpa [observe, serve, Auth.reaperPass, Auth.statement, hf, reapStale] using Observed.reaped

/-! ## What the table knows -/

theorem beat_self (beats : String → List Timestamp) (now : Timestamp) (token : String) :
    beat beats now token token = beats token ++ [now] := by simp [beat]

theorem beat_other (beats : String → List Timestamp) (now : Timestamp) {token other : String} (h : other ≠ token) :
    beat beats now token other = beats other := by simp [beat, h]

/-- A window less one is no longer a gap. -/
theorem Kept.of_snoc {window : Nat} {beats : List Timestamp} {last t : Timestamp} (h : beats.getLast? = some last) :
    Kept window beats t ↔ beats.IsChain (fun a b => b - a < interval window) ∧ t - last < interval window := by
  have hne : beats ≠ [] := by
    rintro rfl; cases h
  rw [Kept, List.isChain_append]
  simp [hne, h]

theorem Kept.init {window : Nat} {beats : List Timestamp} {t u : Timestamp} (h : Kept window (beats ++ [t]) u)
    (hne : beats ≠ []) : Kept window beats t :=
  ⟨hne, (List.isChain_append.1 h.2).1⟩

theorem interval_pos {window : Nat} (h : window ≠ 0) : 0 < interval window := by
  rw [interval]
  omega

/-- What the reaper deletes stays past the window. -/
theorem past_window {last now t window : Int} (h : last < now - window) (ht : now ≤ t) : ¬t - last < window := by
  omega

theorem After.init {run : List Step} {x : Step} {t : Timestamp} (h : After (run ++ [x]) t) : After run t :=
  fun y hy => h y (List.mem_append_left _ hy)

theorem After.last {run : List Step} {x : Step} {t : Timestamp} (h : After (run ++ [x]) t) : x.1.now ≤ t :=
  h x (by simp)

/-- What the table knows of a run: a row tells the last beat of its token,
and a token without a row is past the window. -/
structure Recorded (st : AuthState) (tokens : Set String) (run : List Step) (s : Seen) : Prop where
  row : ∀ token ∈ tokens, ∀ r ∈ s.table, r.tokenHash = st.hashToken token → (s.beats token).getLast? = some r.lastSeenAt
  past : ∀ token, ∀ b ∈ s.beats token, ∃ x ∈ run, x.1.now = b
  drew : ∀ token, s.beats token ≠ [] → ∃ x ∈ run, drawn st x = some token
  gone : ∀ token ∈ tokens, (∀ r ∈ s.table, r.tokenHash ≠ st.hashToken token) → ∀ t, After run t →
    ¬Kept st.heartbeatReap (s.beats token) t

section
variable {st : AuthState} {tokens : Set String} {run : List Step} {s s' : Seen} {x : Step}

theorem Recorded.start : Recorded st tokens [] { table := [], beats := fun _ => [] } where
  row := by intro token _ r hr; cases hr
  past := by intro token b hb; cases hb
  drew := by intro token h; exact absurd rfl h
  gone := by
    intro token _ _ t _ h
    exact h.1 rfl

theorem Recorded.quiet (h : Recorded st tokens run s) : Recorded st tokens (run ++ [x]) s where
  row := h.row
  past token b hb := by
    obtain ⟨y, hy, hb⟩ := h.past token b hb
    exact ⟨y, List.mem_append_left _ hy, hb⟩
  drew token hne := by
    obtain ⟨y, hy, hd⟩ := h.drew token hne
    exact ⟨y, List.mem_append_left _ hy, hd⟩
  gone token htoken hno t ht := h.gone token htoken hno t ht.init

/-- A token's beats grow, and so does its row. -/
theorem Recorded.beat (h : Recorded st tokens run s) (distinct : Set.InjOn st.hashToken tokens) {token : String}
    (htoken : token ∈ tokens) {table : ServiceSessions} (hd : ∃ y ∈ run ++ [x], drawn st y = some token)
    (hrow : ∃ r ∈ table, r.tokenHash = st.hashToken token)
    (hself : ∀ r ∈ table, r.tokenHash = st.hashToken token → r.lastSeenAt = x.1.now)
    (hother : ∀ r, r.tokenHash ≠ st.hashToken token → (r ∈ table ↔ r ∈ s.table)) :
    Recorded st tokens (run ++ [x]) { table := table, beats := TokenLife.beat s.beats x.1.now token } where
  row other hmem r hr hash := by
    dsimp only at hr ⊢
    by_cases ho : other = token
    · subst ho
      rw [beat_self, List.getLast?_concat, hself r hr hash]
    · have hne : r.tokenHash ≠ st.hashToken token := fun he => ho (distinct hmem htoken (hash.symm.trans he))
      rw [beat_other _ _ ho]
      exact h.row other hmem r ((hother r hne).1 hr) hash
  past other b hb := by
    dsimp only at hb
    by_cases ho : other = token
    · subst ho
      rw [beat_self] at hb
      rcases List.mem_append.1 hb with hb | hb
      · exact h.quiet.past other b hb
      · exact ⟨x, by simp, (List.mem_singleton.1 hb).symm⟩
    · rw [beat_other _ _ ho] at hb
      exact h.quiet.past other b hb
  drew other hne := by
    dsimp only at hne
    by_cases ho : other = token
    · subst ho; exact hd
    · rw [beat_other _ _ ho] at hne
      exact h.quiet.drew other hne
  gone other hmem hno t ht := by
    dsimp only at hno ⊢
    by_cases ho : other = token
    · subst ho
      obtain ⟨r, hr, hash⟩ := hrow
      exact absurd hash (hno r hr)
    · rw [beat_other _ _ ho]
      refine h.gone other hmem (fun r hr hash => ?_) t ht.init
      have hne : r.tokenHash ≠ st.hashToken token := fun he => ho (distinct hmem htoken (hash.symm.trans he))
      exact hno r ((hother r hne).2 hr) hash

theorem Recorded.observed (h : Recorded st tokens run s) (distinct : Set.InjOn st.hashToken tokens)
    (hshown : shown st [x] ⊆ tokens) (fresh : ∀ y ∈ run, ∀ token, drawn st x = some token → drawn st y ≠ some token)
    (ho : Observed st s x s') : Recorded st tokens (run ++ [x]) s' := by
  cases ho with
  | quiet => exact h.quiet
  | issued token svc draw =>
    have htoken : token ∈ tokens := hshown ⟨x, by simp, .inl draw⟩
    -- A fresh token has no row, so the insert meets no conflict.
    have hnil : s.beats token = [] := by
      by_contra hne
      obtain ⟨y, hy, hd⟩ := h.drew token hne
      exact fresh y hy token draw hd
    have hno : ∀ r ∈ s.table, r.tokenHash ≠ st.hashToken token := by
      intro r hr hash
      have := h.row token htoken r hr hash
      rw [hnil] at this
      cases this
    have hfind : (s.table.find? fun r => r.tokenHash = st.hashToken token) = none :=
      List.find?_eq_none.2 fun r hr => by simpa using hno r hr
    have hins : (s.table.insert x.1.now x.1.id svc (st.hashToken token)).2 =
        s.table ++ [freshRow x.1.now x.1.id svc (st.hashToken token)] := by
      rw [ServiceSessions.insert, hfind]
    rw [hins]
    refine h.beat distinct htoken ⟨x, by simp, draw⟩ ⟨_, List.mem_append_right _ (List.mem_singleton.2 rfl), rfl⟩
      (fun r hr hash => ?_) (fun r hne => ?_)
    · rcases List.mem_append.1 hr with hr | hr
      · exact absurd hash (hno r hr)
      · rw [List.mem_singleton.1 hr]; rfl
    · refine ⟨fun hr => ?_, fun hr => List.mem_append_left _ hr⟩
      rcases List.mem_append.1 hr with hr | hr
      · exact hr
      · rw [List.mem_singleton.1 hr] at hne
        exact absurd rfl hne
  | beat hd token r call ok asked row hash =>
    have htoken : token ∈ tokens := hshown ⟨x, by simp, .inr (by rw [brought, call]; exact asked)⟩
    have hne : s.beats token ≠ [] := by
      intro hnil
      have := h.row token htoken r row hash
      rw [hnil] at this
      cases this
    refine h.beat distinct htoken (h.quiet.drew token hne) ⟨_, mem_refresh.2 (.inl ⟨r, row, hash, rfl⟩), hash⟩ ?_ ?_
    · intro r' hr' hash'
      rcases mem_refresh.1 hr' with ⟨y, _, _, rfl⟩ | ⟨_, hne'⟩
      · rfl
      · exact absurd hash' hne'
    · intro r' hne'
      refine ⟨fun hr' => ?_, fun hr' => mem_refresh.2 (.inr ⟨hr', hne'⟩)⟩
      rcases mem_refresh.1 hr' with ⟨y, _, hy, rfl⟩ | ⟨hr', _⟩
      · exact absurd hy hne'
      · exact hr'
  | reaped =>
    refine ⟨fun token hmem r hr hash => h.row token hmem r (List.mem_filter.1 hr).1 hash, h.quiet.past, h.quiet.drew, ?_⟩
    intro token hmem hno t ht hk
    by_cases hrow : ∃ r ∈ s.table, r.tokenHash = st.hashToken token
    · obtain ⟨r, hr, hash⟩ := hrow
      have hstale : stale x.1.now st.heartbeatReap r = true := by
        by_contra hs
        exact hno r (List.mem_filter.2 ⟨hr, by simpa using hs⟩) hash
      have hlast := ((Kept.of_snoc (h.row token hmem r hr hash)).1 hk).2
      simp only [stale, decide_eq_true_eq] at hstale
      exact past_window hstale ht.last hlast
    · exact h.gone token hmem (fun r hr hash => hrow ⟨r, hr, hash⟩) t ht.init hk

/-- Every token that has a row has been kept up to its last beat. -/
def Unbroken (st : AuthState) (tokens : Set String) (s : Seen) : Prop :=
  ∀ token ∈ tokens, ∀ r ∈ s.table, r.tokenHash = st.hashToken token →
    (s.beats token).IsChain fun a b => b - a < interval st.heartbeatReap

/-- Without a revival, a call leaves no gap behind. -/
theorem Unbroken.observed (h : Unbroken st tokens s) (hr : Recorded st tokens run s)
    (distinct : Set.InjOn st.hashToken tokens) (hshown : shown st [x] ⊆ tokens)
    (fresh : ∀ y ∈ run, ∀ token, drawn st x = some token → drawn st y ≠ some token) (hrev : ¬Revives st s.table x)
    (ho : Observed st s x s') : Unbroken st tokens s' := by
  cases ho with
  | quiet => exact h
  | issued token svc draw =>
    have htoken : token ∈ tokens := hshown ⟨x, by simp, .inl draw⟩
    intro other hother r hmem hash
    have hnil : s.beats token = [] := by
      by_contra hne
      obtain ⟨y, hy, hd⟩ := hr.drew token hne
      exact fresh y hy token draw hd
    dsimp only at hmem ⊢
    by_cases ho : other = token
    · subst ho
      rw [beat_self, hnil]
      exact List.isChain_singleton _
    · rw [beat_other _ _ ho]
      have hne : r.tokenHash ≠ st.hashToken token := fun he => ho (distinct hother htoken (hash.symm.trans he))
      refine h other hother r ?_ hash
      unfold ServiceSessions.insert at hmem
      split at hmem
      · rcases mem_refresh.1 hmem with ⟨y, _, hy, rfl⟩ | ⟨hmem, _⟩
        · exact absurd hy hne
        · exact hmem
      · rcases List.mem_append.1 hmem with hmem | hmem
        · exact hmem
        · rw [List.mem_singleton.1 hmem] at hne
          exact absurd rfl hne
  | beat hd token r call ok asked row hash =>
    have htoken : token ∈ tokens := hshown ⟨x, by simp, .inr (by rw [brought, call]; exact asked)⟩
    intro other hother r' hmem hash'
    dsimp only at hmem ⊢
    by_cases ho : other = token
    · subst ho
      rw [beat_self]
      refine ((Kept.of_snoc (hr.row other hother r row hash)).2 ⟨h other hother r row hash, ?_⟩).2
      by_contra hgap
      exact hrev ⟨hd, other, call, ok, asked, r, row, hash, Int.not_lt.1 hgap⟩
    · rw [beat_other _ _ ho]
      rcases mem_refresh.1 hmem with ⟨y, _, hy, rfl⟩ | ⟨hmem, _⟩
      · exact absurd (distinct hother htoken (hash'.symm.trans hy)) ho
      · exact h other hother r' hmem hash'
  | reaped => exact fun token htoken r hmem hash => h token htoken r (List.mem_filter.1 hmem).1 hash

/-- A lookup finds a row of the token within the window. -/
theorem admitted_iff {env : AuthEnv} {h : HeaderMap} {token : String} {t : ServiceSessions}
    (hb : Auth.bearer h = some token) (hf : env.fails = false) :
    (∃ name, Auth.requireServiceAuth st env h t = .ok name) ↔
      ∃ r ∈ t, r.tokenHash = st.hashToken token ∧ env.now - r.lastSeenAt < interval st.heartbeatReap := by
  have hx : Auth.extractBearer h = .ok token := by
    obtain ⟨v, hv, hs⟩ := Option.bind_eq_some_iff.1 hb
    rw [Auth.extractBearer, hv]
    simp only [hs]
  have hl : (∃ name, t.lookupAlive env.now (st.hashToken token) st.heartbeatReap = some name) ↔
      ∃ r ∈ t, r.tokenHash = st.hashToken token ∧ env.now - r.lastSeenAt < interval st.heartbeatReap := by
    simp only [lookupAlive, ← Option.isSome_iff_exists, Option.isSome_map, List.find?_isSome, Bool.and_eq_true,
      decide_eq_true_eq]
    refine exists_congr fun r => and_congr_right fun _ => and_congr_right fun _ => ?_
    exact ⟨Int.sub_left_lt_of_lt_add ∘ Int.lt_add_of_sub_right_lt, Int.sub_left_lt_of_lt_add ∘ Int.lt_add_of_sub_right_lt⟩
  rw [← hl, Auth.requireServiceAuth, hx]
  simp only [hf, Bool.false_eq_true, if_false]
  cases t.lookupAlive env.now (st.hashToken token) st.heartbeatReap <;> simp

/-- A table that knows of no gap lets in exactly the tokens that were kept. -/
theorem Recorded.exact (hr : Recorded st tokens run s) (hu : Unbroken st tokens s) {token : String}
    (htoken : token ∈ tokens) {t : Timestamp} (ht : After run t) : (∃ r ∈ s.table, r.tokenHash = st.hashToken token ∧ t - r.lastSeenAt < interval st.heartbeatReap) ↔
      Kept st.heartbeatReap (s.beats token) t := by
  constructor
  · rintro ⟨r, hmem, hash, hgap⟩
    exact (Kept.of_snoc (hr.row token htoken r hmem hash)).2 ⟨hu token htoken r hmem hash, hgap⟩
  · intro hk
    by_contra hno
    refine hr.gone token htoken (fun r hmem hash => hno ⟨r, hmem, hash, ?_⟩) t ht hk
    exact ((Kept.of_snoc (hr.row token htoken r hmem hash)).1 hk).2

/-- No gap is shorter than no time. -/
theorem Recorded.exact_zero (hr : Recorded st tokens run s) (h0 : st.heartbeatReap = 0) {token : String}
    (htoken : token ∈ tokens) {t : Timestamp} (ht : After run t) : (∃ r ∈ s.table, r.tokenHash = st.hashToken token ∧ t - r.lastSeenAt < interval st.heartbeatReap) ↔
      Kept st.heartbeatReap (s.beats token) t := by
  have hlast : ∀ last, (s.beats token).getLast? = some last → ¬t - last < interval st.heartbeatReap := by
    intro last hl hgap
    obtain ⟨y, hy, rfl⟩ := hr.past token last (List.mem_of_getLast? hl)
    rw [h0] at hgap
    exact absurd (Int.lt_of_sub_neg hgap) (Int.not_lt.2 (ht y hy))
  constructor
  · rintro ⟨r, hmem, hash, hgap⟩
    exact absurd hgap (hlast _ (hr.row token htoken r hmem hash))
  · intro hk
    obtain ⟨last, hl⟩ : ∃ last, (s.beats token).getLast? = some last :=
      Option.ne_none_iff_exists'.1 fun hn => hk.1 (List.getLast?_eq_none_iff.1 hn)
    exact absurd ((Kept.of_snoc hl).1 hk).2 (hlast last hl)

end

/-! ## Every run -/

section
variable {st : AuthState} {tokens : Set String} {run : List Step}

theorem shown_append {xs ys : List Step} (h : shown st (xs ++ ys) ⊆ tokens) : shown st xs ⊆ tokens ∧ shown st ys ⊆ tokens :=
  ⟨fun _ ⟨x, hx, ht⟩ => h ⟨x, List.mem_append_left _ hx, ht⟩, fun _ ⟨x, hx, ht⟩ => h ⟨x, List.mem_append_right _ hx, ht⟩⟩

theorem fresh_pairwise (fresh : (run.filterMap (drawn st)).Nodup) :
    run.Pairwise fun y x => ∀ token, drawn st x = some token → drawn st y ≠ some token := by
  refine (List.pairwise_filterMap.1 fresh).imp fun h token hx hy => ?_
  exact h token hy token hx rfl

theorem recorded (distinct : Set.InjOn st.hashToken tokens) (hshown : shown st run ⊆ tokens)
    (fresh : (run.filterMap (drawn st)).Nodup) : Recorded st tokens run (seen st run) := by
  replace fresh := fresh_pairwise fresh
  induction run using List.reverseRecOn with
  | nil => exact .start
  | append_singleton run x ih =>
    obtain ⟨hrun, -, hx⟩ := List.pairwise_append.1 fresh
    obtain ⟨hinit, hlast⟩ := shown_append hshown
    rw [seen_snoc]
    exact (ih hinit hrun).observed distinct hlast (fun y hy => hx y hy x (by simp)) (observe_cases _ _ _)

theorem unbroken (distinct : Set.InjOn st.hashToken tokens) (hshown : shown st run ⊆ tokens)
    (fresh : (run.filterMap (drawn st)).Nodup)
    (hrev : ∀ pre x post, run = pre ++ x :: post → ¬Revives st (seen st pre).table x) :
    Unbroken st tokens (seen st run) := by
  induction run using List.reverseRecOn with
  | nil => intro token _ r hr; cases hr
  | append_singleton run x ih =>
    have hrun : (run.filterMap (drawn st)).Nodup := by
      rw [List.filterMap_append] at fresh
      exact (List.nodup_append.1 fresh).1
    obtain ⟨-, -, hx⟩ := List.pairwise_append.1 (fresh_pairwise fresh)
    obtain ⟨hinit, hlast⟩ := shown_append hshown
    rw [seen_snoc]
    refine (ih hinit hrun fun pre y post hy => hrev pre y (post ++ [x]) (by rw [hy]; simp)).observed
      (recorded distinct hinit hrun) distinct hlast (fun y hy => hx y hy x (by simp)) (hrev run x [] rfl) (observe_cases _ _ _)

end

/-- For every run of issues, heartbeats, requests and reaper passes, where the
hashes of its tokens and of the tokens tried do not collide: in each of its
states a token is let in exactly while its heartbeats kept it, if and
only if no heartbeat of the run meets an expired row that is still there (or
the window is no time at all). -/
theorem tokens_live_by_heartbeat (st : AuthState) (run : List Step) (clock : run.Pairwise fun x y => x.1.now ≤ y.1.now)
    (fresh : (run.filterMap (drawn st)).Nodup) (tokens : Set String) (hshown : shown st run ⊆ tokens)
    (distinct : Set.InjOn st.hashToken tokens) :
    (∀ pre post, run = pre ++ post → Exact st tokens pre) ↔
      st.heartbeatReap = 0 ∨ ∀ pre x post, run = pre ++ x :: post → ¬Revives st (seen st pre).table x := by
  have hpre : ∀ pre post, run = pre ++ post → (pre.filterMap (drawn st)).Nodup := by
    rintro pre post rfl
    rw [List.filterMap_append] at fresh
    exact (List.nodup_append.1 fresh).1
  have hrecorded : ∀ pre post, run = pre ++ post → Recorded st tokens pre (seen st pre) := by
    intro pre post hrun
    exact recorded distinct (shown_append (hrun ▸ hshown)).1 (hpre pre post hrun)
  constructor
  · intro hexact
    refine or_iff_not_imp_left.2 fun hw pre x post hrun hrevives => ?_
    obtain ⟨h, token, hcall, hok, hasked, r, hr, hash, hgap⟩ := hrevives
    have hsplit : run = (pre ++ [x]) ++ post := by rw [hrun]; simp
    have hafter : After (pre ++ [x]) x.1.now := by
      intro y hy
      rcases List.mem_append.1 hy with hy | hy
      · rw [hrun] at clock
        exact (List.pairwise_append.1 clock).2.2 y hy x (by simp)
      · obtain rfl := List.mem_singleton.1 hy
        exact Int.le_refl _
    have hrec := hrecorded pre (x :: post) hrun
    have htoken : token ∈ tokens := hshown ⟨x, by rw [hrun]; simp, .inr (by rw [brought, hcall]; exact hasked)⟩
    -- The heartbeat is answered, and the token is let in right after it.
    have hnew : (seen st (pre ++ [x])).beats token = (seen st pre).beats token ++ [x.1.now] ∧
        ∃ r ∈ (seen st (pre ++ [x])).table, r.tokenHash = st.hashToken token ∧ r.lastSeenAt = x.1.now := by
      rw [seen_snoc]
      obtain ⟨env, call⟩ := x
      obtain rfl : call = .heartbeat h := hcall
      have hany : ((seen st pre).table.any fun r => r.tokenHash = st.hashToken token) = true :=
        List.any_eq_true.2 ⟨r, hr, by simpa using hash⟩
      have hserve : serve st (env, .heartbeat h) (seen st pre).table =
          (some token, (seen st pre).table.refresh env.now (st.hashToken token)) := by
        simp [serve, Auth.heartbeat, Auth.statement, hasked, show env.fails = false from hok, touch, hany, Except.bind]
      simp only [observe, hserve]
      exact ⟨beat_self _ _ _, _, mem_refresh.2 (.inl ⟨r, hr, hash, rfl⟩), hash, rfl⟩
    obtain ⟨hbeats, r', hr', hash', hlast'⟩ := hnew
    have hin := (@admitted_iff st x.1 h token _ hasked hok).2 ⟨r', hr', hash', by
      rw [hlast', Int.sub_self]
      exact interval_pos hw⟩
    have hkept := (hexact _ post hsplit x.1 h token htoken hasked hok hafter).1 hin
    rw [hbeats] at hkept
    have hne : (seen st pre).beats token ≠ [] := by
      intro hnil
      have := hrec.row token htoken r hr hash
      rw [hnil] at this
      cases this
    exact absurd ((Kept.of_snoc (hrec.row token htoken r hr hash)).1 (hkept.init hne)).2 (Int.not_lt.2 hgap)
  · intro hcond pre post hrun env h token htoken hasked hok hafter
    have hrec := hrecorded pre post hrun
    rw [admitted_iff hasked hok]
    rcases hcond with h0 | hrev
    · exact hrec.exact_zero h0 htoken hafter
    · have hinit := (shown_append (hrun ▸ hshown)).1
      refine hrec.exact (unbroken distinct hinit (hpre pre post hrun) fun pre' x post' hx => ?_) htoken hafter
      exact hrev pre' x (post' ++ post) (by rw [hrun, hx]; simp)

/-! ## Samples -/

/-- SHA-256 in hexadecimal, of the two sample tokens. -/
def sampleHash (token : String) : String :=
  if token = "a" then "ca978112ca1bbdcafac231b39a23dc4da786eff8147c4e72b9807785afee48bb"
  else "e3b0c44298fc1c149afbf4c8996fb92427ae41e4649b934ca495991b7852b855"

def sampleState : AuthState := { sharedSecret := "secret", heartbeatReap := 90, hashToken := sampleHash }

def at' (secs : Nat) : AuthEnv := { now := secs * 1000000, id := 1, token := "a", fails := false }

/-- `authorization: Bearer a`. -/
def sampleHeaders : HeaderMap := [("authorization", "Bearer a".toUTF8.toList)]

/-- An issue and two heartbeats, a minute apart, and then the reaper. -/
def sampleRun : List Step :=
  [(at' 0, .authenticate { sharedSecret := "secret", serviceName := "bot" }), (at' 60, .heartbeat sampleHeaders),
    (at' 120, .heartbeat sampleHeaders), (at' 150, .reap)]

/-- No gap of the sample is as long as the window. -/
theorem sampleRun_gaps : ∀ n < 4, ((sampleRun[n]?).all fun x => (seen sampleState (sampleRun.take n)).table.all fun r =>
    x.1.now - r.lastSeenAt < interval 90) = true := by decide +kernel

/-- The token that is issued, and one that is only tried. -/
def sampleTokens : Set String := {"a", ""}

theorem sampleRun_shown : shown sampleState sampleRun ⊆ sampleTokens := by
  have hbearer : Auth.bearer sampleHeaders = some "a" := by decide +kernel
  rintro token ⟨x, hx, h⟩
  have htoken : token = "a" := by
    simp only [sampleRun, List.mem_cons, List.not_mem_nil, or_false] at hx
    rcases hx with rfl | rfl | rfl | rfl <;> simp_all [drawn, brought, sampleState, at']
  exact .inl htoken

theorem sampleTokens_distinct : Set.InjOn sampleState.hashToken sampleTokens := by
  rintro x (rfl | rfl) y (rfl | rfl) h
  · rfl
  · exact absurd h (by decide)
  · exact absurd h (by decide)
  · rfl

theorem tokens_live_by_heartbeat_sample :
    (∀ pre post, sampleRun = pre ++ post → Exact sampleState sampleTokens pre) ∧
      (seen sampleState sampleRun).beats "a" = [0, 60000000, 120000000] := by
  refine ⟨?_, by decide +kernel⟩
  refine (tokens_live_by_heartbeat sampleState sampleRun (by decide) (by decide) sampleTokens sampleRun_shown
    sampleTokens_distinct).2 (.inr ?_)
  rintro pre x post hrun ⟨h, token, -, -, -, r, hr, -, hgap⟩
  have hlen : pre.length < 4 := by
    have := congrArg List.length hrun
    simp only [sampleRun, List.length_cons, List.length_nil, List.length_append] at this
    omega
  have hall := sampleRun_gaps pre.length hlen
  rw [hrun, List.getElem?_append_right (Nat.le_refl _), List.take_left] at hall
  simp only [Nat.sub_self, List.getElem?_cons_zero, Option.all_some, List.all_eq_true, decide_eq_true_eq] at hall
  exact absurd (hall r hr) (Int.not_lt.2 hgap)

/-- The heartbeat comes after a hundred seconds, and before the reaper. -/
def lateRun : List Step :=
  [(at' 0, .authenticate { sharedSecret := "secret", serviceName := "bot" }), (at' 100, .heartbeat sampleHeaders)]

theorem late_heartbeat_revives : ¬Exact sampleState sampleTokens lateRun := by
  intro h
  have hb : Auth.bearer sampleHeaders = some "a" := by decide +kernel
  have hiff := h (at' 101) sampleHeaders "a" (.inl rfl) hb rfl (by unfold After; decide)
  have hin : ∃ name, Auth.requireServiceAuth sampleState (at' 101) sampleHeaders (seen sampleState lateRun).table = .ok name :=
    ⟨"bot", by decide +kernel⟩
  have hbeats : (seen sampleState lateRun).beats "a" = [0, 100000000] := by decide +kernel
  have hkept := (hiff.1 hin).2
  rw [hbeats] at hkept
  revert hkept
  decide

end DataApi.TokenLife
