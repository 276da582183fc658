/-
The heartbeat under load. The pong deadline is the last branch of a biased
`select!`: it ends the connection exactly where no event waits to be sent, the
bus has nothing and no tick is due when it has passed.
-/
import DataApi.Proofs.WsDelivery

namespace DataApi.Ws.Heartbeat

open Clocked

/-! ## What is claimed of a run -/

/-- The deadline of the first ping that no pong has answered. -/
def await (d : Option Instant) : Act → Option Instant
  | .take _ (.socket (some (.ok (.pong _)))) _ _ _ => none
  | .take _ .tick _ (.ok c) _ => d.or c.pongDeadline
  | _ => d

/-- No event frame, no ping, no new deadline: a message of the socket is read,
or the connection ends as timed out. -/
def Allowed : Act → Prop
  | .send _ out ended => (∀ f, .frame f ∉ out) ∧ ended = none
  | .take _ input found left out => .frame (.ping []) ∉ out ∧
      (∀ c, left = .ok c → c.pongDeadline = found.pongDeadline ∨ c.pongDeadline = none) ∧
      ((∃ msg, input = .socket msg) ∨ left = .error .healthcheckTimeout)

/-- Once the deadline of an unanswered ping has passed, only that is done. -/
def Obeys : Option Instant → List Act → Prop
  | _, [] => True
  | d, a :: as => (∀ t, d = some t → t ≤ a.time → Allowed a) ∧ Obeys (await d a) as

theorem obeys_append {as bs : List Act} : ∀ {d : Option Instant},
    Obeys d (as ++ bs) ↔ Obeys d as ∧ Obeys (as.foldl await d) bs := by
  induction as with
  | nil => intro d; simp [Obeys]
  | cons a as ih => intro d; simp [Obeys, ih, and_assoc]

/-- The head of the loop does not fail to send. -/
def Sends (w : Codec) (s : Clocked) (m : Meets) : Prop :=
  m.sendEvent = .ok () ∨ ∀ ev ∈ s.conn.q.inner, ∃ e, w.encode ev = .error e

/-- Once the deadline has passed, nothing that can be sent waits when the turn
begins, and when the `select!` is polled the bus has nothing, and no tick is due
unless the socket has something. -/
def Clear (w : Codec) (d : Option Instant) (s : Clocked) (m : Meets) : Prop :=
  ∀ t, d = some t →
    (t ≤ s.now → ∀ ev ∈ s.conn.q.inner, ∃ e, w.encode ev = .error e) ∧
    (t ≤ m.polled → Sends w s m →
      s.bus ++ m.busIn = [] ∧ (s.socket ++ m.socketIn ≠ [] ∨ m.polled < s.nextTick))

/-- Every turn of the run is clear. -/
def Undisturbed (w : Codec) (schedule : Instant → Instant → Instant) : Option Instant → Clocked → List Meets → Prop
  | _, _, [] => True
  | d, s, m :: ms => ∀ as s', s.step w schedule m = some (as, s') →
      Clear w d s m ∧ ∀ s₁, s' = some s₁ → Undisturbed w schedule (as.foldl await d) s₁ ms

/-! ## The head of the loop -/

/-- Where nothing that waits serializes, the head sends nothing. -/
theorem sendNext_nothing {w : Codec} {t : Turn} : ∀ {n : Nat} {q : DropOldestQueue}, n = q.inner.length →
    (∀ ev ∈ q.inner, ∃ e, w.encode ev = .error e) → ∃ q', sendNext w t n q = (.ok q', [])
  | 0, q, _, _ => ⟨q, rfl⟩
  | n + 1, q, hn, h => by
    cases hq : q.inner with
    | nil => simp [hq] at hn
    | cons ev rest =>
      rw [hq] at hn h
      obtain ⟨e, he⟩ := h ev (by simp)
      obtain ⟨q', hq'⟩ := sendNext_nothing (w := w) (t := t) (n := n) (q := { q with inner := rest }) (by simpa using hn)
        (fun ev' h' => h ev' (by simp [h']))
      refine ⟨q', ?_⟩
      simp only [sendNext, DropOldestQueue.pop, hq, List.head?_cons, List.tail_cons, he]
      exact hq'

/-- Where something does, the head sends it or ends the loop. -/
theorem sendNext_something {w : Codec} {t : Turn} : ∀ {n : Nat} {q : DropOldestQueue}, n = q.inner.length →
    (∃ ev ∈ q.inner, ∃ json, w.encode ev = .ok json) →
      (∃ q' json, t.sendEvent = .ok () ∧ sendNext w t n q =
        (.ok q', [.frame (.text json), .count "chronicle_ws_events_sent_total" 1])) ∨
      ∃ e, t.sendEvent = .error e ∧ sendNext w t n q = (.error (.sendFailed e), [])
  | 0, q, hn, ⟨ev, hev, _⟩ => by
    rw [List.eq_nil_of_length_eq_zero hn.symm] at hev
    simp at hev
  | n + 1, q, hn, ⟨ev, hev, json, hjson⟩ => by
    cases hq : q.inner with
    | nil => simp [hq] at hn
    | cons first rest =>
      rw [hq] at hn hev
      simp only [sendNext, DropOldestQueue.pop, hq, List.head?_cons, List.tail_cons]
      cases hfirst : w.encode first with
      | error e =>
        rcases List.mem_cons.1 hev with rfl | hev
        · rw [hjson] at hfirst
          cases hfirst
        · exact sendNext_something (w := w) (t := t) (n := n) (q := { q with inner := rest }) (by simpa using hn)
            ⟨ev, hev, json, hjson⟩
      | ok json' =>
        cases hsend : t.sendEvent with
        | error e => exact .inr ⟨e, rfl, rfl⟩
        | ok u => exact .inl ⟨_, json', rfl, rfl⟩

theorem send_allowed {w : Codec} {s : Clocked} {t : Turn} {r : Except Closed DropOldestQueue} {out : List Out}
    (h : sendNext w t s.conn.q.inner.length s.conn.q = (r, out)) {e : Option Closed}
    (he : e = match r with | .error e => some e | .ok _ => none) :
    Allowed (.send s.now out e) ↔ ∀ ev ∈ s.conn.q.inner, ∃ e, w.encode ev = .error e := by
  constructor
  · rintro ⟨hframe, hended⟩
    by_contra hno
    push Not at hno
    obtain ⟨ev, hev, henc⟩ := hno
    have hjson : ∃ json, w.encode ev = .ok json := by
      cases hj : w.encode ev with
      | error e => exact absurd hj (henc e)
      | ok json => exact ⟨json, rfl⟩
    rcases sendNext_something rfl ⟨ev, hev, hjson⟩ with ⟨q', json, -, hs⟩ | ⟨e', -, hs⟩
    · rw [hs] at h
      cases h
      exact hframe (.text json) (by simp)
    · rw [hs] at h
      cases h
      rw [he] at hended
      simp at hended
  · intro hno
    obtain ⟨q', hs⟩ := sendNext_nothing (w := w) (t := t) rfl hno
    rw [hs] at h
    cases h
    exact ⟨by simp, he⟩

/-- The head fails exactly where the sends do. -/
theorem sends_iff {w : Codec} {s : Clocked} {m : Meets} (input : Input) :
    (∃ q out, sendNext w (m.turn input) s.conn.q.inner.length s.conn.q = (.ok q, out)) ↔ Sends w s m := by
  by_cases hno : ∀ ev ∈ s.conn.q.inner, ∃ e, w.encode ev = .error e
  · obtain ⟨q', hs⟩ := sendNext_nothing (w := w) (t := m.turn input) rfl hno
    exact ⟨fun _ => .inr hno, fun _ => ⟨q', [], hs⟩⟩
  · have hsome : ∃ ev ∈ s.conn.q.inner, ∃ json, w.encode ev = .ok json := by
      push Not at hno
      obtain ⟨ev, hev, henc⟩ := hno
      cases hj : w.encode ev with
      | error e => exact absurd hj (henc e)
      | ok json => exact ⟨ev, hev, json, hj⟩
    rcases sendNext_something (w := w) (t := m.turn input) rfl hsome with ⟨q', json, hok, hs⟩ | ⟨e, herr, hs⟩
    · exact ⟨fun _ => .inl hok, fun _ => ⟨q', _, hs⟩⟩
    · constructor
      · rintro ⟨q, out, h⟩
        rw [hs] at h
        cases h
      · rintro (h | h)
        · have herr' : m.sendEvent = .error e := herr
          rw [h] at herr'
          cases herr'
        · exact absurd h hno

/-! ## The branches -/

theorem onBus_not_timeout {now : Instant} {c : Conn} {r : Except RecvError Event} :
    (onBus now c r).1 ≠ .error .healthcheckTimeout := by
  unfold onBus
  split
  · split
    · simp
    · simp only
      split
      · unfold overflow
        simp only
        split <;> split <;> simp
      · simp
  · simp
  · simp

/-- A message of the socket writes no ping and sets no deadline. -/
theorem onSocket_allowed (w : Codec) (t : Turn) (c : Conn) (msg : Option (Except String Message)) :
    .frame (.ping []) ∉ (onSocket w t c msg).2 ∧ ∀ c', (onSocket w t c msg).1 = .ok c' →
      c'.pongDeadline = c.pongDeadline ∨ c'.pongDeadline = none := by
  have htry : ∀ m, m ≠ .ping [] → Out.frame (.ping []) ∉ trySend t m := by
    intro m hm
    unfold trySend
    split
    · simpa using hm.symm
    · simp
  match msg with
  | none => simp [onSocket]
  | some (.error e) => simp [onSocket]
  | some (.ok (.text text)) =>
    have hpong : (onText w t c text).1.pongDeadline = c.pongDeadline := by
      unfold onText
      split <;> rfl
    have hout : Out.frame (.ping []) ∉ (onText w t c text).2 := by
      unfold onText
      split <;> exact htry _ (by simp)
    refine ⟨hout, fun c' h => .inl ?_⟩
    simp only [onSocket, Except.ok.injEq] at h
    rw [← h]
    exact hpong
  | some (.ok (.pong p)) =>
    refine ⟨by simp [onSocket], fun c' h => .inr ?_⟩
    simp only [onSocket, Except.ok.injEq] at h
    rw [← h]
  | some (.ok (.ping p)) =>
    refine ⟨htry _ (by simp), fun c' h => .inl ?_⟩
    simp only [onSocket, Except.ok.injEq] at h
    rw [h]
  | some (.ok .close) => simp [onSocket]
  | some (.ok (.binary b)) =>
    refine ⟨htry _ (by simp), fun c' h => ?_⟩
    simp [onSocket] at h

/-- What the `select!` takes is allowed exactly where it is clear. -/
theorem take_allowed {w : Codec} {s : Clocked} {m : Meets} {input : Input} {q : DropOldestQueue}
    (h : s.ready m = some input) : Allowed (.take m.polled input { s.conn with q := q }
      (select w (m.turn input) { s.conn with q := q }).1 (select w (m.turn input) { s.conn with q := q }).2) ↔
      s.bus ++ m.busIn = [] ∧ (s.socket ++ m.socketIn ≠ [] ∨ m.polled < s.nextTick) := by
  unfold ready at h
  split at h
  · next recv rest _ hbus =>
    obtain rfl := Option.some.inj h
    rw [hbus]
    constructor
    · rintro ⟨-, -, hnext⟩
      rcases hnext with ⟨msg, hmsg⟩ | hnext
      · cases hmsg
      · exact absurd hnext onBus_not_timeout
    · rintro ⟨hnil, -⟩
      cases hnil
  · next msg rest hbus hsocket =>
    obtain rfl := Option.some.inj h
    rw [hbus, hsocket]
    obtain ⟨hping, hpong⟩ := onSocket_allowed w (m.turn (.socket msg)) { s.conn with q := q } msg
    exact ⟨fun _ => ⟨rfl, .inl (by simp)⟩, fun _ => ⟨hping, hpong, .inl ⟨msg, rfl⟩⟩⟩
  · next hbus hsocket =>
    rw [hbus, hsocket]
    split at h
    · next htick =>
      obtain rfl := Option.some.inj h
      constructor
      · rintro ⟨hping, -, hnext⟩
        rcases hnext with ⟨msg, hmsg⟩ | hnext
        · cases hmsg
        · simp only [select, Meets.turn] at hnext hping
          cases hs : m.sendReply <;> simp [hs] at hnext
      · rintro ⟨-, hno | hlt⟩
        · exact absurd rfl hno
        · exact absurd htick (Nat.not_le.2 hlt)
    · next htick =>
      split at h
      · next hdeadline =>
        obtain rfl := Option.some.inj h
        have hselect : select w (m.turn .deadline) { s.conn with q := q } = (.error .healthcheckTimeout, []) := if_pos hdeadline
        rw [hselect]
        exact ⟨fun _ => ⟨rfl, .inr (Nat.not_le.1 htick)⟩, fun _ => ⟨by simp, by simp, .inr rfl⟩⟩
      · cases h

/-! ## A turn, and a run -/

/-- The step: a turn does only what is allowed exactly where it is clear. -/
theorem step_obeys {w : Codec} {schedule : Instant → Instant → Instant} {d : Option Instant} {s : Clocked} {m : Meets}
    {as : List Act} {s' : Option Clocked} (h : s.step w schedule m = some (as, s')) : Obeys d as ↔ Clear w d s m := by
  unfold step at h
  split at h
  · cases h
  next hpolled =>
  split at h
  · next e out hs =>
    obtain ⟨rfl, -⟩ := Prod.mk.inj (Option.some.inj h)
    have hfails : ¬Sends w s m := by
      intro hsends
      obtain ⟨q, out', hs'⟩ := (sends_iff ((s.ready m).getD .deadline)).2 hsends
      rw [hs] at hs'
      cases hs'
    simp only [Obeys, and_true, send_allowed hs (e := some e) rfl]
    exact forall₂_congr fun t _ => ⟨fun h => ⟨h, fun _ hsends => absurd hsends hfails⟩, fun h => h.1⟩
  · next q out hs =>
    have hsends : Sends w s m := (sends_iff _).1 ⟨q, out, hs⟩
    split at h
    · cases h
    next input hready =>
    obtain ⟨rfl, -⟩ := Prod.mk.inj (Option.some.inj h)
    have hsend := send_allowed hs (e := none) rfl
    have htake := take_allowed (w := w) (q := q) hready
    constructor
    · rintro ⟨hhead, hbranch, -⟩ t ht
      exact ⟨fun hle => hsend.1 (hhead t ht hle), fun hle _ => htake.1 (hbranch t ht hle)⟩
    · intro hclear
      exact ⟨fun t ht hle => hsend.2 ((hclear t ht).1 hle), fun t ht hle => htake.2 ((hclear t ht).2 hle hsends), trivial⟩

theorem acts_obey {w : Codec} {schedule : Instant → Instant → Instant} : ∀ (ms : List Meets) (d : Option Instant)
    (s : Clocked), Obeys d (s.acts w schedule ms) ↔ Undisturbed w schedule d s ms
  | [], d, s => by simp [acts, Obeys, Undisturbed]
  | m :: ms, d, s => by
    unfold acts Undisturbed
    cases hstep : s.step w schedule m with
    | none => simp [Obeys]
    | some r =>
      obtain ⟨as, s'⟩ := r
      have hobeys := step_obeys (d := d) hstep
      cases s' with
      | none =>
        constructor
        · rintro h as' s' heq
          obtain ⟨rfl, rfl⟩ := Prod.mk.inj (Option.some.inj heq)
          exact ⟨hobeys.1 h, by simp⟩
        · intro h
          exact hobeys.2 (h as none rfl).1
      | some s₁ =>
        simp only [obeys_append]
        constructor
        · rintro ⟨h, hrest⟩ as' s' heq
          obtain ⟨rfl, rfl⟩ := Prod.mk.inj (Option.some.inj heq)
          refine ⟨hobeys.1 h, fun s₂ hs₂ => ?_⟩
          obtain rfl := Option.some.inj hs₂
          exact (acts_obey ms _ _).1 hrest
        · intro h
          obtain ⟨hclear, hrest⟩ := h as (some s₁) rfl
          exact ⟨hobeys.2 hclear, (acts_obey ms _ _).2 (hrest s₁ rfl)⟩

/-- In every run of the loop, whatever comes in, however long its sends take
and however the timer schedules its ticks: after a missed pong nothing goes out
and the connection ends as timed out, if and only if every turn is clear. -/
theorem missed_pong_ends_iff (w : Codec) (schedule : Instant → Instant → Instant) (wsQueueDepth : Nat) (start : Instant)
    (ms : List Meets) : Obeys none ((Clocked.new wsQueueDepth start).acts w schedule ms) ↔
      Undisturbed w schedule none (.new wsQueueDepth start) ms := acts_obey ms none _

/-- The timer of the loop: a tick taken late is followed by the next one due. -/
def skipMissed (due taken : Instant) : Instant :=
  if taken ≤ due + 5000000 then due + PING_PERIOD else taken + PING_PERIOD - (taken - due) % PING_PERIOD

def sampleEvent : Event := .audioDeleted 0 { sessionId := 1, guildId := 7, pseudoId := ⟨"mixed"⟩ }

def polledAt (seconds : Nat) (bus : List (Except RecvError Event)) (socket : List (Option (Except String Message))) : Meets :=
  { sendEvent := .ok (), polled := fromSecs seconds, busIn := bus, socketIn := socket, sendReply := true, took := 0 }

/-- A ping at once, a subscription, an event after nine seconds. Sending it
takes two seconds, and there is another by then. -/
def busyBus : List Meets :=
  [polledAt 0 [] [], polledAt 1 [] [some (.ok (.text subscribeText))], polledAt 9 [.ok sampleEvent] [],
    polledAt 11 [.ok sampleEvent] []]

/-- An event of the bus is taken, and the loop goes on. -/
def carriesOn : Act → Bool
  | .take _ (.bus _) _ (.ok _) _ => true
  | _ => false

theorem carriesOn_not_allowed {a : Act} (h : carriesOn a = true) : ¬Allowed a := by
  unfold carriesOn at h
  split at h
  · rintro ⟨-, -, hnext⟩
    simp at hnext
  · simp at h

theorem busy_bus_outlives_deadline : ¬Obeys none ((Clocked.new 64 0).acts sampleCodec skipMissed busyBus) := by
  intro h
  rw [← List.take_append_drop 7 ((Clocked.new 64 0).acts sampleCodec skipMissed busyBus), obeys_append] at h
  have hawait : (((Clocked.new 64 0).acts sampleCodec skipMissed busyBus).take 7).foldl await none = some (fromSecs 10) := by
    decide +kernel
  have hdrop : (((Clocked.new 64 0).acts sampleCodec skipMissed busyBus).drop 7).map (fun a => (a.time, carriesOn a)) =
      [(fromSecs 11, true)] := by decide +kernel
  obtain ⟨a, hlast, ha⟩ := List.map_eq_singleton_iff.1 hdrop
  rw [hawait, hlast] at h
  obtain ⟨htime, hcarries⟩ := Prod.mk.inj ha
  have hpassed : fromSecs 10 ≤ a.time := by
    rw [htime]
    decide
  exact carriesOn_not_allowed hcarries (h.2.1 _ rfl hpassed)

end DataApi.Ws.Heartbeat
