/-
What a subscriber gets. A matched event waits for the next turn, whose head
sends it before anything else is taken, so the queue is empty whenever an
event comes in (`turn_spec`): delivery is exact and in order, the queue never
overflows, and the burst disconnect, which counts overflows only, never acts.
-/
import DataApi.Ws

namespace DataApi.Ws

/-! ## The queue between turns -/

/-- What the loop keeps: one event at most is waiting, none was dropped. -/
structure Slack (c : Conn) : Prop where
  waiting : c.q.inner.length ≤ 1
  dropped : c.q.dropped = 0
  drops : c.dropsInWindow = 0

theorem Slack.new (depth : Nat) (now : Instant) : Slack (Conn.new depth now) where
  waiting := by simp [Conn.new, DropOldestQueue.new]
  dropped := rfl
  drops := rfl

/-- The head of the loop leaves the queue empty. -/
theorem sendNext_empties {w : Codec} {t : Turn} {q q' : DropOldestQueue} {out : List Out} (h : q.inner.length ≤ 1)
    (hs : sendNext w t q.inner.length q = (.ok q', out)) : q'.inner = [] ∧ q'.dropped = q.dropped := by
  match hq : q.inner, h with
  | [], _ =>
    rw [hq] at hs
    simp only [List.length_nil, sendNext, Prod.mk.injEq, Except.ok.injEq] at hs
    rw [← hs.1]
    exact ⟨hq, rfl⟩
  | [ev], _ =>
    rw [hq] at hs
    simp only [List.length_singleton, sendNext, DropOldestQueue.pop, hq, List.head?_cons, List.tail_cons] at hs
    split at hs
    · simp only [Prod.mk.injEq, Except.ok.injEq] at hs
      rw [← hs.1]
      exact ⟨rfl, rfl⟩
    · split at hs
      · simp at hs
      · simp only [Prod.mk.injEq, Except.ok.injEq] at hs
        rw [← hs.1]
        exact ⟨rfl, rfl⟩

/-- An empty queue takes an event without dropping one. -/
theorem push_empty {q : DropOldestQueue} (h : q.inner = []) (e : Event) :
    q.push e = (false, { q with inner := [e] }) := by
  have hc := q.cap_pos
  simp only [DropOldestQueue.push, h, List.length_nil, List.nil_append]
  rw [if_neg (by omega)]

theorem onBus_spec {now : Instant} {c c' : Conn} {r : Except RecvError Event} {out : List Out} (hq : c.q.inner = [])
    (hc : Slack c) (h : onBus now c r = (.ok c', out)) : Slack c' := by
  cases r with
  | error e =>
    cases e with
    | lagged n =>
      simp only [onBus, Prod.mk.injEq, Except.ok.injEq] at h
      rw [← h.1]; exact hc
    | closed => simp [onBus] at h
  | ok ev =>
    simp only [onBus, push_empty hq, Bool.false_eq_true, if_false] at h
    split at h
    · simp only [Prod.mk.injEq, Except.ok.injEq] at h
      rw [← h.1]; exact hc
    · simp only [Prod.mk.injEq, Except.ok.injEq] at h
      rw [← h.1]
      exact ⟨by simp, hc.dropped, hc.drops⟩

theorem onBus_closed {now : Instant} {c : Conn} {r : Except RecvError Event} {e : Closed} {out : List Out}
    (hq : c.q.inner = []) (h : onBus now c r = (.error e, out)) : e = .peerClosed := by
  cases r with
  | error err =>
    cases err with
    | lagged n => simp [onBus] at h
    | closed =>
      simp only [onBus, Prod.mk.injEq, Except.error.injEq] at h
      exact h.1.symm
  | ok ev =>
    simp only [onBus, push_empty hq, Bool.false_eq_true, if_false] at h
    split at h <;> simp at h

theorem onText_q (w : Codec) (t : Turn) (c : Conn) (text : String) :
    (onText w t c text).1.q = c.q ∧ (onText w t c text).1.dropsInWindow = c.dropsInWindow := by
  unfold onText
  split <;> exact ⟨rfl, rfl⟩

theorem onSocket_spec {w : Codec} {t : Turn} {c c' : Conn} {msg : Option (Except String Message)} {out : List Out}
    (hc : Slack c) (h : onSocket w t c msg = (.ok c', out)) : Slack c' := by
  match msg with
  | none => simp [onSocket] at h
  | some (.error e) => simp [onSocket] at h
  | some (.ok (.text s)) =>
    simp only [onSocket, Prod.mk.injEq, Except.ok.injEq] at h
    obtain ⟨hq, hd⟩ := onText_q w t c s
    rw [← h.1]
    exact ⟨by rw [hq]; exact hc.waiting, by rw [hq]; exact hc.dropped, by rw [hd]; exact hc.drops⟩
  | some (.ok (.pong p)) =>
    simp only [onSocket, Prod.mk.injEq, Except.ok.injEq] at h
    rw [← h.1]; exact ⟨hc.waiting, hc.dropped, hc.drops⟩
  | some (.ok (.ping p)) =>
    simp only [onSocket, Prod.mk.injEq, Except.ok.injEq] at h
    rw [← h.1]; exact hc
  | some (.ok .close) => simp [onSocket] at h
  | some (.ok (.binary b)) => simp [onSocket] at h

theorem onSocket_closed {w : Codec} {t : Turn} {c : Conn} {msg : Option (Except String Message)} {e : Closed}
    {out : List Out} (h : onSocket w t c msg = (.error e, out)) : e ≠ .dropBurst := by
  rintro rfl
  match msg with
  | none => simp [onSocket] at h
  | some (.error e) => simp [onSocket] at h
  | some (.ok (.text s)) => simp [onSocket] at h
  | some (.ok (.pong p)) => simp [onSocket] at h
  | some (.ok (.ping p)) => simp [onSocket] at h
  | some (.ok .close) => simp [onSocket] at h
  | some (.ok (.binary b)) => simp [onSocket] at h

theorem select_spec {w : Codec} {t : Turn} {c c' : Conn} {out : List Out} (hq : c.q.inner = []) (hc : Slack c)
    (h : select w t c = (.ok c', out)) : Slack c' := by
  unfold select at h
  split at h
  · exact onBus_spec hq hc h
  · exact onSocket_spec hc h
  · split at h
    · simp only [Prod.mk.injEq, Except.ok.injEq] at h
      rw [← h.1]; exact ⟨hc.waiting, hc.dropped, hc.drops⟩
    · simp at h
  · split at h
    · simp at h
    · simp only [Prod.mk.injEq, Except.ok.injEq] at h
      rw [← h.1]; exact hc

theorem select_closed {w : Codec} {t : Turn} {c : Conn} {e : Closed} {out : List Out} (hq : c.q.inner = [])
    (h : select w t c = (.error e, out)) : e ≠ .dropBurst := by
  unfold select at h
  split at h
  · rw [onBus_closed hq h]; decide
  · exact onSocket_closed h
  · split at h
    · simp at h
    · simp only [Prod.mk.injEq, Except.error.injEq] at h
      rw [← h.1]; decide
  · split at h
    · simp only [Prod.mk.injEq, Except.error.injEq] at h
      rw [← h.1]; decide
    · simp at h

theorem sendNext_closed {w : Codec} {t : Turn} {e : Closed} {out : List Out} {n : Nat} : ∀ {q : DropOldestQueue},
    sendNext w t n q = (.error e, out) → e ≠ .dropBurst := by
  induction n with
  | zero => intro q h; simp [sendNext] at h
  | succ n ih =>
    intro q h
    simp only [sendNext] at h
    split at h
    · simp at h
    · split at h
      · exact ih h
      · split at h
        · simp only [Prod.mk.injEq, Except.error.injEq] at h
          rw [← h.1]
          intro hne
          cases hne
        · simp at h

/-! ## What is lost -/

/-- The events lost to the connection in a turn whose `select!` takes its
input: those the bus dropped, or one an overflow dropped. -/
def loss (t : Turn) (c : Conn) : Nat :=
  match t.input with
  | .bus (.error (.lagged n)) => n
  | .bus (.ok ev) => if c.subs.matches ev && (c.q.push ev).1 then 1 else 0
  | _ => 0

/-- The losses of a run, each with its time. -/
def losses (w : Codec) : List Turn → Conn → List (Instant × Nat)
  | [], _ => []
  | t :: ts, c =>
    match sendNext w t c.q.inner.length c.q with
    | (.error _, _) => []
    | (.ok q, _) => (t.now, loss t { c with q := q }) :: match select w t { c with q := q } with
      | (.error _, _) => []
      | (.ok c, _) => losses w ts c

/-- What the bus reported as lagged, in the turns the loop took. -/
def lagged (w : Codec) : List Turn → Conn → List (Instant × Nat)
  | [], _ => []
  | t :: ts, c =>
    match sendNext w t c.q.inner.length c.q with
    | (.error _, _) => []
    | (.ok q, _) => (t.now, match t.input with | .bus (.error (.lagged n)) => n | _ => 0) ::
      match select w t { c with q := q } with
      | (.error _, _) => []
      | (.ok c, _) => lagged w ts c

/-- Within some 60 seconds more than 10 events. -/
def Burst (ls : List (Instant × Nat)) : Prop :=
  ∃ start, 10 < ((ls.filter fun l => start ≤ l.1 ∧ l.1 ≤ start + fromSecs 60).map (·.2)).sum

/-- Nothing is lost but what the bus reports as lagged, and the loop never
ends as a burst. -/
theorem run_spec (w : Codec) : ∀ (ts : List Turn) (c : Conn), Slack c →
    losses w ts c = lagged w ts c ∧ (runInner w ts c).1 ≠ .error .dropBurst ∧
      ∀ c', (runInner w ts c).1 = .ok c' → Slack c'
  | [], c, hc => ⟨rfl, by simp [runInner], fun c' h => by
      simp only [runInner, Except.ok.injEq] at h
      rw [← h]; exact hc⟩
  | t :: ts, c, hc => by
    simp only [losses, lagged, runInner, turn]
    cases hs : sendNext w t c.q.inner.length c.q with
    | mk r out =>
      cases r with
      | error e =>
        refine ⟨rfl, fun h => ?_, fun c' h => by cases h⟩
        exact sendNext_closed hs (Except.error.inj h)
      | ok q =>
        obtain ⟨hq, hd⟩ := sendNext_empties hc.waiting hs
        have hslack : Slack { c with q := q } := ⟨by simp [hq], hd.trans hc.dropped, hc.drops⟩
        have hloss : loss t { c with q := q } = match t.input with | .bus (.error (.lagged n)) => n | _ => 0 := by
          unfold loss
          split
          · next h => rw [h]
          · next h => simp [push_empty hq, h]
          · next h₁ h₂ =>
            split
            · next h => exact absurd h (h₁ _)
            · rfl
        cases hsel : select w t { c with q := q } with
        | mk r out' =>
          cases r with
          | error e =>
            simp only [hsel, hloss]
            refine ⟨trivial, fun h => ?_, fun c' h => by cases h⟩
            exact select_closed hq hsel (Except.error.inj h)
          | ok c' =>
            obtain ⟨hl, hne, hk⟩ := run_spec w ts c' (select_spec hq hslack hsel)
            simp only [hsel, hloss, hl]
            exact ⟨trivial, hne, hk⟩

/-- The property: a burst of losses ends the connection as one. -/
def Disconnects (w : Codec) (ts : List Turn) (c : Conn) : Prop :=
  Burst (losses w ts c) → (runInner w ts c).1 = .error .dropBurst

/-- In every run of the loop, whatever it takes and however its sends end: a
burst of losses ends the connection as one if and only if there is none,
which is when no 60 seconds have the bus report more than 10 events as
lagged. -/
theorem burst_disconnects_iff (w : Codec) (wsQueueDepth : Nat) (start : Instant) (ts : List Turn) :
    Disconnects w ts (Conn.new wsQueueDepth start) ↔ ¬Burst (lagged w ts (Conn.new wsQueueDepth start)) := by
  obtain ⟨hl, hne, -⟩ := run_spec w ts _ (Slack.new wsQueueDepth start)
  rw [Disconnects, hl]
  exact ⟨fun h hb => hne (h hb), fun h hb => absurd hb h⟩

def quoted (s : String) : String := "\"" ++ s ++ "\""

def objectText (fields : List (String × String)) : String :=
  "\x7b" ++ ",".intercalate (fields.map fun f => quoted f.1 ++ ":" ++ f.2) ++ "\x7d"

/-- An instant of the samples: they end within a millisecond of the epoch. -/
def instantText (t : Timestamp) : String :=
  if t = 0 then quoted "1970-01-01T00:00:00Z"
  else quoted ("1970-01-01T00:00:00." ++ String.ofList ((toString t).toList.leftpad 6 '0') ++ "Z")

def dataFields : Event → List (String × String)
  | .sessionStateChanged _ data => [("old", quoted data.old.asStr), ("new", quoted data.new.asStr)]
  | .chunkUploaded _ data =>
    [("pseudo_id", quoted data.pseudoId.raw), ("seq", toString data.seq), ("size_bytes", toString data.sizeBytes)]
  | .segmentCreated _ data | .segmentUpdated _ data | .segmentDeleted _ data
  | .beatCreated _ data | .beatUpdated _ data | .beatDeleted _ data
  | .sceneCreated _ data | .sceneUpdated _ data | .sceneDeleted _ data => [("id", quoted data.id.text)]
  | .muteRangeCreated _ data | .muteRangeDeleted _ data =>
    [("pseudo_id", quoted data.pseudoId.raw), ("range_id", quoted data.rangeId.text)]
  | .audioDeleted _ data => [("pseudo_id", quoted data.pseudoId.raw)]

def atTs : Event → Timestamp
  | .sessionStateChanged t _ | .chunkUploaded t _ | .segmentCreated t _ | .segmentUpdated t _ | .segmentDeleted t _
  | .beatCreated t _ | .beatUpdated t _ | .beatDeleted t _ | .sceneCreated t _ | .sceneUpdated t _ | .sceneDeleted t _
  | .muteRangeCreated t _ | .muteRangeDeleted t _ | .audioDeleted t _ => t

def envelopeText (ev : Event) : String :=
  objectText [("type", quoted ev.name), ("at_ts", instantText (atTs ev)),
    ("data", objectText (("session_id", quoted ev.sessionId.text) :: ("guild_id", toString ev.guildId) :: dataFields ev))]

def subscribeText : String := objectText [("type", quoted "subscribe"), ("events", "[" ++ quoted "audio_deleted" ++ "]")]

def anyDeletion : Subscription := { event := "audio_deleted", filter := {} }

def anyDeletionText : String :=
  objectText [("event", quoted "audio_deleted"),
    ("filter", objectText [("guild_id", "null"), ("session_id", "null")])]

/-- The active filters, where they are none or this one. -/
def activeText (subs : Finset Subscription) : String :=
  if subs = {anyDeletion} then "[" ++ anyDeletionText ++ "]" else "[]"

/-- The JSON of the samples' frames. -/
def sampleCodec : Codec where
  decode text :=
    if text = subscribeText then .ok (.subscribe ["audio_deleted"] {}) else .error "expected value at line 1 column 1"
  encode ev := .ok (envelopeText ev)
  encodeReply
    | .subscribed subs => .ok (objectText [("type", quoted "subscribed"), ("active_filters", activeText subs)])
    | .unsubscribed subs => .ok (objectText [("type", quoted "unsubscribed"), ("active_filters", activeText subs)])
    | .error message => .ok (objectText [("type", quoted "error"), ("message", quoted message)])

/-- Eleven events lost at once. -/
def laggedTurn : Turn := { now := 0, input := .bus (.error (.lagged 11)), sendEvent := .ok (), sendReply := true }

theorem lagged_burst_carries_on : ¬Disconnects sampleCodec [laggedTurn] (Conn.new 64 0) := by
  intro h
  have hend := h ⟨0, by decide⟩
  simp [runInner, turn, select, onBus, laggedTurn, Conn.new, sendNext, DropOldestQueue.new] at hend

/-! ## What is delivered -/

def textOf : Out → Option String
  | .frame (.text s) => some s
  | _ => none

/-- The text frames written. -/
def texts (out : List Out) : List String := out.filterMap textOf

def eventText (w : Codec) (ev : Event) : String := (w.encode ev).toOption.getD ""

/-- The events, text frames, pongs, pings and ticks a loop takes whose sends
succeed. -/
structure Plain (t : Turn) : Prop where
  sendEvent : t.sendEvent = .ok ()
  sendReply : t.sendReply = true
  input : (∃ ev, t.input = .bus (.ok ev)) ∨ (∃ s, t.input = .socket (some (.ok (.text s)))) ∨
    (∃ p, t.input = .socket (some (.ok (.pong p)))) ∨ (∃ p, t.input = .socket (some (.ok (.ping p)))) ∨ t.input = .tick

/-- One input, mapped: the subscriptions after it and the text it calls for. -/
def respond (w : Codec) (subs : SubscriptionSet) : Input → SubscriptionSet × Option String
  | .bus (.ok ev) => (subs, if subs.matches ev then some (eventText w ev) else none)
  | .socket (some (.ok (.text s))) =>
    match w.decode s with
    | .ok (.subscribe events filter) =>
      (subs.subscribe events filter, some (replyText w (.subscribed (subs.subscribe events filter).active)))
    | .ok (.unsubscribe events) =>
      (subs.unsubscribe events, some (replyText w (.unsubscribed (subs.unsubscribe events).active)))
    | .ok .ping => (subs, none)
    | .error e => (subs, some (replyText w (.error s!"invalid frame: {e}")))
  | _ => (subs, none)

/-- The inputs, mapped in order. -/
def expected (w : Codec) : SubscriptionSet → List Turn → List String
  | _, [] => []
  | subs, t :: ts => (respond w subs t.input).2.toList ++ expected w (respond w subs t.input).1 ts

/-- The texts of the events that wait. -/
def pending (w : Codec) (c : Conn) : List String := c.q.inner.map (eventText w)

/-- The head of the loop writes what waits. -/
theorem sendNext_writes {w : Codec} {t : Turn} {c : Conn} (hw : ∀ ev, ∃ s, w.encode ev = .ok s)
    (ht : t.sendEvent = .ok ()) (hc : Slack c) :
    ∃ q out, sendNext w t c.q.inner.length c.q = (.ok q, out) ∧ texts out = pending w c := by
  match hq : c.q.inner, hc.waiting with
  | [], _ => exact ⟨c.q, [], rfl, by simp [texts, pending, hq]⟩
  | [ev], _ =>
    obtain ⟨json, hj⟩ := hw ev
    have hev : eventText w ev = json := by simp [eventText, hj, Except.toOption]
    refine ⟨{ c.q with inner := [] }, [.frame (.text json), .count "chronicle_ws_events_sent_total" 1], ?_, ?_⟩
    · simp [sendNext, DropOldestQueue.pop, hq, hj, ht]
    · simp [texts, textOf, pending, hq, hev]

/-- A branch taken: the text it calls for is written, or waits. -/
theorem select_responds {w : Codec} {t : Turn} {c : Conn} (hp : Plain t) (hq : c.q.inner = []) :
    ∃ c' out, select w t c = (.ok c', out) ∧ texts out ++ pending w c' = (respond w c.subs t.input).2.toList ∧
      c'.subs = (respond w c.subs t.input).1 := by
  have hpend : pending w c = [] := by simp [pending, hq]
  rcases hp.input with ⟨ev, hi⟩ | ⟨s, hi⟩ | ⟨p, hi⟩ | ⟨p, hi⟩ | hi
  · by_cases hm : c.subs.matches ev = true
    · refine ⟨{ c with q := { c.q with inner := [ev] } }, [], ?_, ?_, ?_⟩
      · simp [select, hi, onBus, hm, push_empty hq]
      · simp [texts, pending, respond, hi, hm]
      · simp [respond, hi]
    · refine ⟨c, [], ?_, ?_, ?_⟩
      · simp [select, hi, onBus, hm]
      · simp [texts, hpend, respond, hi, hm]
      · simp [respond, hi]
  · refine ⟨(onText w t c s).1, (onText w t c s).2, by simp [select, hi, onSocket], ?_, ?_⟩
    · have hpend' : pending w (onText w t c s).1 = [] := by
        rw [pending, (onText_q w t c s).1, hq, List.map_nil]
      rw [hpend', List.append_nil, hi]
      unfold onText
      cases hd : w.decode s with
      | error e => simp [respond, hd, trySend, hp.sendReply, texts, textOf]
      | ok f => cases f <;> simp [respond, hd, trySend, hp.sendReply, texts, textOf]
    · rw [hi]
      unfold onText
      cases hd : w.decode s with
      | error e => simp [respond, hd]
      | ok f => cases f <;> simp [respond, hd]
  · refine ⟨{ c with pongDeadline := none }, [], by simp [select, hi, onSocket], ?_, by simp [respond, hi]⟩
    simp [texts, pending, hq, respond, hi]
  · refine ⟨c, [.frame (.pong p)], by simp [select, hi, onSocket, trySend, hp.sendReply], ?_, by simp [respond, hi]⟩
    simp [texts, textOf, hpend, respond, hi]
  · refine ⟨{ c with pongDeadline := some (t.now + PONG_GRACE) }, [.frame (.ping [])],
      by simp [select, hi, hp.sendReply], ?_, by simp [respond, hi]⟩
    simp [texts, textOf, pending, hq, respond, hi]

theorem turn_delivers {w : Codec} {t : Turn} {c : Conn} (hw : ∀ ev, ∃ s, w.encode ev = .ok s) (hp : Plain t)
    (hc : Slack c) : ∃ c' out, turn w t c = (.ok c', out) ∧ Slack c' ∧
      texts out ++ pending w c' = pending w c ++ (respond w c.subs t.input).2.toList ∧
      c'.subs = (respond w c.subs t.input).1 := by
  obtain ⟨q, out, hs, hout⟩ := sendNext_writes hw hp.sendEvent hc
  obtain ⟨hq, hd⟩ := sendNext_empties hc.waiting hs
  have hslack : Slack { c with q := q } := ⟨by simp [hq], hd.trans hc.dropped, hc.drops⟩
  obtain ⟨c', out', hsel, htext, hsubs⟩ := select_responds (w := w) (c := { c with q := q }) hp hq
  refine ⟨c', out ++ out', by simp [turn, hs, hsel], select_spec hq hslack hsel, ?_, hsubs⟩
  have happ : texts (out ++ out') = texts out ++ texts out' := List.filterMap_append
  rw [happ, List.append_assoc, htext, hout]

theorem run_delivers {w : Codec} (hw : ∀ ev, ∃ s, w.encode ev = .ok s) : ∀ (ts : List Turn) (c : Conn),
    (∀ t ∈ ts, Plain t) → Slack c → ∃ c' out, runInner w ts c = (.ok c', out) ∧ Slack c' ∧
      texts out ++ pending w c' = pending w c ++ expected w c.subs ts
  | [], c, _, hc => ⟨c, [], rfl, hc, by simp [texts, expected]⟩
  | t :: ts, c, hp, hc => by
    obtain ⟨c₁, out₁, hturn, hslack, htext, hsubs⟩ := turn_delivers hw (hp t (by simp)) hc
    obtain ⟨c₂, out₂, hrun, hslack₂, htext₂⟩ := run_delivers hw ts c₁ (fun t ht => hp t (by simp [ht])) hslack
    refine ⟨c₂, out₁ ++ out₂, by simp [runInner, hturn, hrun], hslack₂, ?_⟩
    have happ : texts (out₁ ++ out₂) = texts out₁ ++ texts out₂ := List.filterMap_append
    calc texts (out₁ ++ out₂) ++ pending w c₂
        = texts out₁ ++ (texts out₂ ++ pending w c₂) := by rw [happ, List.append_assoc]
      _ = texts out₁ ++ pending w c₁ ++ expected w c₁.subs ts := by rw [htext₂, List.append_assoc]
      _ = pending w c ++ expected w c.subs (t :: ts) := by rw [htext, hsubs, expected, List.append_assoc]

/-- Whatever the depth of the queue and whatever plain inputs the loop takes:
it goes on, the text frames written and the one event that may still wait are
the inputs mapped in order, and no push drops an event. -/
theorem delivery_in_order (w : Codec) (encodes : ∀ ev, ∃ s, w.encode ev = .ok s) (wsQueueDepth : Nat) (start : Instant)
    (ts : List Turn) (plain : ∀ t ∈ ts, Plain t) :
    ∃ c out, runInner w ts (Conn.new wsQueueDepth start) = (.ok c, out) ∧
      texts out ++ pending w c = expected w .new ts ∧ c.q.inner.length ≤ 1 ∧ c.q.dropped = 0 ∧ c.dropsInWindow = 0 := by
  obtain ⟨c, out, hrun, hslack, htext⟩ := run_delivers encodes ts _ plain (Slack.new wsQueueDepth start)
  exact ⟨c, out, hrun, by simpa [pending, Conn.new, DropOldestQueue.new] using htext, hslack.waiting, hslack.dropped,
    hslack.drops⟩

def plainTurn (now : Instant) (input : Input) : Turn :=
  { now := now, input := input, sendEvent := .ok (), sendReply := true }

/-- An event that matches nothing yet, a subscription, and the event again. -/
def sampleTurns : List Turn :=
  let ev := Event.audioDeleted 0 { sessionId := 1, guildId := 7, pseudoId := ⟨"mixed"⟩ }
  [plainTurn 0 (.bus (.ok ev)), plainTurn 1 (.socket (some (.ok (.text subscribeText)))), plainTurn 2 (.bus (.ok ev)),
    plainTurn 3 .tick]

/-- The reply, and the event that came after the subscription. -/
def sampleTexts : List String :=
  ["\x7b\"type\":\"subscribed\",\"active_filters\":[\x7b\"event\":\"audio_deleted\",\"filter\":\x7b\"guild_id\":null,\"session_id\":null\x7d\x7d]\x7d",
    "\x7b\"type\":\"audio_deleted\",\"at_ts\":\"1970-01-01T00:00:00Z\",\"data\":\x7b\"session_id\":\"00000000-0000-0000-0000-000000000001\",\"guild_id\":7,\"pseudo_id\":\"mixed\"\x7d\x7d"]

theorem delivery_in_order_sample : ∃ c out, runInner sampleCodec sampleTurns (Conn.new 0 0) = (.ok c, out) ∧
    texts out ++ pending sampleCodec c = sampleTexts := by
  obtain ⟨c, out, hrun, htext, -⟩ := delivery_in_order sampleCodec (fun ev => ⟨envelopeText ev, rfl⟩) 0 0 sampleTurns (by
    intro t ht
    simp only [sampleTurns, List.mem_cons, List.not_mem_nil, or_false] at ht
    rcases ht with rfl | rfl | rfl | rfl
    · exact ⟨rfl, rfl, .inl ⟨_, rfl⟩⟩
    · exact ⟨rfl, rfl, .inr (.inl ⟨_, rfl⟩)⟩
    · exact ⟨rfl, rfl, .inl ⟨_, rfl⟩⟩
    · exact ⟨rfl, rfl, .inr (.inr (.inr (.inr rfl)))⟩)
  have hexp : expected sampleCodec .new sampleTurns = sampleTexts := by decide +kernel
  exact ⟨c, out, hrun, htext.trans hexp⟩

end DataApi.Ws
