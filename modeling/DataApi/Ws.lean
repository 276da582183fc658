/-
The event stream of one WebSocket subscriber (`src/routes/ws/`): the
subscriptions, the drop-oldest queue, and the loop of `run_inner`, one turn
at a time. What the `select!` of a turn takes is an input; how JSON reads and
writes is the serialization library's (`Codec`). Then the connections that
are open at once.
-/
import DataApi.Events
import DataApi.Metrics
import Mathlib.Algebra.GroupWithZero.Nat
import Mathlib.Data.Finset.Filter
import Mathlib.Data.Finset.Insert

namespace DataApi.Ws

/-! ## Subscriptions -/

structure Filter where
  guildId : Option Int := none
  sessionId : Option Uuid := none
  deriving DecidableEq

structure Subscription where
  event : String
  filter : Filter
  deriving DecidableEq

/-- A `HashSet`: no order, no repetition. -/
structure SubscriptionSet where
  subs : Finset Subscription
  deriving DecidableEq

namespace SubscriptionSet

def new : SubscriptionSet := ⟨∅⟩

def subscribe (set : SubscriptionSet) (eventNames : List String) (filter : Filter) : SubscriptionSet :=
  ⟨eventNames.foldl (fun subs name => insert { event := name, filter := filter } subs) set.subs⟩

def unsubscribe (set : SubscriptionSet) (eventNames : List String) : SubscriptionSet :=
  ⟨set.subs.filter fun s => s.event ∉ eventNames⟩

def active (set : SubscriptionSet) : Finset Subscription := set.subs

def accepts (event : Event) (s : Subscription) : Bool :=
  s.event = event.name &&
    match s.filter.guildId, s.filter.sessionId with
    | none, none => true
    | some g, none => g = event.guildId
    | none, some sid => sid = event.sessionId
    | some g, some sid => g = event.guildId && sid = event.sessionId

def «matches» (set : SubscriptionSet) (event : Event) : Bool := decide (∃ s ∈ set.subs, accepts event s)

end SubscriptionSet

/-! ## The queue -/

/-- `dropped` counts as a `u64` does, up to its maximum. -/
structure DropOldestQueue where
  cap : Nat
  inner : List Event
  dropped : Nat
  cap_pos : 0 < cap

namespace DropOldestQueue

def new (cap : Nat) : DropOldestQueue where
  cap := max cap 1
  inner := []
  dropped := 0
  cap_pos := by omega

/-- Whether a previous event was dropped. -/
def push (q : DropOldestQueue) (e : Event) : Bool × DropOldestQueue :=
  if q.cap ≤ q.inner.length then
    (true, { q with inner := q.inner.tail ++ [e], dropped := min (q.dropped + 1) (2 ^ 64 - 1) })
  else (false, { q with inner := q.inner ++ [e] })

def pop (q : DropOldestQueue) : Option Event × DropOldestQueue :=
  (q.inner.head?, { q with inner := q.inner.tail })

end DropOldestQueue

/-! ## Frames -/

/-- Client to server. -/
inductive ClientFrame
  | subscribe (events : List String) (filter : Filter)
  | unsubscribe (events : List String)
  | ping

/-- Server to client; events are serialized directly. -/
inductive ServerFrame
  | subscribed (activeFilters : Finset Subscription)
  | unsubscribed (activeFilters : Finset Subscription)
  | error (message : String)

structure Codec where
  decode : String → Except String ClientFrame
  encode : Event → Except String String
  encodeReply : ServerFrame → Except String String

inductive Message
  | text (s : String)
  | binary (bytes : Bytes)
  | ping (payload : Bytes)
  | pong (payload : Bytes)
  | close
  deriving DecidableEq

inductive Closed
  | peerClosed
  | peerError (reason : String)
  | sendFailed (reason : String)
  | invalidFrame (reason : String)
  | healthcheckTimeout
  | dropBurst
  deriving DecidableEq

inductive RecvError
  | lagged (n : Nat)
  | closed

/-! ## The loop -/

/-- Monotone time in nanoseconds. -/
abbrev Instant := Nat

def fromSecs (n : Nat) : Nat := n * 1000000000

/-- How long we wait for a pong before dropping. -/
def PONG_GRACE : Nat := fromSecs 10

/-- What a `select!` takes. -/
inductive Input
  | bus (recv : Except RecvError Event)
  | socket (msg : Option (Except String Message))
  | tick
  | deadline

/-- One turn of the loop: the time, the input, and how its sends end, that of
the queued event and that of the branch taken. -/
structure Turn where
  now : Instant
  input : Input
  sendEvent : Except String Unit
  sendReply : Bool

/-- What a turn does outside: frames written and counters raised. -/
inductive Out
  | frame (m : Message)
  | count (name : String) (n : Nat)
  deriving DecidableEq

structure Conn where
  subs : SubscriptionSet
  q : DropOldestQueue
  pongDeadline : Option Instant
  dropWindowStart : Instant
  dropsInWindow : Nat

def Conn.new (wsQueueDepth : Nat) (now : Instant) : Conn :=
  { subs := .new, q := .new wsQueueDepth, pongDeadline := none, dropWindowStart := now, dropsInWindow := 0 }

/-- `tx_sock.send(…)` where the answer is ignored. -/
def trySend (t : Turn) (m : Message) : List Out := if t.sendReply then [.frame m] else []

/-- `serde_json::to_string(&reply).unwrap_or_default()`. -/
def replyText (w : Codec) (reply : ServerFrame) : String := (w.encodeReply reply).toOption.getD ""

/-- The head of the loop: send the next queued event, if any. One that does
not serialize sends the loop back to its head, so there are as many rounds
as events wait. -/
def sendNext (w : Codec) (t : Turn) : Nat → DropOldestQueue → Except Closed DropOldestQueue × List Out
  | 0, q => (.ok q, [])
  | n + 1, q =>
    match q.pop with
    | (none, q) => (.ok q, [])
    | (some ev, q) =>
      match w.encode ev with
      | .error _ => sendNext w t n q
      | .ok json =>
        match t.sendEvent with
        | .error e => (.error (.sendFailed e), [])
        | .ok () => (.ok q, [.frame (.text json), .count "chronicle_ws_events_sent_total" 1])

/-- The bookkeeping of an overflow: 10 drops a minute end the connection. -/
def overflow (now : Instant) (c : Conn) : Except Closed Conn :=
  let drops := c.dropsInWindow + 1
  let c := if fromSecs 60 < now - c.dropWindowStart then { c with dropWindowStart := now, dropsInWindow := 1 }
    else { c with dropsInWindow := drops }
  if 10 < c.dropsInWindow then .error .dropBurst else .ok c

/-- Incoming broadcast event. -/
def onBus (now : Instant) (c : Conn) : Except RecvError Event → Except Closed Conn × List Out
  | .ok event =>
    if !c.subs.matches event then (.ok c, [])
    else
      let (overflowed, q) := c.q.push event
      if overflowed then (overflow now { c with q := q }, [.count "chronicle_ws_events_dropped_total" 1])
      else (.ok { c with q := q }, [])
  | .error (.lagged n) => (.ok c, [.count "chronicle_ws_events_dropped_total" n])
  | .error .closed => (.error .peerClosed, [])

/-- A text frame of the peer. -/
def onText (w : Codec) (t : Turn) (c : Conn) (text : String) : Conn × List Out :=
  match w.decode text with
  | .ok (.subscribe events filter) =>
    let subs := c.subs.subscribe events filter
    ({ c with subs := subs }, trySend t (.text (replyText w (.subscribed subs.active))))
  | .ok (.unsubscribe events) =>
    let subs := c.subs.unsubscribe events
    ({ c with subs := subs }, trySend t (.text (replyText w (.unsubscribed subs.active))))
  | .ok .ping => (c, trySend t (.pong []))
  | .error e => (c, trySend t (.text (replyText w (.error s!"invalid frame: {e}"))))

/-- Incoming socket message from the peer. -/
def onSocket (w : Codec) (t : Turn) (c : Conn) : Option (Except String Message) → Except Closed Conn × List Out
  | none => (.error .peerClosed, [])
  | some (.error e) => (.error (.peerError e), [])
  | some (.ok (.text text)) =>
    let (c, out) := onText w t c text
    (.ok c, out)
  | some (.ok (.pong _)) => (.ok { c with pongDeadline := none }, [])
  | some (.ok (.ping p)) => (.ok c, trySend t (.pong p))
  | some (.ok .close) => (.error .peerClosed, [])
  | some (.ok (.binary _)) =>
    (.error (.invalidFrame "binary"), trySend t (.text (replyText w (.error "binary frames unsupported"))))

def select (w : Codec) (t : Turn) (c : Conn) : Except Closed Conn × List Out :=
  match t.input with
  | .bus recv => onBus t.now c recv
  | .socket msg => onSocket w t c msg
  | .tick =>
    if t.sendReply then (.ok { c with pongDeadline := some (t.now + PONG_GRACE) }, [.frame (.ping [])])
    else (.error .peerClosed, [])
  -- Without a deadline that has passed, nothing comes of the wait.
  | .deadline => if c.pongDeadline.any (· ≤ t.now) then (.error .healthcheckTimeout, []) else (.ok c, [])

def turn (w : Codec) (t : Turn) (c : Conn) : Except Closed Conn × List Out :=
  match sendNext w t c.q.inner.length c.q with
  | (.error e, out) => (.error e, out)
  | (.ok q, out) =>
    let (r, out') := select w t { c with q := q }
    (r, out ++ out')

/-- The turns one after another, until one ends the loop. -/
def runInner (w : Codec) : List Turn → Conn → Except Closed Conn × List Out
  | [], c => (.ok c, [])
  | t :: ts, c =>
    match turn w t c with
    | (.error e, out) => (.error e, out)
    | (.ok c, out) =>
      let (r, out') := runInner w ts c
      (r, out ++ out')

/-! ## The clock -/

/-- How often we ping the peer. -/
def PING_PERIOD : Nat := fromSecs 30

/-- The loop with what it waits for: the bus, the socket and the ping timer,
whose next tick is at `nextTick`. -/
structure Clocked where
  now : Instant
  conn : Conn
  bus : List (Except RecvError Event)
  socket : List (Option (Except String Message))
  nextTick : Instant

/-- What a turn meets: how the send of the queued event ends; when the
`select!` finds a branch ready, and what has come in by then; how the send of
that branch ends, and how long it takes. -/
structure Meets where
  sendEvent : Except String Unit
  polled : Instant
  busIn : List (Except RecvError Event)
  socketIn : List (Option (Except String Message))
  sendReply : Bool
  took : Nat

def Meets.turn (m : Meets) (input : Input) : Turn where
  -- The tick reads the clock after its send.
  now := match input with | .tick => m.polled + m.took | _ => m.polled
  input := input
  sendEvent := m.sendEvent
  sendReply := m.sendReply

/-- What a turn does, and when: the head of the loop sends, then the `select!`
takes a branch, which finds one connection and leaves another or ends. -/
inductive Act
  | send («at» : Instant) (out : List Out) (ended : Option Closed)
  | take («at» : Instant) (input : Input) (found : Conn) (left : Except Closed Conn) (out : List Out)

def Act.time : Act → Instant
  | .send t _ _ | .take t _ _ _ _ => t

namespace Clocked

/-- The first tick of an interval is at once. -/
def new (wsQueueDepth : Nat) (now : Instant) : Clocked :=
  { now := now, conn := .new wsQueueDepth now, bus := [], socket := [], nextTick := now }

/-- The first branch that is ready: the `select!` is biased. -/
def ready (s : Clocked) (m : Meets) : Option Input :=
  match s.bus ++ m.busIn, s.socket ++ m.socketIn with
  | recv :: _, _ => some (.bus recv)
  | [], msg :: _ => some (.socket msg)
  | [], [] =>
    if s.nextTick ≤ m.polled then some .tick
    else if s.conn.pongDeadline.any (· ≤ m.polled) then some .deadline
    else none

/-- What the loop waits for once a branch is through. `schedule` is the
timer's: the tick after one due at the first time and taken at the second. -/
def move (schedule : Instant → Instant → Instant) (s : Clocked) (m : Meets) (c : Conn) (input : Input) : Clocked where
  now := m.polled + m.took
  conn := c
  bus := match input with | .bus _ => (s.bus ++ m.busIn).tail | _ => s.bus ++ m.busIn
  socket := match input with | .socket _ => (s.socket ++ m.socketIn).tail | _ => s.socket ++ m.socketIn
  nextTick := match input with | .tick => schedule s.nextTick m.polled | _ => s.nextTick

/-- One turn, `None` where nothing is ready when polled. -/
def step (w : Codec) (schedule : Instant → Instant → Instant) (s : Clocked) (m : Meets) :
    Option (List Act × Option Clocked) :=
  if m.polled < s.now then none
  else match sendNext w (m.turn ((s.ready m).getD .deadline)) s.conn.q.inner.length s.conn.q with
    | (.error e, out) => some ([.send s.now out (some e)], none)
    | (.ok q, out) =>
      match s.ready m with
      | none => none
      | some input =>
        let c := { s.conn with q := q }
        let (left, out') := select w (m.turn input) c
        some ([.send s.now out none, .take m.polled input c left out'],
          left.toOption.map fun c' => s.move schedule m c' input)

/-- What the loop does, turn after turn. -/
def acts (w : Codec) (schedule : Instant → Instant → Instant) (s : Clocked) : List Meets → List Act
  | [] => []
  | m :: ms =>
    match s.step w schedule m with
    | none => []
    | some (as, none) => as
    | some (as, some s') => as ++ s'.acts w schedule ms

end Clocked

/-! ## Connections -/

/-- A connection between the two `set_gauge` calls of `run`. -/
inductive Phase
  | looping (c : Conn)
  | closed (reason : Closed)

structure Hub where
  metrics : Metrics
  conns : List Phase

/-- What happens next: a connection comes, one takes a turn, one goes. -/
inductive Move
  | enter (wsQueueDepth : Nat) (now : Instant)
  | turn (i : Nat) (t : Turn)
  | leave (i : Nat)

def count (m : Metrics) : Out → Metrics
  | .frame _ => m
  | .count name n => m.incCounter name n

namespace Hub

def new : Hub := { metrics := {}, conns := [] }

/-- `None` where no connection is there to do it. -/
def step (w : Codec) (h : Hub) : Move → Option Hub
  | .enter wsQueueDepth now =>
    some { metrics := h.metrics.setGauge "chronicle_ws_subscribers" 1
           conns := h.conns ++ [.looping (.new wsQueueDepth now)] }
  | .turn i t =>
    match h.conns[i]? with
    | some (.looping c) =>
      let (r, out) := Ws.turn w t c
      some { metrics := out.foldl count h.metrics
             conns := h.conns.set i (match r with | .ok c => .looping c | .error reason => .closed reason) }
    | _ => none
  | .leave i =>
    match h.conns[i]? with
    | some (.closed _) =>
      some { metrics := h.metrics.setGauge "chronicle_ws_subscribers" 0, conns := h.conns.eraseIdx i }
    | _ => none

/-- The states these moves lead through. -/
def states (w : Codec) (h : Hub) : List Move → List Hub
  | [] => [h]
  | m :: ms => h :: match h.step w m with
    | some h' => h'.states w ms
    | none => []

end Hub

end DataApi.Ws
