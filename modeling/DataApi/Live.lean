/-
The service with its WebSocket connections (`src/routes/ws/mod.rs`): requests
run behind the gateway and send their events onto the bus, while connections
are upgraded, subscribe to the bus and take their turns.
-/
import DataApi.Gateway
import DataApi.Lib.Broadcast
import DataApi.Ws

namespace DataApi

open ReadCommitted Resumption

/-- `create_bus`: `broadcast::channel(4096)`. -/
def BUS_CAPACITY : Nat := 4096

namespace Ws

/-- A request to `/internal/ws`: its headers and `?token=`. -/
structure UpgradeRequest where
  headers : HeaderMap
  token : Option String

/-- The header first: browsers can't set it. -/
def UpgradeRequest.bearer (r : UpgradeRequest) : Option String := (Auth.bearer r.headers).or r.token

/-- The service a connection is opened for. -/
def upgrade (st : AuthState) (env : AuthEnv) (r : UpgradeRequest) (t : ServiceSessions) : Except Auth.Refusal String :=
  match r.bearer with
  | none => .error ⟨401, "missing bearer token"⟩
  | some token =>
    if env.fails then .error ⟨500, "auth lookup failed"⟩
    else match t.lookupAlive env.now (st.hashToken token) st.heartbeatReap with
    | some name => .ok name
    | none => .error ⟨401, "invalid token"⟩

/-- A connection in `run_inner`: the numbers of the first event it can read
and of the one it reads next, and what it has done. -/
structure Listener where
  serviceName : String
  opened : Nat
  cursor : Nat
  conn : Conn
  acts : List Act

/-- Before its first turn, subscribed to the bus. -/
def Listener.new (serviceName : String) (bus : List Event) (wsQueueDepth : Nat) (now : Instant) : Listener where
  serviceName := serviceName
  opened := bus.length
  cursor := bus.length
  conn := .new wsQueueDepth now
  acts := []

/-- A branch of the `select!`. -/
inductive Branch
  | bus
  | socket (msg : Option (Except String Message))
  | tick
  | deadline

/-- What the branch takes, and where the receiver is after it. -/
def Listener.input (bus : List Event) (l : Listener) : Branch → Option (Input × Nat)
  | .bus => (Broadcast.recv BUS_CAPACITY bus l.cursor).map fun r => (.bus (r.1.mapError .lagged), r.2)
  | .socket msg => some (.socket msg, l.cursor)
  | .tick => some (.tick, l.cursor)
  | .deadline => some (.deadline, l.cursor)

/-- A turn, but for what its branch takes. -/
structure Poll where
  now : Instant
  branch : Branch
  sendEvent : Except String Unit
  sendReply : Bool

def Poll.turn (p : Poll) (input : Input) : Turn where
  now := p.now
  input := input
  sendEvent := p.sendEvent
  sendReply := p.sendReply

inductive Peer
  | absent
  | refused (r : Auth.Refusal)
  | upgraded (serviceName : String)
  | looping (l : Listener)
  | closed (l : Listener) (reason : Closed)

/-- A connection whose loop has begun. -/
def Peer.listener : Peer → Option Listener
  | .looping l | .closed l _ => some l
  | _ => none

/-- A turn, with what it does listed: the head of the loop may end it before
the `select!`. -/
def Listener.turn (w : Codec) (t : Turn) (next : Nat) (l : Listener) : Peer :=
  match sendNext w t l.conn.q.inner.length l.conn.q with
  | (.error e, out) => .closed { l with acts := l.acts ++ [.send t.now out (some e)] } e
  | (.ok q, out) =>
    let found := { l.conn with q := q }
    let took := select w t found
    let l := { l with cursor := next, acts := l.acts ++ [.send t.now out none, .take t.now t.input found took.1 took.2] }
    match took.1 with
    | .ok c => .looping { l with conn := c }
    | .error e => .closed l e

end Ws

structure Live (ι κ : Type) where
  gateway : Gateway ι
  peers : κ → Ws.Peer

namespace Live

structure Settings extends Gateway.Settings where
  codec : Ws.Codec
  wsQueueDepth : Nat

inductive Move (ι κ : Type)
  | gateway (m : Gateway.Move ι)
  | upgrade (k : κ) (env : AuthEnv) (r : Ws.UpgradeRequest)
  | enter (k : κ) (now : Ws.Instant)
  | turn (k : κ) (p : Ws.Poll)

variable {ι κ : Type}

def bus (s : Live ι κ) : List Event := s.gateway.clients.shared.world.bus

/-- Nobody has come yet. -/
def start (st : Settings) (arrivals : ι → Arrival) (t : ServiceSessions) (sv : Sv ι) : Live ι κ where
  gateway := .start st.toSettings arrivals t sv
  peers _ := .absent

variable [DecidableEq ι] [DecidableEq κ]

def put (s : Live ι κ) (k : κ) (p : Ws.Peer) : Live ι κ := { s with peers := Function.update s.peers k p }

omit [DecidableEq ι] in
@[simp] theorem put_bus (s : Live ι κ) (k : κ) (p : Ws.Peer) : (s.put k p).bus = s.bus := rfl

omit [DecidableEq ι] in
@[simp] theorem put_self (s : Live ι κ) (k : κ) (p : Ws.Peer) : (s.put k p).peers k = p := by simp [put]

omit [DecidableEq ι] in
theorem put_other (s : Live ι κ) {j k : κ} (p : Ws.Peer) (h : j ≠ k) : (s.put k p).peers j = s.peers j := by simp [put, h]

def step (st : Settings) (arrivals : ι → Arrival) (s : Live ι κ) : Move ι κ → Option (Live ι κ)
  | .gateway m => (s.gateway.step st.toSettings arrivals m).map fun g => { s with gateway := g }
  | .upgrade k env r =>
    match s.peers k with
    | .absent =>
      match Ws.upgrade st.auth env r s.gateway.tokens with
      | .ok name => some (s.put k (.upgraded name))
      | .error e => some (s.put k (.refused e))
    | _ => none
  | .enter k now =>
    match s.peers k with
    | .upgraded name => some (s.put k (.looping (.new name s.bus st.wsQueueDepth now)))
    | _ => none
  | .turn k p =>
    match s.peers k with
    | .looping l => (l.input s.bus p.branch).map fun x => s.put k (l.turn st.codec (p.turn x.1) x.2)
    | _ => none

/-- The moves of a run, one after another. -/
def play (st : Settings) (arrivals : ι → Arrival) : Live ι κ → List (Move ι κ) → Option (Live ι κ)
  | s, [] => some s
  | s, m :: ms => (s.step st arrivals m).bind fun s' => play st arrivals s' ms

end Live
end DataApi
