/-
What a subscriber hears of the service. Whatever requests run, whoever
connects and however the turns fall, a connection writes only events that were
broadcast since it opened, each once and in order; it asked for each, and each
is true. What it does not write it has counted, passed over or yet to read.
-/
import DataApi.Live
import DataApi.Proofs.Attribution
import DataApi.Proofs.Subscriptions
import DataApi.Proofs.WsDelivery

namespace DataApi.Feed

open Relational ReadCommitted Resumption Ws Broadcast

/-! ## What a connection has done -/

/-- The texts the head of the loop wrote: event frames. -/
def wrote : Act → List String
  | .send _ out _ => texts out
  | .take .. => []

/-- What an input brings from the bus. -/
def heard : Input → List (Except Nat Event)
  | .bus (.ok ev) => [.ok ev]
  | .bus (.error (.lagged n)) => [.error n]
  | _ => []

/-- The event an input brings, if it matches. -/
def matching (subs : SubscriptionSet) : Input → List Event
  | .bus (.ok ev) => if subs.matches ev then [ev] else []
  | _ => []

/-- The peer subscribes so. -/
def Asks (w : Codec) : Input → Subscription → Prop
  | .socket (some (.ok (.text text))), s => ∃ names, w.decode text = .ok (.subscribe names s.filter) ∧ s.event ∈ names
  | _, _ => False

def received : Act → List (Except Nat Event)
  | .send .. => []
  | .take _ input _ _ _ => heard input

/-- What was received that matched the subscriptions in force. -/
def matched : Act → List Event
  | .send .. => []
  | .take _ input found _ _ => matching found.subs input

def asked (w : Codec) (s : Subscription) : Act → Prop
  | .send .. => False
  | .take _ input _ _ _ => Asks w input s

/-- What an output adds to the dropped events. -/
def counted : Out → Nat
  | .count name n => if name = "chronicle_ws_events_dropped_total" then n else 0
  | .frame _ => 0

def dropped : Act → Nat
  | .send _ out _ | .take _ _ _ _ out => (out.map counted).sum

/-- An event as it stands in a frame, if it serializes. -/
def frame (w : Codec) (ev : Event) : Option String := (w.encode ev).toOption

/-- What is so of a connection at any time, when `waiting` is still to send. -/
structure Served (w : Codec) (bus waiting : List Event) (l : Listener) : Prop where
  opened : l.opened ≤ bus.length
  reads : Reads bus l.opened (l.acts.flatMap received) l.cursor
  counts : (l.acts.map dropped).sum = missed (l.acts.flatMap received)
  sends : ∃ sent, l.acts.flatMap matched = sent ++ waiting ∧ l.acts.flatMap wrote = sent.filterMap (frame w)
  wanted : ∀ ev ∈ l.acts.flatMap matched, ∃ a ∈ l.acts, ∃ s, asked w s a ∧ SubscriptionSet.accepts ev s = true

/-- While its loop runs. -/
structure Looping (w : Codec) (bus : List Event) (l : Listener) : Prop where
  served : Served w bus l.conn.q.inner l
  slack : Slack l.conn
  subs : ∀ s ∈ l.conn.subs.subs, ∃ a ∈ l.acts, asked w s a

section
variable {w : Codec} {bus bus' waiting : List Event} {l : Listener} {t : Turn}

theorem Served.grown (h : Served w bus waiting l) (hb : bus <+: bus') : Served w bus' waiting l where
  opened := Nat.le_trans h.opened hb.length_le
  reads := h.reads.grown hb
  counts := h.counts
  sends := h.sends
  wanted := h.wanted

theorem Looping.grown (h : Looping w bus l) (hb : bus <+: bus') : Looping w bus' l where
  served := h.served.grown hb
  slack := h.slack
  subs := h.subs

theorem Looping.new (name : String) (depth : Nat) (now : Instant) : Looping w bus (.new name bus depth now) where
  served :=
    { opened := Nat.le_refl _
      reads := .nil
      counts := rfl
      sends := ⟨[], rfl, rfl⟩
      wanted := by simp [Listener.new] }
  slack := .new depth now
  subs := by simp [Listener.new, Ws.Conn.new, SubscriptionSet.new]

/-! ## A turn -/

/-- The head of the loop: what waits is written where it serializes, or its
send fails. -/
theorem head_cases (hc : Slack l.conn) :
    (∃ q out, sendNext w t l.conn.q.inner.length l.conn.q = (.ok q, out) ∧ texts out = l.conn.q.inner.filterMap (frame w) ∧
      (out.map counted).sum = 0) ∨ ∃ e, sendNext w t l.conn.q.inner.length l.conn.q = (.error e, []) := by
  match hq : l.conn.q.inner, hc.waiting with
  | [], _ => exact .inl ⟨l.conn.q, [], rfl, rfl, rfl⟩
  | [ev], _ =>
    cases he : w.encode ev with
    | error e =>
      refine .inl ⟨{ l.conn.q with inner := [] }, [], ?_, ?_, rfl⟩
      · simp [sendNext, DropOldestQueue.pop, hq, he]
      · simp [texts, frame, he, Except.toOption]
    | ok json =>
      cases hs : t.sendEvent with
      | error e => exact .inr ⟨.sendFailed e, by simp [sendNext, DropOldestQueue.pop, hq, he, hs]⟩
      | ok u =>
        refine .inl ⟨{ l.conn.q with inner := [] }, [.frame (.text json), .count "chronicle_ws_events_sent_total" 1], ?_, ?_, ?_⟩
        · simp [sendNext, DropOldestQueue.pop, hq, he, hs]
        · simp [texts, textOf, frame, he, Except.toOption]
        · simp [counted]

theorem counted_trySend {m : Message} : ((trySend t m).map counted).sum = 0 := by
  unfold trySend
  split <;> simp [counted]

/-- What a branch does that takes the input. -/
structure Took (w : Codec) (found : Ws.Conn) (input : Input) (r : Except Closed Ws.Conn × List Out) : Prop where
  counts : (r.2.map counted).sum = missed (heard input)
  waits : ∀ c, r.1 = .ok c → c.q.inner = matching found.subs input
  subs : ∀ c, r.1 = .ok c → ∀ s ∈ c.subs.subs, s ∈ found.subs.subs ∨ Asks w input s

variable {found : Ws.Conn} {input : Input} {out : List Out}

theorem matching_accepted {subs : SubscriptionSet} {ev : Event} (h : ev ∈ matching subs input) :
    ∃ s ∈ subs.subs, SubscriptionSet.accepts ev s = true := by
  unfold matching at h
  split at h
  next ev' =>
    split at h
    next hm =>
      obtain rfl := List.mem_singleton.1 h
      simpa [SubscriptionSet.matches] using hm
    · cases h
  · cases h

/-- What matched was received. -/
theorem matched_received {acts : List Act} : List.Sublist (acts.flatMap matched) (values (acts.flatMap received)) := by
  induction acts with
  | nil => exact .slnil
  | cons a acts ih =>
    rw [List.flatMap_cons, List.flatMap_cons, values_append]
    refine List.Sublist.append ?_ ih
    cases a with
    | send => exact .slnil
    | take now input found left out =>
      show List.Sublist (matching found.subs input) (values (heard input))
      unfold matching
      split
      · split
        · exact .refl _
        · exact List.nil_sublist _
      · exact List.nil_sublist _

/-- The loop ends. -/
theorem Took.ended {e : Closed} (h : (out.map counted).sum = missed (heard input)) : Took w found input (.error e, out) where
  counts := h
  waits c hc := by cases hc
  subs c hc := by cases hc

/-- Nothing comes of it but what is counted. -/
theorem Took.quiet {c : Ws.Conn} (hq : found.q.inner = []) (h : (out.map counted).sum = missed (heard input))
    (hm : matching found.subs input = []) (hc : c.q = found.q) (hsubs : c.subs = found.subs) :
    Took w found input (.ok c, out) where
  counts := h
  waits c' hc' := by
    obtain rfl := Except.ok.inj hc'
    rw [hm, hc, hq]
  subs c' hc' s hs := by
    obtain rfl := Except.ok.inj hc'
    exact .inl (hsubs ▸ hs)

theorem onBus_took (hq : found.q.inner = []) {now : Instant} (recv : Except RecvError Event) :
    Took w found (.bus recv) (onBus now found recv) := by
  cases recv with
  | error e =>
    cases e with
    | lagged n => exact .quiet hq (by simp [counted, heard]) rfl rfl rfl
    | closed => exact .ended rfl
  | ok ev =>
    cases hm : found.subs.matches ev with
    | false =>
      simp only [onBus, hm, Bool.not_false, if_true]
      exact .quiet hq rfl (by simp [matching, hm]) rfl rfl
    | true =>
      simp only [onBus, hm, push_empty hq, Bool.not_true, Bool.false_eq_true, if_false]
      refine ⟨rfl, fun c hc => ?_, fun c hc s hs => ?_⟩
      · obtain rfl := Except.ok.inj hc
        simp [matching, hm]
      · obtain rfl := Except.ok.inj hc
        exact .inl hs

theorem onText_took (hq : found.q.inner = []) (text : String) :
    Took w found (.socket (some (.ok (.text text)))) (.ok (onText w t found text).1, (onText w t found text).2) := by
  cases hd : w.decode text with
  | error e =>
    simp only [onText, hd]
    exact .quiet hq counted_trySend rfl rfl rfl
  | ok f =>
    cases f with
    | ping =>
      simp only [onText, hd]
      exact .quiet hq counted_trySend rfl rfl rfl
    | subscribe names filter =>
      simp only [onText, hd]
      refine ⟨counted_trySend, fun c hc => ?_, fun c hc s hs => ?_⟩
      · obtain rfl := Except.ok.inj hc
        exact hq
      · obtain rfl := Except.ok.inj hc
        rcases Subscriptions.mem_subscribe.1 hs with hs | ⟨hname, rfl⟩
        · exact .inl hs
        · exact .inr ⟨names, hd, hname⟩
    | unsubscribe names =>
      simp only [onText, hd]
      refine ⟨counted_trySend, fun c hc => ?_, fun c hc s hs => ?_⟩
      · obtain rfl := Except.ok.inj hc
        exact hq
      · obtain rfl := Except.ok.inj hc
        exact .inl (Subscriptions.mem_unsubscribe.1 hs).1

theorem onSocket_took (hq : found.q.inner = []) (msg : Option (Except String Message)) :
    Took w found (.socket msg) (onSocket w t found msg) := by
  match msg with
  | none => exact .ended rfl
  | some (.error e) => exact .ended rfl
  | some (.ok (.text text)) => exact onText_took hq text
  | some (.ok (.pong p)) => exact .quiet hq rfl rfl rfl rfl
  | some (.ok (.ping p)) => exact .quiet hq counted_trySend rfl rfl rfl
  | some (.ok .close) => exact .ended rfl
  | some (.ok (.binary b)) => exact .ended counted_trySend

theorem select_took (hq : found.q.inner = []) : Took w found t.input (select w t found) := by
  unfold select
  split
  next recv hi => exact hi ▸ onBus_took hq recv
  next msg hi => exact hi ▸ onSocket_took hq msg
  next hi =>
    rw [hi]
    split
    · exact .quiet hq (by simp [counted, heard, missed]) rfl rfl rfl
    · exact .ended rfl
  next hi =>
    rw [hi]
    split
    · exact .ended rfl
    · exact .quiet hq rfl rfl rfl rfl

/-- What is so of the connection when the turn is through that took its input. -/
theorem Looping.took {next : Nat} {q : DropOldestQueue} {out out' : List Out} {left : Except Closed Ws.Conn} {c : Ws.Conn}
    (h : Looping w bus l) (hreads : Reads bus l.opened (l.acts.flatMap received ++ heard t.input) next)
    (htexts : texts out = l.conn.q.inner.filterMap (frame w)) (hout : (out.map counted).sum = 0)
    (htook : Took w { l.conn with q := q } t.input (left, out')) :
    Served w bus (matching l.conn.subs t.input) { l with
      cursor := next, conn := c
      acts := l.acts ++ [.send t.now out none, .take t.now t.input { l.conn with q := q } left out'] } where
  opened := h.served.opened
  reads := by simpa [received] using hreads
  counts := by
    have hcounts := htook.counts
    simp only [List.map_append, List.sum_append, List.flatMap_append, missed_append]
    simp [dropped, received, hout, h.served.counts, hcounts]
  sends := by
    obtain ⟨sent, hmatched, hwrote⟩ := h.served.sends
    exact ⟨sent ++ l.conn.q.inner, by simp [matched, hmatched], by simp [wrote, hwrote, htexts]⟩
  wanted ev hev := by
    have hcases : ev ∈ l.acts.flatMap matched ∨ ev ∈ matching l.conn.subs t.input := by simpa [matched] using hev
    rcases hcases with hev | hev
    · obtain ⟨a, ha, s, hs⟩ := h.served.wanted ev hev
      exact ⟨a, List.mem_append_left _ ha, s, hs⟩
    · obtain ⟨s, hs, haccepts⟩ := matching_accepted hev
      obtain ⟨a, ha, hasked⟩ := h.subs s hs
      exact ⟨a, List.mem_append_left _ ha, s, hasked, haccepts⟩

/-- A connection at any time. -/
def PeerServed (w : Codec) (bus : List Event) : Peer → Prop
  | .looping l => Looping w bus l
  | .closed l _ => ∃ waiting, Served w bus waiting l
  | _ => True

theorem PeerServed.grown {p : Peer} (h : PeerServed w bus p) (hb : bus <+: bus') : PeerServed w bus' p := by
  cases p with
  | looping l => exact Looping.grown h hb
  | closed l e =>
    obtain ⟨waiting, hserved⟩ := h
    exact ⟨waiting, hserved.grown hb⟩
  | _ => trivial

/-- What the input is that a branch takes. -/
theorem input_reads {rs : List (Except Nat Event)} {b : Branch} {next : Nat} (h : Reads bus l.opened rs l.cursor)
    (hin : l.input bus b = some (input, next)) : Reads bus l.opened (rs ++ heard input) next := by
  cases b with
  | bus =>
    obtain ⟨⟨r, n⟩, hr, heq⟩ := Option.map_eq_some_iff.1 hin
    obtain ⟨rfl, rfl⟩ := Prod.mk.inj heq
    have hheard : heard (.bus (r.mapError .lagged)) = [r] := by cases r <;> rfl
    rw [hheard]
    exact h.recv hr
  | socket | tick | deadline =>
    obtain ⟨rfl, rfl⟩ := Prod.mk.inj (Option.some.inj hin)
    simpa [heard] using h

theorem turn_served {b : Branch} {next : Nat} (h : Looping w bus l) (hin : l.input bus b = some (t.input, next)) :
    PeerServed w bus (l.turn w t next) := by
  have hreads := input_reads h.served.reads hin
  unfold Listener.turn
  rcases head_cases (w := w) (t := t) h.slack with ⟨q, out, hs, htexts, hout⟩ | ⟨e, hs⟩
  · obtain ⟨hq, hd⟩ := sendNext_empties h.slack.waiting hs
    have hslack : Slack { l.conn with q := q } := ⟨by simp [hq], hd.trans h.slack.dropped, h.slack.drops⟩
    have htook : Took w { l.conn with q := q } t.input (select w t { l.conn with q := q }) := select_took hq
    cases hsel : select w t { l.conn with q := q } with
    | mk left out' =>
      rw [hsel] at htook
      simp only [hs, hsel]
      cases left with
      | error e => exact ⟨_, h.took hreads htexts hout htook⟩
      | ok c =>
        refine Looping.mk ?_ (select_spec hq hslack hsel) fun s hs => ?_
        · have hserved := h.took (c := c) hreads htexts hout htook
          rwa [← htook.waits c rfl] at hserved
        · rcases htook.subs c rfl s hs with hs | hs
          · obtain ⟨a, ha, hasked⟩ := h.subs s hs
            exact ⟨a, List.mem_append_left _ ha, hasked⟩
          · exact ⟨_, List.mem_append_right _ (List.mem_cons_of_mem _ List.mem_cons_self), hs⟩
  · simp only [hs]
    refine Exists.intro l.conn.q.inner ⟨h.served.opened, ?_, ?_, ?_, fun ev hev => ?_⟩
    · simpa [received] using h.served.reads
    · simpa [dropped, received] using h.served.counts
    · obtain ⟨sent, hmatched, hwrote⟩ := h.served.sends
      exact ⟨sent, by simp [matched, hmatched], by simp [wrote, texts, hwrote]⟩
    · obtain ⟨a, ha, hasked⟩ := h.served.wanted ev (by simpa [matched] using hev)
      exact ⟨a, List.mem_append_left _ ha, hasked⟩

end

/-! ## The service -/

section
variable {ι κ : Type} [DecidableEq ι] [DecidableEq κ] {st : Live.Settings} {arrivals : ι → Arrival} {t : ServiceSessions}
  {sv : Sv ι} {ms : List (Live.Move ι κ)} {s s' : Live ι κ} {g g' : Gateway ι}

omit [DecidableEq ι] [DecidableEq κ] in
/-- The moves of the gateway among these. -/
def gate : Live.Move ι κ → Option (Gateway.Move ι)
  | .gateway m => some m
  | _ => none

/-- The connection came with a token of the service. -/
def Admitted (st : Live.Settings) (t : ServiceSessions) (ms : List (Live.Move ι κ)) (k : κ) (name : String) : Prop :=
  ∃ env r token, .upgrade k env r ∈ ms ∧ r.bearer = some token ∧
    Attribution.Issued st.toSettings t (ms.filterMap gate) name (st.auth.hashToken token)

omit [DecidableEq ι] [DecidableEq κ] in
theorem gates_snoc {m : Live.Move ι κ} : (ms ++ [m]).filterMap gate = ms.filterMap gate ++ (gate m).toList := by
  cases m <;> simp [gate]

omit [DecidableEq ι] [DecidableEq κ] in
theorem Issued.more {m : Live.Move ι κ} {name hash : String}
    (h : Attribution.Issued st.toSettings t (ms.filterMap gate) name hash) :
    Attribution.Issued st.toSettings t ((ms ++ [m]).filterMap gate) name hash := by
  rw [gates_snoc]
  cases m with
  | gateway m => exact h.mono
  | upgrade | enter | turn =>
    rw [show gate _ = none from rfl, Option.toList_none, List.append_nil]
    exact h

omit [DecidableEq ι] [DecidableEq κ] in
theorem Admitted.mono {m : Live.Move ι κ} {k : κ} {name : String} (h : Admitted st t ms k name) :
    Admitted st t (ms ++ [m]) k name := by
  obtain ⟨env, r, token, hm, hbearer, hissued⟩ := h
  exact ⟨env, r, token, List.mem_append_left _ hm, hbearer, Issued.more hissued⟩

/-- Only handlers send events. -/
theorem bus_grows {m : Gateway.Move ι} (hs : g.step st.toSettings arrivals m = some g') :
    g.clients.shared.world.bus <+: g'.clients.shared.world.bus := by
  cases m with
  | authenticate | heartbeat | reap =>
    obtain rfl := Option.some.inj hs
    exact List.prefix_rfl
  | arrive i env =>
    simp only [Gateway.step] at hs
    split at hs
    · split at hs
      · obtain rfl := Option.some.inj hs
        exact List.prefix_rfl
      · obtain rfl := Option.some.inj hs
        exact List.prefix_rfl
    · cases hs
  | run i e =>
    simp only [Gateway.step] at hs
    split at hs
    · obtain ⟨c, hc, rfl⟩ := Option.map_eq_some_iff.1 hs
      rcases Config.world_cases hc with hw | ⟨x, hw⟩
      · simp [hw]
      · simp only [hw]
        cases x with
        | send ev => exact List.prefix_append _ _
        | _ => exact List.prefix_rfl
    · cases hs

/-- What holds along a run. -/
structure Fed (st : Live.Settings) (arrivals : ι → Arrival) (t : ServiceSessions) (sv : Sv ι) (ms : List (Live.Move ι κ))
    (s : Live ι κ) : Prop where
  governed : Attribution.Governed st.toSettings arrivals t sv (ms.filterMap gate) s.gateway
  began : sv.world.bus <+: s.bus
  upgraded : ∀ k name, s.peers k = .upgraded name → Admitted st t ms k name
  listening : ∀ k l, (s.peers k).listener = some l → Admitted st t ms k l.serviceName ∧ sv.world.bus.length ≤ l.opened
  served : ∀ k, PeerServed st.codec s.bus (s.peers k)

omit [DecidableEq κ] in
theorem Fed.start (hlog : sv.log = []) : Fed st arrivals t sv [] (Live.start st arrivals t sv : Live ι κ) where
  governed := .start hlog
  began := List.prefix_rfl
  upgraded k name h := by cases h
  listening k l h := by cases h
  served k := trivial

/-- One connection changes, in a state like this. -/
theorem Fed.put {m : Live.Move ι κ} {k : κ} {p : Peer} (h : Fed st arrivals t sv ms s) (hm : gate m = none)
    (hupgraded : ∀ name, p = .upgraded name → Admitted st t (ms ++ [m]) k name)
    (hlistening : ∀ l, p.listener = some l → Admitted st t (ms ++ [m]) k l.serviceName ∧ sv.world.bus.length ≤ l.opened)
    (hserved : PeerServed st.codec s.bus p) : Fed st arrivals t sv (ms ++ [m]) (s.put k p) where
  governed := by
    rw [gates_snoc, hm, Option.toList_none, List.append_nil]
    exact h.governed
  began := h.began
  upgraded j name hj := by
    by_cases hjk : j = k
    · subst hjk
      exact hupgraded name (by simpa using hj)
    · rw [Live.put_other _ _ hjk] at hj
      exact (h.upgraded j name hj).mono
  listening j l hj := by
    by_cases hjk : j = k
    · subst hjk
      exact hlistening l (by simpa using hj)
    · rw [Live.put_other _ _ hjk] at hj
      obtain ⟨hadmitted, hopened⟩ := h.listening j l hj
      exact ⟨hadmitted.mono, hopened⟩
  served j := by
    by_cases hjk : j = k
    · subst hjk
      simpa using hserved
    · simpa [Live.put_other _ _ hjk] using h.served j

/-- A turn keeps who the connection is. -/
theorem turn_listener {w : Codec} {turn : Turn} {next : Nat} {l l' : Listener} (h : (l.turn w turn next).listener = some l') :
    l'.serviceName = l.serviceName ∧ l'.opened = l.opened := by
  unfold Listener.turn at h
  split at h
  · cases h
    exact ⟨rfl, rfl⟩
  · simp only at h
    split at h <;> cases h <;> exact ⟨rfl, rfl⟩

theorem turn_upgraded {w : Codec} {turn : Turn} {next : Nat} {l : Listener} {name : String} :
    l.turn w turn next ≠ .upgraded name := by
  intro h
  unfold Listener.turn at h
  split at h
  · cases h
  · simp only at h
    split at h <;> cases h

theorem Fed.step {m : Live.Move ι κ} (hq : sv.Quiescent) (h : Fed st arrivals t sv ms s)
    (hs : s.step st arrivals m = some s') : Fed st arrivals t sv (ms ++ [m]) s' := by
  cases m with
  | gateway m =>
    obtain ⟨g, hg, rfl⟩ := Option.map_eq_some_iff.1 hs
    have hgrows : s.bus <+: g.clients.shared.world.bus := bus_grows hg
    refine ⟨?_, h.began.trans hgrows, fun k name hk => (h.upgraded k name hk).mono, fun k l hk => ?_,
      fun k => (h.served k).grown hgrows⟩
    · rw [gates_snoc]
      exact h.governed.step hq hg
    · obtain ⟨hadmitted, hopened⟩ := h.listening k l hk
      exact ⟨hadmitted.mono, hopened⟩
  | upgrade k env r =>
    simp only [Live.step] at hs
    split at hs
    · split at hs
      next name hname =>
        obtain rfl := Option.some.inj hs
        refine h.put rfl (fun name' hn => ?_) (fun l hl => by cases hl) trivial
        obtain rfl := Peer.upgraded.inj hn
        unfold Ws.upgrade at hname
        split at hname
        · cases hname
        next token htoken =>
          split at hname
          · cases hname
          split at hname
          next name' halive =>
            obtain rfl := Except.ok.inj hname
            obtain ⟨row, hrow, hname, hhash⟩ := Attribution.alive_row halive
            have hissued := h.governed.tokens row hrow
            rw [hname, hhash] at hissued
            exact ⟨env, r, token, by simp, htoken, Issued.more hissued⟩
          · cases hname
      · obtain rfl := Option.some.inj hs
        exact h.put rfl (fun _ hn => by cases hn) (fun l hl => by cases hl) trivial
    · cases hs
  | enter k now =>
    simp only [Live.step] at hs
    split at hs
    next name hk =>
      obtain rfl := Option.some.inj hs
      refine h.put rfl (fun _ hn => by cases hn) (fun l hl => ?_) (Looping.new name _ now)
      cases hl
      exact ⟨(h.upgraded k name hk).mono, h.began.length_le⟩
    · cases hs
  | turn k p =>
    simp only [Live.step] at hs
    split at hs
    next l hk =>
      obtain ⟨⟨input, next⟩, hin, rfl⟩ := Option.map_eq_some_iff.1 hs
      refine h.put rfl (fun _ hn => absurd hn turn_upgraded) (fun l' hl' => ?_) ?_
      · obtain ⟨hname, hopened⟩ := turn_listener hl'
        obtain ⟨hadmitted, hle⟩ := h.listening k l (by rw [hk]; rfl)
        rw [hname, hopened]
        exact ⟨hadmitted.mono, hle⟩
      · have hserved := h.served k
        rw [hk] at hserved
        exact turn_served hserved hin
    · cases hs

theorem play_append {m : Live.Move ι κ} : ∀ {ms : List (Live.Move ι κ)} {s : Live ι κ},
    s.play st arrivals (ms ++ [m]) = (s.play st arrivals ms).bind fun s' => s'.step st arrivals m
  | [], s => by simp [Live.play]
  | m' :: ms, s => by
    simp only [List.cons_append, Live.play, Option.bind_assoc]
    exact congrArg _ (funext fun s' => play_append)

theorem fed (hq : sv.Quiescent) (h : (Live.start st arrivals t sv : Live ι κ).play st arrivals ms = some s) :
    Fed st arrivals t sv ms s := by
  induction ms using List.reverseRecOn generalizing s with
  | nil =>
    obtain rfl := Option.some.inj h
    exact .start hq.log
  | append_singleton ms m ih =>
    rw [play_append] at h
    obtain ⟨s₁, h₁, hs⟩ := Option.bind_eq_some_iff.1 h
    exact (ih h₁).step hq hs

end
/-! ### Results -/

/-- The events that serialize, and their frames. -/
theorem frames_of (w : Codec) : ∀ evs : List Event, ∃ evs', List.Sublist evs' evs ∧
    List.Forall₂ (fun ev text => w.encode ev = .ok text) evs' (evs.filterMap (frame w))
  | [] => ⟨[], .slnil, .nil⟩
  | ev :: evs => by
    obtain ⟨evs', hsub, hframes⟩ := frames_of w evs
    cases he : w.encode ev with
    | error e => exact ⟨evs', hsub.cons ev, by simpa [frame, he, Except.toOption] using hframes⟩
    | ok text => exact ⟨ev :: evs', hsub.cons_cons ev, by simpa [frame, he, Except.toOption] using hframes⟩

theorem map_eventText {w : Codec} (encodes : ∀ ev, ∃ text, w.encode ev = .ok text) (evs : List Event) :
    evs.map (eventText w) = evs.filterMap (frame w) := by
  rw [← List.filterMap_eq_map]
  refine List.filterMap_congr fun ev _ => ?_
  obtain ⟨text, htext⟩ := encodes ev
  simp [eventText, frame, htext, Except.toOption]

/-- A connection was opened with a token of its service. The event frames it has
written are, in order and each once, events that were broadcast after it
opened; it has asked for each, and each announces a change that was committed
on the rows it speaks of, and names the guild of a stored session. -/
theorem feed_true {ι κ : Type} [DecidableEq ι] [DecidableEq κ] (st : Live.Settings) (arrivals : ι → Arrival)
    (t : ServiceSessions) {sv : Sv ι} (hq : sv.Quiescent) {ms : List (Live.Move ι κ)} {s : Live ι κ}
    (h : (Live.start st arrivals t sv : Live ι κ).play st arrivals ms = some s) {k : κ} {l : Listener}
    (hl : (s.peers k).listener = some l) :
    Admitted st t ms k l.serviceName ∧ ∃ evs, List.Sublist evs (s.bus.drop l.opened) ∧
      List.Forall₂ (fun ev text => st.codec.encode ev = .ok text) evs (l.acts.flatMap wrote) ∧
      ∀ ev ∈ evs, (∃ a ∈ l.acts, ∃ sub, asked st.codec sub a ∧ SubscriptionSet.accepts ev sub = true) ∧
        EventTruth.Happened sv.db s.gateway.clients.shared.log ev ∧
        ∃ x, .session x ∈ s.gateway.clients.shared.db ∧ x.id = ev.sessionId ∧ x.guildId = ev.guildId := by
  have hfed := fed hq h
  obtain ⟨hadmitted, hopened⟩ := hfed.listening k l hl
  obtain ⟨waiting, hserved⟩ : ∃ waiting, Served st.codec s.bus waiting l := by
    have hpeer := hfed.served k
    cases hp : s.peers k with
    | looping l' =>
      rw [hp] at hl hpeer
      cases hl
      exact ⟨_, Looping.served hpeer⟩
    | closed l' e =>
      rw [hp] at hl hpeer
      cases hl
      exact hpeer
    | absent | refused | upgraded =>
      rw [hp] at hl
      cases hl
  obtain ⟨sent, hmatched, hwrote⟩ := hserved.sends
  obtain ⟨evs, hevs, hframes⟩ := frames_of st.codec sent
  rw [← hwrote] at hframes
  have hsub : List.Sublist evs (l.acts.flatMap matched) := by
    rw [hmatched]
    exact hevs.trans (List.sublist_append_left _ _)
  have hbus : List.Sublist evs (s.bus.drop l.opened) :=
    (hsub.trans matched_received).trans (hserved.reads.sublist.trans ((List.take_sublist _ _).drop _))
  refine ⟨hadmitted, evs, hbus, hframes, fun ev hev => ⟨hserved.wanted ev (hsub.subset hev), ?_⟩⟩
  obtain ⟨⟨told, htold, htrue⟩, -⟩ := EventTruth.told hq
    (hfed.governed.run (Attribution.requestOf arrivals s.gateway) fun j req hj => Attribution.requestOf_handled hj)
  have htold : s.bus = sv.world.bus ++ told := htold
  have hmem : ev ∈ told := by
    have hdrop := hbus.subset hev
    rw [htold, List.drop_append, List.drop_eq_nil_of_le hopened, List.nil_append] at hdrop
    exact List.mem_of_mem_drop hdrop
  obtain ⟨hann, hguild⟩ := htrue ev hmem
  obtain ⟨x, hx, hp⟩ := mem_guilds.1 hguild
  obtain ⟨hid, hg⟩ := Prod.mk.inj hp
  exact ⟨hann, x, hx, hid, hg⟩

def sampleSettings : Live.Settings :=
  { Attribution.sampleSettings with codec := sampleCodec, wsQueueDepth := 64 }

/-- Audio is wiped. -/
def sampleArrivals : Unit → Arrival
  | () =>
    { headers := [("authorization", [66, 101, 97, 114, 101, 114, 32, 107])]
      request := .wipeParticipantAudio "" Sample.sessionId Sample.speaker }

def samplePoll (branch : Branch) : Poll := { now := 0, branch := branch, sendEvent := .ok (), sendReply := true }

/-- A service connects and subscribes, and hears of it. -/
def sampleMoves : List (Live.Move Unit Unit) :=
  [.gateway (.authenticate Attribution.sampleAuth { sharedSecret := "secret", serviceName := "bot" }),
    .upgrade () Attribution.sampleAuth { headers := [], token := some "k" }, .enter () 0,
    .turn () (samplePoll (.socket (some (.ok (.text subscribeText))))), .gateway (.arrive () Attribution.sampleAuth)] ++
    ((Sample.moves 0 [((), 16)]).map fun m => .gateway (.run m.1 m.2)) ++
    [.turn () (samplePoll .bus), .turn () (samplePoll .tick)]

/-- The texts written by a connection whose loop runs. -/
def textsOf : Peer → List String
  | .looping l => l.acts.flatMap wrote
  | _ => []

theorem textsOf_cons {p : Peer} {text : String} (h : textsOf p = [text]) : ∃ l, p = .looping l ∧ l.acts.flatMap wrote = [text] := by
  unfold textsOf at h
  split at h
  · exact ⟨_, rfl, h⟩
  · cases h

def sampleText : String :=
  "\x7b\"type\":\"audio_deleted\",\"at_ts\":\"1970-01-01T00:00:00.000014Z\",\"data\":\x7b\"session_id\":\"00000000-0000-0000-0000-000000000001\",\"guild_id\":7,\"pseudo_id\":\"0123456789abcdef01234567\"\x7d\x7d"

theorem sample_run : ∃ (s : Live Unit Unit) (l : Listener),
    (Live.start sampleSettings sampleArrivals [] (Sample.server [.session Sample.session])).play sampleSettings sampleArrivals
      sampleMoves = some s ∧ s.peers () = .looping l ∧ l.acts.flatMap wrote = [sampleText] := by
  have hrun : ((Live.start sampleSettings sampleArrivals [] (Sample.server [.session Sample.session]) : Live Unit Unit).play
      sampleSettings sampleArrivals sampleMoves).map (fun s => textsOf (s.peers ())) = some [sampleText] := by decide +kernel
  obtain ⟨s, hs, htexts⟩ := Option.map_eq_some_iff.1 hrun
  obtain ⟨l, hl, hwrote⟩ := textsOf_cons htexts
  exact ⟨s, l, hs, hl, hwrote⟩

theorem feed_true_sample : ∃ (s : Live Unit Unit) (l : Listener), (s.peers ()).listener = some l ∧
    l.acts.flatMap wrote = [sampleText] ∧ Admitted sampleSettings [] sampleMoves () l.serviceName ∧
    ∃ ev ∈ s.bus, sampleCodec.encode ev = .ok sampleText ∧
      EventTruth.Happened [.session Sample.session] s.gateway.clients.shared.log ev := by
  obtain ⟨s, l, hs, hl, hwrote⟩ := sample_run
  have hlistener : (s.peers ()).listener = some l := by rw [hl]; rfl
  obtain ⟨hadmitted, evs, hsub, hframes, htrue⟩ := feed_true sampleSettings sampleArrivals [] Sample.quiescent hs hlistener
  refine ⟨s, l, hlistener, hwrote, hadmitted, ?_⟩
  rw [hwrote] at hframes
  cases hframes with
  | @cons ev _ evs _ hencode hrest =>
    exact ⟨ev, List.mem_of_mem_drop (hsub.subset List.mem_cons_self), hencode, (htrue ev List.mem_cons_self).2.1⟩

/-- While the loop of a connection runs it accounts for every event since it
opened: it has yet to read it, has counted it as dropped, did not match it, has
written it once and in order, or is about to. -/
theorem feed_complete {ι κ : Type} [DecidableEq ι] [DecidableEq κ] (st : Live.Settings) (arrivals : ι → Arrival)
    (t : ServiceSessions) {sv : Sv ι} (hq : sv.Quiescent) (encodes : ∀ ev, ∃ text, st.codec.encode ev = .ok text)
    {ms : List (Live.Move ι κ)} {s : Live ι κ} (h : (Live.start st arrivals t sv : Live ι κ).play st arrivals ms = some s)
    {k : κ} {l : Listener} (hl : s.peers k = .looping l) :
    l.cursor ≤ s.bus.length ∧
      List.Sublist (values (l.acts.flatMap received)) ((s.bus.take l.cursor).drop l.opened) ∧
      l.opened + (values (l.acts.flatMap received)).length + (l.acts.map dropped).sum = l.cursor ∧
      (l.acts.flatMap matched).map (eventText st.codec) = l.acts.flatMap wrote ++ pending st.codec l.conn ∧
      l.conn.q.inner.length ≤ 1 := by
  have hpeer := (fed hq h).served k
  rw [hl] at hpeer
  have hloop : Looping st.codec s.bus l := hpeer
  obtain ⟨sent, hmatched, hwrote⟩ := hloop.served.sends
  refine ⟨hloop.served.reads.le_length hloop.served.opened, hloop.served.reads.sublist, ?_, ?_, hloop.slack.waiting⟩
  · rw [hloop.served.counts]
    exact hloop.served.reads.total
  · rw [hmatched, hwrote, List.map_append, pending, map_eventText encodes]

theorem feed_complete_sample : ∃ (s : Live Unit Unit) (l : Listener), s.peers () = .looping l ∧
    (l.acts.flatMap matched).map (eventText sampleCodec) = [sampleText] ++ pending sampleCodec l.conn ∧
      l.opened + (values (l.acts.flatMap received)).length + (l.acts.map dropped).sum = l.cursor := by
  obtain ⟨s, l, hs, hl, hwrote⟩ := sample_run
  obtain ⟨-, -, htotal, hmatched, -⟩ :=
    feed_complete sampleSettings sampleArrivals [] Sample.quiescent (fun ev => ⟨envelopeText ev, rfl⟩) hs hl
  exact ⟨s, l, hl, hwrote ▸ hmatched, htotal⟩

end DataApi.Feed
