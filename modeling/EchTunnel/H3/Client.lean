import Mathlib.Data.FinEnum
import EchTunnel.Config
import EchTunnel.Quic.Pump

/-! The client session of `h3_client.rs`: one connection, and a tunnel for every accepted request. -/
namespace EchTunnel
open Wire

/-- A running session, parked in `select!`; or one that has returned. -/
structure Session where
  cfg : ClientCfg
  peer : SocketAddr
  conn : Conn
  pending : Option OpenReq
  hub : Hub
  running : Bool

namespace Client

/-- Bound on queued app→QUIC messages across all streams of a session. -/
def EGRESS_CHANNEL_CAP : ℕ := 256

def USER_AGENT : Bytes := utf8
  "Mozilla/5.0 (Windows NT 10.0; Win64; x64) AppleWebKit/537.36 (KHTML, like Gecko) Chrome/131.0.0.0 Safari/537.36"

def requestHeaders (cfg : ClientCfg) : List Header :=
  [⟨utf8 ":method",utf8 "CONNECT"⟩,⟨utf8 ":protocol",utf8 "websocket"⟩,
    ⟨utf8 ":scheme",utf8 "https"⟩,⟨utf8 ":authority",utf8 cfg.sni⟩,⟨utf8 ":path",utf8 cfg.wsPath⟩,
    ⟨utf8 "sec-websocket-version",utf8 "13"⟩,⟨utf8 "user-agent",USER_AGENT⟩]

/-- `str::parse::<u16>`. Bytes that are not UTF-8 fail it too. -/
def parseU16 (bs : Bytes) : Option ℕ :=
  let digits := if bs.head? = some 0x2b then bs.tail else bs
  if digits ≠ [] ∧ ∀ d ∈ digits, 0x30 ≤ d ∧ d ≤ 0x39 then
    let n := digits.foldl (fun n d => 10*n + (d.toNat - 0x30)) 0
    if n < 65536 then some n else none
  else none

/-- A response header list carries a 2xx `:status`. -/
def isSuccess (list : List Header) : Bool :=
  match (list.find? fun h => h.name = utf8 ":status").bind fun h => parseU16 h.value with
  | some s => 200 ≤ s && s < 300
  | none => false

/-- The arms of `poll_h3`. -/
def handleEvent (c : Conn) (sid : ℕ) : H3Event → Conn
  | .headers list =>
    if isSuccess list then c else (c.remove sid).note (.streamShutdown sid .read)
  | .data => c.markReadable sid
  | .finished => c.markReadable sid
  | .reset _ => c.remove sid
  | .priorityUpdate => c
  | .goAway => c

variable (env : Env)

/-- Send one Extended CONNECT; the request comes back when there is no stream credit yet. -/
def openStream (cfg : ClientCfg) (c : Conn) (req : OpenReq) : Conn × Option OpenReq :=
  let a := env.sendRequest c.quic (requestHeaders cfg) false
  let c := c.note (.sendRequest (requestHeaders cfg) false a)
  match a with
  | .streamBlocked => (c,some req)
  | .streamLimit => (c,some req)
  | .err => (c,none)
  | .ok sid =>
    let rx := c.quic.length
    let c := c.enter sid
    if env.requesterGone c.quic req then
      -- don't leave a half-open stream on the wire
      (((c.remove sid).note (.streamShutdown sid .write)).note (.streamShutdown sid .read),none)
    else ({ c with spawned := c.spawned ++ [.new [] sid rx] },none)

/-- The events that make the client drop a stream: a reset, and a refused CONNECT. -/
def Drops (e : H3Event) : Prop :=
  (∃ code, e = .reset code) ∨ ∃ list, e = .headers list ∧ isSuccess list = false

instance : (e : H3Event) → Decidable (Drops e)
  | .reset code => isTrue (Or.inl ⟨code,rfl⟩)
  | .headers list => decidable_of_iff (isSuccess list = false) (by simp [Drops])
  | .data | .finished | .priorityUpdate | .goAway => isFalse (by simp [Drops])

theorem handleEvent_spec (c : Conn) (sid : ℕ) (e : H3Event) :
    handleEvent c sid e = c ∨ handleEvent c sid e = c.markReadable sid ∨
      (∃ code, e = .reset code) ∧ handleEvent c sid e = c.remove sid ∨
      (∃ list, e = .headers list ∧ isSuccess list = false) ∧
        handleEvent c sid e = (c.remove sid).note (.streamShutdown sid .read) := by
  cases e with
  | headers list =>
    rw [handleEvent]
    split_ifs with h
    · exact Or.inl rfl
    · exact Or.inr (Or.inr (Or.inr ⟨⟨list,rfl,by simpa using h⟩,rfl⟩))
  | data => exact Or.inr (Or.inl rfl)
  | finished => exact Or.inr (Or.inl rfl)
  | reset code => exact Or.inr (Or.inr (Or.inl ⟨⟨code,rfl⟩,rfl⟩))
  | priorityUpdate => exact Or.inl rfl
  | goAway => exact Or.inl rfl

/-- A request is not sent, or gets a stream whose requester is gone, or opens a tunnel. -/
theorem openStream_spec (cfg : ClientCfg) (c : Conn) (req : OpenReq) :
    (∃ call, call.stream = none ∧ (openStream env cfg c req).1 = c.note call) ∨
    ∃ sid hs, env.sendRequest c.quic hs false = .ok sid ∧
      let c' := (c.note (.sendRequest hs false (.ok sid))).enter sid
      (openStream env cfg c req).1 =
          ((c'.remove sid).note (.streamShutdown sid .write)).note (.streamShutdown sid .read) ∨
        (openStream env cfg c req).1 =
          { c' with spawned := c.spawned ++ [.new [] sid (c.quic.length + 1)] } := by
  unfold openStream
  generalize requestHeaders cfg = hs
  cases ha : env.sendRequest c.quic hs false with
  | ok sid =>
    refine Or.inr ⟨sid,hs,ha,?_⟩
    simp only
    split
    · exact Or.inl rfl
    · exact Or.inr rfl
  | streamBlocked => exact Or.inl ⟨.sendRequest hs false .streamBlocked,rfl,rfl⟩
  | streamLimit => exact Or.inl ⟨.sendRequest hs false .streamLimit,rfl,rfl⟩
  | err => exact Or.inl ⟨.sendRequest hs false .err,rfl,rfl⟩

end Client

namespace Session
open Client

/-- The top of the loop: serve a parked request, and hand the tunnel it got to its bridge. -/
def servePending (env : Env) (s : Session) : Session :=
  match s.pending with
  | none => s
  | some req =>
    if env.extendedConnectEnabledByPeer s.conn.quic then
      let (c,pending) := openStream env s.cfg s.conn req
      { s with
        conn := { c with spawned := [] }
        pending
        hub := s.hub.spawn (c.spawned.map fun s => ⟨s,.copying,[]⟩) }
    else s

/-- A session whose handshake is done and whose first request is parked. -/
def start (env : Env) (cfg : ClientCfg) (peer : SocketAddr) (scid : Bytes) (first : OpenReq) : Session :=
  servePending env
    ⟨cfg,peer,⟨[.withTransport true,.connect scid],true,∅,[]⟩,some first,Hub.new EGRESS_CHANNEL_CAP,true⟩

/-- `session` returns: the connection, its streams and the receiving end of the channel go. -/
def finish (s : Session) : Session :=
  { s with
    conn := { s.conn with streams := ∅ }
    pending := none
    hub := { s.hub with egress := [], rxOpen := false }
    running := false }

/-- The part of the loop after `select!`, and the top of the next turn. -/
def service (env : Env) (s : Session) : Session :=
  let (c,ok) := flushPackets env (exchange env handleEvent s.conn)
  let s := { s with conn := c }
  if ok ∧ ¬ env.isClosed c.quic then s.servePending env else s.finish

theorem servePending_running (env : Env) (s : Session) : (s.servePending env).running = s.running := by
  unfold servePending
  split
  · rfl
  · split <;> rfl

/-- The branches of `select!` and the bridges. A failed `recv` ends the session. -/
inductive Act
  | packet (pkt : Bytes)
  | recvError
  | openReq (req : OpenReq)
  | egress
  | readCredit
  | timeout
  | bridge (i : ℕ) (a : BridgeAct)

/-- The session as a branch of `select!` leaves it to the part of the loop after `select!`. -/
def select (s : Session) : Act → Option Session
  | .packet pkt => if s.running then some { s with conn := s.conn.note (.recv s.peer pkt) } else none
  | .openReq req => if s.running ∧ s.pending.isNone then some { s with pending := some req } else none
  | .egress =>
    match s.running, s.hub.egress with
    | true, m :: rest =>
      some { s with conn := s.conn.queue m.streamId m.out, hub := { s.hub with egress := rest } }
    | _, _ => none
  | .readCredit => if s.running then some s else none
  | .timeout => if s.running then some { s with conn := s.conn.note .onTimeout } else none
  | .recvError => none
  | .bridge .. => none

def step (env : Env) (s : Session) : Act → Session
  | .bridge i a => { s with hub := s.hub.act i a }
  | .recvError => if s.running then s.finish else s
  | a => match s.select a with
    | some s => service env s
    | none => s

section Events
variable (env : Env) (C : Session → Conn → ℕ × H3Event → Prop)

/-- All events that a step handles meet `C`, a condition on the state they find. -/
def Serves (s : Session) (a : Act) : Prop :=
  ∀ s' ∈ s.select a, Run.Meets (eventStep handleEvent) (C s') s'.conn (env.polls s'.conn.quic)

instance [∀ s c p, Decidable (C s c p)] (s : Session) (a : Act) : Decidable (s.Serves env C a) :=
  inferInstanceAs (Decidable (∀ s' ∈ s.select a, Run.Meets ..))

variable {env C}

/-- What a branch of `select!` changes: it notes a packet or a timeout, parks a request, or dequeues a
message. -/
theorem select_spec {s s' : Session} {a : Act} (h : s.select a = some s') : s.running = true ∧
    ((∃ call, call.stream = none ∧ s' = { s with conn := s.conn.note call }) ∨
      (∃ req, s' = { s with pending := some req }) ∨ s' = s ∨
      (∃ m rest, a = .egress ∧ s.hub.egress = m :: rest ∧
        s' = { s with conn := s.conn.queue m.streamId m.out, hub := { s.hub with egress := rest } })) := by
  cases a with
  | packet pkt =>
    obtain ⟨hr,⟨⟩⟩ := Option.ite_none_right_eq_some.mp h
    exact ⟨hr,Or.inl ⟨.recv s.peer pkt,rfl,rfl⟩⟩
  | recvError => contradiction
  | openReq req =>
    obtain ⟨hr,⟨⟩⟩ := Option.ite_none_right_eq_some.mp h
    exact ⟨hr.1,Or.inr (Or.inl ⟨req,rfl⟩)⟩
  | egress =>
    rw [select] at h
    split at h
    · rename_i m rest hr he
      cases h
      exact ⟨hr,Or.inr (Or.inr (Or.inr ⟨m,rest,rfl,he,rfl⟩))⟩
    · contradiction
  | readCredit =>
    obtain ⟨hr,⟨⟩⟩ := Option.ite_none_right_eq_some.mp h
    exact ⟨hr,Or.inr (Or.inr (Or.inl rfl))⟩
  | timeout =>
    obtain ⟨hr,⟨⟩⟩ := Option.ite_none_right_eq_some.mp h
    exact ⟨hr,Or.inl ⟨.onTimeout,rfl,rfl⟩⟩
  | bridge i b => contradiction

/-- What the parts of a step preserve, the step does. -/
theorem step_induction {P : Session → Prop} {s : Session} {a : Act} (h : P s)
    (hs : s.Serves env C a)
    (hnote : ∀ call, call.stream = none → P { s with conn := s.conn.note call })
    (hopen : ∀ req, P { s with pending := some req })
    (hqueue : ∀ m rest, a = .egress → s.hub.egress = m :: rest →
      P { s with conn := s.conn.queue m.streamId m.out, hub := { s.hub with egress := rest } })
    (hservice : ∀ s', s'.running = true → P s' →
      Run.Meets (eventStep handleEvent) (C s') s'.conn (env.polls s'.conn.quic) → P (s'.service env))
    (hfinish : P s.finish) (hbridge : ∀ i b, a = .bridge i b → P { s with hub := s.hub.act i b }) :
    P (s.step env a) := by
  have hsel : P (match s.select a with
      | some s => service env s
      | none => s) := by
    cases hsel : s.select a with
    | none => exact h
    | some s' =>
      obtain ⟨hr,⟨call,hc,rfl⟩ | ⟨req,rfl⟩ | rfl | ⟨m,rest,ha,he,rfl⟩⟩ := select_spec hsel
      · exact hservice _ hr (hnote call hc) (hs _ hsel)
      · exact hservice _ hr (hopen req) (hs _ hsel)
      · exact hservice _ hr h (hs _ hsel)
      · exact hservice _ hr (hqueue m rest ha he) (hs _ hsel)
  cases a with
  | packet pkt => exact hsel
  | recvError =>
    rw [step]
    split_ifs
    · exact hfinish
    · exact h
  | openReq req => exact hsel
  | egress => exact hsel
  | readCredit => exact hsel
  | timeout => exact hsel
  | bridge i b => exact hbridge i b rfl

theorem Serves.of_forall (h : ∀ s c p, C s c p) (s : Session) (a : Act) : s.Serves env C a :=
  fun s' _ => Run.Meets.of_forall (h s') _ _

end Events
end Session
/-- Surroundings in which the first request gets stream 0, and later ones wait. -/
def Env.dialer : Env :=
  { Env.idle with
    sendRequest := fun t _ _ =>
      if t.any fun | .sendRequest .. => true | _ => false then .streamBlocked else .ok 0
    sendRequest_fresh := by
      intro t headers fin sid h hs f hm
      split at h
      · contradiction
      · rename_i hno
        exact hno (List.any_eq_true.mpr ⟨_,hm,rfl⟩) }

/-- Surroundings in which the peer resets the tunnel as soon as it is open. -/
def Env.rebuffed : Env :=
  { Env.dialer with
    polls := fun t =>
      if t.any fun | .poll .. => true | _ => false then [] else [(0,.reset 0x10c)] }

def ClientCfg.plain : ClientCfg := ⟨"example.com","/ws",false,none,.systemRoots,none,.h3⟩

/-- A session with one tunnel, whatever its surroundings do next. -/
def Session.dialed (env : Env) : Session := start env .plain ⟨[127,0,0,1],443⟩ [] 0

end EchTunnel
