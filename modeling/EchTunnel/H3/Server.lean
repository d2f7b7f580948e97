import EchTunnel.Config
import EchTunnel.Quic.Pump

/-! The server event loop of `h3_server.rs`: packet routing, servicing, and the request handler. -/
namespace EchTunnel
open Wire

def header (name value : String) : Header := ⟨utf8 name,utf8 value⟩

/-- The page behind every request that is not the tunnel. -/
def FAKE_404_BODY : Bytes := utf8
  "<html>\r\n<head><title>404 Not Found</title></head>\r\n<body>\r\n<center><h1>404 Not Found</h1></center>\r\n<hr><center>nginx/1.24.0</center>\r\n</body>\r\n</html>\r\n"

inductive PacketType
  | initial
  | retry
  | handshake
  | zeroRtt
  | versionNegotiation
  | short
  deriving Repr, DecidableEq

/-- The QUIC header of a datagram. -/
structure PacketHeader where
  ty : PacketType
  version : ℕ
  dcid : Bytes
  scid : Bytes
  deriving Repr, DecidableEq

structure Pem where
  generation : ℕ
  certPem : String
  keyPem : String
  deriving Repr, DecidableEq

/-- The live certificate material. -/
structure CertSource where
  current : Pem
  nextGeneration : ℕ
  deriving Repr, DecidableEq

namespace CertSource

def new (certPem keyPem : String) : CertSource := ⟨⟨0,certPem,keyPem⟩,1⟩

def swap (s : CertSource) (certPem keyPem : String) : CertSource :=
  ⟨⟨s.nextGeneration,certPem,keyPem⟩,s.nextGeneration + 1⟩

end CertSource

/-- What a server `quiche::Config` was built from. -/
structure QuicConfig where
  certPem : String
  keyPem : String
  ech : Option ServerEch
  deriving Repr, DecidableEq

structure CachedConfig where
  generation : ℕ
  config : QuicConfig
  deriving Repr, DecidableEq

/-- The answers a listener gets besides those of its connections. -/
structure ServerEnv extends Env where
  fromSlice : Bytes → Option PacketHeader
  versionIsSupported : ℕ → Bool
  /-- The material can be turned into a configuration. -/
  serverConfig : QuicConfig → Bool
  accept : SocketAddr → Bytes → Bool

def ServerEnv.idle : ServerEnv :=
  { Env.idle with
    fromSlice := fun pkt => some ⟨.initial,1,pkt,[]⟩
    versionIsSupported := fun _ => true
    serverConfig := fun _ => true
    accept := fun _ _ => true }

/-- The event loop. `ids` collects the connection ids it has met, those it drew itself included. -/
structure Listener where
  cfg : ServerCfg
  conns : AList fun _ : Bytes => Conn
  cached : Option CachedConfig
  certs : CertSource
  hub : Hub
  ids : List Bytes

namespace Server

/-- Bound on queued app→QUIC messages across all streams of the listener. -/
def EGRESS_CHANNEL_CAP : ℕ := 256

/-- The pseudo-headers `handle_headers` looks at; the last one of a name counts. -/
structure Request where
  method : Bytes
  path : Bytes
  protocol : Bytes
  deriving Repr, DecidableEq

def Request.see (r : Request) (h : Header) : Request :=
  if h.name = utf8 ":method" then { r with method := h.value }
  else if h.name = utf8 ":path" then { r with path := h.value }
  else if h.name = utf8 ":protocol" then { r with protocol := h.value }
  else r

def Request.ofHeaders (list : List Header) : Request := list.foldl Request.see ⟨[],[],[]⟩

def Request.isTunnel (r : Request) (cfg : ServerCfg) : Prop :=
  r.method = utf8 "CONNECT" ∧ r.protocol = utf8 "websocket" ∧ r.path = utf8 cfg.wsPath

instance (r : Request) (cfg : ServerCfg) : Decidable (r.isTunnel cfg) :=
  inferInstanceAs (Decidable (_ ∧ _))

variable (env : ServerEnv)

def sendFake404 (serverName : String) (c : Conn) (sid : ℕ) : Conn :=
  let resp := [header ":status" "404",header "server" serverName,header "content-type" "text/html",
    header "content-length" (toString FAKE_404_BODY.length)]
  let ok := env.sendResponse c.quic sid resp false
  let c := c.note (.sendResponse sid resp false ok)
  if ok then c.note (.sendBody sid FAKE_404_BODY true (env.sendBody c.quic sid FAKE_404_BODY true))
  else c

/-- Decide what a request is: the tunnel, or a probe that gets the 404. -/
def handleHeaders (cfg : ServerCfg) (key : Bytes) (c : Conn) (sid : ℕ) (list : List Header) : Conn :=
  if ¬ (Request.ofHeaders list).isTunnel cfg then sendFake404 env cfg.serverName c sid
  else
    let resp := [header ":status" "200",header "server" cfg.serverName]
    let ok := env.sendResponse c.quic sid resp false
    let c := c.note (.sendResponse sid resp false ok)
    if ¬ ok then c.note (.streamShutdown sid .write)
    else { c.enter sid with spawned := c.spawned ++ [.new key sid c.quic.length] }

/-- The arms of `poll_h3`. -/
def handleEvent (cfg : ServerCfg) (key : Bytes) (c : Conn) (sid : ℕ) : H3Event → Conn
  | .headers list => handleHeaders env cfg key c sid list
  | .data =>
    match c.streams.lookup sid with
    | some _ => c.markReadable sid
    | none => c.note (.streamShutdown sid .read)
  | .finished => c.markReadable sid
  | .reset _ => c.remove sid
  | .priorityUpdate => c
  | .goAway => c

def echOk (cfg : ServerCfg) (c : Conn) : Bool :=
  cfg.ech.isNone || !cfg.rejectNonEch || env.echAccepted c.quic

/-- The second half of `service`, once the handshake bookkeeping is done. -/
def serve (cfg : ServerCfg) (key : Bytes) (c : Conn) : Conn :=
  (flushPackets env.toEnv
    (if c.h3 then exchange env.toEnv (handleEvent env cfg key) c else c)).1

/-- Start the HTTP/3 layer of an established connection. -/
def startH3 (c : Conn) : Conn :=
  let ok := env.withTransport c.quic
  let c := c.note (.withTransport ok)
  if ok then { c with h3 := true } else c.note (.close true 0x105)

def service (cfg : ServerCfg) (key : Bytes) (c : Conn) : Conn :=
  if c.h3 = false ∧ (env.isEstablished c.quic ∨ env.isInEarlyData c.quic) then
    if echOk env cfg c then serve env cfg key (startH3 env c)
    else (flushPackets env.toEnv (c.note (.close false 0x0))).1
  else serve env cfg key c

/-- The connection as `service` finds it when it starts to drain HTTP/3 events, if it gets there. -/
def polled (cfg : ServerCfg) (c : Conn) : Option Conn :=
  if c.h3 = false ∧ (env.isEstablished c.quic ∨ env.isInEarlyData c.quic) then
    if echOk env cfg c ∧ (startH3 env c).h3 then some (startH3 env c) else none
  else if c.h3 then some c else none

/-- What the request handler can do: make calls on the stream, or open a tunnel on it. -/
theorem handleHeaders_spec (cfg : ServerCfg) (key : Bytes) (c : Conn) (sid : ℕ) (list : List Header) :
    (∃ new : Trace, (∀ call ∈ new, call.stream = some sid ∧ call ≠ .tunnel sid) ∧
      handleHeaders env cfg key c sid list = { c with quic := new ++ c.quic }) ∨
    ∃ resp, env.sendResponse c.quic sid resp false = true ∧
      handleHeaders env cfg key c sid list =
        { (c.note (.sendResponse sid resp false true)).enter sid with
          spawned := c.spawned ++ [.new key sid (c.quic.length + 1)] } := by
  unfold handleHeaders
  split
  · left
    unfold sendFake404
    generalize [header ":status" "404",header "server" cfg.serverName,
      header "content-type" "text/html",
      header "content-length" (toString FAKE_404_BODY.length)] = resp
    cases ha : env.sendResponse c.quic sid resp false with
    | true =>
      let t : Trace := .sendResponse sid resp false true :: c.quic
      refine ⟨[.sendBody sid FAKE_404_BODY true (env.sendBody t sid FAKE_404_BODY true),
        .sendResponse sid resp false true],?_,?_⟩
      · simp [Call.stream]
      · simp only [ha]
        rfl
    | false =>
      refine ⟨[.sendResponse sid resp false false],by simp [Call.stream],?_⟩
      simp only [ha]
      rfl
  · generalize [header ":status" "200",header "server" cfg.serverName] = resp
    cases ha : env.sendResponse c.quic sid resp false with
    | true =>
      refine Or.inr ⟨resp,ha,?_⟩
      simp only [ha]
      rfl
    | false =>
      refine Or.inl ⟨[.streamShutdown sid .write,.sendResponse sid resp false false],?_,?_⟩
      · simp [Call.stream]
      · simp only [ha]
        rfl

theorem handleEvent_spec (cfg : ServerCfg) (key : Bytes) (c : Conn) (sid : ℕ) (e : H3Event) :
    (∃ new : Trace, (∀ call ∈ new, call.stream = some sid ∧ call ≠ .tunnel sid) ∧
      handleEvent env cfg key c sid e = { c with quic := new ++ c.quic }) ∨
    handleEvent env cfg key c sid e = c.markReadable sid ∨
    ((∃ code, e = .reset code) ∧ handleEvent env cfg key c sid e = c.remove sid) ∨
    ∃ resp, env.sendResponse c.quic sid resp false = true ∧
      handleEvent env cfg key c sid e =
        { (c.note (.sendResponse sid resp false true)).enter sid with
          spawned := c.spawned ++ [.new key sid (c.quic.length + 1)] } := by
  cases e with
  | headers list =>
    obtain h | h := handleHeaders_spec env cfg key c sid list
    · exact Or.inl h
    · exact Or.inr (Or.inr (Or.inr h))
  | data =>
    rw [handleEvent]
    split
    · exact Or.inr (Or.inl rfl)
    · exact Or.inl ⟨[.streamShutdown sid .read],by simp [Call.stream],rfl⟩
  | finished => exact Or.inr (Or.inl rfl)
  | reset code => exact Or.inr (Or.inr (Or.inl ⟨⟨code,rfl⟩,rfl⟩))
  | priorityUpdate => exact Or.inl ⟨[],by simp,rfl⟩
  | goAway => exact Or.inl ⟨[],by simp,rfl⟩

/-- `service` is the passes of the loop between calls that concern no stream. -/
theorem service_spec (cfg : ServerCfg) (key : Bytes) (c : Conn) :
    ∃ (new : Trace) (h3 : Bool) (ok : Bool),
      (∀ call ∈ new, call.stream = none ∧ call.isArrival = false) ∧
      let c' : Conn := { c with quic := new ++ c.quic, h3 }
      polled env cfg c = none ∧ service env cfg key c = c'.note (.flushPackets ok) ∨
      polled env cfg c = some c' ∧ service env cfg key c =
        (exchange env.toEnv (handleEvent env cfg key) c').note (.flushPackets ok) := by
  have hserve : ∀ c' : Conn, ∃ ok, serve env cfg key c' =
      (if c'.h3 then exchange env.toEnv (handleEvent env cfg key) c' else c').note
        (.flushPackets ok) := fun c' => ⟨_,rfl⟩
  have hstart : ∃ new : Trace, (∀ call ∈ new, call.stream = none ∧ call.isArrival = false) ∧
      startH3 env c = { c with quic := new ++ c.quic, h3 := (startH3 env c).h3 } := by
    unfold startH3
    cases env.withTransport c.quic with
    | true => exact ⟨[.withTransport true],by simp [Call.stream, Call.isArrival],rfl⟩
    | false => exact ⟨[.close true 0x105,.withTransport false],by simp [Call.stream, Call.isArrival],rfl⟩
  unfold service polled
  split
  · cases he : echOk env cfg c with
    | true =>
      obtain ⟨new,hn,hs⟩ := hstart
      obtain ⟨ok,hok⟩ := hserve (startH3 env c)
      refine ⟨new,(startH3 env c).h3,ok,hn,?_⟩
      rw [if_pos rfl, hok, ← hs]
      cases (startH3 env c).h3 with
      | true => exact Or.inr ⟨by simp,by simp⟩
      | false => exact Or.inl ⟨by simp,by simp⟩
    | false =>
      exact ⟨[.close false 0x0],c.h3,env.flushPackets (.close false 0x0 :: c.quic),
        by simp [Call.stream, Call.isArrival],Or.inl ⟨by simp,rfl⟩⟩
  · obtain ⟨ok,hok⟩ := hserve c
    refine ⟨[],c.h3,ok,by simp,?_⟩
    rw [hok]
    by_cases hh : c.h3
    · exact Or.inr ⟨if_pos hh,by rw [if_pos hh]; rfl⟩
    · exact Or.inl ⟨if_neg hh,by rw [if_neg hh]; rfl⟩

end Server

namespace Listener
open Server

def new (cfg : ServerCfg) (certs : CertSource) : Listener :=
  ⟨cfg,∅,none,certs,Hub.new EGRESS_CHANNEL_CAP,[]⟩

variable (env : ServerEnv)

def ensureConfig (l : Listener) : Option CachedConfig :=
  let pem := l.certs.current
  let build :=
    let config : QuicConfig := ⟨pem.certPem,pem.keyPem,l.cfg.ech⟩
    if env.serverConfig config then some ⟨pem.generation,config⟩ else none
  match l.cached with
  | some c => if c.generation = pem.generation then some c else build
  | none => build

/-- Hand a datagram to a connection. -/
def deliver (l : Listener) (peer : SocketAddr) (pkt key : Bytes) : Listener × Option Bytes :=
  match l.conns.lookup key with
  | none => (l,none)
  | some c => ({ l with conns := l.conns.insert key (c.note (.recv peer pkt)) },some key)

/-- `route_packet`; `draw` is the connection id `random_scid` would draw. -/
def routePacket (l : Listener) (peer : SocketAddr) (pkt draw : Bytes) : Listener × Option Bytes :=
  match env.fromSlice pkt with
  | none => (l,none)
  | some hdr =>
    let l := { l with ids := hdr.dcid :: l.ids }
    if (l.conns.lookup hdr.dcid).isSome then l.deliver peer pkt hdr.dcid
    else if hdr.ty ≠ .initial then (l,none)
    -- answered with a version negotiation packet
    else if ¬ env.versionIsSupported hdr.version then (l,none)
    else match l.ensureConfig env with
      | none => (l,none)
      | some cached =>
        let l := { l with cached := some cached, ids := draw :: l.ids }
        if ¬ env.accept peer draw then (l,none)
        else
          let conn : Conn := ⟨[.accept peer hdr.dcid draw],false,∅,[]⟩
          deliver { l with conns := l.conns.insert draw conn } peer pkt draw

/-- Service one connection and hand the tasks it spawned to the runtime. -/
def serviceAt (l : Listener) (key : Bytes) : Listener :=
  match l.conns.lookup key with
  | none => l
  | some c =>
    let c := service env l.cfg key c
    { l with
      conns := l.conns.insert key { c with spawned := [] }
      hub := l.hub.spawn (c.spawned.map fun s => ⟨s,.dialing,[]⟩) }

def noteTimeout (l : Listener) (key : Bytes) : Listener :=
  match l.conns.lookup key with
  | none => l
  | some c => { l with conns := l.conns.insert key (c.note .onTimeout) }

/-- Drop the connections that are closed. -/
def retain (l : Listener) : Listener :=
  { l with conns := Assoc.filter (fun c => !env.isClosed c.quic) l.conns }

def queue (l : Listener) (m : Egress) : Listener :=
  match l.conns.lookup m.key with
  | none => l
  | some c => { l with conns := l.conns.insert m.key (c.queue m.streamId m.out) }

/-- The branches of `select!`, the ACME task that swaps the certificate, and the bridges. A pass over
all connections visits them in some order. -/
inductive Act
  | datagram (peer : SocketAddr) (pkt draw : Bytes)
  | recvError
  | egress
  | readCredit (order : List Bytes)
  | timeout (order : List Bytes)
  | swap (certPem keyPem : String)
  | bridge (i : ℕ) (a : BridgeAct)

/-- The branch `select!` takes, and whether the turn of the loop goes on from there. -/
def select (l : Listener) : Act → Listener × Bool
  | .datagram peer pkt draw =>
    match l.routePacket env peer pkt draw with
    | (l,some key) => (l.serviceAt env key,true)
    | (l,none) => (l,false)
  | .recvError => (l,false)
  | .egress =>
    match l.hub.egress with
    | [] => (l,false)
    | m :: rest =>
      let l := { l with hub := { l.hub with egress := rest } }
      ((l.queue m).serviceAt env m.key,true)
  | .readCredit order =>
    if order.Perm l.conns.keys then (order.foldl (serviceAt env) l,true) else (l,false)
  | .timeout order =>
    if order.Perm l.conns.keys then
      (order.foldl (fun l key => (l.noteTimeout key).serviceAt env key) l,true)
    else (l,false)
  | .swap certPem keyPem => ({ l with certs := l.certs.swap certPem keyPem },false)
  | .bridge i a => ({ l with hub := l.hub.act i a },false)

def step (l : Listener) (a : Act) : Listener :=
  if (l.select env a).2 then (l.select env a).1.retain env else (l.select env a).1

/-- A datagram is dropped, or goes to the connection its destination id names, or opens one. -/
theorem routePacket_spec (l : Listener) (peer : SocketAddr) (pkt draw : Bytes) :
    (∃ cached ids, l.ids ⊆ ids ∧ l.routePacket env peer pkt draw = ({ l with cached, ids },none) ∧
      ∀ hdr, env.fromSlice pkt = some hdr → l.conns.lookup hdr.dcid = none) ∨
    (∃ hdr c, env.fromSlice pkt = some hdr ∧ l.conns.lookup hdr.dcid = some c ∧
      l.routePacket env peer pkt draw =
        ({ l with
            conns := l.conns.insert hdr.dcid (c.note (.recv peer pkt))
            ids := hdr.dcid :: l.ids },some hdr.dcid)) ∨
    ∃ hdr cached, env.fromSlice pkt = some hdr ∧ l.conns.lookup hdr.dcid = none ∧
      hdr.ty = .initial ∧ env.versionIsSupported hdr.version = true ∧
      l.routePacket env peer pkt draw =
        ({ l with
            conns := l.conns.insert draw
              ⟨[.recv peer pkt,.accept peer hdr.dcid draw],false,∅,[]⟩
            cached := some cached
            ids := draw :: hdr.dcid :: l.ids },some draw) := by
  unfold routePacket
  cases hf : env.fromSlice pkt with
  | none => exact Or.inl ⟨l.cached,l.ids,List.Subset.refl _,rfl,by simp⟩
  | some hdr =>
    simp only
    cases hl : l.conns.lookup hdr.dcid with
    | some c =>
      refine Or.inr (Or.inl ⟨hdr,c,rfl,hl,?_⟩)
      simp [deliver, hl]
    | none =>
      have hnone : ∀ h, some hdr = some h → l.conns.lookup h.dcid = none := by
        rintro h ⟨⟩
        exact hl
      have hcons := List.subset_cons_self hdr.dcid l.ids
      rw [if_neg (by simp)]
      by_cases ht : hdr.ty = .initial
      · rw [if_neg (not_not.mpr ht)]
        by_cases hv : env.versionIsSupported hdr.version = true
        · rw [if_neg (not_not.mpr hv)]
          cases ensureConfig env { l with ids := hdr.dcid :: l.ids } with
          | none => exact Or.inl ⟨l.cached,_,hcons,rfl,hnone⟩
          | some cached =>
            simp only
            by_cases ha : env.accept peer draw = true
            · rw [if_neg (not_not.mpr ha)]
              refine Or.inr (Or.inr ⟨hdr,cached,rfl,hl,ht,hv,?_⟩)
              simp [deliver, Conn.note]
            · rw [if_pos ha]
              exact Or.inl ⟨some cached,_,List.subset_cons_of_subset draw hcons,rfl,hnone⟩
        · rw [if_pos hv]
          exact Or.inl ⟨l.cached,_,hcons,rfl,hnone⟩
      · rw [if_pos ht]
        exact Or.inl ⟨l.cached,_,hcons,rfl,hnone⟩

/-- An id drawn for a new connection is none that the loop has met. -/
def Fresh (l : Listener) : Act → Prop
  | .datagram _ pkt draw => ∀ hdr ∈ env.fromSlice pkt, l.conns.lookup hdr.dcid = none →
      draw ∉ hdr.dcid :: l.ids
  | _ => True

instance (l : Listener) : (a : Act) → Decidable (l.Fresh env a)
  | .datagram .. => inferInstanceAs (Decidable (∀ hdr ∈ _, _ → _))
  | .recvError | .egress | .readCredit _ | .timeout _ | .swap .. | .bridge .. => isTrue trivial

section Events
variable (C : Listener → Bytes → Conn → ℕ × H3Event → Prop)

/-- The events that servicing the connection handles meet `C`. -/
def ServesAt (l : Listener) (key : Bytes) : Prop :=
  ∀ c ∈ l.conns.lookup key, ∀ c' ∈ polled env l.cfg c,
    Run.Meets (eventStep (handleEvent env l.cfg key)) (C l key) c' (env.polls c'.quic)

/-- All events that a step handles meet `C`, a condition on the state they find. -/
def Serves (l : Listener) : Act → Prop
  | .datagram peer pkt draw => ∀ key ∈ (l.routePacket env peer pkt draw).2,
      (l.routePacket env peer pkt draw).1.ServesAt env C key
  | .egress => ∀ m ∈ l.hub.egress.head?,
      ({ l with hub := { l.hub with egress := l.hub.egress.tail } }.queue m : Listener).ServesAt env C
        m.key
  | .readCredit order => order.Perm l.conns.keys → Run.Meets (serviceAt env) (ServesAt env C) l order
  | .timeout order => order.Perm l.conns.keys →
      Run.Meets (fun l key => (l.noteTimeout key).serviceAt env key)
        (fun l key => (l.noteTimeout key).ServesAt env C key) l order
  | _ => True

section Decidable
variable [∀ l key c p, Decidable (C l key c p)] (l : Listener)

instance (key : Bytes) : Decidable (l.ServesAt env C key) :=
  inferInstanceAs (Decidable (∀ c ∈ l.conns.lookup key, ∀ c' ∈ polled env l.cfg c, Run.Meets _ _ _ _))

instance : (a : Act) → Decidable (l.Serves env C a)
  | .datagram .. => inferInstanceAs (Decidable (∀ key ∈ _, ServesAt ..))
  | .egress => inferInstanceAs (Decidable (∀ m ∈ _, ServesAt ..))
  | .readCredit _ | .timeout _ => inferInstanceAs (Decidable (_ → Run.Meets ..))
  | .recvError | .swap .. | .bridge .. => isTrue trivial

end Decidable

variable {env C}

/-- What the parts of a step preserve, the step does. -/
theorem select_induction {P : Listener → Prop} {l : Listener} {a : Act} (h : P l)
    (hs : l.Serves env C a)
    (hroute : ∀ peer pkt draw, a = .datagram peer pkt draw → P (l.routePacket env peer pkt draw).1)
    (hqueue : ∀ m rest, a = .egress → l.hub.egress = m :: rest →
      P ({ l with hub := { l.hub with egress := rest } }.queue m : Listener))
    (htimeout : ∀ l key, P l → P (l.noteTimeout key))
    (hservice : ∀ l key, P l → l.ServesAt env C key → P (l.serviceAt env key))
    (hswap : ∀ certPem keyPem, P { l with certs := l.certs.swap certPem keyPem })
    (hbridge : ∀ i b, a = .bridge i b → P { l with hub := l.hub.act i b }) :
    P (l.select env a).1 := by
  cases a with
  | datagram peer pkt draw =>
    have hr := hroute peer pkt draw rfl
    rw [select]
    cases hk : l.routePacket env peer pkt draw with
    | mk l' key =>
      rw [hk] at hr
      cases key with
      | none => exact hr
      | some key => exact hservice l' key hr (by simpa [hk] using hs key (by simp [hk]))
  | recvError => exact h
  | egress =>
    rw [select]
    cases he : l.hub.egress with
    | nil => exact h
    | cons m rest =>
      have hm := hs m (by simp [he])
      rw [he] at hm
      exact hservice _ _ (hqueue m rest rfl he) hm
  | readCredit order =>
    rw [select]
    split_ifs with ho
    · exact (hs ho).induction hservice h
    · exact h
  | timeout order =>
    rw [select]
    split_ifs with ho
    · exact (hs ho).induction (fun l key hl hc => hservice _ key (htimeout l key hl) hc) h
    · exact h
  | swap certPem keyPem => exact hswap certPem keyPem
  | bridge i b => exact hbridge i b rfl

theorem ServesAt.of_forall (h : ∀ l key c p, C l key c p) (l : Listener) (key : Bytes) :
    l.ServesAt env C key := fun _ _ _ _ => Run.Meets.of_forall (h l key) _ _

theorem Serves.of_forall (h : ∀ l key c p, C l key c p) (l : Listener) (a : Act) :
    l.Serves env C a := by
  have hs : ∀ l key, ServesAt env C l key := ServesAt.of_forall h
  cases a with
  | datagram peer pkt draw => exact fun key _ => hs _ key
  | recvError => trivial
  | egress => exact fun m _ => hs _ m.key
  | readCredit order => exact fun _ => Run.Meets.of_forall hs _ _
  | timeout order => exact fun _ => Run.Meets.of_forall (fun l key => hs _ key) _ _
  | swap certPem keyPem => trivial
  | bridge i b => trivial

theorem routePacket_cfg (env : ServerEnv) (l : Listener) (peer : SocketAddr) (pkt draw : Bytes) :
    (l.routePacket env peer pkt draw).1.cfg = l.cfg := by
  obtain ⟨_,_,_,he,_⟩ | ⟨_,_,_,_,he⟩ | ⟨_,_,_,_,_,_,he⟩ := routePacket_spec env l peer pkt draw
  · rw [he]
  · rw [he]
  · rw [he]

theorem queue_cfg (l : Listener) (m : Egress) : (l.queue m).cfg = l.cfg := by
  unfold queue
  split <;> rfl

theorem noteTimeout_cfg (l : Listener) (key : Bytes) : (l.noteTimeout key).cfg = l.cfg := by
  unfold noteTimeout
  split <;> rfl

theorem serviceAt_cfg (env : ServerEnv) (l : Listener) (key : Bytes) :
    (l.serviceAt env key).cfg = l.cfg := by
  unfold serviceAt
  split <;> rfl

/-- Every connection in the map satisfies `P`. -/
def All (P : Bytes → Conn → Prop) (l : Listener) : Prop := ∀ key, ∀ c ∈ l.conns.lookup key, P key c

variable {P : Bytes → Conn → Prop} {l : Listener}

theorem All.insert (h : l.All P) {key : Bytes} {c : Conn} (hc : P key c) (hub : Hub) :
    All P { l with conns := l.conns.insert key c, hub } := by
  intro k c' hk
  simp only [Assoc.lookup_insert] at hk
  split_ifs at hk with he
  · cases hk
    exact he ▸ hc
  · exact h k c' hk

theorem All.routePacket (h : l.All P)
    (hnew : ∀ key peer odcid, P key ⟨[.accept peer odcid key],false,∅,[]⟩)
    (hnote : ∀ key c call, P key c → call.stream = none → P key (c.note call)) (peer : SocketAddr)
    (pkt draw : Bytes) : (l.routePacket env peer pkt draw).1.All P := by
  obtain ⟨_,_,_,he,_⟩ | ⟨hdr,c,_,hl,he⟩ | ⟨hdr,_,_,_,_,_,he⟩ := routePacket_spec env l peer pkt draw
  · rw [he]
    exact h
  · rw [he]
    exact h.insert (hnote hdr.dcid c (.recv peer pkt) (h _ c hl) rfl) l.hub
  · rw [he]
    exact h.insert (hnote draw _ (.recv peer pkt) (hnew draw peer hdr.dcid) rfl) l.hub

theorem All.queue (h : l.All P) (hqueue : ∀ key c sid out, P key c → P key (c.queue sid out))
    (m : Egress) : (l.queue m).All P := by
  unfold Listener.queue
  split
  · exact h
  · rename_i c hl
    exact h.insert (hqueue m.key c m.streamId m.out (h m.key c hl)) l.hub

theorem All.noteTimeout (h : l.All P)
    (hnote : ∀ key c call, P key c → call.stream = none → P key (c.note call)) (key : Bytes) :
    (l.noteTimeout key).All P := by
  unfold Listener.noteTimeout
  split
  · exact h
  · rename_i c hl
    exact h.insert (hnote key c .onTimeout (h key c hl) rfl) l.hub

theorem All.serviceAt (h : l.All P) (key : Bytes) (hservice : ∀ c ∈ l.conns.lookup key, P key c →
      P key { Server.service env l.cfg key c with spawned := [] }) : (l.serviceAt env key).All P := by
  unfold Listener.serviceAt
  split
  · exact h
  · rename_i c hl
    exact h.insert (hservice c hl (h key c hl)) _

theorem All.retain (h : l.All P) : (l.retain env).All P := by
  intro key c hc
  rw [Listener.retain, Assoc.lookup_filter, Option.mem_filter_iff] at hc
  exact h key c hc.1

section Step
variable {cfg : ServerCfg} (hcfg : l.cfg = cfg) (h : l.All P)
  (hnew : ∀ key peer odcid, P key ⟨[.accept peer odcid key],false,∅,[]⟩)
  (hnote : ∀ key c call, P key c → call.stream = none → P key (c.note call))
  (hqueue : ∀ key c sid out, P key c → P key (c.queue sid out))
include hcfg h hnew hnote hqueue

/-- What holds of a connection through all that can happen to it holds of all of them. -/
theorem All.step {a : Act} (hs : l.Serves env C a)
    (hservice : ∀ l key c, P key c → (∀ c' ∈ polled env cfg c,
      Run.Meets (eventStep (handleEvent env cfg key)) (C l key) c' (env.polls c'.quic)) →
        P key { service env cfg key c with spawned := [] }) :
    (l.step env a).cfg = cfg ∧ (l.step env a).All P := by
  have hsel : (l.select env a).1.cfg = cfg ∧ (l.select env a).1.All P := by
    apply select_induction (P := fun l => l.cfg = cfg ∧ l.All P) ⟨hcfg,h⟩ hs
    case hroute =>
      intro peer pkt draw _
      exact ⟨(routePacket_cfg env l peer pkt draw).trans hcfg,h.routePacket hnew hnote peer pkt draw⟩
    case hqueue =>
      intro m rest _ _
      exact ⟨(queue_cfg _ m).trans hcfg,
        All.queue (l := { l with hub := { l.hub with egress := rest } }) h hqueue m⟩
    case htimeout =>
      rintro l key ⟨hc,hl⟩
      exact ⟨(noteTimeout_cfg l key).trans hc,hl.noteTimeout hnote key⟩
    case hservice =>
      rintro l key ⟨rfl,hl⟩ hc
      exact ⟨serviceAt_cfg env l key,hl.serviceAt key fun c hk hp => hservice l key c hp (hc c hk)⟩
    case hswap => exact fun _ _ => ⟨hcfg,h⟩
    case hbridge => exact fun _ _ _ => ⟨hcfg,h⟩
  rw [Listener.step]
  split
  · exact ⟨hsel.1,hsel.2.retain⟩
  · exact hsel

/-- The events of a connection meet `C` if they do whenever the connection satisfies `P`. -/
theorem All.serves (hservice : ∀ key c, P key c → P key { service env cfg key c with spawned := [] })
    (hpolled : ∀ l key c, l.cfg = cfg → P key c → ∀ c' ∈ polled env cfg c,
      Run.Meets (eventStep (handleEvent env cfg key)) (C l key) c' (env.polls c'.quic))
    (a : Act) : l.Serves env C a := by
  have hat : ∀ (l : Listener) key, l.cfg = cfg ∧ l.All P → l.ServesAt env C key := by
    rintro l key ⟨rfl,hl⟩ c hc
    exact hpolled l key c rfl (hl key c hc)
  have hservices : ∀ (l : Listener) key, l.cfg = cfg ∧ l.All P →
      (l.serviceAt env key).cfg = cfg ∧ (l.serviceAt env key).All P := by
    rintro l key ⟨rfl,hl⟩
    exact ⟨serviceAt_cfg env l key,hl.serviceAt key fun c _ => hservice key c⟩
  have htimeouts : ∀ (l : Listener) key, l.cfg = cfg ∧ l.All P →
      (l.noteTimeout key).cfg = cfg ∧ (l.noteTimeout key).All P :=
    fun l key hl => ⟨(noteTimeout_cfg l key).trans hl.1,hl.2.noteTimeout hnote key⟩
  cases a with
  | datagram peer pkt draw =>
    intro key _
    exact hat _ key ⟨(routePacket_cfg env l peer pkt draw).trans hcfg,
      h.routePacket hnew hnote peer pkt draw⟩
  | recvError => trivial
  | egress =>
    intro m _
    exact hat _ m.key ⟨(queue_cfg _ m).trans hcfg,
      All.queue (l := { l with hub := { l.hub with egress := l.hub.egress.tail } }) h hqueue m⟩
  | readCredit order =>
    intro _
    exact Run.Meets.imp (fun l key hl _ => hservices l key hl) (fun l key hl _ => hat l key hl)
      ⟨hcfg,h⟩ (Run.Meets.of_forall (fun _ _ => trivial) l order)
  | timeout order =>
    intro _
    exact Run.Meets.imp (fun l key hl _ => hservices _ key (htimeouts l key hl))
      (fun l key hl _ => hat _ key (htimeouts l key hl)) ⟨hcfg,h⟩
      (Run.Meets.of_forall (fun _ _ => trivial) l order)
  | swap certPem keyPem => trivial
  | bridge i b => trivial

end Step

/-- An invariant of connections along a run, and what it says of the events handled on the way. -/
theorem All.run {cfg : ServerCfg} (certs : CertSource)
    (hnew : ∀ key peer odcid, P key ⟨[.accept peer odcid key],false,∅,[]⟩)
    (hnote : ∀ key c call, P key c → call.stream = none → P key (c.note call))
    (hqueue : ∀ key c sid out, P key c → P key (c.queue sid out))
    (hservice : ∀ key c, P key c → P key { service env cfg key c with spawned := [] })
    (hpolled : ∀ l key c, l.cfg = cfg → P key c → ∀ c' ∈ polled env cfg c,
      Run.Meets (eventStep (handleEvent env cfg key)) (C l key) c' (env.polls c'.quic))
    (acts : List Act) :
    Run.Meets (Listener.step env) (Serves env C) (Listener.new cfg certs) acts ∧
      (Run.run (Listener.step env) (Listener.new cfg certs) acts).All P := by
  have h₀ : (Listener.new cfg certs).All P := fun _ _ hk => by cases hk
  have hstep : ∀ (l : Listener) a, l.cfg = cfg ∧ l.All P →
      (l.step env a).cfg = cfg ∧ (l.step env a).All P := by
    intro l a hl
    exact All.step (C := fun _ _ _ _ => True) hl.1 hl.2 hnew hnote hqueue
      (Serves.of_forall (fun _ _ _ _ => trivial) l a) fun _ key c hp _ => hservice key c hp
  constructor
  · exact Run.Meets.imp (fun l a hl _ => hstep l a hl)
      (fun l a hl _ => All.serves hl.1 hl.2 hnew hnote hqueue hservice hpolled a) ⟨rfl,h₀⟩
      (Run.Meets.of_forall (fun _ _ => trivial) _ acts)
  · exact (Run.induction hstep acts ⟨rfl,h₀⟩).2

end Events
end Listener
/-- Surroundings in which every connection asks for one tunnel, on stream 0. -/
def ServerEnv.dialed : ServerEnv :=
  { ServerEnv.idle with
    polls := fun t =>
      if t.any fun | .poll .. => true | _ => false then []
      else [(0,.headers [header ":method" "CONNECT",header ":protocol" "websocket",header ":path" "/ws"])]
    sendResponse := fun t sid _ _ => !t.any fun | .sendResponse s _ _ ok => s = sid ∧ ok | _ => false
    sendResponse_once := by
      intro t sid hs f h headers fin
      simp only [Bool.not_eq_false', List.any_eq_true]
      exact ⟨_,h,by simp⟩ }

/-- Surroundings in which every connection asks for the right path, but not for a tunnel. -/
def ServerEnv.probed : ServerEnv :=
  { ServerEnv.dialed with
    polls := fun t =>
      if t.any fun | .poll .. => true | _ => false then []
      else [(0,.headers [header ":method" "GET",header ":path" "/ws"]),(0,.data),(0,.finished),
        (0,.reset 0x10c)] }

/-- Surroundings in which only connections that were asked for under the id `[1]` have ECH. -/
def ServerEnv.choosy : ServerEnv :=
  { ServerEnv.dialed with
    isEstablished := fun t => !t.isEmpty
    echAccepted := fun t => t.getLast?.any fun | .accept _ odcid _ => odcid = [1] | _ => false }

theorem SendBody.le_of_done_eq : ∀ {_ : Trace} {_ : ℕ} {body : Bytes} {_ : Bool} {n : ℕ},
    SendBody.done = .ok n → n ≤ body.length := nofun

/-- Every connection asks for one tunnel, and its window has room for the headers only. -/
def ServerEnv.narrow : ServerEnv :=
  { ServerEnv.dialed with
    sendBody := fun _ _ _ _ => .done
    sendBody_le := @SendBody.le_of_done_eq }

/-- A listener that no datagram has reached. -/
def Listener.fresh : Listener :=
  new ⟨"example.com","/ws",false,.static "" "",none,false,false,"nginx",true⟩ (.new "" "")

end EchTunnel
