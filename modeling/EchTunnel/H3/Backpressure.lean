import EchTunnel.H3.Client
import EchTunnel.H3.Server
import EchTunnel.Quic.Egress

/-! How many app→QUIC messages an event loop can hold. -/
namespace EchTunnel
open Wire

def StreamOut.isData : StreamOut → Bool
  | .data _ => true
  | _ => false

/-- Messages taken from the egress channel and not yet handed to `quiche`. -/
def Conn.pendingCount (c : Conn) : ℕ := Assoc.weight (fun st => st.pending.length) c.streams

namespace Conn
variable {c : Conn} {sid : ℕ} {t : Trace} {st st' : StreamState}

theorem pendingCount_put_le (h : c.streams.lookup sid = some st)
    (hle : st'.pending.length ≤ st.pending.length) :
    (c.put sid t st').pendingCount ≤ c.pendingCount := by
  have := Assoc.weight_insert_some (f := fun st : StreamState => st.pending.length) h st'
  unfold pendingCount put
  simp only at this ⊢
  omega

theorem pendingCount_markReadable_le (c : Conn) (sid : ℕ) :
    (c.markReadable sid).pendingCount ≤ c.pendingCount := by
  unfold markReadable
  cases h : c.streams.lookup sid with
  | none => exact le_rfl
  | some st => exact pendingCount_put_le h le_rfl

theorem pendingCount_enter_le (c : Conn) (sid : ℕ) :
    (c.enter sid).pendingCount ≤ c.pendingCount :=
  (Assoc.weight_insert_le _ _ _).trans (by simp [StreamState.tunnel, pendingCount])

theorem pendingCount_remove_le (c : Conn) (sid : ℕ) :
    (c.remove sid).pendingCount ≤ c.pendingCount := Assoc.weight_erase_le _ _

/-- A dequeued message adds one to what is pending, if it carries data for a tunnel in the map. -/
theorem pendingCount_queue_le (c : Conn) (sid : ℕ) (out : StreamOut) :
    (c.queue sid out).pendingCount ≤ c.pendingCount + 1 ∧
      ((out.isData → c.streams.lookup sid = none) →
        (c.queue sid out).pendingCount ≤ c.pendingCount) := by
  unfold queue
  cases h : c.streams.lookup sid with
  | none => exact ⟨Nat.le_succ _,fun _ => le_rfl⟩
  | some st =>
    cases out with
    | data bytes =>
      refine ⟨?_,fun hno => absurd (hno rfl) (by simp)⟩
      have := Assoc.weight_insert_some (f := fun st : StreamState => st.pending.length) h
        (st.queue (.data bytes))
      simp only [StreamState.queue, List.length_append, List.length_singleton] at this
      unfold pendingCount put
      simp only [StreamState.queue]
      omega
    | fin =>
      have hle : (c.put sid c.quic (st.queue .fin)).pendingCount ≤ c.pendingCount :=
        pendingCount_put_le h le_rfl
      exact ⟨hle.trans (Nat.le_succ _),fun _ => hle⟩
    | closed =>
      have hle : (c.put sid c.quic (st.queue .closed)).pendingCount ≤ c.pendingCount :=
        pendingCount_put_le h le_rfl
      exact ⟨hle.trans (Nat.le_succ _),fun _ => hle⟩

end Conn

theorem pendingCount_exchange_le (env : Env) {handle : Conn → ℕ → H3Event → Conn}
    (h : ∀ c sid e, (handle c sid e).pendingCount ≤ c.pendingCount) (c : Conn) :
    (exchange env handle c).pendingCount ≤ c.pendingCount := by
  refine exchange_induction env (P := fun c' => c'.pendingCount ≤ c.pendingCount)
    (C := fun _ _ => True) le_rfl (Run.Meets.of_forall (fun _ _ => trivial) _ _) ?_ ?_ ?_ ?_
  · intro c' p hc _
    exact (h _ _ _).trans hc
  · intro c' sid hc
    obtain he | ⟨st,st',new,hl,he,_,hs⟩ := pumpInboundAt_spec env c' sid
    · rwa [he]
    · rw [he]
      exact (Conn.pendingCount_put_le hl (by rw [hs.1])).trans hc
  · intro c' sid hc
    obtain he | ⟨st,st',new,hl,he,_,_,hlen,_⟩ := pumpOutboundAt_spec env c' sid
    · rwa [he]
    · rw [he]
      exact (Conn.pendingCount_put_le hl hlen).trans hc
  · intro c' sid hc
    obtain he | ⟨_,_,_,_,_,he,_⟩ := reapAt_spec env c' sid
    · rwa [he]
    · rw [he]
      exact (Conn.pendingCount_remove_le c' sid).trans hc

namespace Server
variable (env : ServerEnv) (cfg : ServerCfg) (key : Bytes)

theorem pendingCount_handleEvent_le (c : Conn) (sid : ℕ) (e : H3Event) :
    (handleEvent env cfg key c sid e).pendingCount ≤ c.pendingCount := by
  obtain ⟨new,_,he⟩ | he | ⟨_,he⟩ | ⟨resp,_,he⟩ := handleEvent_spec env cfg key c sid e
  · rw [he]
    exact le_rfl
  · rw [he]
    exact c.pendingCount_markReadable_le sid
  · rw [he]
    exact c.pendingCount_remove_le sid
  · rw [he]
    exact Conn.pendingCount_enter_le _ sid

theorem pendingCount_service_le (c : Conn) :
    (service env cfg key c).pendingCount ≤ c.pendingCount := by
  obtain ⟨new,h3,ok,_,⟨_,hs⟩ | ⟨_,hs⟩⟩ := service_spec env cfg key c
  · rw [hs]
    exact le_rfl
  · rw [hs]
    exact pendingCount_exchange_le env.toEnv (pendingCount_handleEvent_le env cfg key) _

end Server

namespace Client

theorem pendingCount_handleEvent_le (c : Conn) (sid : ℕ) (e : H3Event) :
    (handleEvent c sid e).pendingCount ≤ c.pendingCount := by
  obtain he | he | ⟨_,he⟩ | ⟨_,he⟩ := handleEvent_spec c sid e
  · rw [he]
  · rw [he]
    exact c.pendingCount_markReadable_le sid
  · rw [he]
    exact c.pendingCount_remove_le sid
  · rw [he]
    exact c.pendingCount_remove_le sid

theorem pendingCount_openStream_le (env : Env) (cfg : ClientCfg) (c : Conn) (req : OpenReq) :
    (openStream env cfg c req).1.pendingCount ≤ c.pendingCount := by
  obtain ⟨call,_,he⟩ | ⟨sid,hs,_,he | he⟩ := openStream_spec env cfg c req
  · rw [he]
    exact le_rfl
  · rw [he]
    exact (Conn.pendingCount_remove_le _ sid).trans (Conn.pendingCount_enter_le _ sid)
  · rw [he]
    exact Conn.pendingCount_enter_le _ sid

end Client

/-- A task that sends a message has reserved a slot for it. -/
theorem Bridge.act_sends {b : Bridge} {a : BridgeAct} {m : Egress} (h : (b.act a).2 = some m) :
    .ready ∈ a.reserve := by
  obtain he | ⟨phase,_,_,he⟩ | ⟨buf,rfl,_⟩ | ⟨r,rfl,_,_,_,he⟩ | ⟨r,rfl,_,_,he⟩ := b.act_cases a
  · simp [he] at h
  · simp [he] at h
  · rfl
  · rw [he] at h
    have hr : r = .ready := (Option.ite_none_right_eq_some.mp h).1
    rw [hr]
    rfl
  · rw [he] at h
    have hr : r = .ready := (Option.ite_none_right_eq_some.mp h).1
    rw [hr]
    rfl

/-- The channel never holds more than its capacity, whatever the bridges do. -/
theorem Hub.act_length_le {h : Hub} (hle : h.egress.length ≤ h.cap) (i : ℕ) (a : BridgeAct) :
    (h.act i a).egress.length ≤ h.cap ∧ (h.act i a).cap = h.cap := by
  unfold Hub.act
  cases h.bridges[i]? with
  | none => exact ⟨hle,rfl⟩
  | some b =>
    simp only
    split
    · rename_i ha
      refine ⟨?_,rfl⟩
      rw [List.length_append]
      cases hm : (b.act a).2 with
      | none => simpa using hle
      | some m =>
        have := (ha _ (b.act_sends hm)).2
        simp only [Option.toList_some, List.length_singleton]
        omega
    · exact ⟨hle,rfl⟩

namespace Listener
variable (env : ServerEnv) (l : Listener)

/-- Messages taken from the channel and not yet handed to `quiche`, over all connections. -/
def pendingCount : ℕ := Assoc.weight Conn.pendingCount l.conns

/-- App→QUIC messages the loop holds. -/
def backlog : ℕ := l.hub.egress.length + l.pendingCount

/-- The tunnel a message is for, if it is in the maps. -/
def entry (m : Egress) : Option StreamState :=
  (l.conns.lookup m.key).bind fun c => c.streams.lookup m.streamId

/-- No data is dequeued for a tunnel while there is data that `quiche` has not taken. -/
def Unblocked : Act → Prop
  | .egress => ∀ m ∈ l.hub.egress.head?, m.out.isData → (l.entry m).isSome → l.pendingCount = 0
  | _ => True

instance : (a : Act) → Decidable (l.Unblocked a)
  | .egress => inferInstanceAs (Decidable (∀ m ∈ l.hub.egress.head?,
      m.out.isData → (l.entry m).isSome → l.pendingCount = 0))
  | .datagram .. | .recvError | .readCredit _ | .timeout _ | .swap .. | .bridge .. => isTrue trivial

/-- Nothing new is queued. -/
def Eases (l' : Listener) : Prop := l'.hub.egress = l.hub.egress ∧ l'.hub.cap = l.hub.cap ∧
  l'.pendingCount ≤ l.pendingCount

variable {l}

theorem Eases.trans {l' l'' : Listener} (h : l.Eases l') (h' : l'.Eases l'') : l.Eases l'' :=
  ⟨h'.1.trans h.1,h'.2.1.trans h.2.1,h'.2.2.trans h.2.2⟩

theorem eases_insert {key : Bytes} {c c' : Conn} (h : l.conns.lookup key = some c)
    (hle : c'.pendingCount ≤ c.pendingCount) :
    l.Eases { l with conns := l.conns.insert key c' } := by
  refine ⟨rfl,rfl,?_⟩
  have := Assoc.weight_insert_some (f := Conn.pendingCount) h c'
  unfold pendingCount
  simp only
  omega

theorem eases_retain (l : Listener) : l.Eases (l.retain env) :=
  ⟨rfl,rfl,Assoc.weight_filter_le _ _⟩

theorem eases_serviceAt (l : Listener) (key : Bytes) : l.Eases (l.serviceAt env key) := by
  unfold serviceAt
  cases h : l.conns.lookup key with
  | none => exact ⟨rfl,rfl,le_rfl⟩
  | some c => exact eases_insert h (Server.pendingCount_service_le env l.cfg key c)

theorem eases_noteTimeout (l : Listener) (key : Bytes) : l.Eases (l.noteTimeout key) := by
  unfold noteTimeout
  cases h : l.conns.lookup key with
  | none => exact ⟨rfl,rfl,le_rfl⟩
  | some c => exact eases_insert h le_rfl

theorem eases_routePacket (l : Listener) (peer : SocketAddr) (pkt draw : Bytes) :
    l.Eases (l.routePacket env peer pkt draw).1 := by
  obtain ⟨_,_,_,he,_⟩ | ⟨hdr,c,_,hl,he⟩ | ⟨hdr,_,_,_,_,_,he⟩ := routePacket_spec env l peer pkt draw
  · rw [he]
    exact ⟨rfl,rfl,le_rfl⟩
  · rw [he]
    exact eases_insert hl (show (c.note (.recv peer pkt)).pendingCount ≤ c.pendingCount from le_rfl)
  · rw [he]
    refine ⟨rfl,rfl,(Assoc.weight_insert_le _ _ _).trans ?_⟩
    simp [Conn.pendingCount, pendingCount]

/-- A dequeued message adds one at most, and only data for a tunnel in the maps does. -/
theorem pendingCount_queue_le (l : Listener) (m : Egress) :
    (l.queue m).pendingCount ≤ l.pendingCount + 1 ∧
      ((m.out.isData → l.entry m = none) → (l.queue m).pendingCount ≤ l.pendingCount) := by
  unfold queue
  cases h : l.conns.lookup m.key with
  | none => exact ⟨Nat.le_succ _,fun _ => le_rfl⟩
  | some c =>
    have hw := Assoc.weight_insert_some (f := Conn.pendingCount) h (c.queue m.streamId m.out)
    obtain ⟨h₁,h₀⟩ := c.pendingCount_queue_le m.streamId m.out
    unfold pendingCount
    simp only
    refine ⟨by omega,fun hno => ?_⟩
    have := h₀ fun hd => by simpa [entry, h] using hno hd
    omega

/-- The channel is within its bound, and one message at most is between it and `quiche`. -/
structure Bounded (l : Listener) : Prop where
  cap : l.hub.cap = Server.EGRESS_CHANNEL_CAP
  channel : l.hub.egress.length ≤ l.hub.cap
  pending : l.pendingCount ≤ 1

theorem Bounded.eases {l' : Listener} (h : l.Bounded) (he : l.Eases l') : l'.Bounded :=
  ⟨he.2.1.trans h.cap,by rw [he.1, he.2.1]; exact h.channel,he.2.2.trans h.pending⟩

theorem new_bounded (cfg : ServerCfg) (certs : CertSource) : (new cfg certs).Bounded :=
  ⟨rfl,Nat.zero_le _,Nat.zero_le _⟩

theorem Bounded.dequeue (h : l.Bounded) {m : Egress} {rest : List Egress}
    (he : l.hub.egress = m :: rest) (hu : l.Unblocked .egress) :
    ({ l with hub := { l.hub with egress := rest } }.queue m : Listener).Bounded := by
  set l₁ : Listener := { l with hub := { l.hub with egress := rest } } with hl₁
  have hhub : (l₁.queue m).hub = l₁.hub := by
    unfold queue
    split <;> rfl
  obtain ⟨h₁,h₀⟩ := pendingCount_queue_le l₁ m
  have hlen := h.channel
  rw [he, List.length_cons] at hlen
  refine ⟨by rw [hhub]; exact h.cap,by rw [hhub]; exact (Nat.le_succ _).trans hlen,?_⟩
  by_cases hd : m.out.isData ∧ (l.entry m).isSome
  · have hz : l.pendingCount = 0 := hu m (by simp [he]) hd.1 hd.2
    exact h₁.trans (Nat.succ_le_succ hz.le)
  · refine (h₀ fun hm => ?_).trans h.pending
    have hno : l.entry m = none := by
      rw [← Option.not_isSome_iff_eq_none]
      exact fun hi => hd ⟨hm,hi⟩
    exact hno

theorem Bounded.step (h : l.Bounded) (a : Act) (hu : l.Unblocked a) : (l.step env a).Bounded := by
  have hs : (l.select env a).1.Bounded := by
    apply select_induction (C := fun _ _ _ _ => True) h (Serves.of_forall (fun _ _ _ _ => trivial) l a)
    case hroute => exact fun peer pkt draw _ => h.eases (eases_routePacket env l peer pkt draw)
    case hqueue =>
      rintro m rest rfl he
      exact h.dequeue he hu
    case htimeout => exact fun l key hl => hl.eases (eases_noteTimeout l key)
    case hservice => exact fun l key hl _ => hl.eases (eases_serviceAt env l key)
    case hswap => exact fun certPem keyPem => ⟨h.cap,h.channel,h.pending⟩
    case hbridge =>
      intro i b _
      obtain ⟨hlen,hcap⟩ := Hub.act_length_le h.channel i b
      exact ⟨hcap.trans h.cap,hlen.trans hcap.ge,h.pending⟩
  rw [Listener.step]
  split
  · exact hs.eases (eases_retain env _)
  · exact hs

end Listener

namespace Session
variable (env : Env) (s : Session)

def pendingCount : ℕ := s.conn.pendingCount

/-- App→QUIC messages the loop holds. -/
def backlog : ℕ := s.hub.egress.length + s.pendingCount

/-- No data is dequeued for a tunnel while there is data that `quiche` has not taken. -/
def Unblocked : Act → Prop
  | .egress => ∀ m ∈ s.hub.egress.head?, m.out.isData →
      (s.conn.streams.lookup m.streamId).isSome → s.pendingCount = 0
  | _ => True

instance : (a : Act) → Decidable (s.Unblocked a)
  | .egress => inferInstanceAs (Decidable (∀ m ∈ s.hub.egress.head?,
      m.out.isData → (s.conn.streams.lookup m.streamId).isSome → s.pendingCount = 0))
  | .packet _ | .recvError | .openReq _ | .readCredit | .timeout | .bridge .. => isTrue trivial

/-- The channel is within its bound, and one message at most is between it and `quiche`. -/
structure Bounded (s : Session) : Prop where
  cap : s.hub.cap = Client.EGRESS_CHANNEL_CAP
  channel : s.hub.egress.length ≤ s.hub.cap
  pending : s.pendingCount ≤ 1

variable {s}

theorem Bounded.finish (h : s.Bounded) : s.finish.Bounded :=
  ⟨h.cap,Nat.zero_le _,Nat.zero_le _⟩

theorem Bounded.servePending (h : s.Bounded) : (s.servePending env).Bounded := by
  unfold Session.servePending
  split
  · exact h
  · rename_i req hp
    split
    · exact ⟨h.cap,h.channel,
        (Client.pendingCount_openStream_le env s.cfg s.conn req).trans h.pending⟩
    · exact h

theorem Bounded.service (h : s.Bounded) : (s.service env).Bounded := by
  have h' : Bounded { s with conn := (flushPackets env (exchange env Client.handleEvent s.conn)).1 } := by
    refine ⟨h.cap,h.channel,le_trans ?_ h.pending⟩
    exact pendingCount_exchange_le env Client.pendingCount_handleEvent_le s.conn
  unfold Session.service
  simp only
  split
  · exact h'.servePending env
  · exact h'.finish

theorem Bounded.dequeue (h : s.Bounded) {m : Egress} {rest : List Egress}
    (he : s.hub.egress = m :: rest) (hu : s.Unblocked .egress) :
    Bounded { s with conn := s.conn.queue m.streamId m.out, hub := { s.hub with egress := rest } } := by
  obtain ⟨h₁,h₀⟩ := s.conn.pendingCount_queue_le m.streamId m.out
  have hlen := h.channel
  rw [he, List.length_cons] at hlen
  refine ⟨h.cap,(Nat.le_succ _).trans hlen,?_⟩
  by_cases hd : m.out.isData ∧ (s.conn.streams.lookup m.streamId).isSome
  · have hz : s.pendingCount = 0 := hu m (by simp [he]) hd.1 hd.2
    exact h₁.trans (Nat.succ_le_succ hz.le)
  · refine (h₀ fun hm => ?_).trans h.pending
    simpa [hm] using hd

theorem Bounded.step (h : s.Bounded) (a : Act) (hu : s.Unblocked a) : (s.step env a).Bounded := by
  apply step_induction (C := fun _ _ _ => True) h (Serves.of_forall (fun _ _ _ => trivial) s a)
  case hnote => exact fun call _ => ⟨h.cap,h.channel,h.pending⟩
  case hopen => exact fun req => ⟨h.cap,h.channel,h.pending⟩
  case hqueue =>
    rintro m rest rfl he
    exact h.dequeue he hu
  case hservice => exact fun s' _ hs' _ => hs'.service env
  case hfinish => exact h.finish
  case hbridge =>
    intro i b _
    obtain ⟨hlen,hcap⟩ := Hub.act_length_le h.channel i b
    exact ⟨hcap.trans h.cap,hlen.trans hcap.ge,h.pending⟩

theorem start_bounded (cfg : ClientCfg) (peer : SocketAddr) (scid : Bytes) (first : OpenReq) :
    (start env cfg peer scid first).Bounded :=
  Bounded.servePending env ⟨rfl,Nat.zero_le _,Nat.zero_le _⟩

end Session

/-- Backpressure: a loop that takes no data from the channel while it holds data back never holds
more than the channel does, and the message it is working on. -/
theorem backlog_bounded (env : ServerEnv) (cfg : ServerCfg) (certs : CertSource)
    (acts : List Listener.Act)
    (hl : Run.Meets (Listener.step env) Listener.Unblocked (Listener.new cfg certs) acts)
    (env' : Env) (cfg' : ClientCfg) (peer : SocketAddr) (scid : Bytes) (first : OpenReq)
    (acts' : List Session.Act)
    (hs : Run.Meets (Session.step env') Session.Unblocked (Session.start env' cfg' peer scid first)
      acts') :
    (Run.run (Listener.step env) (Listener.new cfg certs) acts).backlog ≤
        Server.EGRESS_CHANNEL_CAP + 1 ∧
      (Run.run (Session.step env') (Session.start env' cfg' peer scid first) acts').backlog ≤
        Client.EGRESS_CHANNEL_CAP + 1 := by
  constructor
  · have hb := hl.induction (fun l a hl hu => hl.step env a hu) (Listener.new_bounded cfg certs)
    have := hb.cap
    have := hb.channel
    have := hb.pending
    unfold Listener.backlog
    omega
  · have hb := hs.induction (fun s a hs hu => hs.step env' a hu)
      (Session.start_bounded env' cfg' peer scid first)
    have := hb.cap
    have := hb.channel
    have := hb.pending
    unfold Session.backlog
    omega

/-- One write on either side that is dequeued and taken. -/
theorem backlog_bounded_firstWrite :
    (Run.run (Listener.step ServerEnv.dialed) Listener.fresh
        [.datagram ⟨[127,0,0,1],40000⟩ [1] [2],.bridge 0 (.dialed true),.bridge 0 (.write [1] .ready),
          .egress]).backlog ≤ Server.EGRESS_CHANNEL_CAP + 1 ∧
      (Run.run (Session.step Env.dialer) (Session.dialed Env.dialer)
        [.bridge 0 (.write [1] .ready),.egress]).backlog ≤ Client.EGRESS_CHANNEL_CAP + 1 :=
  backlog_bounded ServerEnv.dialed _ _ _ (by decide) Env.dialer _ _ _ _ _ (by decide)

namespace Session

/-- A client whose peer keeps its flow-control window shut. -/
def stalled : Env :=
  { Env.dialer with
    sendBody := fun _ _ _ _ => .done
    sendBody_le := by simp }

/-- The bridge writes a byte, and the loop dequeues it. -/
def round : List Act := [.bridge 0 (.write [0] .ready),.egress]

/-- The tunnel holds `k` messages back while its bridge can go on. -/
structure Holding (k : ℕ) (s : Session) : Prop where
  running : s.running = true
  unparked : s.pending = none
  channel : s.hub.rxOpen = true ∧ s.hub.egress = [] ∧ s.hub.cap = Client.EGRESS_CHANNEL_CAP
  bridge : ∃ rx written, s.hub.bridges = [⟨.new [] 0 rx,.copying,written⟩]
  held : ∃ st, s.conn.streams.lookup 0 = some st ∧ st.pending.length = k ∧ st.closed = false

variable {k : ℕ} {s : Session}

theorem dialed_holding : Holding 0 (dialed stalled) :=
  ⟨rfl,rfl,⟨rfl,rfl,rfl⟩,⟨3,[],rfl⟩,⟨.tunnel 3,by decide,rfl,rfl⟩⟩

theorem pumpStream_stalled (sid : ℕ) (t : Trace) (st : StreamState) :
    (pumpStream stalled sid t st).2.pending = st.pending := by
  have hd : (drainPending stalled sid st.pending t st).2.pending = st.pending := by
    cases hp : st.pending <;> rfl
  change (sendFin stalled sid (drainPending stalled sid st.pending t st).1
    (drainPending stalled sid st.pending t st).2).2.pending = st.pending
  obtain he | ⟨_,_,_,a,he,_⟩ := sendFin_spec stalled sid
    (drainPending stalled sid st.pending t st).1 (drainPending stalled sid st.pending t st).2
  · rw [he, hd]
  · rw [he]
    exact hd

/-- What is pending stays so through the passes of the loop. -/
theorem held_exchange {c : Conn} {n : ℕ}
    (h : ∃ st, c.streams.lookup 0 = some st ∧ st.pending.length = n ∧ st.closed = false) :
    ∃ st, (exchange stalled Client.handleEvent c).streams.lookup 0 = some st ∧
      st.pending.length = n ∧ st.closed = false := by
  refine exchange_induction stalled (C := fun _ _ => False)
    (P := fun c => ∃ st, c.streams.lookup 0 = some st ∧ st.pending.length = n ∧ st.closed = false)
    h trivial (fun _ _ _ hf => hf.elim) ?_ ?_ ?_
  · rintro c sid ⟨st,hl,hn,hc⟩
    obtain he | ⟨st',st'',new,hl',he,_,hs⟩ := pumpInboundAt_spec stalled c sid
    · exact ⟨st,by rw [he, hl],hn,hc⟩
    · by_cases hk : 0 = sid
      · subst sid
        cases hl.symm.trans hl'
        exact ⟨st'',by simp [he],by rw [hs.1, hn],by rw [hs.2.2.2, hc]⟩
      · exact ⟨st,by simp [he, hk, hl],hn,hc⟩
  · rintro c sid ⟨st,hl,hn,hc⟩
    unfold pumpOutboundAt
    cases hl' : c.streams.lookup sid with
    | none => exact ⟨st,hl,hn,hc⟩
    | some st' =>
      by_cases hk : 0 = sid
      · subst sid
        cases hl.symm.trans hl'
        obtain ⟨_,_,_,hcl,_,_⟩ := pumpStream_spec stalled 0 c.quic st
        exact ⟨_,by simp only [Conn.put_lookup, if_true],by rw [pumpStream_stalled, hn],hcl.trans hc⟩
      · exact ⟨st,by simp [hk, hl],hn,hc⟩
  · rintro c sid ⟨st,hl,hn,hc⟩
    obtain he | ⟨st',new,hl',hclosed,_,he,_⟩ := reapAt_spec stalled c sid
    · exact ⟨st,by rw [he, hl],hn,hc⟩
    · have hk : 0 ≠ sid := by
        rintro rfl
        cases hl.symm.trans hl'
        exact absurd (hclosed.symm.trans hc) (by simp)
      exact ⟨st,by rw [he, Conn.remove_lookup, if_neg hk, hl],hn,hc⟩

theorem Holding.round (h : Holding k s) : Holding (k + 1) (Run.run (step stalled) s round) := by
  obtain ⟨hrun,hpend,⟨hopen,hegress,hcap⟩,⟨rx,written,hb⟩,st,hl,hn,hc⟩ := h
  have hbridge : s.hub.act 0 (.write [0] .ready) =
      { s.hub with
        bridges := [⟨.new [] 0 rx,.copying,written ++ [[0]]⟩]
        egress := [⟨[],0,.data [0]⟩] } := by
    have hans : s.hub.Answers .ready := ⟨hopen,by rw [hegress, hcap]; decide⟩
    simp [Hub.act, hb, BridgeAct.reserve, hans, Bridge.act, QuicStream.pollWrite, QuicStream.new,
      QuicStream.egress, hegress]
  obtain ⟨st',hl',hn',hc'⟩ := held_exchange (c := s.conn.queue 0 (.data [0])) (n := k + 1)
    ⟨st.queue (.data [0]),by simp [Conn.queue, hl],by simp [StreamState.queue, hn],hc⟩
  have hs : Run.run (step stalled) s Session.round = { s with
      conn := (flushPackets stalled (exchange stalled Client.handleEvent (s.conn.queue 0 (.data [0])))).1
      hub := { s.hub with bridges := [⟨.new [] 0 rx,.copying,written ++ [[0]]⟩], egress := [] } } := by
    simp only [Session.round, Run.run_cons, Run.run_nil, step, select, hbridge, hrun]
    simp [Session.service, flushPackets, stalled, Env.dialer, Env.idle, Session.servePending, hpend]
  rw [hs]
  exact ⟨hrun,hpend,⟨hopen,rfl,hcap⟩,⟨rx,_,rfl⟩,st',hl',hn',hc'⟩

theorem Holding.rounds (h : Holding 0 s) (k : ℕ) :
    Holding k (Run.run (step stalled) s (List.replicate k Session.round).flatten) := by
  induction k with
  | zero => exact h
  | succ k ih =>
    rw [List.replicate_succ', List.flatten_append, Run.run_append, List.flatten_singleton]
    exact ih.round

/-- While the peer keeps its window shut the loop goes on dequeuing, so it holds any number of
messages. -/
theorem backlog_unbounded :
    ¬ ∃ bound, ∀ (env : Env) (cfg : ClientCfg) (peer : SocketAddr) (scid : Bytes) (first : OpenReq)
      (acts : List Act), (Run.run (step env) (start env cfg peer scid first) acts).backlog ≤ bound := by
  rintro ⟨bound,h⟩
  have hle : backlog (Run.run (step stalled) (dialed stalled)
      (List.replicate (bound + 1) Session.round).flatten) ≤ bound := h stalled _ _ _ _ _
  obtain ⟨st,hl,hn,_⟩ := (dialed_holding.rounds (bound + 1)).held
  have hw := Assoc.le_weight (f := fun st : StreamState => st.pending.length) hl
  have hlt : bound < backlog (Run.run (step stalled) (dialed stalled)
      (List.replicate (bound + 1) Session.round).flatten) := by
    unfold backlog pendingCount Conn.pendingCount
    omega
  exact absurd hle hlt.not_ge

end Session
end EchTunnel
