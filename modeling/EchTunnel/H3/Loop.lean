import EchTunnel.H3.Watched

/-! An event loop of either role, its inbound channels, and the bridges that read from them. The loop
and the bridges take turns at every point where one could see what the other has done. -/
namespace EchTunnel
open Wire

/-- The index of the last occurrence. -/
def newest {α : Type*} [DecidableEq α] (a : α) : List α → Option ℕ
  | [] => none
  | b :: l =>
    match newest a l with
    | some i => some (i + 1)
    | none => if b = a then some 0 else none

section Newest
variable {α : Type*} [DecidableEq α] {a : α} {l : List α}

theorem getElem?_of_newest {i : ℕ} (h : newest a l = some i) : l[i]? = some a := by
  induction l generalizing i with
  | nil => contradiction
  | cons b l ih =>
    rw [newest] at h
    split at h
    · rename_i j hj
      cases h
      exact ih hj
    · obtain ⟨rfl,⟨⟩⟩ := Option.ite_none_right_eq_some.mp h
      rfl

theorem newest_isSome (h : a ∈ l) : (newest a l).isSome := by
  induction l with
  | nil => contradiction
  | cons b l ih =>
    rw [newest]
    split
    · rfl
    · rename_i hn
      rcases List.mem_cons.mp h with rfl | h
      · simp
      · simp [hn] at ih
        exact absurd h ih

theorem newest_append {l' : List α} (h : a ∉ l') : newest a (l ++ l') = newest a l := by
  induction l with
  | nil =>
    cases hn : newest a l' with
    | none => rw [List.nil_append, hn, newest]
    | some i => exact absurd (List.mem_of_getElem? (getElem?_of_newest hn)) h
  | cons b l ih => rw [List.cons_append, newest, ih, newest]

end Newest
namespace QuicStream

/-- The connection, the stream and the inbound channel of an adapter. -/
def name (s : QuicStream) : Bytes × ℕ × ℕ := (s.key,s.streamId,s.rx)

/-- One turn of the loop in `poll_read`, and whether it took a chunk out of the channel. -/
def readTurn (s : QuicStream) (senders : Bool) (n : ℕ) (queue : List Bytes) :
    QuicStream × List Bytes × Bool :=
  match s.takeBuffered n with
  | some (_,s) => (s,queue,false)
  | none =>
    match queue with
    | b :: rest => ({ s with rxBuf := b },rest,true)
    | [] => (if senders then s else { s with rxEof := true },[],false)

/-- `poll_read` is turns of its loop until one takes no chunk. -/
theorem pollRead_readTurn (s : QuicStream) (senders : Bool) (n : ℕ) (queue : List Bytes) :
    (s.pollRead senders n queue).2 =
      match s.readTurn senders n queue with
      | (s,queue,true) => (s.pollRead senders n queue).2
      | (s,queue,false) => (s,queue) := by
  cases queue with
  | nil =>
    rw [pollRead, readTurn]
    cases s.takeBuffered n with
    | some p => rfl
    | none =>
      cases senders
      · rfl
      · rfl
  | cons b rest =>
    rw [pollRead, readTurn]
    cases s.takeBuffered n with
    | some p => rfl
    | none => rfl

theorem readTurn_name (s : QuicStream) (senders : Bool) (n : ℕ) (queue : List Bytes) :
    (s.readTurn senders n queue).1.name = s.name := by
  unfold readTurn takeBuffered
  split
  · rename_i h
    split_ifs at h
    · cases h
      rfl
    · cases h
      rfl
  · split
    · rfl
    · cases senders
      · rfl
      · rfl

/-- A turn that takes no chunk leaves the channel as it is. -/
theorem readTurn_queue (s : QuicStream) (senders : Bool) (n : ℕ) (queue : List Bytes) :
    (s.readTurn senders n queue).2.2 = true ∨ (s.readTurn senders n queue).2.1 = queue := by
  unfold readTurn
  split
  · exact Or.inr rfl
  · cases queue with
    | nil => exact Or.inr rfl
    | cons b rest => exact Or.inl rfl

end QuicStream

def Bridge.name (b : Bridge) : Bytes × ℕ × ℕ := b.stream.name

namespace Hub

def names (h : Hub) : List (Bytes × ℕ × ℕ) := h.bridges.map Bridge.name

/-- The bridge that has the receiver of an inbound channel. -/
def reader (h : Hub) (name : Bytes × ℕ × ℕ) : Option ℕ := newest name h.names

end Hub

/-- The two users of the event loop. -/
inductive Role
  | server (env : ServerEnv) (cfg : ServerCfg)
  | client (env : Env) (cfg : ClientCfg) (peer : SocketAddr) (scid : Bytes) (first : OpenReq)

namespace Role

def env : Role → Env
  | server env _ => env.toEnv
  | client env .. => env

/-- The calls that give a tunnel its stream. -/
def Grants : Role → ℕ → Call → Prop
  | server .. => Server.Grants
  | client .. => Client.Grants

/-- The HTTP/3 layer of a connection may come up later than the connection. -/
def lazy : Role → Bool
  | server .. => true
  | client .. => false

/-- The arms of its `poll_h3`. -/
def handleEvent (key : Bytes) : Role → Conn → ℕ → H3Event → Conn
  | server env cfg => Server.handleEvent env cfg key
  | client .. => Client.handleEvent

/-- The connection as it is polled, if it is. -/
def polled : Role → Conn → Option Conn
  | server env cfg, c => Server.polled env cfg c
  | client .., c => some c

/-- What becomes of a connection that is not polled. -/
def skip (key : Bytes) : Role → Conn → Conn
  | server env cfg, c => Server.service env cfg key c
  | client .., c => c

/-- Where a new bridge starts. -/
def phase : Role → Phase
  | server .. => .dialing
  | client .. => .copying

/-- The connection a message is for. The client has only one, and ignores the key. -/
def route : Role → Bytes → Bytes
  | server .., key => key
  | client .., _ => []

end Role

/-- An inbound channel and its reader. The reader `owes` a `notify_one` from when it has taken a chunk
out of the channel until it makes the call. -/
structure Inlet where
  queue : List Bytes
  owes : Bool

/-- The parts of a turn of the loop. -/
inductive Task
  | service (expired : Bool) (key : Bytes)
  | visit (key : Bytes) (sid : ℕ)
  | turn (key : Bytes) (sid : ℕ)
  | rest (key : Bytes)
  | retain

/-- An event loop. The `i`-th inlet is the inbound channel of the `i`-th bridge, `credit` is the permit
in `read_credit`, and `todo` is what is left of the turn: the loop is parked when that is nothing. -/
structure Loop where
  conns : AList fun _ : Bytes => Conn
  pending : Option OpenReq
  hub : Hub
  inlets : ℕ → Inlet
  credit : Bool
  todo : List Task
  running : Bool

/-- Only a turn that got a permit puts a chunk into the channel. -/
theorem pumpTurn_some {env : Env} {sid : ℕ} {slot : Slot} {t t' : Trace} {st st' : StreamState}
    {chunk : Bytes} (h : pumpTurn env sid slot t st = (t',st',some chunk)) :
    slot = .permit ∧ st' = st := by
  cases slot with
  | permit =>
    refine ⟨rfl,?_⟩
    simp only [pumpTurn] at h
    split at h
    · exact (Prod.mk.inj (Prod.mk.inj h).2).1.symm
    · simp at h
    · simp at h
  | full => simp [pumpTurn] at h
  | closed => simp [pumpTurn] at h

namespace Loop

def start : Role → Loop
  | .server .. =>
    ⟨∅,none,Hub.new Server.EGRESS_CHANNEL_CAP,fun _ => ⟨[],false⟩,false,[],true⟩
  | .client env cfg peer scid first =>
    let s := Session.start env cfg peer scid first
    ⟨(∅ : AList _).insert [] s.conn,s.pending,s.hub,fun _ => ⟨[],false⟩,false,[],true⟩

def put (s : Loop) (key : Bytes) (c : Conn) : Loop := { s with conns := s.conns.insert key c }

def entry (s : Loop) (key : Bytes) (sid : ℕ) : Option StreamState :=
  (s.conns.lookup key).bind fun c => c.streams.lookup sid

/-- The answer of `try_reserve` on an inbound channel. -/
def slot (s : Loop) (name : Bytes × ℕ × ℕ) : Slot :=
  match s.hub.reader name with
  | none => .closed
  | some i =>
    match s.hub.bridges[i]? with
    | none => .closed
    | some b =>
      if ¬ b.Live then .closed
      else if INBOUND_CHANNEL_CAP ≤ (s.inlets i).queue.length then .full
      else .permit

/-- Put a chunk into an inbound channel. -/
def push (s : Loop) (name : Bytes × ℕ × ℕ) (chunk : Bytes) : Loop :=
  match s.hub.reader name with
  | none => s
  | some i =>
    let inlet := s.inlets i
    { s with inlets := Function.update s.inlets i { inlet with queue := inlet.queue ++ [chunk] } }

/-- The sender of the inbound channel of the `i`-th bridge is still held. -/
def senders (s : Loop) (i : ℕ) (b : Bridge) : Bool :=
  s.hub.reader b.name = some i ∧
    (s.entry b.stream.key b.stream.streamId).bind StreamState.inboundTx = some b.stream.rx

/-- The loop waits in `select!`. -/
def Parked (s : Loop) : Prop := s.running = true ∧ s.todo = []

instance (s : Loop) : Decidable s.Parked := inferInstanceAs (Decidable (_ ∧ _))

variable (r : Role)

/-- Hand the bridges that a connection has spawned to the runtime. -/
def adopt (s : Loop) (key : Bytes) (c : Conn) : Loop :=
  { s.put key { c with spawned := [] } with
    hub := s.hub.spawn (c.spawned.map fun q => ⟨q,r.phase,[]⟩) }

/-- The first part of `service`, up to the visits of the streams. -/
def service (s : Loop) (expired : Bool) (key : Bytes) : Loop :=
  match s.conns.lookup key with
  | none => s
  | some c =>
    let c := if expired then c.note .onTimeout else c
    match r.polled c with
    | none => s.put key (r.skip key c)
    | some c =>
      let c := pollH3 r.env (r.handleEvent key) c
      { s.adopt r key c with
        todo := (r.env.order c.quic c.streams.keys).map (.visit key) ++ .rest key :: s.todo }

/-- The body of `pump_inbound` for one stream, up to its inner loop. -/
def visit (s : Loop) (key : Bytes) (sid : ℕ) : Loop :=
  match s.conns.lookup key with
  | none => s
  | some c =>
    match c.streams.lookup sid with
    | none => s
    | some st =>
      if ¬ st.readable then s else
      match st.inboundTx with
      | none => s.put key (c.put sid c.quic { st with readable := false })
      | some _ => { s with todo := .turn key sid :: s.todo }

/-- One turn of the inner loop of `pump_inbound`. -/
def turn (s : Loop) (key : Bytes) (sid : ℕ) : Loop :=
  match s.conns.lookup key with
  | none => s
  | some c =>
    match c.streams.lookup sid with
    | none => s
    | some st =>
      match st.inboundTx with
      | none => s
      | some rx =>
        match pumpTurn r.env sid (s.slot (key,sid,rx)) c.quic st with
        | (t,st,none) => s.put key (c.put sid t st)
        | (t,st,some chunk) =>
          { (s.push (key,sid,rx) chunk).put key (c.put sid t st) with
            todo := .turn key sid :: s.todo }

/-- `session` returns. -/
def finish (s : Loop) : Loop :=
  { s with
    conns := ∅
    pending := none
    hub := { s.hub with egress := [], rxOpen := false }
    todo := []
    running := false }

/-- The top of the client's loop: serve a parked request. -/
def servePending (env : Env) (cfg : ClientCfg) (s : Loop) (key : Bytes) (c : Conn) : Loop :=
  match s.pending with
  | none => s
  | some req =>
    if env.extendedConnectEnabledByPeer c.quic then
      let (c,pending) := Client.openStream env cfg c req
      { s.adopt r key c with pending }
    else s

/-- What a loop does to a connection after `pump_inbound`. -/
def rest (s : Loop) (key : Bytes) : Loop :=
  match s.conns.lookup key with
  | none => s
  | some c =>
    let (c,ok) := flushPackets r.env (reapStreams r.env (pumpOutbound r.env c))
    match r with
    | .server .. => s.put key c
    | .client env cfg .. =>
      if ok ∧ ¬ env.isClosed c.quic then servePending r env cfg (s.put key c) key c else s.finish

def perform (s : Loop) : Task → Loop
  | .service expired key => s.service r expired key
  | .visit key sid => s.visit key sid
  | .turn key sid => s.turn r key sid
  | .rest key => s.rest r key
  | .retain => { s with conns := Assoc.filter (fun c => !r.env.isClosed c.quic) s.conns }

/-- What a branch of `select!` leaves the loop to do for these connections. -/
def await (s : Loop) (expired : Bool) (keys : List Bytes) : Loop :=
  { s with
    todo := keys.map (.service expired) ++
      match r with
      | .server .. => [.retain]
      | .client .. => [] }

/-- `work` is the next part of the loop's turn. A bridge reads in turns of `poll_read`, and is not in
the middle of one when it does anything else. The others are branches of `select!`; `accept` is a
packet that opens a connection, `recvError` a failed receive. -/
inductive Act
  | work
  | bridge (i : ℕ) (a : BridgeAct)
  | read (i n : ℕ)
  | notify (i : ℕ)
  | packet (key : Bytes) (peer : SocketAddr) (pkt : Bytes)
  | accept (key : Bytes) (peer : SocketAddr) (odcid pkt : Bytes)
  | recvError
  | egress
  | readCredit (order : List Bytes)
  | timeout (order : List Bytes)
  | openReq (req : OpenReq)

/-- A turn of `poll_read` on the `i`-th bridge. -/
def read (s : Loop) (i n : ℕ) : Loop :=
  match s.hub.bridges[i]? with
  | none => s
  | some b =>
    if b.phase = .copying ∧ ¬ (s.inlets i).owes then
      let (stream,queue,owes) := b.stream.readTurn (s.senders i b) n (s.inlets i).queue
      { s with
        hub := { s.hub with bridges := s.hub.bridges.set i { b with stream } }
        inlets := Function.update s.inlets i ⟨queue,owes⟩ }
    else s

/-- The call of `notify_one` that a turn of `poll_read` owes. -/
def notify (s : Loop) (i : ℕ) : Loop :=
  if (s.inlets i).owes then
    let inlet := s.inlets i
    { s with inlets := Function.update s.inlets i { inlet with owes := false }, credit := true }
  else s

/-- A message for a connection has been dequeued. -/
def dequeue (s : Loop) (m : Egress) (rest : List Egress) : Loop :=
  let s := { s with hub := { s.hub with egress := rest } }
  match s.conns.lookup (r.route m.key) with
  | none => s
  | some c => s.put (r.route m.key) (c.queue m.streamId m.out)

/-- A parked loop takes a branch of `select!`. -/
def select (s : Loop) : Act → Loop
  | .packet key peer pkt =>
    match s.conns.lookup key with
    | none => s
    | some c => (s.put key (c.note (.recv peer pkt))).await r false [key]
  | .accept key peer odcid pkt =>
    match r with
    | .server .. =>
      (s.put key ⟨[.recv peer pkt,.accept peer odcid key],false,∅,[]⟩).await r false [key]
    | .client .. => s
  | .recvError =>
    match r with
    | .server .. => s
    | .client .. => s.finish
  | .egress =>
    match s.hub.egress with
    | [] => s
    | m :: rest => (s.dequeue r m rest).await r false [r.route m.key]
  | .readCredit order =>
    if s.credit ∧ order.Perm s.conns.keys then { s with credit := false }.await r false order else s
  | .timeout order => if order.Perm s.conns.keys then s.await r true order else s
  | .openReq req =>
    match r with
    | .server .. => s
    | .client .. => if s.pending.isNone then { s with pending := some req }.await r false [[]] else s
  | .work | .bridge .. | .read .. | .notify .. => s

def step (s : Loop) : Act → Loop
  | .work =>
    match s.running, s.todo with
    | true, task :: todo => { s with todo }.perform r task
    | _, _ => s
  | .bridge i a => if (s.inlets i).owes then s else { s with hub := s.hub.act i a }
  | .read i n => s.read i n
  | .notify i => s.notify i
  | a => if s.Parked then s.select r a else s

/-- What `try_reserve` answers until the channel is full, when its reader does not move. -/
def slots (s : Loop) (name : Bytes × ℕ × ℕ) : List Slot :=
  match s.hub.reader name with
  | none => [.closed]
  | some i =>
    match s.hub.bridges[i]? with
    | none => [.closed]
    | some b =>
      if ¬ b.Live then [.closed]
      else List.replicate (INBOUND_CHANNEL_CAP - (s.inlets i).queue.length) .permit

theorem slots_cases (s : Loop) (name : Bytes × ℕ × ℕ) :
    s.slot name = .closed ∧ s.slots name = [.closed] ∨ s.slot name = .full ∧ s.slots name = [] ∨
      s.slot name = .permit ∧ ∀ chunk, s.slots name = .permit :: (s.push name chunk).slots name := by
  unfold slots slot push
  cases hi : s.hub.reader name with
  | none => exact Or.inl ⟨rfl,rfl⟩
  | some i =>
    cases hb : s.hub.bridges[i]? with
    | none => exact Or.inl ⟨by simp [hb],by simp [hb]⟩
    | some b =>
      by_cases hlive : b.Live
      · by_cases hfull : INBOUND_CHANNEL_CAP ≤ (s.inlets i).queue.length
        · refine Or.inr (Or.inl ⟨by simp [hb, hlive, hfull],?_⟩)
          simp [hb, hlive, Nat.sub_eq_zero_of_le hfull]
        · refine Or.inr (Or.inr ⟨by simp [hb, hlive, hfull],fun chunk => ?_⟩)
          have hroom : INBOUND_CHANNEL_CAP - (s.inlets i).queue.length =
              INBOUND_CHANNEL_CAP - ((s.inlets i).queue ++ [chunk]).length + 1 := by
            rw [List.length_append, List.length_singleton]
            omega
          simp only [hi, hb, hlive, not_true, if_false, Function.update_self, hroom,
            List.replicate_succ]
      · exact Or.inl ⟨by simp [hb, hlive],by simp [hb, hlive]⟩

variable {r}

theorem push_slots (s : Loop) (todo todo' : List Task) (name : Bytes × ℕ × ℕ) (chunk : Bytes)
    (key : Bytes) (c : Conn) :
    slots { ({ s with todo }.push name chunk).put key c with todo := todo' } name =
      (s.push name chunk).slots name := by
  unfold slots push
  cases s.hub.reader name with
  | none => rfl
  | some i => rfl

theorem push_conns (s : Loop) (name : Bytes × ℕ × ℕ) (chunk : Bytes) :
    (s.push name chunk).conns = s.conns := by
  unfold push
  split <;> rfl

theorem push_running (s : Loop) (name : Bytes × ℕ × ℕ) (chunk : Bytes) :
    (s.push name chunk).running = s.running := by
  unfold push
  split <;> rfl

theorem step_work {s : Loop} {task : Task} {todo : List Task} (hr : s.running = true)
    (ht : s.todo = task :: todo) : step r s .work = { s with todo }.perform r task := by
  rw [step]
  split
  · rename_i task' todo' _ ht'
    obtain ⟨rfl,rfl⟩ := List.cons.inj (ht.symm.trans ht')
    rfl
  · rename_i hno
    exact absurd ht (hno _ _ hr)

theorem step_turn {s : Loop} {todo : List Task} {key : Bytes} {sid rx : ℕ} {c : Conn}
    {st : StreamState} (hr : s.running = true) (ht : s.todo = .turn key sid :: todo)
    (hl : s.conns.lookup key = some c) (hst : c.streams.lookup sid = some st)
    (hrx : st.inboundTx = some rx) :
    step r s .work =
      match pumpTurn r.env sid (s.slot (key,sid,rx)) c.quic st with
      | (t,st,none) => { s with todo }.put key (c.put sid t st)
      | (t,st,some chunk) =>
        { ({ s with todo }.push (key,sid,rx) chunk).put key (c.put sid t st) with
          todo := .turn key sid :: todo } := by
  rw [step_work hr ht, perform, turn]
  simp only [hl, hst, hrx]
  rfl

/-- Left alone, the turns of a visit are the inner loop of `pump_inbound`. -/
theorem turns_pumpTurns {s : Loop} {todo : List Task} {key : Bytes} {sid rx : ℕ} {c : Conn}
    {st : StreamState} (hr : s.running = true) (ht : s.todo = .turn key sid :: todo)
    (hl : s.conns.lookup key = some c) (hst : c.streams.lookup sid = some st)
    (hrx : st.inboundTx = some rx) :
    ∃ n, let s' := Run.run (step r) s (List.replicate n .work)
      let p := pumpTurns r.env sid (s.slots (key,sid,rx)) c.quic st
      s'.todo = todo ∧ s'.conns = s.conns.insert key (c.put sid p.1 p.2) := by
  induction hslots : s.slots (key,sid,rx) generalizing s c with
  | nil =>
    obtain ⟨_,he⟩ | ⟨hslot,_⟩ | ⟨_,he⟩ := s.slots_cases (key,sid,rx)
    · exact absurd (he.symm.trans hslots) (by simp)
    · refine ⟨1,?_⟩
      rw [List.replicate_one, Run.run_cons, step_turn hr ht hl hst hrx, hslot]
      exact ⟨rfl,rfl⟩
    · exact absurd ((he []).symm.trans hslots) (by simp)
  | cons slot slots ih =>
    obtain ⟨hslot,htail⟩ : s.slot (key,sid,rx) = slot ∧
        (slot = .permit → ∀ chunk, (s.push (key,sid,rx) chunk).slots (key,sid,rx) = slots) := by
      obtain ⟨hs,he⟩ | ⟨_,he⟩ | ⟨hs,he⟩ := s.slots_cases (key,sid,rx)
      · obtain ⟨rfl,_⟩ := List.cons.inj (hslots.symm.trans he)
        exact ⟨hs,by simp⟩
      · exact absurd (he.symm.trans hslots) (by simp)
      · obtain ⟨rfl,_⟩ := List.cons.inj (hslots.symm.trans (he []))
        exact ⟨hs,fun _ chunk => (List.cons.inj ((he chunk).symm.trans hslots)).2⟩
    have hstep := step_turn (r := r) hr ht hl hst hrx
    rw [hslot] at hstep
    rw [pumpTurns]
    cases hp : pumpTurn r.env sid slot c.quic st with
    | mk t p =>
      obtain ⟨st',chunk⟩ := p
      rw [hp] at hstep
      cases chunk with
      | none =>
        refine ⟨1,?_⟩
        rw [List.replicate_one, Run.run_cons, hstep]
        exact ⟨rfl,rfl⟩
      | some chunk =>
        obtain ⟨hpermit,rfl⟩ := pumpTurn_some hp
        obtain ⟨n,htodo,hconns⟩ := ih (s := step r s .work) (c := c.put sid t st')
          (by rw [hstep]; exact (push_running _ _ _).trans hr) (by rw [hstep])
          (by rw [hstep]; exact AList.lookup_insert _) (by simp)
          (by rw [hstep, push_slots]; exact htail hpermit chunk)
        refine ⟨n + 1,htodo,hconns.trans ?_⟩
        rw [hstep]
        simp only [put, push_conns, AList.insert_insert, Conn.put]

/-- A datagram that `route_packet` hands to a connection is a packet for it, or opens it. -/
theorem routePacket_step (env : ServerEnv) (cfg : ServerCfg) {s : Loop} {l : Listener}
    (hp : s.Parked) (hc : s.conns = l.conns) (peer : SocketAddr) (pkt draw : Bytes) :
    let routed := l.routePacket env peer pkt draw
    routed.2 = none ∧ routed.1.conns = s.conns ∨ ∃ key a, routed.2 = some key ∧
      (s.step (.server env cfg) a).conns = routed.1.conns ∧
        (s.step (.server env cfg) a).todo = [.service false key,.retain] := by
  intro routed
  obtain ⟨_,_,_,he,_⟩ | ⟨hdr,c,_,hl,he⟩ | ⟨hdr,_,_,_,_,_,he⟩ := l.routePacket_spec env peer pkt draw
  · left
    rw [show routed = _ from he]
    exact ⟨rfl,hc.symm⟩
  · refine Or.inr ⟨hdr.dcid,.packet hdr.dcid peer pkt,?_⟩
    rw [show routed = _ from he]
    simp [step, hp, select, hc, hl, await, put]
  · refine Or.inr ⟨draw,.accept draw peer hdr.dcid pkt,?_⟩
    rw [show routed = _ from he]
    simp [step, hp, select, hc, await, put]

end Loop
end EchTunnel
