import EchTunnel.Library.Conveys
import EchTunnel.H3.Loop
import EchTunnel.Quic.Ingress
import EchTunnel.Quic.Plumbing
import EchTunnel.Ws.HalfClose

/-! An end of an HTTP/3 tunnel: the event loop's side of one stream, the channels between it and the
bridge, and the copy of the bridge between the stream and a local socket. -/
namespace EchTunnel
open Wire

/-- The size of the buffers of `copy_bidirectional`. -/
def COPY_BUF_SIZE : ℕ := 8192

/-- The most that a read into the buffer can be given. Bytes that have been written out keep their place
until all of the buffer has been. -/
def CopyBuffer.room (b : CopyBuffer) : ℕ := COPY_BUF_SIZE - b.buf.length

/-- `channel` is the inbound channel, `egress` what the egress channel holds for the stream. `up` copies
from the local socket to the stream, `down` the other way; `sent` and `delivered` collect what the local
peer has sent and received. `disturbed` records that the loop has lost the stream before its end. -/
structure QuicEnd where
  quic : Trace
  entry : Option StreamState
  pumping : Bool
  channel : List Bytes
  egress : List StreamOut
  rxOpen : Bool
  bridge : Bridge
  up : CopyBuffer
  down : CopyBuffer
  socket : Bytes
  finished : Bool
  sent : Bytes
  delivered : Bytes
  disturbed : Bool

/-- What the local peer, the bridge or the event loop of an end does next. `abort` is an error of the
local socket, `call` a call on another stream, and `lost` the end of the connection, which on a client
closes the egress channel too. -/
inductive QuicEndAct
  | send (bytes : Bytes)
  | finish
  | abort
  | dialed (ok : Bool)
  | fill (n : ℕ)
  | write (r : Reserve)
  | shutdown (r : Reserve)
  | read (room : ℕ)
  | deliver (n : ℕ)
  | shutdownLocal
  | complete
  | close (r : Reserve)
  | dequeue
  | event (e : H3Event)
  | pass
  | turn
  | pump
  | reap
  | call (c : Call)
  | lost (rxOpen : Bool)

namespace QuicEnd

/-- A tunnel that has just been entered into the map, with the history of its connection. -/
def new (t : Trace) (key : Bytes) (sid rx : ℕ) (phase : Phase) : QuicEnd where
  quic := t
  entry := some (.tunnel rx)
  pumping := false
  channel := []
  egress := []
  rxOpen := true
  bridge := ⟨.new key sid rx,phase,[]⟩
  up := ⟨[],false,false⟩
  down := ⟨[],false,false⟩
  socket := []
  finished := false
  sent := []
  delivered := []
  disturbed := false

/-- The sender of the inbound channel is still held. -/
def senders (e : QuicEnd) : Bool := e.entry.any fun st => st.inboundTx.isSome

/-- The answer of `try_reserve`. The bridge drops the receiver when it stops copying. -/
def slot (e : QuicEnd) : Slot :=
  if ¬ e.bridge.Live then .closed
  else if INBOUND_CHANNEL_CAP ≤ e.channel.length then .full
  else .permit

/-- What the egress channel can answer; it may be full of messages of other streams. -/
def Answers (e : QuicEnd) : Reserve → Prop
  | .ready | .pending => e.rxOpen = true
  | .closed => e.rxOpen = false

instance (e : QuicEnd) : (r : Reserve) → Decidable (e.Answers r)
  | .ready | .pending => inferInstanceAs (Decidable (e.rxOpen = true))
  | .closed => inferInstanceAs (Decidable (e.rxOpen = false))

/-- A step of the bridge's task, and the message it sends. -/
def task (e : QuicEnd) (a : BridgeAct) : QuicEnd :=
  { e with
    bridge := (e.bridge.act a).1
    egress := e.egress ++ (e.bridge.act a).2.toList.map Egress.out }

/-- `copy_bidirectional` is under way. -/
def Copying (e : QuicEnd) : Prop := e.bridge.phase = .copying

instance (e : QuicEnd) : Decidable e.Copying := inferInstanceAs (Decidable (_ = _))

def fill (e : QuicEnd) (n : ℕ) : QuicEnd :=
  if ¬ e.Copying ∨ e.up.readDone ∨ n = 0 ∨ e.up.room < n then e
  else if e.socket = [] then { e with up := { e.up with readDone := e.finished } }
  else { e with up := { e.up with buf := e.up.buf ++ e.socket.take n }, socket := e.socket.drop n }

/-- A refused write ends the copy. -/
def write (e : QuicEnd) (r : Reserve) : QuicEnd :=
  if ¬ e.Copying ∨ e.up.buf = [] ∨ ¬ e.Answers r then e
  else
    let e' := e.task (.write e.up.buf r)
    match (e.bridge.stream.pollWrite r e.up.buf).1 with
    | .ready (.ok n) => { e' with up := { e.up with buf := e.up.buf.drop n } }
    | .ready (.error _) => e'.task .finish
    | .pending => e'

def shutdown (e : QuicEnd) (r : Reserve) : QuicEnd :=
  if ¬ e.Copying ∨ ¬ e.up.readDone ∨ e.up.buf ≠ [] ∨ e.up.shut ∨ ¬ e.Answers r then e
  else
    let e' := e.task (.shutdown r)
    match (e.bridge.stream.pollShutdown r).1 with
    | .ready () => { e' with up := { e.up with shut := true } }
    | .pending => e'

/-- A read that completes with nothing is the end of the stream. -/
def read (e : QuicEnd) (room : ℕ) : QuicEnd :=
  if ¬ e.Copying ∨ e.down.readDone ∨ room = 0 ∨ e.down.room < room then e
  else
    let (answer,stream,channel) := e.bridge.stream.pollRead e.senders room e.channel
    let e := { e with bridge := { e.bridge with stream }, channel }
    match answer with
    | .ready bytes =>
      { e with down := { e.down with buf := e.down.buf ++ bytes, readDone := bytes.isEmpty } }
    | .pending => e

def deliver (e : QuicEnd) (n : ℕ) : QuicEnd :=
  if ¬ e.Copying then e
  else
    { e with
      down := { e.down with buf := e.down.buf.drop n }
      delivered := e.delivered ++ e.down.buf.take n }

def shutdownLocal (e : QuicEnd) : QuicEnd :=
  if ¬ e.Copying ∨ ¬ e.down.readDone ∨ e.down.buf ≠ [] then e
  else { e with down := { e.down with shut := true } }

/-- The loop applies the next message to the entry, if that is still there. -/
def dequeue (e : QuicEnd) : QuicEnd :=
  match e.egress with
  | [] => e
  | out :: rest => { e with entry := e.entry.map (StreamState.queue · out), egress := rest }

/-- The connection with no other stream on it. -/
def conn (e : QuicEnd) (sid : ℕ) : Conn where
  quic := e.quic
  h3 := true
  streams := e.entry.elim ∅ fun st => (∅ : AList _).insert sid st
  spawned := []

variable (r : Role) (key : Bytes) (sid : ℕ)

def event (e : QuicEnd) (ev : H3Event) : QuicEnd :=
  let c := eventStep (r.handleEvent key) (e.conn sid) (sid,ev)
  let entry := c.streams.lookup sid
  { e with quic := c.quic, entry, disturbed := e.disturbed || (e.entry.isSome && entry.isNone) }

/-- The start of a visit of `pump_inbound`. -/
def pass (e : QuicEnd) : QuicEnd :=
  match e.entry with
  | none => e
  | some st =>
    if ¬ st.readable then e
    else if st.inboundTx.isNone then { e with entry := some { st with readable := false } }
    else { e with pumping := true }

def turn (env : Env) (e : QuicEnd) : QuicEnd :=
  match e.entry with
  | none => e
  | some st =>
    let (t,st,chunk) := pumpTurn env sid e.slot e.quic st
    { e with
      quic := t
      entry := some st
      pumping := chunk.isSome
      channel := e.channel ++ chunk.toList
      disturbed := e.disturbed || decide (e.slot = .permit ∧ env.recvBody e.quic sid = .err) }

def pump (env : Env) (e : QuicEnd) : QuicEnd :=
  match e.entry with
  | none => e
  | some st =>
    let (t,st) := pumpStream env sid e.quic st
    { e with quic := t, entry := some st }

def reap (env : Env) (e : QuicEnd) : QuicEnd :=
  match e.entry with
  | none => e
  | some st =>
    if ¬ st.closed ∨ ¬ st.Drained then e
    else { e with quic := reapCalls env sid e.quic st, entry := none }

/-- A step of an end. While the loop is inside `pump_inbound` it does nothing else. -/
def act (e : QuicEnd) : QuicEndAct → QuicEnd
  | .send bytes =>
    if e.finished then e else { e with socket := e.socket ++ bytes, sent := e.sent ++ bytes }
  | .finish => { e with finished := true }
  | .abort => if e.Copying then e.task .finish else e
  | .dialed ok => e.task (.dialed ok)
  | .fill n => e.fill n
  | .write r => e.write r
  | .shutdown r => e.shutdown r
  | .read room => e.read room
  | .deliver n => e.deliver n
  | .shutdownLocal => e.shutdownLocal
  | .complete => if e.Copying ∧ e.up.shut ∧ e.down.shut then e.task .finish else e
  | .close r => if e.Answers r then e.task (.close r) else e
  | .turn => if e.pumping then e.turn sid r.env else e
  | .dequeue => if e.pumping then e else e.dequeue
  | .event ev => if e.pumping then e else e.event r key sid ev
  | .pass => if e.pumping then e else e.pass
  | .pump => if e.pumping then e else e.pump sid r.env
  | .reap => if e.pumping then e else e.reap sid r.env
  | .call c => if e.pumping ∨ c.stream = some sid then e else { e with quic := c :: e.quic }
  | .lost rx =>
    if e.pumping then e
    else
      { e with
        entry := none
        rxOpen := e.rxOpen && rx
        egress := if rx then e.egress else []
        disturbed := true }

end QuicEnd

/-- A call that neither sends a body nor ends the write side. -/
def Call.KeepsWrite (call : Call) : Prop :=
  (∀ sid body fin a, call ≠ .sendBody sid body fin a) ∧ ∀ sid, call ≠ .streamShutdown sid .write

theorem Call.Inbound.keepsWrite {sid : ℕ} {call : Call} (h : call.Inbound sid) : call.KeepsWrite := by
  unfold Inbound at h
  split at h
  · simp [KeepsWrite]
  · simp [KeepsWrite]
  · simp [KeepsWrite]
  · contradiction

theorem Trace.keepsWrite {new : Trace} (h : ∀ call ∈ new, call.KeepsWrite) :
    new.accepted = [] ∧ ¬ new.Failed := by
  constructor
  · rw [accepted, List.flatMap_eq_nil_iff]
    intro call hm
    obtain ⟨hb,-⟩ := h call (List.mem_reverse.mp hm)
    cases call
    case sendBody sid body fin a => exact absurd rfl (hb sid body fin a)
    all_goals rfl
  · rintro ⟨sid,body,fin,hm⟩
    exact (h _ hm).1 sid body fin .err rfl

/-- The write side of an entry does not notice calls that leave it alone. -/
theorem Carrying.keepsWrite {u new : Trace} {st st' : StreamState} {taken : List StreamOut}
    (h : Carrying u st taken) (ho : st.SameOutbound st') (hn : ∀ call ∈ new, call.KeepsWrite) :
    Carrying (new ++ u) st' taken := by
  obtain ⟨hp,hfp,hfs,hc⟩ := ho
  obtain ⟨hacc,hfail⟩ := Trace.keepsWrite hn
  have hf : Trace.Failed (new ++ u) ↔ u.Failed := by
    rw [Trace.failed_append]
    exact or_iff_right hfail
  refine ⟨by rw [hc, h.closed],by rw [hfp, h.finPending],?_,?_,?_⟩
  · intro sid hm
    rcases List.mem_append.mp hm with hm | hm
    · exact (hn _ hm).2 sid rfl
    · exact h.unreset sid hm
  · intro hnf
    rw [Trace.accepted_append, hacc, List.append_nil, hp, hfs]
    exact h.healthy (mt hf.mpr hnf)
  · intro hnf
    rw [Trace.accepted_append, hacc, List.append_nil, hfs]
    obtain ⟨hs,bs,ha,hpre⟩ := h.failed (hf.mp hnf)
    exact ⟨hs,bs,ha,fun hset => hpre hset.old⟩

/-- What `quiche` has accepted is a first part of what the bridge wrote, and the fin stands at the end
of it all. -/
def Accepts (u : Trace) (b : Bridge) : Prop :=
  ∃ bytes fin, u.accepted = marked bytes fin ∧ (u.Settled → bytes <+: b.written.flatten) ∧
    (fin = true → b.stream.shutdownSent = true ∧ bytes = b.written.flatten)

theorem Lane.accepts {u : Trace} {entry : Option StreamState} {flight : List StreamOut} {b : Bridge}
    (h : Lane u entry flight b) : Accepts u b := by
  obtain ⟨bytes,fin,ha,hp,hf,-⟩ := h.carries
  exact ⟨bytes,fin,ha,hp,hf⟩

namespace Accepts
variable {u new : Trace} {b : Bridge}

theorem keepsWrite (h : Accepts u b) (hn : ∀ call ∈ new, call.KeepsWrite) : Accepts (new ++ u) b := by
  obtain ⟨bytes,fin,ha,hp,hf⟩ := h
  refine ⟨bytes,fin,?_,fun hs => hp hs.old,hf⟩
  rw [Trace.accepted_append, (Trace.keepsWrite hn).1, List.append_nil, ha]

/-- The bridge writes no more once its fin is out. -/
theorem act (h : Accepts u b) (a : BridgeAct) : Accepts u (b.act a).1 := by
  obtain ⟨bytes,fin,ha,hp,hf⟩ := h
  obtain he | ⟨_,_,_,he⟩ | ⟨buf,_,_,hs,he⟩ | ⟨_,_,_,_,_,he⟩ | ⟨_,_,_,_,he⟩ := b.act_cases a
  · rw [he]
    exact ⟨bytes,fin,ha,hp,hf⟩
  · rw [he]
    exact ⟨bytes,fin,ha,hp,hf⟩
  · rw [he]
    refine ⟨bytes,fin,ha,fun hset => (hp hset).trans ?_,fun hfin => ?_⟩
    · rw [List.flatten_append]
      exact List.prefix_append _ _
    · exact absurd (hf hfin).1 (by simp [hs])
  · rw [he]
    exact ⟨bytes,fin,ha,hp,fun hfin => ⟨rfl,(hf hfin).2⟩⟩
  · rw [he]
    exact ⟨bytes,fin,ha,hp,hf⟩

end Accepts

namespace QuicEnd
variable {e : QuicEnd} {r : Role} {key : Bytes} {sid : ℕ}

/-- The way out of an end: through its lane while the entry is there. -/
def InLane (e : QuicEnd) (sid : ℕ) : Prop :=
  match e.entry with
  | some st => e.rxOpen = true ∧ Lane (e.quic.on sid) (some st) e.egress e.bridge
  | none => Accepts (e.quic.on sid) e.bridge

theorem InLane.accepts (h : e.InLane sid) : Accepts (e.quic.on sid) e.bridge := by
  unfold InLane at h
  split at h
  · exact h.2.accepts
  · exact h

theorem InLane.task (h : e.InLane sid) (a : BridgeAct) (ha : ∀ r ∈ a.reserve, e.Answers r) :
    (e.task a).InLane sid := by
  unfold InLane at h ⊢
  have hentry : (e.task a).entry = e.entry := rfl
  rw [hentry]
  cases he : e.entry with
  | none =>
    rw [he] at h
    exact h.act a
  | some st =>
    rw [he] at h
    obtain ⟨hr,hl⟩ := h
    refine ⟨hr,Plumbing.lane_act hl a ?_⟩
    rintro r hm rfl
    exact absurd (ha _ hm) (by simp [Answers, hr])

/-- The loop's calls on the stream that leave its write side alone. -/
theorem InLane.keepsWrite (h : e.InLane sid) (new : Trace) (entry : Option StreamState)
    (hs : ∀ call ∈ new, call.stream = some sid) (hn : ∀ call ∈ new, call.KeepsWrite)
    (he : ∀ st' ∈ entry, ∃ st, e.entry = some st ∧ st.SameOutbound st') :
    InLane { e with quic := new ++ e.quic, entry := entry } sid := by
  have hq : Trace.on (new ++ e.quic) sid = new ++ e.quic.on sid := by
    rw [Trace.on_append, Trace.on_eq_self _ _ hs]
  cases entry with
  | none =>
    change Accepts (Trace.on (new ++ e.quic) sid) e.bridge
    rw [hq]
    exact h.accepts.keepsWrite hn
  | some st' =>
    obtain ⟨st,hst,ho⟩ := he st' rfl
    unfold InLane at h
    rw [hst] at h
    obtain ⟨hr,taken,hout,hcar⟩ := h
    refine ⟨hr,taken,hout,?_⟩
    rw [hq]
    exact hcar.keepsWrite ho hn

theorem InLane.foreign (h : e.InLane sid) {call : Call} (hc : call.stream ≠ some sid) :
    InLane { e with quic := call :: e.quic } sid := by
  have hq : Trace.on (call :: e.quic) sid = e.quic.on sid := Trace.on_cons_of_ne _ _ hc
  unfold InLane at h ⊢
  rwa [← hq] at h

theorem InLane.dequeue (h : e.InLane sid) : e.dequeue.InLane sid := by
  unfold QuicEnd.dequeue
  split
  · exact h
  · rename_i out rest he
    unfold InLane at h ⊢
    cases hentry : e.entry with
    | none =>
      rw [hentry] at h
      exact h
    | some st =>
      rw [hentry, he] at h
      obtain ⟨hr,taken,hout,hcar⟩ := h
      refine ⟨hr,taken ++ [out],by rw [hout, List.append_assoc, List.singleton_append],hcar.queue ?_⟩
      rintro bytes rfl hfin
      exact (e.bridge.outs_order hout).2 hfin bytes List.mem_cons_self

theorem InLane.pump (h : e.InLane sid) (env : Env) : (e.pump sid env).InLane sid := by
  unfold QuicEnd.pump
  cases hentry : e.entry with
  | none => exact h
  | some st =>
    unfold InLane at h
    rw [hentry] at h
    obtain ⟨hr,taken,hout,hcar⟩ := h
    obtain ⟨new,he,hcalls,hcar'⟩ := hcar.pump env sid e.quic
    refine ⟨hr,taken,hout,?_⟩
    have hq : (pumpStream env sid e.quic st).1.on sid = new ++ e.quic.on sid := by
      rw [he, Trace.on_append, Trace.on_eq_self _ _ fun call hm => (hcalls call hm).stream]
    change Carrying ((pumpStream env sid e.quic st).1.on sid) _ taken
    rw [hq]
    exact hcar'

/-- An entry goes when its bridge is done. -/
theorem InLane.reap (h : e.InLane sid) (env : Env) : (e.reap sid env).InLane sid ∧
    ((e.reap sid env).entry = none → e.entry = none ∨ e.bridge.phase = .done) := by
  unfold QuicEnd.reap
  cases hentry : e.entry with
  | none => exact ⟨h,fun _ => Or.inl rfl⟩
  | some st =>
    simp only
    split
    · exact ⟨h,fun hn => by rw [hentry] at hn; contradiction⟩
    · rename_i hr
      obtain ⟨hc,hd⟩ := not_or.mp hr
      rw [not_not] at hc hd
      unfold InLane at h
      rw [hentry] at h
      obtain ⟨new,he,hcalls,hlane⟩ := h.2.reap env sid e.quic hc hd
      refine ⟨?_,fun _ => Or.inr hlane.2.done⟩
      change Accepts ((reapCalls env sid e.quic st).on sid) e.bridge
      rw [he, Trace.on_append, Trace.on_eq_self _ _ fun call hm => (hcalls call hm).stream]
      exact hlane.accepts

theorem conn_lookup (e : QuicEnd) (sid : ℕ) : (e.conn sid).streams.lookup sid = e.entry := by
  unfold conn
  cases e.entry with
  | none => rfl
  | some st => exact AList.lookup_insert _

/-- The client sends no trailers, so no second HEADERS comes in on a server's tunnel. -/
def Expects : Role → H3Event → Prop
  | .server .., .headers _ => False
  | _, _ => True

theorem markReadable_lookup (c : Conn) (sid : ℕ) :
    (c.markReadable sid).streams.lookup sid = (c.streams.lookup sid).map StreamState.markReadable := by
  unfold Conn.markReadable
  cases hl : c.streams.lookup sid with
  | none => rw [hl, Option.map_none]
  | some st => simp

/-- What an event does to the entry of its stream: it marks it, or drops it. -/
theorem handleEvent_entry {ev : H3Event} (hev : Expects r ev) (key : Bytes) (c : Conn) (sid : ℕ) :
    let c' := r.handleEvent key c sid ev
    let entry := c.streams.lookup sid
    ∃ new, c'.quic = new ++ c.quic ∧
      (c'.streams.lookup sid = entry ∧ new = [] ∨
        c'.streams.lookup sid = entry.map StreamState.markReadable ∧ new = [] ∨
        c'.streams.lookup sid = none ∧ (new = [] ∨ new = [.streamShutdown sid .read]) ∧
          (entry = none ∨ Client.Drops ev)) := by
  intro c' entry
  have hmark : c' = c.markReadable sid → ∃ new, c'.quic = new ++ c.quic ∧
      (c'.streams.lookup sid = entry ∧ new = [] ∨
        c'.streams.lookup sid = entry.map StreamState.markReadable ∧ new = [] ∨
        c'.streams.lookup sid = none ∧ (new = [] ∨ new = [.streamShutdown sid .read]) ∧
          (entry = none ∨ Client.Drops ev)) := by
    intro he
    rw [he, markReadable_lookup, Conn.markReadable_quic]
    exact ⟨[],rfl,Or.inr (Or.inl ⟨rfl,rfl⟩)⟩
  cases r with
  | server env cfg =>
    cases ev with
    | headers list => contradiction
    | data =>
      cases hl : c.streams.lookup sid with
      | some st => exact hmark (by simp only [c', Role.handleEvent, Server.handleEvent, hl])
      | none =>
        have he : c' = c.note (.streamShutdown sid .read) := by
          simp only [c', Role.handleEvent, Server.handleEvent, hl]
        rw [he]
        exact ⟨[.streamShutdown sid .read],rfl,Or.inr (Or.inr ⟨hl,Or.inr rfl,Or.inl hl⟩)⟩
    | finished => exact hmark rfl
    | reset code =>
      have he : c' = c.remove sid := rfl
      rw [he]
      exact ⟨[],rfl,Or.inr (Or.inr ⟨by simp,Or.inl rfl,Or.inr (Or.inl ⟨code,rfl⟩)⟩)⟩
    | priorityUpdate => exact ⟨[],rfl,Or.inl ⟨rfl,rfl⟩⟩
    | goAway => exact ⟨[],rfl,Or.inl ⟨rfl,rfl⟩⟩
  | client env cfg peer scid first =>
    obtain he | he | ⟨hr,he⟩ | ⟨hr,he⟩ := Client.handleEvent_spec c sid ev
    · rw [show c' = _ from he]
      exact ⟨[],rfl,Or.inl ⟨rfl,rfl⟩⟩
    · exact hmark he
    · rw [show c' = _ from he]
      exact ⟨[],rfl,Or.inr (Or.inr ⟨by simp,Or.inl rfl,Or.inr (Or.inl hr)⟩)⟩
    · rw [show c' = _ from he]
      exact ⟨[.streamShutdown sid .read],rfl,Or.inr (Or.inr ⟨by simp [Conn.note],Or.inr rfl,Or.inr (Or.inr hr)⟩)⟩

/-- What an event does to an end. -/
theorem event_spec (e : QuicEnd) (key : Bytes) (sid : ℕ) {ev : H3Event} (hev : Expects r ev) : ∃ entry new,
    e.event r key sid ev =
      { e with
        quic := new ++ .poll sid ev :: e.quic
        entry := entry
        disturbed := e.disturbed || (e.entry.isSome && entry.isNone) } ∧
    (entry = e.entry ∧ new = [] ∨ entry = e.entry.map StreamState.markReadable ∧ new = [] ∨
      entry = none ∧ (new = [] ∨ new = [.streamShutdown sid .read]) ∧
        (e.entry = none ∨ Client.Drops ev)) := by
  obtain ⟨new,hq,he⟩ := handleEvent_entry hev key ((e.conn sid).note (.poll sid ev)) sid
  have hl : ((e.conn sid).note (.poll sid ev)).streams.lookup sid = e.entry := e.conn_lookup sid
  rw [hl] at he
  refine ⟨_,new,?_,he⟩
  unfold event eventStep
  simp only [hq]
  rfl

theorem task_eq_self {a : BridgeAct} (h : e.bridge.act a = (e.bridge,none)) : e.task a = e := by
  simp [task, h]

/-- A task that neither writes nor shuts down keeps its stream. -/
theorem task_keeps {a : BridgeAct} (hw : ∀ buf r, a ≠ .write buf r) (hs : ∀ r, a ≠ .shutdown r) :
    (e.task a).bridge.stream = e.bridge.stream ∧ (e.task a).bridge.written = e.bridge.written := by
  obtain he | ⟨_,_,_,he⟩ | ⟨buf,ha,_⟩ | ⟨r,ha,_⟩ | ⟨_,_,_,_,he⟩ := e.bridge.act_cases a
  · simp [task, he]
  · simp [task, he]
  · exact absurd ha (hw buf _)
  · exact absurd ha (hs r)
  · simp [task, he]

/-- What a write of the copy does: nothing, or the buffer goes out, or the copy ends. -/
theorem write_cases (hs : e.up.buf ≠ [] → e.bridge.stream.shutdownSent = false) (r : Reserve) :
    e.write r = e ∨
    (e.Copying ∧ e.rxOpen = true ∧ e.bridge.stream.shutdownSent = false ∧
      e.write r = { e.task (.write e.up.buf .ready) with up := { e.up with buf := [] } }) ∨
    e.Copying ∧ e.rxOpen = false ∧ e.write r = e.task .finish := by
  by_cases hgo : ¬ e.Copying ∨ e.up.buf = [] ∨ ¬ e.Answers r
  · exact Or.inl (if_pos hgo)
  · obtain ⟨hc,hb,ha⟩ : e.Copying ∧ e.up.buf ≠ [] ∧ e.Answers r := by
      simpa only [not_or, not_not] using hgo
    have hopen := hs hb
    have hself : ∀ r, r ≠ .ready → e.task (.write e.up.buf r) = e := by
      intro r hr
      apply task_eq_self
      cases r with
      | ready => contradiction
      | closed => simp [Bridge.act, show e.bridge.phase = _ from hc, QuicStream.pollWrite, hopen]
      | pending => simp [Bridge.act, show e.bridge.phase = _ from hc, QuicStream.pollWrite, hopen]
    rw [write, if_neg hgo]
    cases r with
    | ready => exact Or.inr (Or.inl ⟨hc,ha,hopen,by simp [QuicStream.pollWrite, hopen]⟩)
    | closed =>
      refine Or.inr (Or.inr ⟨hc,ha,?_⟩)
      simp only [QuicStream.pollWrite, hopen, hself .closed (by decide), Bool.false_eq_true, if_false]
    | pending =>
      left
      simp only [QuicStream.pollWrite, hopen, hself .pending (by decide), Bool.false_eq_true, if_false]

/-- What a shutdown of the copy does: nothing, or the stream is shut down. -/
theorem shutdown_cases (hs : e.bridge.stream.shutdownSent = e.up.shut) (r : Reserve) :
    e.shutdown r = e ∨ (e.Copying ∧ e.up.readDone = true ∧ e.up.buf = [] ∧ e.Answers r ∧ r ≠ .pending ∧
      e.bridge.stream.shutdownSent = false ∧
      e.shutdown r = { e.task (.shutdown r) with up := { e.up with shut := true } }) := by
  by_cases hgo : ¬ e.Copying ∨ ¬ e.up.readDone ∨ e.up.buf ≠ [] ∨ e.up.shut ∨ ¬ e.Answers r
  · exact Or.inl (if_pos hgo)
  · obtain ⟨hc,hd,hb,hu,ha⟩ : e.Copying ∧ e.up.readDone ∧ e.up.buf = [] ∧ ¬ e.up.shut ∧ e.Answers r := by
      simpa only [not_or, not_not] using hgo
    have hopen : e.bridge.stream.shutdownSent = false := hs.trans (by simpa using hu)
    rw [shutdown, if_neg hgo]
    cases r with
    | ready => exact Or.inr ⟨hc,hd,hb,ha,by decide,hopen,by simp [QuicStream.pollShutdown, hopen]⟩
    | closed => exact Or.inr ⟨hc,hd,hb,ha,by decide,hopen,by simp [QuicStream.pollShutdown, hopen]⟩
    | pending =>
      left
      have hself : e.task (.shutdown .pending) = e := by
        apply task_eq_self
        simp [Bridge.act, show e.bridge.phase = _ from hc, QuicStream.pollShutdown, hopen]
        rw [← show e.bridge.phase = _ from hc]
      simp only [QuicStream.pollShutdown, hopen, hself, Bool.false_eq_true, if_false]

end QuicEnd

/-- A read moves only the read side of an adapter. -/
theorem QuicStream.pollRead_stream (s : QuicStream) (senders : Bool) (n : ℕ) (chunks : List Bytes) :
    ∃ rxBuf rxEof, (s.pollRead senders n chunks).2.1 = { s with rxBuf, rxEof } := by
  have hbuffered : ∀ {s s' : QuicStream} {bytes : Bytes}, s.takeBuffered n = some (bytes,s') →
      ∃ rxBuf rxEof, s' = { s with rxBuf, rxEof } := by
    intro s s' bytes h
    unfold takeBuffered at h
    split_ifs at h
    · cases h
      exact ⟨_,s.rxEof,rfl⟩
    · cases h
      exact ⟨s.rxBuf,s.rxEof,rfl⟩
  induction chunks generalizing s with
  | nil =>
    rw [pollRead]
    cases ht : s.takeBuffered n with
    | some p => exact hbuffered ht
    | none =>
      cases senders with
      | true => exact ⟨s.rxBuf,s.rxEof,rfl⟩
      | false => exact ⟨s.rxBuf,true,rfl⟩
  | cons b rest ih =>
    rw [pollRead]
    cases ht : s.takeBuffered n with
    | some p => exact hbuffered ht
    | none =>
      obtain ⟨rxBuf,rxEof,he⟩ := ih { s with rxBuf := b }
      exact ⟨rxBuf,rxEof,he⟩

namespace QuicEnd
variable {e : QuicEnd} {r : Role} {key : Bytes} {sid : ℕ}

/-- What a read of the copy does: nothing, or bytes go from the stream into the buffer. -/
theorem read_cases (room : ℕ) : e.read room = e ∨ (e.Copying ∧ e.down.readDone = false ∧
    ∃ rxBuf rxEof channel bytes readDone,
      e.read room = { e with
        bridge := { e.bridge with stream := { e.bridge.stream with rxBuf, rxEof } }
        channel := channel
        down := { e.down with buf := e.down.buf ++ bytes, readDone } } ∧
      bytes ++ rxBuf ++ channel.flatten = e.bridge.stream.rxBuf ++ e.channel.flatten ∧
      channel.length ≤ e.channel.length ∧ (readDone = true → rxEof = true) ∧
      (rxEof = e.bridge.stream.rxEof ∨ rxEof = true ∧ rxBuf = [] ∧ channel = [] ∧ e.senders = false)) := by
  by_cases hgo : ¬ e.Copying ∨ e.down.readDone ∨ room = 0 ∨ e.down.room < room
  · exact Or.inl (if_pos hgo)
  · right
    obtain ⟨hc,hd,hroom,-⟩ : e.Copying ∧ ¬ e.down.readDone ∧ room ≠ 0 ∧ ¬ e.down.room < room := by
      simpa only [not_or, not_not] using hgo
    have hd : e.down.readDone = false := by simpa using hd
    refine ⟨hc,hd,?_⟩
    rw [read, if_neg hgo]
    obtain ⟨rxBuf,rxEof,hstream⟩ := e.bridge.stream.pollRead_stream e.senders room e.channel
    obtain ⟨bytes,s',rest,he,hb,hl,hx,hz⟩ | ⟨s',he,_,hb,hx,hflat⟩ | ⟨s',he,hsend,hb,hx,hflat⟩ :=
      e.bridge.stream.pollRead_spec e.senders room e.channel
    · rw [he] at hstream ⊢
      subst hstream
      refine ⟨rxBuf,rxEof,rest,bytes,bytes.isEmpty,rfl,hb,hl,fun hn => ?_,Or.inl hx⟩
      exact hx.trans (hz (Nat.pos_of_ne_zero hroom) (List.isEmpty_iff.mp hn))
    · rw [he] at hstream ⊢
      subst hstream
      refine ⟨rxBuf,rxEof,[],[],false,by simp [← hd],?_,Nat.zero_le _,by simp,Or.inl hx⟩
      rw [hflat, show rxBuf = [] from hb]
      rfl
    · rw [he] at hstream ⊢
      subst hstream
      refine ⟨rxBuf,rxEof,[],[],true,by simp,?_,Nat.zero_le _,fun _ => hx,Or.inr ⟨hx,hb,rfl,hsend⟩⟩
      rw [hflat, show rxBuf = [] from hb]
      rfl

/-- The bytes on their way from the local peer into `quiche`. -/
structure Sends (e : QuicEnd) (sid : ℕ) : Prop where
  kept : e.bridge.written.flatten ++ e.up.buf ++ e.socket = e.sent
  up : e.up.readDone = true → e.finished = true ∧ e.socket = []
  shut : e.bridge.stream.shutdownSent = e.up.shut
  whole : e.up.shut = true → e.up.readDone = true ∧ e.up.buf = []
  lane : e.InLane sid

namespace Sends

theorem task (h : e.Sends sid) {a : BridgeAct} (ha : ∀ r ∈ a.reserve, e.Answers r)
    (hw : ∀ buf r, a ≠ .write buf r) (hs : ∀ r, a ≠ .shutdown r) : (e.task a).Sends sid := by
  obtain ⟨hstream,hwritten⟩ := task_keeps hw hs
  refine ⟨?_,h.up,?_,h.whole,h.lane.task a ha⟩
  · rw [hwritten]
    exact h.kept
  · rw [hstream]
    exact h.shut

theorem send (h : e.Sends sid) (bytes : Bytes) : (e.act r key sid (.send bytes)).Sends sid := by
  rw [act]
  split_ifs with hf
  · exact h
  · refine { h with kept := ?_, up := ?_ }
    · change _ ++ (e.socket ++ bytes) = e.sent ++ bytes
      rw [← List.append_assoc, h.kept]
    · intro hd
      exact absurd (h.up hd).1 hf

theorem fill (h : e.Sends sid) (n : ℕ) : (e.fill n).Sends sid := by
  unfold QuicEnd.fill
  split_ifs with hgo hso
  · exact h
  · refine { h with up := fun hf => ⟨hf,hso⟩, whole := ?_ }
    intro hs
    obtain ⟨hd,hb⟩ := h.whole hs
    exact ⟨(h.up hd).1,hb⟩
  · have hdone : e.up.readDone = false := Bool.eq_false_of_not_eq_true fun hd => hgo (Or.inr (Or.inl hd))
    refine { h with kept := ?_, up := ?_, whole := ?_ }
    · change _ ++ (e.up.buf ++ e.socket.take n) ++ e.socket.drop n = e.sent
      rw [← h.kept]
      simp
    · intro hd
      exact absurd (hdone.symm.trans hd) (by decide)
    · intro hs
      exact absurd (hdone.symm.trans (h.whole hs).1) (by decide)

/-- Nothing waits for a write once the stream is shut down. -/
theorem opened (h : e.Sends sid) (hb : e.up.buf ≠ []) : e.bridge.stream.shutdownSent = false := by
  rw [h.shut]
  exact Bool.eq_false_of_not_eq_true fun hs => hb (h.whole hs).2

theorem write (h : e.Sends sid) (r : Reserve) : (e.write r).Sends sid := by
  obtain he | ⟨hc,hr,hs,he⟩ | ⟨_,_,he⟩ := write_cases h.opened r
  · rwa [he]
  · rw [he]
    have hact : e.bridge.act (.write e.up.buf .ready) =
        ({ e.bridge with written := e.bridge.written ++ [e.up.buf] },
          some (e.bridge.stream.egress (.data e.up.buf))) := by
      simp [Bridge.act, show e.bridge.phase = _ from hc, QuicStream.pollWrite, hs]
    have hlane : (e.task (.write e.up.buf .ready)).InLane sid :=
      h.lane.task _ (by rintro _ ⟨⟩; exact hr)
    refine ⟨?_,h.up,?_,fun hu => ⟨(h.whole hu).1,rfl⟩,hlane⟩
    · change (e.bridge.act (.write e.up.buf .ready)).1.written.flatten ++ [] ++ e.socket = e.sent
      rw [hact, ← h.kept]
      simp
    · change (e.bridge.act (.write e.up.buf .ready)).1.stream.shutdownSent = e.up.shut
      rw [hact]
      exact h.shut
  · rw [he]
    exact h.task (by simp [BridgeAct.reserve]) (by simp) (by simp)

theorem shutdown (h : e.Sends sid) (r : Reserve) : (e.shutdown r).Sends sid := by
  obtain he | ⟨hc,hd,hb,ha,hr,hs,he⟩ := shutdown_cases h.shut r
  · rwa [he]
  · rw [he]
    have hact : (e.bridge.act (.shutdown r)).1 =
        { e.bridge with stream := { e.bridge.stream with shutdownSent := true } } := by
      cases r with
      | pending => contradiction
      | ready => simp [Bridge.act, show e.bridge.phase = _ from hc, QuicStream.pollShutdown, hs]
      | closed => simp [Bridge.act, show e.bridge.phase = _ from hc, QuicStream.pollShutdown, hs]
    have hlane : (e.task (.shutdown r)).InLane sid := h.lane.task _ (by simpa [BridgeAct.reserve] using ha)
    refine ⟨?_,h.up,?_,fun _ => ⟨hd,hb⟩,hlane⟩
    · change (e.bridge.act (.shutdown r)).1.written.flatten ++ e.up.buf ++ e.socket = e.sent
      rw [hact]
      exact h.kept
    · change (e.bridge.act (.shutdown r)).1.stream.shutdownSent = true
      rw [hact]

theorem read (h : e.Sends sid) (room : ℕ) : (e.read room).Sends sid := by
  obtain he | ⟨_,_,rxBuf,rxEof,channel,bytes,readDone,he,_⟩ := e.read_cases room
  · rwa [he]
  · rw [he]
    refine ⟨h.kept,h.up,h.shut,h.whole,?_⟩
    have hl := h.lane
    unfold InLane at hl ⊢
    cases hentry : e.entry with
    | none =>
      rw [hentry] at hl
      exact hl
    | some st =>
      rw [hentry] at hl
      exact hl

/-- The loop's side of an end may change as long as its lane stays in order. -/
theorem loop (h : e.Sends sid) {e' : QuicEnd} (hl : e'.InLane sid)
    (he : e' = { e with
      quic := e'.quic, entry := e'.entry, pumping := e'.pumping, channel := e'.channel
      egress := e'.egress, rxOpen := e'.rxOpen, disturbed := e'.disturbed }) : e'.Sends sid := by
  rw [he] at hl ⊢
  exact ⟨h.kept,h.up,h.shut,h.whole,hl⟩

theorem event (h : e.Sends sid) {ev : H3Event} (hev : Expects r ev) :
    (e.event r key sid ev).Sends sid := by
  obtain ⟨entry,new,he,hcase⟩ := e.event_spec key sid hev
  rw [he]
  refine h.loop ?_ rfl
  have hnew : ∀ call ∈ new, call = .streamShutdown sid .read := by
    obtain ⟨_,rfl⟩ | ⟨_,rfl⟩ | ⟨_,rfl | rfl,_⟩ := hcase <;> simp
  have hcalls : ∀ call ∈ new ++ [.poll sid ev], call.stream = some sid ∧ call.KeepsWrite := by
    intro call hm
    rcases List.mem_append.mp hm with hm | hm
    · rw [hnew call hm]
      simp [Call.stream, Call.KeepsWrite]
    · rw [List.mem_singleton.mp hm]
      simp [Call.stream, Call.KeepsWrite]
  have hl := h.lane.keepsWrite _ entry (fun call hm => (hcalls call hm).1)
    (fun call hm => (hcalls call hm).2) ?_
  · rw [List.append_assoc] at hl
    exact hl
  · intro st' hst'
    obtain ⟨rfl,_⟩ | ⟨rfl,_⟩ | ⟨rfl,_⟩ := hcase
    · exact ⟨st',hst',rfl,rfl,rfl,rfl⟩
    · obtain ⟨st,hst,rfl⟩ := Option.map_eq_some_iff.mp hst'
      exact ⟨st,hst,rfl,rfl,rfl,rfl⟩
    · contradiction

theorem pass (h : e.Sends sid) : e.pass.Sends sid := by
  unfold QuicEnd.pass
  cases hentry : e.entry with
  | none => exact h
  | some st =>
    simp only
    split_ifs
    · have hl := h.lane.keepsWrite [] (some { st with readable := false }) (by simp)
        (by simp) (by rintro _ ⟨⟩; exact ⟨st,hentry,rfl,rfl,rfl,rfl⟩)
      exact h.loop hl rfl
    · have hl : InLane { e with pumping := true } sid := h.lane
      rw [hentry] at hl
      exact h.loop hl rfl
    · exact h

theorem turn (h : e.Sends sid) (env : Env) : (e.turn sid env).Sends sid := by
  unfold QuicEnd.turn
  cases hentry : e.entry with
  | none => exact h
  | some st =>
    obtain ⟨new,ht,hn,ho⟩ := pumpTurn_spec env sid e.slot e.quic st
    refine h.loop ?_ rfl
    have hl := h.lane.keepsWrite _ (some (pumpTurn env sid e.slot e.quic st).2.1)
      (fun call hm => (hn call hm).stream) (fun call hm => (hn call hm).keepsWrite)
      (by rintro _ ⟨⟩; exact ⟨st,hentry,ho⟩)
    rw [← ht] at hl
    exact hl

/-- A step of an end keeps the bytes on their way in order. -/
theorem act (h : e.Sends sid) (a : QuicEndAct) (hev : ∀ ev, a = .event ev → Expects r ev) :
    (e.act r key sid a).Sends sid := by
  cases a with
  | send bytes => exact h.send bytes
  | finish => exact { h with up := fun hd => ⟨rfl,(h.up hd).2⟩ }
  | abort =>
    rw [QuicEnd.act]
    split_ifs
    · exact h.task (by simp [BridgeAct.reserve]) (by simp) (by simp)
    · exact h
  | dialed ok => exact h.task (by simp [BridgeAct.reserve]) (by simp) (by simp)
  | fill n => exact h.fill n
  | write r => exact h.write r
  | shutdown r => exact h.shutdown r
  | read room => exact h.read room
  | deliver n =>
    rw [QuicEnd.act, QuicEnd.deliver]
    split_ifs
    · exact { h with }
    · exact h
  | shutdownLocal =>
    rw [QuicEnd.act, QuicEnd.shutdownLocal]
    split_ifs
    · exact h
    · exact { h with }
  | complete =>
    rw [QuicEnd.act]
    split_ifs
    · exact h.task (by simp [BridgeAct.reserve]) (by simp) (by simp)
    · exact h
  | close r =>
    rw [QuicEnd.act]
    split_ifs with ha
    · exact h.task (by simpa [BridgeAct.reserve] using ha) (by simp) (by simp)
    · exact h
  | dequeue =>
    rw [QuicEnd.act]
    split_ifs
    · exact h
    · refine h.loop h.lane.dequeue ?_
      unfold QuicEnd.dequeue
      split <;> rfl
  | event ev =>
    rw [QuicEnd.act]
    split_ifs
    · exact h
    · exact h.event (hev ev rfl)
  | pass =>
    rw [QuicEnd.act]
    split_ifs
    · exact h
    · exact h.pass
  | turn =>
    rw [QuicEnd.act]
    split_ifs
    · exact h.turn r.env
    · exact h
  | pump =>
    rw [QuicEnd.act]
    split_ifs
    · exact h
    · refine h.loop (h.lane.pump r.env) ?_
      unfold QuicEnd.pump
      split <;> rfl
  | reap =>
    rw [QuicEnd.act]
    split_ifs
    · exact h
    · refine h.loop (h.lane.reap r.env).1 ?_
      unfold QuicEnd.reap
      split
      · rfl
      · split <;> rfl
  | call c =>
    rw [QuicEnd.act]
    split_ifs with hc
    · exact h
    · exact h.loop (h.lane.foreign fun hs => hc (Or.inr hs)) rfl
  | lost rx =>
    by_cases hp : e.pumping
    · rw [QuicEnd.act, if_pos hp]
      exact h
    · rw [QuicEnd.act, if_neg hp]
      exact h.loop h.lane.accepts rfl

end Sends

/-- The bytes on their way out of `quiche` to the local peer. The channel loses its sender only when the
stream has been read to its end, or has been lost. -/
structure Receives (e : QuicEnd) (sid : ℕ) : Prop where
  conserved : e.quic.taken sid =
    e.delivered ++ e.down.buf ++ e.bridge.stream.rxBuf ++ e.channel.flatten
  bounded : e.channel.length ≤ INBOUND_CHANNEL_CAP
  pumped : e.pumping = true → e.senders = true
  eof : e.bridge.stream.rxEof = true → e.bridge.stream.rxBuf = [] ∧ e.channel = [] ∧
    e.senders = false ∧ (e.disturbed = false → .streamFinished sid true ∈ e.quic)
  ended : e.senders = false → e.bridge.Live → e.disturbed = false → .streamFinished sid true ∈ e.quic
  done : e.down.readDone = true → e.bridge.stream.rxEof = true
  shut : e.down.shut = true → e.down.readDone = true ∧ e.down.buf = []

namespace Receives

theorem task (h : e.Receives sid) (a : BridgeAct) : (e.task a).Receives sid := by
  have hb : ∃ phase shutdownSent written, (phase = .dialing ∨ phase = .copying → e.bridge.Live) ∧
      (e.bridge.act a).1 =
        ⟨{ e.bridge.stream with shutdownSent := shutdownSent },phase,written⟩ := by
    obtain he | ⟨phase,hl,_,he⟩ | ⟨buf,_,_,_,he⟩ | ⟨_,_,_,hp,_,he⟩ | ⟨_,_,_,_,he⟩ := e.bridge.act_cases a
    · exact ⟨_,e.bridge.stream.shutdownSent,_,id,by rw [he]⟩
    · exact ⟨phase,e.bridge.stream.shutdownSent,_,fun _ => hl,by rw [he]⟩
    · exact ⟨_,e.bridge.stream.shutdownSent,_,id,by rw [he]⟩
    · exact ⟨_,true,_,id,by rw [he]⟩
    · exact ⟨.done,e.bridge.stream.shutdownSent,_,by simp,by rw [he]⟩
  obtain ⟨phase,shutdownSent,written,hlive,he⟩ := hb
  unfold QuicEnd.task
  rw [he]
  exact ⟨h.conserved,h.bounded,h.pumped,h.eof,fun hs hl => h.ended hs (hlive hl),h.done,h.shut⟩

/-- The loop's side of an end may change when no bytes are taken, unless it loses the sender. -/
theorem loop (h : e.Receives sid) {e' : QuicEnd}
    (he : e' = { e with
      quic := e'.quic, entry := e'.entry, pumping := e'.pumping
      egress := e'.egress, rxOpen := e'.rxOpen, disturbed := e'.disturbed })
    (hq : e.quic <:+ e'.quic) (ht : e'.quic.taken sid = e.quic.taken sid)
    (hp : e'.pumping = true → e'.senders = true) (hs : e'.senders = true → e.senders = true)
    (hd : e'.disturbed = false → e.disturbed = false)
    (hend : e'.senders = false → e.bridge.Live → e'.disturbed = false →
      e.senders = false ∨ .streamFinished sid true ∈ e'.quic) : e'.Receives sid := by
  have hclosed : e.senders = false → e'.senders = false := by
    intro hf
    by_contra hn
    rw [hs (by simpa using hn)] at hf
    contradiction
  have hbridge : e'.bridge = e.bridge := by rw [he]
  have hchannel : e'.channel = e.channel := by rw [he]
  have hdown : e'.down = e.down := by rw [he]
  have hdelivered : e'.delivered = e.delivered := by rw [he]
  refine ⟨?_,?_,hp,?_,?_,?_,?_⟩
  · rw [ht, hbridge, hchannel, hdown, hdelivered]
    exact h.conserved
  · rw [hchannel]
    exact h.bounded
  · rw [hbridge, hchannel]
    intro hx
    obtain ⟨hr,hc,hsend,hf⟩ := h.eof hx
    exact ⟨hr,hc,hclosed hsend,fun hdis => hq.subset (hf (hd hdis))⟩
  · rw [hbridge]
    intro hsend hl hdis
    exact (hend hsend hl hdis).elim (fun ho => hq.subset (h.ended ho hl (hd hdis))) id
  · rw [hbridge, hdown]
    exact h.done
  · rw [hdown]
    exact h.shut

theorem taken_append {new t : Trace} (hn : ∀ call ∈ new, call.taken sid = []) :
    Trace.taken (new ++ t) sid = t.taken sid := by
  have hnil : Trace.taken new sid = [] := by
    rw [Trace.taken, List.flatMap_eq_nil_iff]
    exact fun call hm => hn call (List.mem_reverse.mp hm)
  rw [Trace.taken, List.reverse_append, List.flatMap_append]
  change t.taken sid ++ Trace.taken new sid = _
  rw [hnil, List.append_nil]

theorem taken_of_stream {call : Call} (h : call.stream ≠ some sid) : call.taken sid = [] := by
  cases call
  case recvBody s a =>
    have hs : s ≠ sid := fun hs => h (by rw [← hs]; rfl)
    cases a with
    | ok b => exact if_neg hs
    | done => rfl
    | err => rfl
  all_goals rfl

theorem write (h : e.Receives sid) (hs : e.Sends sid) (r : Reserve) : (e.write r).Receives sid := by
  obtain he | ⟨_,_,_,he⟩ | ⟨_,_,he⟩ := write_cases hs.opened r
  · rwa [he]
  · rw [he]
    exact { h.task (.write e.up.buf .ready) with }
  · rw [he]
    exact h.task .finish

theorem shutdown (h : e.Receives sid) (hs : e.Sends sid) (r : Reserve) :
    (e.shutdown r).Receives sid := by
  obtain he | ⟨_,_,_,_,_,_,he⟩ := shutdown_cases hs.shut r
  · rwa [he]
  · rw [he]
    exact { h.task (.shutdown r) with }

theorem read (h : e.Receives sid) (room : ℕ) : (e.read room).Receives sid := by
  obtain he | ⟨hc,hd,rxBuf,rxEof,channel,bytes,readDone,he,hb,hl,hdone,hx⟩ := e.read_cases room
  · rwa [he]
  · rw [he]
    refine ⟨?_,hl.trans h.bounded,h.pumped,?_,h.ended,hdone,?_⟩
    · change e.quic.taken sid = e.delivered ++ (e.down.buf ++ bytes) ++ rxBuf ++ channel.flatten
      rw [h.conserved]
      simp only [List.append_assoc] at hb ⊢
      rw [hb]
    · intro hxe
      obtain hx | ⟨-,hr,hch,hsend⟩ := hx
      · obtain ⟨hr,hch,hf⟩ := h.eof (hx.symm.trans hxe)
        rw [hr, hch] at hb
        rw [hch] at hl
        simp only [List.flatten_nil, List.append_nil, List.append_eq_nil_iff] at hb
        exact ⟨hb.1.2,List.length_eq_zero_iff.mp (Nat.le_zero.mp hl),hf⟩
      · exact ⟨hr,hch,hsend,h.ended hsend (Or.inr hc)⟩
    · intro hs
      exact absurd (hd.symm.trans (h.shut hs).1) (by decide)

theorem deliver (h : e.Receives sid) (n : ℕ) : (e.deliver n).Receives sid := by
  unfold QuicEnd.deliver
  split_ifs
  · refine { h with conserved := ?_, shut := ?_ }
    · change e.quic.taken sid = e.delivered ++ e.down.buf.take n ++ e.down.buf.drop n ++ _ ++ _
      rw [List.append_assoc e.delivered, List.take_append_drop]
      exact h.conserved
    · intro hs
      obtain ⟨hr,hb⟩ := h.shut hs
      refine ⟨hr,?_⟩
      change e.down.buf.drop n = []
      rw [hb, List.drop_nil]
  · exact h

theorem dequeue (h : e.Receives sid) : e.dequeue.Receives sid := by
  unfold QuicEnd.dequeue
  split
  · exact h
  · rename_i out rest _
    have hs : (e.entry.map (StreamState.queue · out)).any (fun st => st.inboundTx.isSome) = e.senders := by
      unfold senders
      cases e.entry with
      | none => rfl
      | some st => cases out <;> rfl
    exact h.loop rfl List.suffix_rfl rfl (fun hp => hs.trans (h.pumped hp)) (fun hx => hs.symm.trans hx) id
      fun hx _ _ => Or.inl (hs.symm.trans hx)

theorem event (h : e.Receives sid) {ev : H3Event} (hev : Expects r ev) (hp : e.pumping = false) :
    (e.event r key sid ev).Receives sid := by
  obtain ⟨entry,new,he,hcase⟩ := e.event_spec key sid hev
  rw [he]
  have htaken : ∀ call ∈ new ++ [.poll sid ev], call.taken sid = [] := by
    obtain ⟨_,rfl⟩ | ⟨_,rfl⟩ | ⟨_,rfl | rfl,_⟩ := hcase <;> simp [Call.taken]
  have ht := taken_append (t := e.quic) htaken
  rw [List.append_assoc] at ht
  have hkeep : entry.any (fun st => st.inboundTx.isSome) = e.senders ∨ entry = none := by
    obtain ⟨rfl,_⟩ | ⟨rfl,_⟩ | ⟨rfl,_⟩ := hcase
    · exact Or.inl rfl
    · left
      unfold senders
      cases e.entry <;> rfl
    · exact Or.inr rfl
  refine h.loop rfl ((List.suffix_cons _ _).trans (List.suffix_append _ _)) ht (by simp [hp]) ?_ ?_ ?_
  · intro hx
    obtain hs | rfl := hkeep
    · exact hs.symm.trans hx
    · cases hx
  · intro hx
    exact (Bool.or_eq_false_iff.mp hx).1
  · intro hx _ hd
    obtain hs | rfl := hkeep
    · exact Or.inl (hs.symm.trans hx)
    · left
      have hnone := (Bool.or_eq_false_iff.mp hd).2
      unfold senders
      cases hentry : e.entry with
      | none => rfl
      | some st => simp [hentry] at hnone

theorem pass (h : e.Receives sid) : e.pass.Receives sid := by
  unfold QuicEnd.pass
  cases hentry : e.entry with
  | none => exact h
  | some st =>
    simp only
    split_ifs with hr htx
    · have hs : e.senders = false := by
        rw [senders, hentry]
        simpa using htx
      refine h.loop rfl List.suffix_rfl rfl (fun hp => ?_) (fun hx => ?_) id fun _ _ _ => Or.inl hs
      · rw [h.pumped hp] at hs
        contradiction
      · change st.inboundTx.isSome = true at hx
        rw [Option.isSome_iff_ne_none] at hx
        exact absurd (Option.isNone_iff_eq_none.mp htx) hx
    · have hs : e.senders = true := by
        rw [senders, hentry]
        simpa [Option.isSome_iff_ne_none] using htx
      have hsend : QuicEnd.senders { e with pumping := true } = e.senders := rfl
      rw [hentry] at hsend
      exact h.loop (by rw [← hentry]) List.suffix_rfl rfl (fun _ => hsend.trans hs) (fun _ => hs) id
        fun hx _ _ => Or.inl (hsend.symm.trans hx)
    · exact h

/-- A turn takes bytes out of `quiche` only into a free slot. -/
theorem turn (h : e.Receives sid) (env : Env) (hp : e.pumping = true) :
    (e.turn sid env).Receives sid := by
  have hsend := h.pumped hp
  have heof : e.bridge.stream.rxEof ≠ true := fun hx => by simp [(h.eof hx).2.2.1] at hsend
  unfold QuicEnd.turn
  cases hentry : e.entry with
  | none => exact h
  | some st =>
    have htx : st.inboundTx.isSome := by simpa [senders, hentry] using hsend
    cases hslot : e.slot with
    | permit =>
      have hfree : e.channel.length < INBOUND_CHANNEL_CAP := by
        unfold slot at hslot
        split_ifs at hslot
        omega
      simp only [pumpTurn]
      cases hr : env.recvBody e.quic sid with
      | ok b =>
        refine ⟨?_,?_,fun _ => by simpa [senders] using htx,fun hx => absurd hx heof,fun hx => ?_,h.done,
          h.shut⟩
        · simp [Call.taken, h.conserved]
        · simp
          omega
        · simp [senders, htx] at hx
      | done =>
        refine ⟨by simp [Call.taken, h.conserved],by simpa using h.bounded,by simp,
          fun hx => absurd hx heof,fun hx _ _ => ?_,h.done,h.shut⟩
        cases hf : env.streamFinished (.recvBody sid .done :: e.quic) sid with
        | true => simp
        | false => simp [senders, hf, htx] at hx
      | err =>
        exact ⟨by simp [Call.taken, h.conserved],by simpa using h.bounded,by simp,
          fun hx => absurd hx heof,by simp,h.done,h.shut⟩
    | full =>
      refine ⟨by simpa [pumpTurn] using h.conserved,by simpa [pumpTurn] using h.bounded,
        by simp [pumpTurn],fun hx => absurd hx heof,fun hx => ?_,h.done,h.shut⟩
      simp [pumpTurn, senders, htx] at hx
    | closed =>
      have hd : ¬ e.bridge.Live := by
        unfold slot at hslot
        split_ifs at hslot
        assumption
      exact ⟨by simpa [pumpTurn, Call.taken] using h.conserved,by simpa [pumpTurn] using h.bounded,
        by simp [pumpTurn],fun hx => absurd hx heof,fun _ hx => absurd hx hd,h.done,h.shut⟩

theorem pump (h : e.Receives sid) (env : Env) (hp : e.pumping = false) :
    (e.pump sid env).Receives sid := by
  unfold QuicEnd.pump
  cases hentry : e.entry with
  | none => exact h
  | some st =>
    obtain ⟨new,ht,hn,-⟩ := pumpStream_spec env sid e.quic st
    obtain ⟨htx,-⟩ := pumpStream_inbound env sid e.quic st
    have hs : (pumpStream env sid e.quic st).2.inboundTx.isSome = e.senders := by
      rw [htx, senders, hentry]
      rfl
    refine h.loop rfl ?_ ?_ (by simp [hp]) (fun hx => hs.symm.trans hx) id
      fun hx _ _ => Or.inl (hs.symm.trans hx)
    · simp only [ht]
      exact List.suffix_append _ _
    · simp only [ht]
      apply taken_append
      intro call hm
      have hout := hn call hm
      cases call <;> first | rfl | contradiction

theorem reap (h : e.Receives sid) (hs : e.Sends sid) (env : Env) (hp : e.pumping = false) :
    (e.reap sid env).Receives sid := by
  have hgone := (hs.lane.reap env).2
  unfold QuicEnd.reap at hgone ⊢
  cases hentry : e.entry with
  | none => exact h
  | some st =>
    rw [hentry] at hgone
    simp only at hgone ⊢
    split
    · exact h
    · rename_i hr
      rw [if_neg hr] at hgone
      obtain ⟨new,ht,hn,-⟩ := reapCalls_spec env sid e.quic st
      refine h.loop rfl ?_ ?_ (by simp [hp]) (fun hx => by cases hx) id fun _ hl _ => ?_
      · simp only [ht]
        exact List.suffix_append _ _
      · simp only [ht]
        apply taken_append
        intro call hm
        have hreap := hn call hm
        cases call <;> first | rfl | contradiction
      · obtain hn | hd := hgone rfl
        · contradiction
        · rcases hl with hl | hl <;> simp [hl] at hd

theorem act (h : e.Receives sid) (hs : e.Sends sid) (a : QuicEndAct)
    (hev : ∀ ev, a = .event ev → Expects r ev) : (e.act r key sid a).Receives sid := by
  cases a with
  | send bytes =>
    rw [QuicEnd.act]
    split_ifs
    · exact h
    · exact { h with }
  | finish => exact { h with }
  | abort =>
    rw [QuicEnd.act]
    split_ifs
    · exact h.task .finish
    · exact h
  | dialed ok => exact h.task (.dialed ok)
  | fill n =>
    rw [QuicEnd.act, QuicEnd.fill]
    split_ifs
    · exact h
    · exact { h with }
    · exact { h with }
  | write r => exact h.write hs r
  | shutdown r => exact h.shutdown hs r
  | read room => exact h.read room
  | deliver n => exact h.deliver n
  | shutdownLocal =>
    rw [QuicEnd.act, QuicEnd.shutdownLocal]
    split_ifs with hgo
    · exact h
    · simp only [not_or, not_not] at hgo
      exact { h with shut := fun _ => hgo.2 }
  | complete =>
    rw [QuicEnd.act]
    split_ifs
    · exact h.task .finish
    · exact h
  | close r =>
    rw [QuicEnd.act]
    split_ifs
    · exact h.task (.close r)
    · exact h
  | dequeue =>
    rw [QuicEnd.act]
    split_ifs
    · exact h
    · exact h.dequeue
  | event ev =>
    rw [QuicEnd.act]
    split_ifs with hp
    · exact h
    · exact h.event (hev ev rfl) (by simpa using hp)
  | pass =>
    rw [QuicEnd.act]
    split_ifs
    · exact h
    · exact h.pass
  | turn =>
    rw [QuicEnd.act]
    split_ifs with hp
    · exact h.turn r.env hp
    · exact h
  | pump =>
    rw [QuicEnd.act]
    split_ifs with hp
    · exact h
    · exact h.pump r.env (by simpa using hp)
  | reap =>
    rw [QuicEnd.act]
    split_ifs with hp
    · exact h
    · exact h.reap hs r.env (by simpa using hp)
  | call c =>
    rw [QuicEnd.act]
    split_ifs with hc
    · exact h
    · rw [not_or] at hc
      refine h.loop rfl (List.suffix_cons _ _) ?_ h.pumped id id fun hx _ _ => Or.inl hx
      rw [Trace.taken_cons, taken_of_stream hc.2, List.append_nil]
  | lost rx =>
    by_cases hp : e.pumping
    · rw [QuicEnd.act, if_pos hp]
      exact h
    · rw [QuicEnd.act, if_neg hp]
      exact h.loop rfl List.suffix_rfl rfl (by simp [hp]) (fun hx => by cases hx) (by simp) (by simp)

end Receives

/-- Both ways through an end are in order. -/
structure Sound (e : QuicEnd) (sid : ℕ) : Prop where
  sends : e.Sends sid
  receives : e.Receives sid

theorem Sound.act (h : e.Sound sid) (key : Bytes) (a : QuicEndAct) (hev : ∀ ev, a = .event ev → Expects r ev) :
    (e.act r key sid a).Sound sid := ⟨h.sends.act a hev,h.receives.act h.sends a hev⟩

/-- No body has moved on the stream yet. -/
def Unused (t : Trace) (sid : ℕ) : Prop := ∀ call ∈ t, call.stream = some sid →
  call.KeepsWrite ∧ call.taken sid = [] ∧ call ≠ .streamFinished sid true

theorem Unused.taken {t : Trace} (ht : Unused t sid) : t.taken sid = [] := by
  rw [← List.append_nil t, Receives.taken_append]
  · rfl
  · intro call hm
    by_cases hs : call.stream = some sid
    · exact (ht call hm hs).2.1
    · exact Receives.taken_of_stream hs

theorem Sound.new {t : Trace} (ht : Unused t sid) (rx : ℕ) {phase : Phase} (hp : phase ≠ .done) :
    (QuicEnd.new t key sid rx phase).Sound sid := by
  have hkeep : ∀ call ∈ t.on sid, call.KeepsWrite := by
    intro call hm
    obtain ⟨hm,hs⟩ := (Trace.mem_on _ _).mp hm
    exact (ht call hm hs).1
  obtain ⟨hacc,hfail⟩ := Trace.keepsWrite hkeep
  have hcar : Carrying (t.on sid) (.tunnel rx) [] := by
    refine ⟨by simp [StreamState.tunnel],by simp [StreamState.tunnel],?_,?_,fun hf => absurd hf hfail⟩
    · exact fun s hm => (hkeep _ hm).2 s rfl
    · exact fun _ => ⟨[],by simp [hacc, StreamState.tunnel],rfl,by simp [StreamState.tunnel]⟩
  refine ⟨⟨rfl,by simp [QuicEnd.new],rfl,by simp [QuicEnd.new],rfl,[],?_,hcar⟩,?_⟩
  · simp [QuicEnd.new, Bridge.outs, QuicStream.new, hp]
  · refine ⟨?_,Nat.zero_le _,by simp [QuicEnd.new],by simp [QuicEnd.new, QuicStream.new],?_,
      by simp [QuicEnd.new],by simp [QuicEnd.new]⟩
    · exact ht.taken
    · simp [QuicEnd.new, senders, StreamState.tunnel]

end QuicEnd

/-- The calls that a tunnel's own steps make. -/
def Call.Tunnelling (sid : ℕ) : Call → Prop
  | .poll s _ | .sendBody s _ _ _ | .recvBody s _ | .streamFinished s _ | .streamShutdown s _ => s = sid
  | _ => False

theorem Call.Inbound.tunnelling {sid : ℕ} {call : Call} (h : call.Inbound sid) : call.Tunnelling sid := by
  unfold Inbound at h
  split at h
  · exact h
  · exact h
  · exact h
  · contradiction

/-- What a step can add to the history: calls about other streams, and those of a tunnel. Only a turn
takes bytes, only a turn or a reap can find the stream finished, and only a pump sends a body. -/
def Call.MadeBy (sid : ℕ) (a : QuicEndAct) (call : Call) : Prop :=
  call.stream ≠ some sid ∨ call.Tunnelling sid ∧ (a ≠ .turn → call.taken sid = []) ∧
    (a ≠ .turn → a ≠ .reap → call ≠ .streamFinished sid true) ∧
    (a ≠ .pump → ∀ body fin ans, call ≠ .sendBody sid body fin ans)

namespace QuicEnd
variable {e : QuicEnd} {r : Role} {key : Bytes} {sid : ℕ}

theorem act_calls (e : QuicEnd) (key : Bytes) (sid : ℕ) (a : QuicEndAct)
    (hev : ∀ ev, a = .event ev → Expects r ev) :
    ∃ new, (e.act r key sid a).quic = new ++ e.quic ∧ ∀ call ∈ new, call.MadeBy sid a := by
  have hnone : ∀ {t : Trace}, t = e.quic → ∃ new, t = new ++ e.quic ∧ ∀ call ∈ new, call.MadeBy sid a :=
    fun h => ⟨[],h,by simp⟩
  cases a with
  | send bytes =>
    apply hnone
    rw [act]
    split_ifs <;> rfl
  | finish => exact hnone rfl
  | abort =>
    apply hnone
    rw [act]
    split_ifs <;> rfl
  | dialed ok => exact hnone rfl
  | fill n =>
    apply hnone
    rw [act, fill]
    split_ifs <;> rfl
  | write r =>
    apply hnone
    rw [act, write]
    split
    · rfl
    · split <;> rfl
  | shutdown r =>
    apply hnone
    rw [act, shutdown]
    split
    · rfl
    · split <;> rfl
  | read room =>
    apply hnone
    obtain he | ⟨_,_,_,_,_,_,_,he,_⟩ := e.read_cases room
    · rw [act, he]
    · rw [act, he]
  | deliver n =>
    apply hnone
    rw [act, deliver]
    split_ifs <;> rfl
  | shutdownLocal =>
    apply hnone
    rw [act, shutdownLocal]
    split_ifs <;> rfl
  | complete =>
    apply hnone
    rw [act]
    split_ifs <;> rfl
  | close r =>
    apply hnone
    rw [act]
    split_ifs <;> rfl
  | dequeue =>
    apply hnone
    rw [act, dequeue]
    split_ifs
    · rfl
    · split <;> rfl
  | event ev =>
    rw [act]
    split_ifs
    · exact hnone rfl
    · obtain ⟨entry,new,he,hcase⟩ := e.event_spec key sid (hev ev rfl)
      refine ⟨new ++ [.poll sid ev],by rw [he, List.append_assoc]; rfl,fun call hm => ?_⟩
      rcases List.mem_append.mp hm with hm | hm
      · have hcall : call = .streamShutdown sid .read := by
          obtain ⟨_,rfl⟩ | ⟨_,rfl⟩ | ⟨_,rfl | rfl,_⟩ := hcase <;> simp_all
        rw [hcall]
        exact Or.inr ⟨rfl,fun _ => rfl,by simp,by simp⟩
      · rw [List.mem_singleton.mp hm]
        exact Or.inr ⟨rfl,fun _ => rfl,by simp,by simp⟩
  | pass =>
    apply hnone
    rw [act, pass]
    split_ifs
    · rfl
    · split
      · rfl
      · split_ifs <;> rfl
  | turn =>
    rw [act]
    split_ifs
    · unfold turn
      cases e.entry with
      | none => exact hnone rfl
      | some st =>
        obtain ⟨new,ht,hn,-⟩ := pumpTurn_spec r.env sid e.slot e.quic st
        refine ⟨new,ht,fun call hm => Or.inr ⟨(hn call hm).tunnelling,by simp,by simp,?_⟩⟩
        rintro - body fin ans rfl
        exact hn _ hm
    · exact hnone rfl
  | pump =>
    rw [act]
    split_ifs
    · exact hnone rfl
    · unfold pump
      cases e.entry with
      | none => exact hnone rfl
      | some st =>
        obtain ⟨new,ht,hn,-⟩ := pumpStream_spec r.env sid e.quic st
        refine ⟨new,ht,fun call hm => ?_⟩
        have hout := hn call hm
        cases call <;> first | exact Or.inr ⟨hout,fun _ => rfl,by simp,by simp⟩ | contradiction
  | reap =>
    rw [act]
    split_ifs
    · exact hnone rfl
    · unfold reap
      cases e.entry with
      | none => exact hnone rfl
      | some st =>
        simp only
        split
        · exact hnone rfl
        · obtain ⟨new,ht,hn,-⟩ := reapCalls_spec r.env sid e.quic st
          refine ⟨new,ht,fun call hm => ?_⟩
          have hreap := hn call hm
          cases call <;> first | exact Or.inr ⟨hreap,fun _ => rfl,by simp,by simp⟩ | contradiction
  | call c =>
    rw [act]
    split_ifs with hc
    · exact hnone rfl
    · rw [not_or] at hc
      refine ⟨[c],rfl,fun call hm => ?_⟩
      rw [List.mem_singleton.mp hm]
      exact Or.inl hc.2
  | lost rx =>
    apply hnone
    by_cases hp : e.pumping
    · rw [act, if_pos hp]
    · rw [act, if_neg hp]

end QuicEnd
end EchTunnel
