import EchTunnel.Library.Assoc
import EchTunnel.Library.Run
import EchTunnel.Quic.Connection
import EchTunnel.Quic.Stream

/-! The stream bookkeeping of an event loop: `StreamState`, and the passes over all streams that
ferry bytes between `quiche` and the bridges. -/
namespace EchTunnel
open Wire

/-- Depth of an inbound channel, in chunks. -/
def INBOUND_CHANNEL_CAP : ℕ := 32

/-- `inboundTx` names the inbound channel while its sender is held. -/
structure StreamState where
  inboundTx : Option ℕ
  readable : Bool
  pending : List Bytes
  finPending : Bool
  finSent : Bool
  closed : Bool
  deriving Repr, DecidableEq

namespace StreamState

def tunnel (inboundTx : ℕ) : StreamState := ⟨some inboundTx,false,[],false,false,false⟩

def markReadable (st : StreamState) : StreamState := { st with readable := true }

def queue (st : StreamState) : StreamOut → StreamState
  | .data b => { st with pending := st.pending ++ [b] }
  | .fin => { st with finPending := true }
  | .closed => { st with closed := true }

/-- Everything queued has been handed to `quiche`. -/
def Drained (st : StreamState) : Prop := st.pending = [] ∧ (st.finPending = false ∨ st.finSent = true)

instance (st : StreamState) : Decidable st.Drained := inferInstanceAs (Decidable (_ ∧ _))

end StreamState

/-- A live connection and the tunnels on it. `spawned` are tasks started while it is serviced. -/
structure Conn where
  quic : Trace
  h3 : Bool
  streams : AList fun _ : ℕ => StreamState
  spawned : List QuicStream

namespace Conn

def note (c : Conn) (call : Call) : Conn := { c with quic := call :: c.quic }

def put (c : Conn) (sid : ℕ) (t : Trace) (st : StreamState) : Conn :=
  { c with quic := t, streams := c.streams.insert sid st }

def remove (c : Conn) (sid : ℕ) : Conn := { c with streams := c.streams.erase sid }

/-- The map entry of a new tunnel. Its inbound channel is named after the moment. -/
def enter (c : Conn) (sid : ℕ) : Conn :=
  c.put sid (.tunnel sid :: c.quic) (.tunnel c.quic.length)

def markReadable (c : Conn) (sid : ℕ) : Conn :=
  match c.streams.lookup sid with
  | none => c
  | some st => c.put sid c.quic st.markReadable

def queue (c : Conn) (sid : ℕ) (out : StreamOut) : Conn :=
  match c.streams.lookup sid with
  | none => c
  | some st => c.put sid c.quic (st.queue out)

end Conn

variable (env : Env)

/-- One turn of the loop in `pump_inbound`. It goes on after a chunk it put into the channel. -/
def pumpTurn (sid : ℕ) (slot : Slot) (t : Trace) (st : StreamState) :
    Trace × StreamState × Option Bytes :=
  match slot with
  | .permit =>
    let a := env.recvBody t sid
    let t := .recvBody sid a :: t
    match a with
    | .ok b => (t,st,some b)
    | .done =>
      let finished := env.streamFinished t sid
      (.streamFinished sid finished :: t,
        { st with readable := false, inboundTx := if finished then none else st.inboundTx },none)
    | .err => (t,{ st with readable := false, inboundTx := none },none)
  | .full => (t,st,none)
  | .closed =>
    (.streamShutdown sid .read :: t,{ st with readable := false, inboundTx := none },none)

def pumpTurns (sid : ℕ) : List Slot → Trace → StreamState → Trace × StreamState
  | [], t, st => (t,st)
  | slot :: slots, t, st =>
    match pumpTurn env sid slot t st with
    | (t,st,some _) => pumpTurns sid slots t st
    | (t,st,none) => (t,st)

def pumpInboundAt (c : Conn) (sid : ℕ) : Conn :=
  match c.streams.lookup sid with
  | none => c
  | some st =>
    if ¬ st.readable then c else
    match st.inboundTx with
    | none => c.put sid c.quic { st with readable := false }
    | some rx =>
      let (t,st) := pumpTurns env sid (env.reserve c.quic rx) c.quic st
      c.put sid t st

def pumpInbound (c : Conn) : Conn :=
  (env.order c.quic c.streams.keys).foldl (pumpInboundAt env) c

/-- The write loop of `pump_outbound` on one stream, over what is pending. -/
def drainPending (sid : ℕ) : List Bytes → Trace → StreamState → Trace × StreamState
  | [], t, st => (t,{ st with pending := [] })
  | front :: rest, t, st =>
    let a := env.sendBody t sid front false
    let t := .sendBody sid front false a :: t
    match a with
    | .ok n =>
      if n = front.length then drainPending sid rest t st
      else (t,{ st with pending := front.drop n :: rest })
    | .done => (t,{ st with pending := front :: rest })
    | .err => (t,{ st with pending := [], finSent := true })

/-- The fin owed once nothing is pending. -/
def sendFin (sid : ℕ) (t : Trace) (st : StreamState) : Trace × StreamState :=
  if st.pending = [] ∧ st.finPending ∧ ¬ st.finSent then
    let a := env.sendBody t sid [] true
    let t := .sendBody sid [] true a :: t
    match a with
    | .ok _ => (t,{ st with finSent := true })
    | .done => (t,st)
    | .err => (t,{ st with finSent := true })
  else (t,st)

def pumpStream (sid : ℕ) (t : Trace) (st : StreamState) : Trace × StreamState :=
  let (t,st) := drainPending env sid st.pending t st
  sendFin env sid t st

def pumpOutboundAt (c : Conn) (sid : ℕ) : Conn :=
  match c.streams.lookup sid with
  | none => c
  | some st =>
    let (t,st) := pumpStream env sid c.quic st
    c.put sid t st

def pumpOutbound (c : Conn) : Conn :=
  (env.order c.quic c.streams.keys).foldl (pumpOutboundAt env) c

/-- What `reap_streams` still calls on a stream it drops. -/
def reapCalls (sid : ℕ) (t : Trace) (st : StreamState) : Trace :=
  let t := if st.finSent then t else .streamShutdown sid .write :: t
  let finished := env.streamFinished t sid
  let t := .streamFinished sid finished :: t
  if finished then t else .streamShutdown sid .read :: t

def reapAt (c : Conn) (sid : ℕ) : Conn :=
  match c.streams.lookup sid with
  | none => c
  | some st =>
    if ¬ st.closed ∨ ¬ st.Drained then c
    else { c with quic := reapCalls env sid c.quic st, streams := c.streams.erase sid }

def reapStreams (c : Conn) : Conn :=
  (env.order c.quic c.streams.keys).foldl (reapAt env) c

/-- `flush_packets`, and whether it returned `Ok`. -/
def flushPackets (c : Conn) : Conn × Bool :=
  let ok := env.flushPackets c.quic
  (c.note (.flushPackets ok),ok)

/-- One event of `poll_h3`. `handle` is the role's reaction to it. -/
def eventStep (handle : Conn → ℕ → H3Event → Conn) (c : Conn) (p : ℕ × H3Event) : Conn :=
  handle (c.note (.poll p.1 p.2)) p.1 p.2

/-- Drain the event queue. -/
def pollH3 (handle : Conn → ℕ → H3Event → Conn) (c : Conn) : Conn :=
  (env.polls c.quic).foldl (eventStep handle) c

/-- The passes a loop makes once the HTTP/3 layer is up. -/
def exchange (handle : Conn → ℕ → H3Event → Conn) (c : Conn) : Conn :=
  reapStreams env (pumpOutbound env (pumpInbound env (pollH3 env handle c)))

namespace Conn
variable (c : Conn) (sid : ℕ) (t : Trace) (st : StreamState) (call : Call)

@[simp] theorem note_quic : (c.note call).quic = call :: c.quic := rfl
@[simp] theorem put_quic : (c.put sid t st).quic = t := rfl
@[simp] theorem remove_quic : (c.remove sid).quic = c.quic := rfl

@[simp] theorem put_lookup (k : ℕ) :
    (c.put sid t st).streams.lookup k = if k = sid then some st else c.streams.lookup k :=
  Assoc.lookup_insert _ _ _ _

@[simp] theorem remove_lookup (k : ℕ) :
    (c.remove sid).streams.lookup k = if k = sid then none else c.streams.lookup k :=
  Assoc.lookup_erase _ _ _

theorem markReadable_quic : (c.markReadable sid).quic = c.quic := by
  unfold markReadable
  split <;> rfl

theorem queue_quic (out : StreamOut) : (c.queue sid out).quic = c.quic := by
  unfold queue
  split <;> rfl

theorem queue_spawned (out : StreamOut) : (c.queue sid out).spawned = c.spawned := by
  unfold queue
  split <;> rfl

end Conn

/-- The calls of `pump_inbound` on a stream. -/
def Call.Inbound (sid : ℕ) : Call → Prop
  | .recvBody s _ | .streamFinished s _ | .streamShutdown s .read => s = sid
  | _ => False

/-- The calls of `pump_outbound` on a stream. -/
def Call.Outbound (sid : ℕ) : Call → Prop
  | .sendBody s _ _ _ => s = sid
  | _ => False

theorem Call.Inbound.stream {sid : ℕ} {call : Call} (h : call.Inbound sid) :
    call.stream = some sid := by
  unfold Inbound at h
  split at h <;> simp_all [Call.stream]

theorem Call.Outbound.stream {sid : ℕ} {call : Call} (h : call.Outbound sid) :
    call.stream = some sid := by
  unfold Outbound at h
  split at h <;> simp_all [Call.stream]

/-- The part of a stream's state that concerns the write side. -/
def StreamState.SameOutbound (st st' : StreamState) : Prop :=
  st'.pending = st.pending ∧ st'.finPending = st.finPending ∧ st'.finSent = st.finSent ∧
    st'.closed = st.closed

theorem pumpTurn_spec (sid : ℕ) (slot : Slot) (t : Trace) (st : StreamState) :
    ∃ new : Trace, (pumpTurn env sid slot t st).1 = new ++ t ∧ (∀ call ∈ new, call.Inbound sid) ∧
      st.SameOutbound (pumpTurn env sid slot t st).2.1 := by
  cases slot with
  | permit =>
    simp only [pumpTurn]
    cases env.recvBody t sid with
    | ok b => exact ⟨[.recvBody sid (.ok b)],rfl,by simp [Call.Inbound],rfl,rfl,rfl,rfl⟩
    | done =>
      refine ⟨[.streamFinished sid _,.recvBody sid .done],rfl,?_,rfl,rfl,rfl,rfl⟩
      simp [Call.Inbound]
    | err => exact ⟨[.recvBody sid .err],rfl,by simp [Call.Inbound],rfl,rfl,rfl,rfl⟩
  | full => exact ⟨[],rfl,by simp,rfl,rfl,rfl,rfl⟩
  | closed => exact ⟨[.streamShutdown sid .read],rfl,by simp [Call.Inbound],rfl,rfl,rfl,rfl⟩

theorem StreamState.SameOutbound.trans {st₁ st₂ st₃ : StreamState} (h : st₁.SameOutbound st₂)
    (h' : st₂.SameOutbound st₃) : st₁.SameOutbound st₃ := by
  unfold SameOutbound at *
  simp [h, h']

theorem pumpTurns_spec (sid : ℕ) (slots : List Slot) (t : Trace) (st : StreamState) :
    ∃ new : Trace, (pumpTurns env sid slots t st).1 = new ++ t ∧ (∀ call ∈ new, call.Inbound sid) ∧
      st.SameOutbound (pumpTurns env sid slots t st).2 := by
  induction slots generalizing t st with
  | nil => exact ⟨[],rfl,by simp,rfl,rfl,rfl,rfl⟩
  | cons slot slots ih =>
    obtain ⟨new,ht,hn,ho⟩ := pumpTurn_spec env sid slot t st
    rw [pumpTurns]
    split
    · rename_i t' st' b he
      rw [he] at ht ho
      obtain ⟨new',ht',hn',ho'⟩ := ih t' st'
      refine ⟨new' ++ new,?_,?_,ho.trans ho'⟩
      · rw [ht', show t' = new ++ t from ht, List.append_assoc]
      · intro call hc
        exact (List.mem_append.mp hc).elim (hn' call) (hn call)
    · rename_i t' st' he
      rw [he] at ht ho
      exact ⟨new,ht,hn,ho⟩

/-- What `pump_inbound` does to a stream: nothing, or a new entry with the same write side. -/
theorem pumpInboundAt_spec (c : Conn) (sid : ℕ) :
    pumpInboundAt env c sid = c ∨ ∃ st st' new, c.streams.lookup sid = some st ∧
      pumpInboundAt env c sid = c.put sid (new ++ c.quic) st' ∧
      (∀ call ∈ new, call.Inbound sid) ∧ st.SameOutbound st' := by
  unfold pumpInboundAt
  cases hl : c.streams.lookup sid with
  | none => exact Or.inl rfl
  | some st =>
    by_cases hr : st.readable
    · right
      cases hrx : st.inboundTx with
      | none => exact ⟨st,{ st with readable := false },[],rfl,by simp [hr, hrx],by simp,rfl,rfl,rfl,rfl⟩
      | some rx =>
        obtain ⟨new,ht,hn,ho⟩ := pumpTurns_spec env sid (env.reserve c.quic rx) c.quic st
        exact ⟨st,_,new,rfl,by simp only [hr, hrx, not_true, if_false, ← ht],hn,ho⟩
    · exact Or.inl (by simp [hr])

/-- What survives every event and every visit of a stream survives the passes of a loop. The events
may have to meet a condition. -/
theorem exchange_induction {P : Conn → Prop} {C : Conn → ℕ × H3Event → Prop}
    {handle : Conn → ℕ → H3Event → Conn} {c : Conn} (h₀ : P c)
    (hmeets : Run.Meets (eventStep handle) C c (env.polls c.quic))
    (hevent : ∀ c p, P c → C c p → P (eventStep handle c p))
    (hin : ∀ c sid, P c → P (pumpInboundAt env c sid))
    (hout : ∀ c sid, P c → P (pumpOutboundAt env c sid))
    (hreap : ∀ c sid, P c → P (reapAt env c sid)) : P (exchange env handle c) := by
  have h₁ : P (pollH3 env handle c) := hmeets.induction hevent h₀
  have h₂ : P (pumpInbound env (pollH3 env handle c)) := Run.induction hin _ h₁
  have h₃ : P (pumpOutbound env (pumpInbound env (pollH3 env handle c))) := Run.induction hout _ h₂
  exact Run.induction hreap _ h₃

/-- The fin is accepted, `send_body` fails hard, or the write side is shut down. -/
def Call.EndsWrite (sid : ℕ) : Call → Prop
  | .sendBody s body fin a => s = sid ∧ (fin ∧ a = .ok body.length ∨ a = .err)
  | .streamShutdown s .write => s = sid
  | _ => False

/-- The stream is finished, is reset by the peer, or its read side is shut down. -/
def Call.EndsRead (sid : ℕ) : Call → Prop
  | .streamFinished s true | .poll s (.reset _) | .streamShutdown s .read => s = sid
  | _ => False

instance (sid : ℕ) : (call : Call) → Decidable (call.EndsWrite sid)
  | .sendBody s body fin a => inferInstanceAs (Decidable (s = sid ∧ (fin ∧ a = .ok body.length ∨ a = .err)))
  | .streamShutdown s .write => inferInstanceAs (Decidable (s = sid))
  | .streamShutdown _ .read | .connect _ | .accept .. | .recv .. | .onTimeout | .close .. | .withTransport _
  | .poll .. | .sendRequest .. | .sendResponse .. | .recvBody .. | .streamFinished .. | .flushPackets _
  | .tunnel _ => isFalse not_false

instance (sid : ℕ) : (call : Call) → Decidable (call.EndsRead sid)
  | .streamFinished s true | .poll s (.reset _) | .streamShutdown s .read =>
    inferInstanceAs (Decidable (s = sid))
  | .streamFinished _ false | .poll _ (.headers _) | .poll _ .data | .poll _ .finished
  | .poll _ .priorityUpdate | .poll _ .goAway | .streamShutdown _ .write | .connect _ | .accept ..
  | .recv .. | .onTimeout | .close .. | .withTransport _ | .sendRequest .. | .sendResponse ..
  | .sendBody .. | .recvBody .. | .flushPackets _ | .tunnel _ => isFalse not_false

namespace Trace

/-- The write side of a stream has come to its end. -/
def WriteEnded (t : Trace) (sid : ℕ) : Prop := ∃ call ∈ t, call.EndsWrite sid

/-- The read side of a stream has come to its end. -/
def ReadEnded (t : Trace) (sid : ℕ) : Prop := ∃ call ∈ t, call.EndsRead sid

variable {t u : Trace} {sid : ℕ}

instance : Decidable (t.WriteEnded sid) := inferInstanceAs (Decidable (∃ call ∈ t, _))

instance : Decidable (t.ReadEnded sid) := inferInstanceAs (Decidable (∃ call ∈ t, _))

theorem WriteEnded.mono (h : t.WriteEnded sid) (hu : t ⊆ u) : u.WriteEnded sid :=
  h.imp fun _ hc => hc.imp_left (hu ·)

theorem ReadEnded.mono (h : t.ReadEnded sid) (hu : t ⊆ u) : u.ReadEnded sid :=
  h.imp fun _ hc => hc.imp_left (hu ·)

end Trace

/-- The calls of `reap_streams` on a stream. -/
def Call.Reaping (sid : ℕ) : Call → Prop
  | .streamFinished s _ | .streamShutdown s _ => s = sid
  | _ => False

theorem Call.Reaping.stream {sid : ℕ} {call : Call} (h : call.Reaping sid) :
    call.stream = some sid := by
  unfold Reaping at h
  split at h <;> simp_all [Call.stream]

/-- Both sides are ended: the read side always, the write side unless its fin is out. -/
theorem reapCalls_spec (sid : ℕ) (t : Trace) (st : StreamState) :
    ∃ new : Trace, reapCalls env sid t st = new ++ t ∧ (∀ call ∈ new, call.Reaping sid) ∧
      (.streamShutdown sid .write ∈ new ↔ st.finSent = false) ∧ new.ReadEnded sid := by
  unfold reapCalls
  generalize hw : (if st.finSent then t else .streamShutdown sid .write :: t) = t'
  have ht' : t' = (if st.finSent then [] else [.streamShutdown sid .write]) ++ t := by
    rw [← hw]
    split_ifs <;> rfl
  cases hf : env.streamFinished t' sid with
  | true =>
    refine ⟨.streamFinished sid true :: if st.finSent then [] else [.streamShutdown sid .write],?_,?_,?_,?_⟩
    · simp only [hf, if_true, List.cons_append, ← ht']
    · split_ifs <;> simp [Call.Reaping]
    · split_ifs <;> simp_all
    · exact ⟨.streamFinished sid true,by simp,rfl⟩
  | false =>
    refine ⟨.streamShutdown sid .read :: .streamFinished sid false ::
      if st.finSent then [] else [.streamShutdown sid .write],?_,?_,?_,?_⟩
    · simp only [hf, Bool.false_eq_true, if_false, List.cons_append, ← ht']
    · split_ifs <;> simp [Call.Reaping]
    · split_ifs <;> simp_all
    · exact ⟨.streamShutdown sid .read,by simp,rfl⟩

/-- What `reap_streams` does to a stream: nothing, or it ends both sides and drops the entry, which is
closed and has nothing queued. -/
theorem reapAt_spec (c : Conn) (sid : ℕ) :
    reapAt env c sid = c ∨ ∃ st new, c.streams.lookup sid = some st ∧ st.closed = true ∧ st.Drained ∧
      reapAt env c sid = Conn.remove { c with quic := new ++ c.quic } sid ∧
      (∀ call ∈ new, call.Reaping sid) ∧ (.streamShutdown sid .write ∈ new ↔ st.finSent = false) ∧
      Trace.ReadEnded new sid := by
  unfold reapAt
  cases hl : c.streams.lookup sid with
  | none => exact Or.inl rfl
  | some st =>
    by_cases hr : ¬ st.closed ∨ ¬ st.Drained
    · exact Or.inl (if_pos hr)
    · obtain ⟨hc,hd⟩ := not_or.mp hr
      obtain ⟨new,he,hn,hw,hread⟩ := reapCalls_spec env sid c.quic st
      refine Or.inr ⟨st,new,rfl,not_not.mp hc,not_not.mp hd,?_,hn,hw,hread⟩
      simp only [if_neg hr, he]
      rfl

end EchTunnel
