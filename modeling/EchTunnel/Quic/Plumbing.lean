import EchTunnel.Quic.Egress

/-! Tunnels of one connection under any interleaving of bridges and event-loop iterations. -/
namespace EchTunnel
open Wire

structure Plumbing where
  conn : Conn
  hub : Hub

/-- `iterate` is one turn of an event loop, with or without a message to dequeue. -/
inductive PlumbingAct
  | packet (peer : SocketAddr) (pkt : Bytes)
  | opened (sid : ℕ)
  | bridge (i : ℕ) (a : BridgeAct)
  | iterate (dequeue : Bool)

/-- The messages in the egress channel that are about one stream. -/
def Hub.flight (h : Hub) (sid : ℕ) : List StreamOut :=
  (h.egress.filter fun m => m.streamId = sid).map Egress.out

def Bridge.sid (b : Bridge) : ℕ := b.stream.streamId

namespace Plumbing

def new (cap : ℕ) : Plumbing := ⟨⟨[],true,∅,[]⟩,Hub.new cap⟩

/-- No stream has this id yet. -/
def Unused (p : Plumbing) (sid : ℕ) : Prop :=
  p.conn.quic.on sid = [] ∧ ∀ b ∈ p.hub.bridges, b.sid ≠ sid

instance (p : Plumbing) (sid : ℕ) : Decidable (p.Unused sid) := inferInstanceAs (Decidable (_ ∧ _))

def openTunnel (p : Plumbing) (sid : ℕ) : Plumbing where
  conn := p.conn.enter sid
  hub := p.hub.spawn [⟨.new [] sid p.conn.quic.length,.copying,[]⟩]

def dequeue (p : Plumbing) : Plumbing :=
  match p.hub.egress with
  | [] => p
  | m :: rest => ⟨p.conn.queue m.streamId m.out,{ p.hub with egress := rest }⟩

def step (env : Env) (p : Plumbing) : PlumbingAct → Plumbing
  | .packet peer pkt => { p with conn := p.conn.note (.recv peer pkt) }
  | .opened sid => if p.Unused sid then p.openTunnel sid else p
  | .bridge i a => { p with hub := p.hub.act i a }
  | .iterate dq =>
    let p := if dq then p.dequeue else p
    { p with conn := reapStreams env (pumpOutbound env p.conn) }

/-- Every tunnel is in order, and every message in the channel has its sender. -/
structure Sound (p : Plumbing) : Prop where
  rxOpen : p.hub.rxOpen = true
  distinct : ∀ {i j : ℕ} {b b' : Bridge}, p.hub.bridges[i]? = some b → p.hub.bridges[j]? = some b' →
    b.sid = b'.sid → i = j
  addressed : ∀ m ∈ p.hub.egress, ∃ b ∈ p.hub.bridges, b.sid = m.streamId
  lanes : ∀ {i : ℕ} {b : Bridge}, p.hub.bridges[i]? = some b →
    Lane (p.conn.quic.on b.sid) (p.conn.streams.lookup b.sid) (p.hub.flight b.sid) b

variable {env : Env} {p : Plumbing}

/-- The state of the streams may change as long as every lane stays in order. -/
theorem Sound.conn (h : p.Sound) {c : Conn} (hc : ∀ sid flight b,
    Lane (p.conn.quic.on sid) (p.conn.streams.lookup sid) flight b →
      Lane (c.quic.on sid) (c.streams.lookup sid) flight b) : Sound { p with conn := c } :=
  ⟨h.rxOpen,h.distinct,h.addressed,fun hb => hc _ _ _ (h.lanes hb)⟩

theorem lane_put {c : Conn} {sid k : ℕ} {new : Trace} {st : StreamState} {flight : List StreamOut}
    {b : Bridge} (hcalls : ∀ call ∈ new, call.stream = some sid)
    (hown : ∀ flight b, Lane (c.quic.on sid) (c.streams.lookup sid) flight b →
      Lane (new ++ c.quic.on sid) (some st) flight b)
    (h : Lane (c.quic.on k) (c.streams.lookup k) flight b) :
    Lane ((c.put sid (new ++ c.quic) st).quic.on k)
      ((c.put sid (new ++ c.quic) st).streams.lookup k) flight b := by
  by_cases hk : k = sid
  · subst k
    simpa [Trace.on_eq_self _ _ hcalls] using hown flight b h
  · simpa [Trace.on_eq_nil _ _ hcalls hk, hk] using h

theorem lane_pumpOutboundAt (c : Conn) (s k : ℕ) {flight : List StreamOut} {b : Bridge}
    (h : Lane (c.quic.on k) (c.streams.lookup k) flight b) :
    Lane ((pumpOutboundAt env c s).quic.on k) ((pumpOutboundAt env c s).streams.lookup k)
      flight b := by
  unfold pumpOutboundAt
  cases hl : c.streams.lookup s with
  | none => exact h
  | some st =>
    obtain ⟨new,he,hcalls,_⟩ := pumpStream_spec env s c.quic st
    simp only [he]
    refine lane_put (fun call hm => (hcalls call hm).stream) ?_ h
    intro flight b hb
    rw [hl] at hb
    obtain ⟨taken,hout,hcar⟩ := hb
    obtain ⟨new',he',_,hcar'⟩ := hcar.pump env s c.quic
    have hnew : new' = new := List.append_cancel_right (he'.symm.trans he)
    subst new'
    exact ⟨taken,hout,hcar'⟩

theorem lane_reapAt (c : Conn) (s k : ℕ) {flight : List StreamOut} {b : Bridge}
    (h : Lane (c.quic.on k) (c.streams.lookup k) flight b) :
    Lane ((reapAt env c s).quic.on k) ((reapAt env c s).streams.lookup k) flight b := by
  unfold reapAt
  cases hl : c.streams.lookup s with
  | none => exact h
  | some st =>
    simp only
    split
    · exact h
    · rename_i hr
      obtain ⟨hc,hd⟩ := not_or.mp hr
      rw [not_not] at hc hd
      obtain ⟨new,he,hcalls,_⟩ := reapCalls_spec env s c.quic st
      have hs : ∀ call ∈ new, call.stream = some s := fun call hm => (hcalls call hm).stream
      by_cases hk : k = s
      · subst k
        rw [hl] at h
        obtain ⟨new',he',_,hlane⟩ := h.reap env s c.quic hc hd
        have hnew : new' = new := List.append_cancel_right (he'.symm.trans he)
        subst new'
        simpa [he, Trace.on_eq_self _ _ hs, Assoc.lookup_erase] using hlane
      · simpa [he, Trace.on_eq_nil _ _ hs hk, Assoc.lookup_erase, hk] using h

theorem Sound.pump (h : p.Sound) :
    Sound { p with conn := reapStreams env (pumpOutbound env p.conn) } := by
  have h₁ : Sound { p with conn := pumpOutbound env p.conn } := by
    refine Run.induction (I := fun c => Sound { p with conn := c }) ?_ _ h
    intro c s hc
    exact hc.conn fun sid flight b hb => lane_pumpOutboundAt c s sid hb
  refine Run.induction (I := fun c => Sound { p with conn := c }) ?_ _ h₁
  intro c s hc
  exact hc.conn fun sid flight b hb => lane_reapAt c s sid hb

theorem Sound.packet (h : p.Sound) (peer : SocketAddr) (pkt : Bytes) :
    Sound { p with conn := p.conn.note (.recv peer pkt) } :=
  h.conn fun sid flight b hb => by
    rwa [Conn.note_quic, Trace.on_cons_of_ne _ _ (by simp [Call.stream])]

theorem flight_eq_nil (h : p.Sound) {sid : ℕ} (hs : ∀ b ∈ p.hub.bridges, b.sid ≠ sid) :
    p.hub.flight sid = [] := by
  rw [Hub.flight, List.map_eq_nil_iff, List.filter_eq_nil_iff]
  intro m hm
  obtain ⟨b,hb,he⟩ := h.addressed m hm
  simpa [← he] using hs b hb

theorem Sound.openTunnel (h : p.Sound) {sid : ℕ} (hu : p.Unused sid) : (p.openTunnel sid).Sound := by
  obtain ⟨hq,hs⟩ := hu
  have hget : ∀ {i b}, (p.openTunnel sid).hub.bridges[i]? = some b →
      p.hub.bridges[i]? = some b ∨ i = p.hub.bridges.length ∧
        b = ⟨.new [] sid p.conn.quic.length,.copying,[]⟩ := by
    intro i b hb
    simp only [Plumbing.openTunnel, Hub.spawn, List.getElem?_append] at hb
    split at hb
    · exact Or.inl hb
    · rw [List.getElem?_singleton] at hb
      split at hb
      · cases hb
        exact Or.inr ⟨by omega,rfl⟩
      · contradiction
  refine ⟨h.rxOpen,?_,?_,?_⟩
  · intro i j b b' hi hj hbb
    obtain hi | ⟨hi,rfl⟩ := hget hi
    · obtain hj | ⟨hj,rfl⟩ := hget hj
      · exact h.distinct hi hj hbb
      · exact absurd hbb (hs b (List.mem_of_getElem? hi))
    · obtain hj | ⟨hj,rfl⟩ := hget hj
      · exact absurd hbb.symm (hs b' (List.mem_of_getElem? hj))
      · omega
  · intro m hm
    obtain ⟨b,hb,he⟩ := h.addressed m hm
    exact ⟨b,List.mem_append_left _ hb,he⟩
  · intro i b hb
    obtain hi | ⟨hi,rfl⟩ := hget hb
    · have hne := hs b (List.mem_of_getElem? hi)
      have hl := h.lanes hi
      simp only [Plumbing.openTunnel, Conn.enter, Conn.put_quic, Conn.put_lookup, if_neg hne]
      rwa [Trace.on_cons_of_ne _ _ (by simpa [Call.stream] using Ne.symm hne)]
    · have hf : (p.openTunnel sid).hub.flight sid = [] := flight_eq_nil h hs
      simp only [Bridge.sid, QuicStream.new, hf]
      simp only [Plumbing.openTunnel, Conn.enter, Conn.put_quic, Conn.put_lookup, if_true]
      rw [Trace.on_cons_of_eq _ _ rfl, hq]
      refine ⟨[],by simp [Bridge.outs],by simp [StreamState.tunnel],by simp [StreamState.tunnel],by simp,
        ?_,?_⟩
      · intro _
        exact ⟨[],by simp [Call.accepted, StreamState.tunnel],by simp [payload, StreamState.tunnel],
          by simp [StreamState.tunnel]⟩
      · simp

theorem lane_act {u : Trace} {entry : Option StreamState} {flight : List StreamOut} {b : Bridge}
    (h : Lane u entry flight b) (a : BridgeAct) (ha : ∀ r ∈ a.reserve, r ≠ .closed) :
    Lane u entry (flight ++ (b.act a).2.toList.map Egress.out) (b.act a).1 := by
  cases entry with
  | some st =>
    obtain ⟨taken,hout,hcar⟩ := h
    exact ⟨taken,by rw [(b.act_outs a ha).1, hout, List.append_assoc],hcar⟩
  | none =>
    have hact : b.act a = (b,none) := by simp [Bridge.act, h.2.done]
    rw [hact]
    exact ⟨by simp [h.1],h.2⟩

/-- What one task sends is in the lane of its own stream. -/
theorem sent_flight {o : Option Egress} {sid : ℕ} (h : ∀ m ∈ o, m.streamId = sid) (k : ℕ) :
    (o.toList.filter fun m => m.streamId = k).map Egress.out =
      if sid = k then o.toList.map Egress.out else [] := by
  cases o with
  | none => simp
  | some m =>
    have hm : m.streamId = sid := h m rfl
    by_cases hk : sid = k
    · simp [hm, hk]
    · simp [hm, hk]

theorem getElem?_set_cases {bs : List Bridge} {i j : ℕ} {b x : Bridge}
    (h : (bs.set i b)[j]? = some x) : j = i ∧ x = b ∨ j ≠ i ∧ bs[j]? = some x := by
  rw [List.getElem?_set] at h
  split at h
  · split at h
    · cases h
      exact Or.inl ⟨by omega,rfl⟩
    · contradiction
  · exact Or.inr ⟨by omega,h⟩

/-- A task that takes a step stays on its stream. -/
theorem stream_set {bs : List Bridge} {i : ℕ} {b b' : Bridge} (hb : bs[i]? = some b)
    (hsid : b'.sid = b.sid) {j : ℕ} {x : Bridge} (hx : (bs.set i b')[j]? = some x) :
    ∃ y, bs[j]? = some y ∧ y.sid = x.sid := by
  obtain ⟨rfl,rfl⟩ | ⟨_,hx⟩ := getElem?_set_cases hx
  · exact ⟨b,hb,hsid.symm⟩
  · exact ⟨x,hx,rfl⟩

theorem Sound.act (h : p.Sound) (i : ℕ) (a : BridgeAct) :
    Sound { p with hub := p.hub.act i a } := by
  unfold Hub.act
  cases hb : p.hub.bridges[i]? with
  | none => exact h
  | some b =>
    simp only
    split
    · rename_i ha
      have hcl : ∀ r ∈ a.reserve, r ≠ .closed := by
        rintro r hr rfl
        exact ha _ hr h.rxOpen
      have ⟨_,hstream,hout⟩ := b.act_outs a hcl
      have hsid : (b.act a).1.sid = b.sid := hstream
      have hmsg : ∀ m ∈ (b.act a).2, m.streamId = b.sid := hout
      refine ⟨h.rxOpen,?_,?_,?_⟩
      · intro j k x y hx hy hxy
        obtain ⟨x',hx',ex⟩ := stream_set hb hsid hx
        obtain ⟨y',hy',ey⟩ := stream_set hb hsid hy
        exact h.distinct hx' hy' (by rw [ex, ey, hxy])
      · intro m hm
        have hex : ∃ y ∈ p.hub.bridges, y.sid = m.streamId := by
          rcases List.mem_append.mp hm with hm | hm
          · exact h.addressed m hm
          · exact ⟨b,List.mem_of_getElem? hb,(hmsg m (by simpa using hm)).symm⟩
        obtain ⟨y,hy,hys⟩ := hex
        obtain ⟨j,hj⟩ := List.getElem?_of_mem hy
        by_cases hji : j = i
        · subst j
          cases hj.symm.trans hb
          refine ⟨(b.act a).1,?_,hsid.trans hys⟩
          exact List.mem_set (List.getElem?_eq_some_iff.mp hb).1 _
        · exact ⟨y,List.mem_of_getElem? (by rwa [List.getElem?_set_ne (Ne.symm hji)]),hys⟩
      · intro j x hx
        simp only [Hub.flight, List.filter_append, List.map_append]
        rw [sent_flight hmsg]
        obtain ⟨rfl,rfl⟩ | ⟨hji,hx⟩ := getElem?_set_cases hx
        · rw [if_pos hsid.symm, hsid]
          exact lane_act (h.lanes hb) a hcl
        · have hne : b.sid ≠ x.sid := fun he => hji (h.distinct hx hb he.symm)
          rw [if_neg hne, List.append_nil]
          exact h.lanes hx
    · exact h

theorem Sound.dequeue (h : p.Sound) : p.dequeue.Sound := by
  unfold Plumbing.dequeue
  cases he : p.hub.egress with
  | nil => exact h
  | cons m rest =>
    refine ⟨h.rxOpen,h.distinct,fun m' hm => h.addressed m' (by simp [he, hm]),?_⟩
    intro i b hb
    have hl := h.lanes hb
    simp only [Hub.flight, he] at hl ⊢
    unfold Conn.queue
    by_cases hs : m.streamId = b.sid
    · rw [List.filter_cons_of_pos (by simpa using hs), List.map_cons] at hl
      rw [hs]
      cases hlk : p.conn.streams.lookup b.sid with
      | none =>
        rw [hlk] at hl
        exact absurd hl.1 (by simp)
      | some st =>
        rw [hlk] at hl
        obtain ⟨taken,hout,hcar⟩ := hl
        simp only [Conn.put_quic, Conn.put_lookup, if_true]
        refine ⟨taken ++ [m.out],by simp [hout],hcar.queue ?_⟩
        intro bytes hbytes hfin
        exact (b.outs_order hout).2 hfin bytes (by simp [hbytes])
    · rw [List.filter_cons_of_neg (by simpa using hs)] at hl
      cases hlk : p.conn.streams.lookup m.streamId with
      | none => exact hl
      | some st =>
        simpa [Ne.symm hs] using hl

theorem new_sound (cap : ℕ) : (new cap).Sound := by
  refine ⟨rfl,?_,?_,?_⟩ <;> simp [new, Hub.new]

theorem Sound.step (h : p.Sound) (a : PlumbingAct) : (step env p a).Sound := by
  cases a with
  | packet peer pkt => exact h.packet peer pkt
  | opened sid =>
    rw [Plumbing.step]
    split_ifs with hu
    · exact h.openTunnel hu
    · exact h
  | bridge i a => exact h.act i a
  | iterate dq =>
    cases dq with
    | true => exact h.dequeue.pump
    | false => exact h.pump

end Plumbing

/-- What has been accepted on a stream, and when it is the whole of what was written. -/
theorem Lane.carries {u : Trace} {entry : Option StreamState} {flight : List StreamOut} {b : Bridge}
    (h : Lane u entry flight b) :
    ∃ (bytes : Bytes) (fin : Bool), u.accepted = bytes.map some ++ (if fin then [none] else []) ∧
      (u.Settled → bytes <+: b.written.flatten) ∧
      (fin → b.stream.shutdownSent ∧ bytes = b.written.flatten) ∧
      (¬ u.Failed → entry = none → bytes = b.written.flatten ∧ (b.stream.shutdownSent → fin) ∧
        ((∃ sid, .streamShutdown sid .write ∈ u) ↔ fin = false)) := by
  cases entry with
  | some st =>
    obtain ⟨taken,hout,hcar⟩ := h
    have hpre : payload taken <+: b.written.flatten := by
      rw [← b.payload_outs, hout, payload_append]
      exact List.prefix_append _ _
    by_cases hf : u.Failed
    · obtain ⟨_,bytes,ha,hp⟩ := hcar.failed hf
      exact ⟨bytes,false,by simp [ha],fun hs => (hp hs).trans hpre,by simp,fun hn => absurd hf hn⟩
    · obtain ⟨bytes,ha,hp,hs⟩ := hcar.healthy hf
      refine ⟨bytes,st.finSent,ha,fun _ => ?_,fun hx => ?_,fun _ hx => by cases hx⟩
      · exact (List.prefix_append _ _).trans (hp ▸ hpre)
      · obtain ⟨hpe,hfin⟩ := hs hx
        refine ⟨b.fin_mem_outs.mp (by simp [hout, hfin]),?_⟩
        -- the data came before the fin, so it has all been taken
        have hnone : payload flight = [] := by
          rw [payload, List.flatMap_eq_nil_iff]
          intro out ho
          cases out with
          | data bs => exact absurd ho ((b.outs_order hout).2 hfin bs)
          | fin => rfl
          | closed => rfl
        rw [← b.payload_outs, hout, payload_append, hnone, List.append_nil, ← hp, hpe]
        simp
  | none =>
    obtain ⟨_,hr⟩ := h
    by_cases hf : u.Failed
    · obtain ⟨bytes,ha,hp⟩ := hr.failed hf
      exact ⟨bytes,false,by simp [ha],hp,by simp,fun hn => absurd hf hn⟩
    · obtain ⟨fin,ha,hs,hw⟩ := hr.healthy hf
      exact ⟨_,fin,ha,fun _ => List.prefix_refl _,fun hx => ⟨hs.mp hx,rfl⟩,
        fun _ _ => ⟨rfl,hs.mpr,hw⟩⟩

namespace Plumbing

/-- Egress integrity: at all times what `quiche` has accepted on a stream is what its bridge wrote,
in order, and the fin stands at the end of it. -/
theorem egress_integrity (env : Env) (cap : ℕ) (acts : List PlumbingAct) (b : Bridge)
    (hb : b ∈ (Run.run (step env) (new cap) acts).hub.bridges) :
    let p := Run.run (step env) (new cap) acts
    let u := p.conn.quic.on b.sid
    ∃ (bytes : Bytes) (fin : Bool), u.accepted = bytes.map some ++ (if fin then [none] else []) ∧
      (u.Settled → bytes <+: b.written.flatten) ∧
      (fin → b.stream.shutdownSent ∧ bytes = b.written.flatten) ∧
      (¬ u.Failed → p.conn.streams.lookup b.sid = none → bytes = b.written.flatten ∧
        (b.stream.shutdownSent → fin) ∧
        (.streamShutdown b.sid .write ∈ p.conn.quic ↔ fin = false)) := by
  have hs : (Run.run (step env) (new cap) acts).Sound :=
    Run.induction (fun p a hp => hp.step a) acts (new_sound cap)
  obtain ⟨i,hi⟩ := List.getElem?_of_mem hb
  obtain ⟨bytes,fin,ha,hp,hf,hr⟩ := (hs.lanes hi).carries
  refine ⟨bytes,fin,ha,hp,hf,fun hnf hl => ?_⟩
  simpa [Call.stream] using hr hnf hl

/-- One tunnel that writes two buffers, each of which is dequeued and pumped. -/
def twoWrites : List PlumbingAct :=
  [.opened 0,.bridge 0 (.write [1] .ready),.iterate true,.bridge 0 (.write [2] .ready),.iterate true]

/-- Its bridge then shuts down, ends and reports it. -/
def wholeTunnel : List PlumbingAct :=
  twoWrites ++ [.bridge 0 (.shutdown .ready),.bridge 0 .finish,.bridge 0 (.close .ready),
    .iterate true,.iterate true]

theorem egress_integrity_wholeTunnel :
    let p := Run.run (step Env.idle) (new 256) wholeTunnel
    let b : Bridge := ⟨{ QuicStream.new [] 0 0 with shutdownSent := true },.done,[[1],[2]]⟩
    let u := p.conn.quic.on b.sid
    ∃ (bytes : Bytes) (fin : Bool), u.accepted = bytes.map some ++ (if fin then [none] else []) ∧
      (u.Settled → bytes <+: b.written.flatten) ∧
      (fin → b.stream.shutdownSent ∧ bytes = b.written.flatten) ∧
      (¬ u.Failed → p.conn.streams.lookup b.sid = none → bytes = b.written.flatten ∧
        (b.stream.shutdownSent → fin) ∧
        (.streamShutdown b.sid .write ∈ p.conn.quic ↔ fin = false)) :=
  egress_integrity Env.idle 256 wholeTunnel _ (by decide)

/-- `send_body` fails hard on its first call and accepts everything after that. -/
def faltering : Env :=
  { Env.idle with
    sendBody := fun t _ body _ =>
      if t.any fun | .sendBody _ _ _ _ => true | _ => false then .ok body.length else .err
    sendBody_le := by
      intro t sid body fin n h
      split at h
      · cases h
        exact le_rfl
      · contradiction }

/-- After a hard failure later buffers still reach `quiche`, so the prefix law needs its proviso. -/
theorem bytes_lost_before_later_bytes :
    ¬ ∀ (env : Env) (cap : ℕ) (acts : List PlumbingAct),
      ∀ b ∈ (Run.run (step env) (new cap) acts).hub.bridges,
        ((Run.run (step env) (new cap) acts).conn.quic.on b.sid).accepted.reduceOption <+:
          b.written.flatten := by
  intro h
  have := h faltering 256 twoWrites
  revert this
  decide

end Plumbing
end EchTunnel
