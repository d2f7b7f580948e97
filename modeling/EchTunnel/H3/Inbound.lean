import EchTunnel.H3.Apart
import EchTunnel.H3.Relay

/-! Backpressure toward the peer: what an end takes out of `quiche` and its local peer has not taken is bounded
by the buffers on the way, so that a slow local peer closes the flow-control window. -/
namespace EchTunnel
open Wire

/-- Chunks of the size of a `recv_body` buffer, in the channel and in the adapter. -/
structure Held (rxBuf : Bytes) (channel : List Bytes) : Prop where
  rxBuf : rxBuf.length ≤ RECV_CHUNK
  chunks : ∀ b ∈ channel, b.length ≤ RECV_CHUNK

/-- What lies in front of the bridge when its channel is full. -/
def INBOUND_LIMIT : ℕ := (INBOUND_CHANNEL_CAP+1)*RECV_CHUNK

section Held
variable {rxBuf : Bytes} {channel : List Bytes}

theorem flatten_length_le {k : ℕ} {chunks : List Bytes} (h : ∀ b ∈ chunks, b.length ≤ k) :
    chunks.flatten.length ≤ chunks.length*k := by
  induction chunks with
  | nil => simp
  | cons b chunks ih =>
    have hb := h b List.mem_cons_self
    have hrest := ih fun b hb => h b (List.mem_cons_of_mem _ hb)
    rw [List.flatten_cons, List.length_append, List.length_cons, Nat.succ_mul]
    omega

theorem Held.length_le (h : Held rxBuf channel) (hc : channel.length ≤ INBOUND_CHANNEL_CAP) :
    rxBuf.length + channel.flatten.length ≤ INBOUND_LIMIT := by
  have hflat := flatten_length_le h.chunks
  have hmul : channel.length*RECV_CHUNK ≤ INBOUND_CHANNEL_CAP*RECV_CHUNK := Nat.mul_le_mul_right _ hc
  have hbuf := h.rxBuf
  rw [INBOUND_LIMIT, Nat.succ_mul]
  omega

/-- Reading leaves a part of a chunk behind, and whole chunks. -/
theorem Held.pollRead {s : QuicStream} (h : Held s.rxBuf channel) (senders : Bool) (n : ℕ) :
    Held (s.pollRead senders n channel).2.1.rxBuf (s.pollRead senders n channel).2.2 := by
  have hbuffered : ∀ {s s' : QuicStream} {bytes : Bytes}, s.rxBuf.length ≤ RECV_CHUNK →
      s.takeBuffered n = some (bytes,s') → s'.rxBuf.length ≤ RECV_CHUNK := by
    intro s s' bytes hs ht
    unfold QuicStream.takeBuffered at ht
    split_ifs at ht
    · cases ht
      rw [List.length_drop]
      omega
    · cases ht
      exact hs
  induction channel generalizing s with
  | nil =>
    rw [QuicStream.pollRead]
    cases ht : s.takeBuffered n with
    | some p => exact ⟨hbuffered h.rxBuf ht,by simp⟩
    | none =>
      cases senders with
      | true => exact h
      | false => exact ⟨h.rxBuf,by simp⟩
  | cons b rest ih =>
    rw [QuicStream.pollRead]
    cases ht : s.takeBuffered n with
    | some p => exact ⟨hbuffered h.rxBuf ht,h.chunks⟩
    | none =>
      apply ih
      exact ⟨h.chunks b List.mem_cons_self,fun c hc => h.chunks c (List.mem_cons_of_mem b hc)⟩

end Held

/-- A read is given no more than it has room for. -/
theorem QuicStream.pollRead_length {senders : Bool} {n : ℕ} {channel : List Bytes} (s : QuicStream)
    {bytes : Bytes} (h : (s.pollRead senders n channel).1 = .ready bytes) : bytes.length ≤ n := by
  have hbuffered : ∀ {s s' : QuicStream} {bytes : Bytes},
      s.takeBuffered n = some (bytes,s') → bytes.length ≤ n := by
    intro s s' bytes ht
    unfold takeBuffered at ht
    split_ifs at ht
    · cases ht
      exact List.length_take_le _ _
    · cases ht
      exact Nat.zero_le _
  induction channel generalizing s with
  | nil =>
    rw [pollRead] at h
    cases ht : s.takeBuffered n with
    | some p =>
      rw [ht] at h
      cases h
      exact hbuffered ht
    | none =>
      rw [ht] at h
      cases senders with
      | true => cases h
      | false =>
        cases h
        exact Nat.zero_le _
  | cons b rest ih =>
    rw [pollRead] at h
    cases ht : s.takeBuffered n with
    | some p =>
      rw [ht] at h
      cases h
      exact hbuffered ht
    | none =>
      rw [ht] at h
      exact ih { s with rxBuf := b } h

/-- A chunk is what fits into the buffer of `recv_body`. -/
theorem pumpTurn_chunk {env : Env} {sid : ℕ} {slot : Slot} {t t' : Trace} {st st' : StreamState}
    {chunk : Bytes} (h : pumpTurn env sid slot t st = (t',st',some chunk)) : chunk.length ≤ RECV_CHUNK := by
  obtain ⟨rfl,-⟩ := pumpTurn_some h
  simp only [pumpTurn] at h
  cases ha : env.recvBody t sid with
  | ok bytes =>
    simp only [ha, Prod.mk.injEq, Option.some.injEq] at h
    rw [← h.2.2]
    exact env.recvBody_le ha
  | done => simp [ha] at h
  | err => simp [ha] at h

theorem Bridge.act_rxBuf (b : Bridge) (a : BridgeAct) : (b.act a).1.stream.rxBuf = b.stream.rxBuf := by
  obtain he | ⟨_,_,_,he⟩ | ⟨_,_,_,_,he⟩ | ⟨_,_,_,_,_,he⟩ | ⟨_,_,_,_,he⟩ := b.act_cases a
  · rw [he]
  · rw [he]
  · rw [he]
  · rw [he]
  · rw [he]

/-- Nothing has been read on a tunnel that has not been handed over. -/
def Conn.Fresh (c : Conn) : Prop := c.Spawns fun q => q.rxBuf = []

namespace Conn.Fresh
variable {r : Role} {key : Bytes} {c c' : Conn}

theorem put (h : c.Fresh) (sid : ℕ) (t : Trace) (st : StreamState) : (c.put sid t st).Fresh := h

theorem event (h : c.Fresh) (r : Role) (key : Bytes) (p : ℕ × H3Event) :
    (eventStep (r.handleEvent key) c p).Fresh := by
  cases r with
  | server env cfg => exact Spawns.eventStep h (fun _ _ => rfl) p
  | client env cfg peer scid first =>
    unfold EchTunnel.eventStep
    obtain he | he | ⟨_,he⟩ | ⟨_,he⟩ := Client.handleEvent_spec (c.note (.poll p.1 p.2)) p.1 p.2
    · rw [Role.handleEvent, he]
      exact h
    · rw [Role.handleEvent, he, markReadable]
      split <;> exact h
    · rw [Role.handleEvent, he]
      exact h
    · rw [Role.handleEvent, he]
      exact h

theorem pollH3 (h : c.Fresh) (r : Role) (key : Bytes) : (pollH3 r.env (r.handleEvent key) c).Fresh :=
  Run.induction (I := Fresh) (fun _ p hc => hc.event r key p) _ h

theorem polled (h : c.Fresh) (hp : r.polled c = some c') : c'.Fresh := by
  cases r with
  | server env cfg =>
    obtain ⟨new,h3,ok,_,⟨hn,_⟩ | ⟨hs,_⟩⟩ := Server.service_spec env cfg [] c
    · exact absurd (hn.symm.trans hp) (by simp)
    · rw [← Option.some.inj (hs.symm.trans hp)]
      exact h
  | client env cfg peer scid first =>
    cases hp
    exact h

theorem skip (h : c.Fresh) (r : Role) (key : Bytes) : (r.skip key c).Fresh := by
  cases r with
  | server env cfg => exact Spawns.service h fun _ _ => rfl
  | client env cfg peer scid first => exact h

theorem openStream (h : c.Fresh) (env : Env) (cfg : ClientCfg) (req : OpenReq) :
    (Client.openStream env cfg c req).1.Fresh := by
  obtain ⟨call,-,he⟩ | ⟨sid,hs,-,he | he⟩ := Client.openStream_spec env cfg c req
  · rw [he]
    exact h
  · rw [he]
    exact h
  · rw [he]
    exact Spawns.concat h rfl rfl

theorem rest (h : c.Fresh) (env : Env) :
    (flushPackets env (reapStreams env (pumpOutbound env c))).1.Fresh := by
  have hout : (pumpOutbound env c).Fresh :=
    Run.induction (I := Fresh) (fun _ sid hc => hc.pumpOutboundAt env sid) _ h
  exact Run.induction (I := Fresh) (fun _ sid hc => hc.reapAt env sid) _ hout

end Conn.Fresh

namespace Loop
variable {r : Role} {s : Loop} {key : Bytes} {c : Conn}

/-- The inbound channels and their readers hold no more than they can. -/
structure Bounded (s : Loop) : Prop where
  fresh : ∀ key c, s.conns.lookup key = some c → c.Fresh
  rxBuf : ∀ b ∈ s.hub.bridges, b.stream.rxBuf.length ≤ RECV_CHUNK
  channel : ∀ i, (s.inlets i).queue.length ≤ INBOUND_CHANNEL_CAP
  chunks : ∀ i, ∀ b ∈ (s.inlets i).queue, b.length ≤ RECV_CHUNK

namespace Bounded

theorem of_eq (h : s.Bounded) {s' : Loop} (hc : s'.conns = s.conns) (hb : s'.hub.bridges = s.hub.bridges)
    (hi : s'.inlets = s.inlets) : s'.Bounded := by
  refine ⟨?_,?_,?_,?_⟩
  · rw [hc]
    exact h.fresh
  · rw [hb]
    exact h.rxBuf
  · rw [hi]
    exact h.channel
  · rw [hi]
    exact h.chunks

theorem put (h : s.Bounded) (hc : c.Fresh) (key : Bytes) : (s.put key c).Bounded := by
  refine ⟨?_,h.rxBuf,h.channel,h.chunks⟩
  intro k c' hk
  rw [Loop.put, Assoc.lookup_insert] at hk
  split_ifs at hk
  · cases hk
    exact hc
  · exact h.fresh k c' hk

theorem adopt (h : s.Bounded) (hc : c.Fresh) (r : Role) (key : Bytes) : (s.adopt r key c).Bounded := by
  have hput : (s.put key { c with spawned := [] }).Bounded := h.put (by simp [Conn.Fresh, Conn.Spawns]) key
  refine ⟨hput.fresh,?_,h.channel,h.chunks⟩
  intro b hb
  obtain hb | hb := List.mem_append.mp hb
  · exact h.rxBuf b hb
  · obtain ⟨q,hq,rfl⟩ := List.mem_map.mp hb
    simp [hc q hq]

/-- A chunk comes into a channel that has room for it. -/
theorem push (h : s.Bounded) {name : Bytes × ℕ × ℕ} (hs : s.slot name = .permit) {chunk : Bytes}
    (hc : chunk.length ≤ RECV_CHUNK) : (s.push name chunk).Bounded := by
  unfold slot at hs
  unfold Loop.push
  cases hi : s.hub.reader name with
  | none => exact h
  | some i =>
    simp only [hi] at hs
    split at hs
    · contradiction
    · split_ifs at hs with hlive hroom
      refine ⟨h.fresh,h.rxBuf,?_,?_⟩
      · intro j
        by_cases hj : j = i
        · subst hj
          simp only [Function.update_self, List.length_append, List.length_singleton]
          omega
        · simp only [Function.update_of_ne hj]
          exact h.channel j
      · intro j b hb
        by_cases hj : j = i
        · subst hj
          simp only [Function.update_self, List.mem_append, List.mem_singleton] at hb
          obtain hb | rfl := hb
          · exact h.chunks j b hb
          · exact hc
        · simp only [Function.update_of_ne hj] at hb
          exact h.chunks j b hb

theorem service (h : s.Bounded) (r : Role) (expired : Bool) (key : Bytes) :
    (s.service r expired key).Bounded := by
  unfold Loop.service
  cases hl : s.conns.lookup key with
  | none => exact h
  | some c =>
    have hc : (if expired then c.note .onTimeout else c).Fresh := by
      split_ifs
      · exact h.fresh key c hl
      · exact h.fresh key c hl
    simp only
    split
    · exact h.put (hc.skip r key) key
    · rename_i c' hp
      exact (h.adopt ((hc.polled hp).pollH3 r key) r key).of_eq rfl rfl rfl

theorem visit (h : s.Bounded) (key : Bytes) (sid : ℕ) : (s.visit key sid).Bounded := by
  unfold Loop.visit
  cases hl : s.conns.lookup key with
  | none => exact h
  | some c =>
    simp only
    split
    · exact h
    · split_ifs
      · split
        · exact h.put ((h.fresh key c hl).put sid _ _) key
        · exact h.of_eq rfl rfl rfl
      · exact h

theorem turn (h : s.Bounded) (r : Role) (key : Bytes) (sid : ℕ) : (s.turn r key sid).Bounded := by
  unfold Loop.turn
  cases hl : s.conns.lookup key with
  | none => exact h
  | some c =>
    simp only
    split
    · exact h
    · rename_i st hst
      split
      · exact h
      · rename_i rx hrx
        split
        · exact h.put ((h.fresh key c hl).put sid _ _) key
        · rename_i t st' chunk he
          obtain ⟨hslot,-⟩ := pumpTurn_some he
          have hchunk : chunk.length ≤ RECV_CHUNK := pumpTurn_chunk he
          exact ((h.push hslot hchunk).put ((h.fresh key c hl).put sid t st') key).of_eq rfl rfl rfl

theorem servePending (h : s.Bounded) (hc : c.Fresh) (r : Role) (env : Env) (cfg : ClientCfg)
    (key : Bytes) : (servePending r env cfg s key c).Bounded := by
  unfold Loop.servePending
  split
  · exact h
  · rename_i req hp
    split_ifs
    · exact (h.adopt (hc.openStream env cfg req) r key).of_eq rfl rfl rfl
    · exact h

theorem finish (h : s.Bounded) : s.finish.Bounded :=
  ⟨fun _ _ hk => (by cases hk),h.rxBuf,h.channel,h.chunks⟩

theorem rest (h : s.Bounded) (r : Role) (key : Bytes) : (s.rest r key).Bounded := by
  unfold Loop.rest
  cases hl : s.conns.lookup key with
  | none => exact h
  | some c =>
    have hc := (h.fresh key c hl).rest r.env
    cases r with
    | server env cfg => exact h.put hc key
    | client env cfg peer scid first =>
      simp only
      split_ifs
      · exact (h.put hc key).servePending hc _ env cfg key
      · exact h.finish

theorem perform (h : s.Bounded) (r : Role) (task : Task) : (s.perform r task).Bounded := by
  cases task with
  | service expired key => exact h.service r expired key
  | visit key sid => exact h.visit key sid
  | turn key sid => exact h.turn r key sid
  | rest key => exact h.rest r key
  | retain =>
    refine ⟨?_,h.rxBuf,h.channel,h.chunks⟩
    intro k c hk
    rw [Loop.perform, Assoc.lookup_filter, Option.filter_eq_some_iff] at hk
    exact h.fresh k c hk.1

theorem await (h : s.Bounded) (r : Role) (expired : Bool) (keys : List Bytes) :
    (s.await r expired keys).Bounded := h.of_eq rfl rfl rfl

theorem dequeue (h : s.Bounded) (r : Role) (m : Egress) (rest : List Egress) :
    (s.dequeue r m rest).Bounded := by
  unfold Loop.dequeue
  simp only
  split
  · exact h.of_eq rfl rfl rfl
  · rename_i c hl
    have hc : (c.queue m.streamId m.out).Fresh :=
      Conn.Spawns.of_eq (h.fresh _ c hl) (c.queue_spawned m.streamId m.out)
    exact (h.put hc (r.route m.key)).of_eq rfl rfl rfl

theorem select (h : s.Bounded) (r : Role) (a : Act) : (s.select r a).Bounded := by
  cases a with
  | work => exact h
  | bridge i b => exact h
  | read i n => exact h
  | notify i => exact h
  | packet key peer pkt =>
    rw [Loop.select]
    split
    · exact h
    · rename_i c hl
      exact (h.put (c := c.note (.recv peer pkt)) (h.fresh key c hl) key).await r false [key]
  | accept key peer odcid pkt =>
    cases r with
    | server env cfg =>
      have hc : Conn.Fresh ⟨[.recv peer pkt,.accept peer odcid key],false,∅,[]⟩ := by
        simp [Conn.Fresh, Conn.Spawns]
      exact (h.put hc key).await (.server env cfg) false [key]
    | client env cfg peer scid first => exact h
  | recvError =>
    cases r with
    | server env cfg => exact h
    | client env cfg peer scid first => exact h.finish
  | egress =>
    rw [Loop.select]
    split
    · exact h
    · rename_i m rest he
      exact (h.dequeue r m rest).await r false [r.route m.key]
  | readCredit order =>
    rw [Loop.select]
    split_ifs
    · exact (h.await r false order).of_eq rfl rfl rfl
    · exact h
  | timeout order =>
    rw [Loop.select]
    split_ifs
    · exact h.await r true order
    · exact h
  | openReq req =>
    cases r with
    | server env cfg => exact h
    | client env cfg peer scid first =>
      rw [Loop.select]
      split_ifs
      · exact h.of_eq rfl rfl rfl
      · exact h

/-- A turn of `poll_read` takes from the channel what it puts into the adapter. -/
theorem readTurn {q : QuicStream} {channel : List Bytes} (hq : q.rxBuf.length ≤ RECV_CHUNK)
    (hc : ∀ b ∈ channel, b.length ≤ RECV_CHUNK) (senders : Bool) (n : ℕ) :
    let p := q.readTurn senders n channel
    p.1.rxBuf.length ≤ RECV_CHUNK ∧ p.2.1.length ≤ channel.length ∧ p.2.1 ⊆ channel := by
  unfold QuicStream.readTurn
  cases ht : q.takeBuffered n with
  | some p =>
    refine ⟨?_,le_rfl,List.Subset.refl _⟩
    unfold QuicStream.takeBuffered at ht
    split_ifs at ht
    · cases ht
      rw [List.length_drop]
      omega
    · cases ht
      exact hq
  | none =>
    cases channel with
    | nil =>
      cases senders with
      | true => exact ⟨hq,le_rfl,List.Subset.refl _⟩
      | false => exact ⟨hq,le_rfl,List.Subset.refl _⟩
    | cons b rest => exact ⟨hc b List.mem_cons_self,by simp,List.subset_cons_self b rest⟩

theorem read (h : s.Bounded) (i n : ℕ) : (s.read i n).Bounded := by
  unfold Loop.read
  split
  · exact h
  · rename_i b hb
    split_ifs
    · obtain ⟨hbuf,hlen,hsub⟩ := readTurn (h.rxBuf b (List.mem_of_getElem? hb)) (h.chunks i)
        (s.senders i b) n
      refine ⟨h.fresh,?_,?_,?_⟩
      · intro b' hb'
        obtain hb' | rfl := List.mem_or_eq_of_mem_set hb'
        · exact h.rxBuf b' hb'
        · exact hbuf
      · intro j
        by_cases hj : j = i
        · subst hj
          simp only [Function.update_self]
          exact hlen.trans (h.channel j)
        · simp only [Function.update_of_ne hj]
          exact h.channel j
      · intro j c hc
        by_cases hj : j = i
        · subst hj
          simp only [Function.update_self] at hc
          exact h.chunks j c (hsub hc)
        · simp only [Function.update_of_ne hj] at hc
          exact h.chunks j c hc
    · exact h

theorem notify (h : s.Bounded) (i : ℕ) : (s.notify i).Bounded := by
  unfold Loop.notify
  split_ifs
  · refine ⟨h.fresh,h.rxBuf,?_,?_⟩
    · intro j
      by_cases hj : j = i
      · subst hj
        simp only [Function.update_self]
        exact h.channel j
      · simp only [Function.update_of_ne hj]
        exact h.channel j
    · intro j c hc
      by_cases hj : j = i
      · subst hj
        simp only [Function.update_self] at hc
        exact h.chunks j c hc
      · simp only [Function.update_of_ne hj] at hc
        exact h.chunks j c hc
  · exact h

/-- A task's other steps leave what it has read in the adapter. -/
theorem act (h : s.Bounded) (i : ℕ) (a : BridgeAct) : Bounded { s with hub := s.hub.act i a } := by
  refine ⟨h.fresh,?_,h.channel,h.chunks⟩
  intro b hb
  unfold Hub.act at hb
  split at hb
  · exact h.rxBuf b hb
  · rename_i b₀ hb₀
    split_ifs at hb
    · obtain hb | rfl := List.mem_or_eq_of_mem_set hb
      · exact h.rxBuf b hb
      · rw [b₀.act_rxBuf a]
        exact h.rxBuf b₀ (List.mem_of_getElem? hb₀)
    · exact h.rxBuf b hb

theorem step (h : s.Bounded) (r : Role) (a : Act) : (s.step r a).Bounded := by
  have hselect : (if s.Parked then s.select r a else s).Bounded := by
    split_ifs
    · exact h.select r a
    · exact h
  cases a with
  | work =>
    rw [Loop.step]
    split
    · rename_i task todo _ _
      have hrest : Bounded { s with todo } := h.of_eq rfl rfl rfl
      exact hrest.perform r task
    · exact h
  | bridge i b =>
    rw [Loop.step]
    split_ifs
    · exact h
    · exact h.act i b
  | read i n => exact h.read i n
  | notify i => exact h.notify i
  | packet key peer pkt => exact hselect
  | accept key peer odcid pkt => exact hselect
  | recvError => exact hselect
  | egress => exact hselect
  | readCredit order => exact hselect
  | timeout order => exact hselect
  | openReq req => exact hselect

theorem start (r : Role) : (Loop.start r).Bounded := by
  have hempty : ∀ (conns : AList fun _ : Bytes => Conn) pending hub,
      (∀ key c, conns.lookup key = some c → c.Fresh) → (∀ b ∈ hub.bridges, b.stream.rxBuf = []) →
      Bounded ⟨conns,pending,hub,fun _ => ⟨[],false⟩,false,[],true⟩ := by
    intro conns pending hub hc hb
    exact ⟨hc,fun b hm => by simp [hb b hm],fun _ => Nat.zero_le _,by simp⟩
  cases r with
  | server env cfg => exact hempty _ _ _ (fun _ _ hk => by cases hk) (by simp [Hub.new])
  | client env cfg peer scid first =>
    have hone : ∀ c : Conn, c.Fresh → ∀ key c',
        ((∅ : AList fun _ : Bytes => Conn).insert [] c).lookup key = some c' → c'.Fresh := by
      intro c hc key c' hk
      rw [Assoc.lookup_insert] at hk
      split_ifs at hk
      · cases hk
        exact hc
      · cases hk
    let c₀ : Conn := ⟨[.withTransport true,.connect scid],true,∅,[]⟩
    have hc₀ : c₀.Fresh := by simp [c₀, Conn.Fresh, Conn.Spawns]
    apply hempty
    · apply hone
      simp only [Session.start, Session.servePending]
      split_ifs
      · simp [Conn.Fresh, Conn.Spawns]
      · exact hc₀
    · simp only [Session.start, Session.servePending]
      split_ifs
      · intro b hb
        simp only [Hub.spawn, Hub.new, List.nil_append, List.mem_map] at hb
        obtain ⟨q,hq,rfl⟩ := hb
        exact hc₀.openStream env cfg first q hq
      · simp [Hub.new]

end Bounded
end Loop

namespace QuicEnd
variable {e : QuicEnd} {r : Role} {key : Bytes} {sid : ℕ}

/-- The read side of an end is left alone. -/
def SameInbound (e e' : QuicEnd) : Prop := e'.bridge.stream.rxBuf = e.bridge.stream.rxBuf ∧
  e'.channel = e.channel ∧ e'.down.buf = e.down.buf ∧ e'.delivered = e.delivered

theorem SameInbound.refl (e : QuicEnd) : e.SameInbound e := ⟨rfl,rfl,rfl,rfl⟩

theorem SameInbound.trans {e' e'' : QuicEnd} (h : e.SameInbound e') (h' : e'.SameInbound e'') :
    e.SameInbound e'' :=
  ⟨h'.1.trans h.1,h'.2.1.trans h.2.1,h'.2.2.1.trans h.2.2.1,h'.2.2.2.trans h.2.2.2⟩

theorem task_sameInbound (e : QuicEnd) (a : BridgeAct) : e.SameInbound (e.task a) :=
  ⟨e.bridge.act_rxBuf a,rfl,rfl,rfl⟩

theorem write_sameInbound (e : QuicEnd) (w : Reserve) : e.SameInbound (e.write w) := by
  unfold write
  split_ifs
  · exact .refl e
  · simp only
    split
    · exact e.task_sameInbound _
    · exact (e.task_sameInbound _).trans (task_sameInbound _ .finish)
    · exact e.task_sameInbound _

theorem shutdown_sameInbound (e : QuicEnd) (w : Reserve) : e.SameInbound (e.shutdown w) := by
  unfold shutdown
  split_ifs
  · exact .refl e
  · simp only
    split
    · exact e.task_sameInbound _
    · exact e.task_sameInbound _

/-- Only a turn of `pump_inbound`, and a read and a write of the copy, touch the read side. -/
theorem act_sameInbound (e : QuicEnd) {a : QuicEndAct} (hr : ∀ room, a ≠ .read room) (ht : a ≠ .turn)
    (hd : ∀ n, a ≠ .deliver n) : e.SameInbound (e.act r key sid a) := by
  cases a with
  | send bytes =>
    rw [act]
    split_ifs
    · exact .refl e
    · exact .refl e
  | finish => exact .refl e
  | abort =>
    rw [act]
    split_ifs
    · exact e.task_sameInbound .finish
    · exact .refl e
  | dialed ok => exact e.task_sameInbound (.dialed ok)
  | fill n =>
    rw [act, fill]
    split_ifs
    · exact .refl e
    · exact .refl e
    · exact .refl e
  | write w => exact e.write_sameInbound w
  | shutdown w => exact e.shutdown_sameInbound w
  | read room => exact absurd rfl (hr room)
  | deliver n => exact absurd rfl (hd n)
  | shutdownLocal =>
    rw [act, shutdownLocal]
    split_ifs
    · exact .refl e
    · exact .refl e
  | complete =>
    rw [act]
    split_ifs
    · exact e.task_sameInbound .finish
    · exact .refl e
  | close w =>
    rw [act]
    split_ifs
    · exact e.task_sameInbound (.close w)
    · exact .refl e
  | dequeue =>
    rw [act]
    split_ifs
    · exact .refl e
    · unfold dequeue
      split
      · exact .refl e
      · exact .refl e
  | event ev =>
    rw [act]
    split_ifs
    · exact .refl e
    · exact .refl e
  | pass =>
    rw [act]
    split_ifs
    · exact .refl e
    · unfold pass
      split
      · exact .refl e
      · split_ifs
        · exact .refl e
        · exact .refl e
        · exact .refl e
  | turn => exact absurd rfl ht
  | pump =>
    rw [act]
    split_ifs
    · exact .refl e
    · unfold pump
      split
      · exact .refl e
      · exact .refl e
  | reap =>
    rw [act]
    split_ifs
    · exact .refl e
    · unfold reap
      split
      · exact .refl e
      · split_ifs
        · exact .refl e
        · exact .refl e
  | call c =>
    rw [act]
    split_ifs
    · exact .refl e
    · exact .refl e
  | lost rx =>
    rw [act]
    split_ifs
    · exact .refl e
    · exact .refl e
    · exact .refl e

theorem turn_inbound (e : QuicEnd) (sid : ℕ) (env : Env) : (e.turn sid env).bridge = e.bridge ∧
    (e.turn sid env).down = e.down ∧ (e.turn sid env).delivered = e.delivered ∧ ∃ chunk : Option Bytes,
      (e.turn sid env).channel = e.channel ++ chunk.toList ∧ ∀ b ∈ chunk, b.length ≤ RECV_CHUNK := by
  unfold turn
  split
  · exact ⟨rfl,rfl,rfl,none,by simp,by simp⟩
  · rename_i st he
    generalize hp : pumpTurn env sid e.slot e.quic st = p
    refine ⟨rfl,rfl,rfl,p.2.2,rfl,?_⟩
    intro b hb
    have hp : pumpTurn env sid e.slot e.quic st = (p.1,p.2.1,some b) := by
      rw [hp, ← Option.mem_def.mp hb]
    exact pumpTurn_chunk hp

/-- What an end holds for its local peer fits into the buffers on the way. -/
structure HeldInbound (e : QuicEnd) : Prop where
  held : Held e.bridge.stream.rxBuf e.channel
  copy : e.down.buf.length ≤ COPY_BUF_SIZE

namespace HeldInbound

/-- A read has the room that the buffer of the copy has. -/
theorem read (h : e.HeldInbound) (room : ℕ) : (e.read room).HeldInbound := by
  have hread : Held (e.bridge.stream.pollRead e.senders room e.channel).2.1.rxBuf
      (e.bridge.stream.pollRead e.senders room e.channel).2.2 := h.held.pollRead e.senders room
  unfold QuicEnd.read
  split_ifs with hgo
  · exact h
  · obtain ⟨-,-,-,hroom⟩ : e.Copying ∧ ¬ e.down.readDone ∧ room ≠ 0 ∧ ¬ e.down.room < room := by
      simpa only [not_or, not_not] using hgo
    simp only
    split
    · rename_i bytes hbytes
      refine ⟨hread,?_⟩
      have hlen := e.bridge.stream.pollRead_length hbytes
      have hcopy := h.copy
      change (e.down.buf ++ bytes).length ≤ COPY_BUF_SIZE
      rw [CopyBuffer.room] at hroom
      rw [List.length_append]
      omega
    · exact ⟨hread,h.copy⟩

theorem deliver (h : e.HeldInbound) (n : ℕ) : (e.deliver n).HeldInbound := by
  unfold QuicEnd.deliver
  split_ifs
  · refine ⟨h.held,?_⟩
    have hcopy := h.copy
    change (e.down.buf.drop n).length ≤ COPY_BUF_SIZE
    rw [List.length_drop]
    omega
  · exact h

theorem turn (h : e.HeldInbound) (sid : ℕ) (env : Env) : (e.turn sid env).HeldInbound := by
  obtain ⟨hb,hd,-,chunk,hc,hlen⟩ := e.turn_inbound sid env
  refine ⟨?_,hd ▸ h.copy⟩
  rw [hb, hc]
  refine ⟨h.held.rxBuf,?_⟩
  intro b hm
  obtain hm | hm := List.mem_append.mp hm
  · exact h.held.chunks b hm
  · exact hlen b (Option.mem_toList.mp hm)

theorem same {e' : QuicEnd} (h : e.HeldInbound) (hs : e.SameInbound e') : e'.HeldInbound := by
  obtain ⟨hb,hc,hd,-⟩ := hs
  constructor
  · rw [hb, hc]
    exact h.held
  · rw [hd]
    exact h.copy

theorem act (h : e.HeldInbound) (a : QuicEndAct) : (e.act r key sid a).HeldInbound := by
  cases a with
  | read room => exact h.read room
  | deliver n => exact h.deliver n
  | turn =>
    rw [QuicEnd.act]
    split_ifs
    · exact h.turn sid r.env
    · exact h
  | _ => exact h.same (e.act_sameInbound (by simp) (by simp) (by simp))

end HeldInbound

end QuicEnd

end EchTunnel
