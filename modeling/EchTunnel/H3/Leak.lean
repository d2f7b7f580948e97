import EchTunnel.H3.Alert
import EchTunnel.H3.Discard

/-! No entry of a streams map leaks: one that is open will be closed by its task, and one that is closed
still has something to send. -/
namespace EchTunnel
open Wire

/-- The task of a stream has yet to end, or its close notice is on the way. -/
def Hub.Owes (h : Hub) (tag : Bytes × ℕ) : Prop :=
  (∃ b ∈ h.bridges, b.tag = tag ∧ b.phase ≠ .done) ∨ ⟨tag.1,tag.2,.closed⟩ ∈ h.egress

/-- A task that ends sends its close notice, unless the channel is closed. -/
theorem Bridge.act_ends (b : Bridge) (a : BridgeAct) (hp : b.phase ≠ .done) :
    (b.act a).1.phase ≠ .done ∨ (b.act a).2 = some b.stream.closeNotice ∨ a = .close .closed := by
  obtain he | ⟨phase,_,hphase,he⟩ | ⟨buf,_,_,_,he⟩ | ⟨r,_,_,_,_,he⟩ | ⟨r,rfl,hr,_,he⟩ := b.act_cases a
  · rw [he]
    exact Or.inl hp
  · rw [he]
    left
    rcases hphase with rfl | rfl <;> simp
  · rw [he]
    exact Or.inl hp
  · rw [he]
    exact Or.inl hp
  · right
    rw [he]
    cases r with
    | ready => exact Or.inl rfl
    | closed => exact Or.inr rfl
    | pending => contradiction

namespace Hub.Owes
variable {h : Hub} {tag : Bytes × ℕ}

theorem act (ho : h.Owes tag) (hr : h.rxOpen = true) (i : ℕ) (a : BridgeAct) : (h.act i a).Owes tag := by
  unfold Hub.act
  cases hb : h.bridges[i]? with
  | none => exact ho
  | some b =>
    simp only
    split_ifs with ha
    swap
    · exact ho
    obtain ⟨x,hx,ht,hp⟩ | hm := ho
    · obtain ⟨hi,hget⟩ := List.getElem?_eq_some_iff.mp hb
      obtain ⟨j,hj⟩ := List.getElem?_of_mem hx
      by_cases hji : j = i
      · subst j
        cases hj.symm.trans hb
        obtain hend | hend | rfl := b.act_ends a hp
        · exact Or.inl ⟨_,List.mem_set hi _,(b.act_spec a).1.trans ht,hend⟩
        · right
          rw [← ht, hend]
          exact List.mem_append_right _ List.mem_cons_self
        · have hclosed : h.Answers .closed := ha _ rfl
          simp [Answers, hr] at hclosed
      · exact Or.inl ⟨x,List.mem_of_getElem? (by rwa [List.getElem?_set_ne (Ne.symm hji)]),ht,hp⟩
    · exact Or.inr (List.mem_append_left _ hm)

theorem spawn (ho : h.Owes tag) (bs : List Bridge) : (h.spawn bs).Owes tag :=
  ho.imp_left fun ⟨b,hb,ht⟩ => ⟨b,List.mem_append_left bs hb,ht⟩

/-- Only the close notice itself can be what was owed. -/
theorem dequeue (ho : h.Owes tag) {m : Egress} {rest : List Egress} (he : h.egress = m :: rest) :
    Owes { h with egress := rest } tag ∨ m = ⟨tag.1,tag.2,.closed⟩ := by
  obtain hb | hm := ho
  · exact Or.inl (Or.inl hb)
  · rw [he] at hm
    rcases List.mem_cons.mp hm with hm | hm
    · exact Or.inr hm.symm
    · exact Or.inl (Or.inr hm)

end Hub.Owes

namespace Conn

/-- Every open entry is owed a close notice, or its task is about to start. -/
def Owned (key : Bytes) (owes : ℕ → Prop) (c : Conn) : Prop :=
  ∀ sid st, c.streams.lookup sid = some st → st.closed = false →
    owes sid ∨ ∃ s ∈ c.spawned, s.key = key ∧ s.streamId = sid

/-- No entry is left that could be reaped. -/
def Reaped (c : Conn) : Prop :=
  ∀ sid st, c.streams.lookup sid = some st → st.closed = true → ¬ st.Drained

/-- There are tunnels only on a connection with an HTTP/3 layer. -/
def Layered (c : Conn) : Prop := ∀ sid st, c.streams.lookup sid = some st → c.h3 = true

namespace Owned
variable {key : Bytes} {owes : ℕ → Prop} {c : Conn} {sid : ℕ} {st st' : StreamState}

theorem mono (h : c.Owned key owes) {owes' : ℕ → Prop} (ho : ∀ sid, owes sid → owes' sid) :
    c.Owned key owes' := fun sid st hl hc => (h sid st hl hc).imp_left (ho sid)

theorem put (h : c.Owned key owes) (t : Trace) (hl : c.streams.lookup sid = some st)
    (hc : st'.closed = false → st.closed = false) : (c.put sid t st').Owned key owes := by
  intro k st'' hk hcl
  rw [put_lookup] at hk
  split_ifs at hk with he
  · subst k
    cases hk
    exact h sid st hl (hc hcl)
  · exact h k st'' hk hcl

theorem remove (h : c.Owned key owes) (sid : ℕ) : (c.remove sid).Owned key owes := by
  intro k st hk hc
  rw [remove_lookup] at hk
  split_ifs at hk
  exact h k st hk hc

theorem append (h : c.Owned key owes) (new : Trace) (h3 : Bool) :
    Owned key owes { c with quic := new ++ c.quic, h3 } := h

theorem markReadable (h : c.Owned key owes) (sid : ℕ) : (c.markReadable sid).Owned key owes := by
  unfold Conn.markReadable
  cases hl : c.streams.lookup sid with
  | none => exact h
  | some st => exact h.put c.quic hl id

/-- A new entry comes with its task. -/
theorem enter (h : c.Owned key owes) (sid rx : ℕ) :
    Owned key owes { c.enter sid with spawned := c.spawned ++ [.new key sid rx] } := by
  intro k st hk hc
  simp only [Conn.enter, put_lookup] at hk
  split_ifs at hk with he
  · exact Or.inr ⟨.new key sid rx,by simp,rfl,he.symm⟩
  · refine (h k st hk hc).imp_right ?_
    rintro ⟨s,hs,hsk⟩
    exact ⟨s,List.mem_append_left _ hs,hsk⟩

theorem exchange {env : Env} (h : c.Owned key owes) {handle : Conn → ℕ → H3Event → Conn}
    (hevent : ∀ c p, c.Owned key owes → (eventStep handle c p).Owned key owes) :
    (exchange env handle c).Owned key owes := by
  refine exchange_induction (C := fun _ _ => True) env h (Run.Meets.of_forall (fun _ _ => trivial) _ _)
    (fun c p hc _ => hevent c p hc) ?_ ?_ ?_
  · intro c sid hc
    obtain he | ⟨st,st',new,hl,he,_,hs⟩ := pumpInboundAt_spec env c sid
    · rwa [he]
    · rw [he]
      exact hc.put _ hl fun hcl => by rwa [← hs.2.2.2]
  · intro c sid hc
    obtain he | ⟨st,st',new,hl,he,_,hs,_⟩ := pumpOutboundAt_spec env c sid
    · rwa [he]
    · rw [he]
      exact hc.put _ hl fun hcl => by rwa [← hs]
  · intro c sid hc
    obtain he | ⟨st,new,_,_,_,he,_⟩ := reapAt_spec env c sid
    · rwa [he]
    · rw [he]
      exact (hc.append new c.h3).remove sid

end Owned
end Conn

section Reap
variable (env : Env)

/-- A pass of `reap_streams` only drops entries, and leaves none of those it visits that could go. -/
theorem foldl_reapAt (sids : List ℕ) (c : Conn) {k : ℕ} {st : StreamState}
    (hl : (sids.foldl (reapAt env) c).streams.lookup k = some st) :
    c.streams.lookup k = some st ∧ (k ∈ sids → st.closed = true → ¬ st.Drained) := by
  induction sids generalizing c with
  | nil => exact ⟨hl,fun hm => absurd hm List.not_mem_nil⟩
  | cons sid sids ih =>
    obtain ⟨hr,hrest⟩ := ih (reapAt env c sid) hl
    obtain he | ⟨st',new,_,_,_,he,_⟩ := reapAt_spec env c sid
    · rw [he] at hr
      refine ⟨hr,fun hm hc hd => ?_⟩
      rcases List.mem_cons.mp hm with rfl | hm
      · have hn : (reapAt env c k).streams.lookup k = none := by
          simp [reapAt, hr, hc, hd]
        rw [he, hr] at hn
        contradiction
      · exact hrest hm hc hd
    · rw [he, Conn.remove_lookup] at hr
      split_ifs at hr with hne
      exact ⟨hr,fun hm => hrest ((List.mem_cons.mp hm).resolve_left hne)⟩

theorem reaped_exchange (handle : Conn → ℕ → H3Event → Conn) (c : Conn) :
    (exchange env handle c).Reaped := by
  intro sid st hl
  rw [exchange, reapStreams] at hl
  obtain ⟨hold,hd⟩ := foldl_reapAt env _ _ hl
  refine hd ((env.order_perm _ _).mem_iff.mpr ?_)
  exact AList.mem_keys.mp (AList.lookup_isSome.mp (by rw [hold]; rfl))

end Reap

namespace Server
variable {env : ServerEnv} {cfg : ServerCfg} {key : Bytes} {owes : ℕ → Prop} {c : Conn}

theorem owned_eventStep (p : ℕ × H3Event) (h : c.Owned key owes) :
    (eventStep (handleEvent env cfg key) c p).Owned key owes := by
  obtain ⟨sid,e⟩ := p
  have hc : (c.note (.poll sid e)).Owned key owes := h
  rw [eventStep]
  obtain ⟨new,_,he⟩ | he | ⟨_,he⟩ | ⟨resp,_,he⟩ :=
    handleEvent_spec env cfg key (c.note (.poll sid e)) sid e
  · rw [he]
    exact hc.append new c.h3
  · rw [he]
    exact hc.markReadable sid
  · rw [he]
    exact hc.remove sid
  · rw [he]
    exact (hc.append [.sendResponse sid resp false true] c.h3).enter sid _

theorem h3_exchange (hh : c.h3 = true) : (exchange env.toEnv (handleEvent env cfg key) c).h3 = true := by
  refine exchange_induction (P := fun c => c.h3 = true) (C := fun _ _ => True) env.toEnv hh
    (Run.Meets.of_forall (fun _ _ => trivial) _ _) ?_ ?_ ?_ ?_
  · rintro c ⟨sid,e⟩ hc _
    rw [eventStep]
    obtain ⟨new,_,he⟩ | he | ⟨_,he⟩ | ⟨resp,_,he⟩ :=
      handleEvent_spec env cfg key (c.note (.poll sid e)) sid e
    · rw [he]
      exact hc
    · rw [he, Conn.markReadable_h3]
      exact hc
    · rw [he]
      exact hc
    · rw [he]
      exact hc
  · intro c sid hc
    obtain he | ⟨_,_,_,_,he,_⟩ := pumpInboundAt_spec env.toEnv c sid
    · rwa [he]
    · rwa [he]
  · intro c sid hc
    obtain he | ⟨_,_,_,_,he,_⟩ := pumpOutboundAt_spec env.toEnv c sid
    · rwa [he]
    · rwa [he]
  · intro c sid hc
    obtain he | ⟨_,_,_,_,_,he,_⟩ := reapAt_spec env.toEnv c sid
    · rwa [he]
    · rwa [he]

/-- A connection that has been serviced keeps no entry that could go. -/
theorem service_owned (h : c.Owned key owes) (hl : c.Layered) :
    (service env cfg key c).Owned key owes ∧ (service env cfg key c).Layered ∧
      (service env cfg key c).Reaped := by
  obtain ⟨new,h3,ok,_,⟨hp,he⟩ | ⟨hp,he⟩⟩ := service_spec env cfg key c
  · have hno : ∀ sid st, c.streams.lookup sid ≠ some st := by
      intro sid st hst
      have hh := hl sid st hst
      rw [h3_of_polled hp] at hh
      contradiction
    rw [he]
    exact ⟨h,fun sid st hst => absurd hst (hno sid st),fun sid st hst => absurd hst (hno sid st)⟩
  · rw [he]
    exact ⟨(h.append new h3).exchange fun c p hc => owned_eventStep p hc,
      fun _ _ _ => h3_exchange (polled_h3 hp),reaped_exchange env.toEnv _ _⟩

end Server

namespace Client
variable {owes : ℕ → Prop} {c : Conn}

theorem owned_eventStep (p : ℕ × H3Event) (h : c.Owned [] owes) :
    (eventStep handleEvent c p).Owned [] owes := by
  obtain ⟨sid,e⟩ := p
  have hc : (c.note (.poll sid e)).Owned [] owes := h
  rw [eventStep]
  obtain he | he | ⟨_,he⟩ | ⟨_,he⟩ := handleEvent_spec (c.note (.poll sid e)) sid e
  · rwa [he]
  · rw [he]
    exact hc.markReadable sid
  · rw [he]
    exact hc.remove sid
  · rw [he]
    exact (hc.remove sid).append [.streamShutdown sid .read] c.h3

/-- A new stream gets its task, or its entry goes again. -/
theorem owned_openStream (env : Env) (cfg : ClientCfg) (req : OpenReq) (h : c.Owned [] owes) :
    (openStream env cfg c req).1.Owned [] owes := by
  obtain ⟨call,_,he⟩ | ⟨sid,hs,_,he⟩ := openStream_spec env cfg c req
  · rw [he]
    exact h.append [call] c.h3
  · obtain he | he := he
    · rw [he]
      intro k st hk hc
      have hk' : (((c.note (.sendRequest hs false (.ok sid))).enter sid).remove sid).streams.lookup k =
          some st := hk
      rw [Conn.remove_lookup] at hk'
      split_ifs at hk' with hne
      rw [Conn.enter, Conn.put_lookup, if_neg hne] at hk'
      exact h k st hk' hc
    · rw [he]
      exact (h.append [.sendRequest hs false (.ok sid)] c.h3).enter sid _

theorem reaped_openStream (env : Env) (cfg : ClientCfg) (req : OpenReq) (h : c.Reaped) :
    (openStream env cfg c req).1.Reaped := by
  obtain ⟨call,_,he⟩ | ⟨sid,hs,_,he⟩ := openStream_spec env cfg c req
  · rwa [he]
  · have hc : ((c.note (.sendRequest hs false (.ok sid))).enter sid).Reaped := by
      intro k st hk hcl
      rw [Conn.enter, Conn.put_lookup] at hk
      split_ifs at hk
      · cases hk
        contradiction
      · exact h k st hk hcl
    obtain he | he := he
    · rw [he]
      intro k st hk
      have hk' : (((c.note (.sendRequest hs false (.ok sid))).enter sid).remove sid).streams.lookup k =
          some st := hk
      rw [Conn.remove_lookup] at hk'
      split_ifs at hk'
      exact hc k st hk'
    · rw [he]
      exact hc

end Client

namespace Listener
variable {env : ServerEnv} {l : Listener}

/-- The channel is open, and every connection has its entries owned. -/
structure Owned (l : Listener) : Prop where
  rxOpen : l.hub.rxOpen = true
  conns : l.All fun key c => c.Owned key (fun sid => l.hub.Owes (key,sid)) ∧ c.Layered ∧ c.spawned = []

namespace Owned

theorem hub (h : l.Owned) {hub : Hub} (hr : hub.rxOpen = true)
    (ho : ∀ tag, l.hub.Owes tag → hub.Owes tag) : Owned { l with hub } :=
  ⟨hr,fun key c hc => (h.conns key c hc).imp_left fun ho' => ho'.mono fun sid => ho (key,sid)⟩

theorem insert (h : l.Owned) {key : Bytes} {c : Conn}
    (hc : c.Owned key (fun sid => l.hub.Owes (key,sid)) ∧ c.Layered ∧ c.spawned = []) :
    Owned { l with conns := l.conns.insert key c } :=
  ⟨h.rxOpen,h.conns.insert hc l.hub⟩

theorem routePacket (h : l.Owned) (peer : SocketAddr) (pkt draw : Bytes) :
    (l.routePacket env peer pkt draw).1.Owned := by
  have hhub : (l.routePacket env peer pkt draw).1.hub = l.hub := by
    obtain ⟨_,_,_,he,_⟩ | ⟨_,_,_,_,he⟩ | ⟨_,_,_,_,_,_,he⟩ := routePacket_spec env l peer pkt draw
    · rw [he]
    · rw [he]
    · rw [he]
  refine ⟨by rw [hhub]; exact h.rxOpen,?_⟩
  rw [hhub]
  apply h.conns.routePacket
  · intro key peer odcid
    refine ⟨?_,?_,rfl⟩
    · intro sid st hl
      cases hl
    · intro sid st hl
      cases hl
  · exact fun key c call hc _ => hc

/-- The close notice closes the entry that was owed it. -/
theorem dequeue (h : l.Owned) {m : Egress} {rest : List Egress} (he : l.hub.egress = m :: rest) :
    ({ l with hub := { l.hub with egress := rest } }.queue m : Listener).Owned := by
  have hconn : ∀ key, ∀ c ∈ l.conns.lookup key, ∀ sid st, c.streams.lookup sid = some st →
      st.closed = false → (m.key = key → m.streamId = sid → m.out ≠ .closed) →
        Hub.Owes { l.hub with egress := rest } (key,sid) := by
    intro key c hc sid st hl hcl hm
    obtain ⟨ho,_,hs⟩ := h.conns key c hc
    obtain ho | ⟨s,hsp,_⟩ := ho sid st hl hcl
    · refine (ho.dequeue he).resolve_right ?_
      rintro rfl
      exact hm rfl rfl rfl
    · rw [hs] at hsp
      cases hsp
  refine ⟨?_,?_⟩
  · unfold queue
    split <;> exact h.rxOpen
  · intro key c hc
    unfold queue at hc ⊢
    cases hl : l.conns.lookup m.key with
    | none =>
      simp only [hl] at hc ⊢
      have hkey : m.key ≠ key := by
        rintro rfl
        rw [hl] at hc
        cases hc
      exact ⟨fun sid st hst hcl => Or.inl (hconn key c hc sid st hst hcl fun hk => absurd hk hkey),
        (h.conns key c hc).2⟩
    | some c' =>
      simp only [hl, Assoc.lookup_insert] at hc ⊢
      split_ifs at hc with hkey
      · cases hc
        subst hkey
        obtain ⟨_,hlay,hs⟩ := h.conns _ c' hl
        unfold Conn.queue
        cases hst : c'.streams.lookup m.streamId with
        | none =>
          refine ⟨fun sid st hst' hcl => Or.inl (hconn _ c' hl sid st hst' hcl ?_),hlay,hs⟩
          rintro - rfl
          rw [hst] at hst'
          cases hst'
        | some st =>
          refine ⟨fun sid st' hst' hcl => Or.inl ?_,fun sid st' hst' => hlay m.streamId st hst,hs⟩
          rw [Conn.put_lookup] at hst'
          split_ifs at hst' with hsid
          · cases hst'
            subst hsid
            refine hconn _ c' hl _ st hst ?_ ?_
            · rw [← hcl]
              cases hout : m.out with
              | closed => simp [hout, StreamState.queue] at hcl
              | data bytes => rfl
              | fin => rfl
            · rintro - - hout
              simp [hout, StreamState.queue] at hcl
          · exact hconn _ c' hl sid st' hst' hcl fun _ hk => absurd hk.symm hsid
      · exact ⟨fun sid st hst hcl =>
          Or.inl (hconn key c hc sid st hst hcl fun hk => absurd hk.symm hkey),(h.conns key c hc).2⟩

theorem noteTimeout (h : l.Owned) (key : Bytes) : (l.noteTimeout key).Owned := by
  unfold Listener.noteTimeout
  cases hl : l.conns.lookup key with
  | none => exact h
  | some c => exact h.insert (c := c.note .onTimeout) (h.conns key c hl)

theorem serviceAt (h : l.Owned) (key : Bytes) : (l.serviceAt env key).Owned := by
  unfold Listener.serviceAt
  cases hl : l.conns.lookup key with
  | none => exact h
  | some c =>
    obtain ⟨ho,hlay,_⟩ := h.conns key c hl
    have hx : (Server.service env l.cfg key c).Owned key _ ∧ (Server.service env l.cfg key c).Layered ∧ _ :=
      Server.service_owned ho hlay
    obtain ⟨ho',hlay',_⟩ := hx
    simp only
    generalize Server.service env l.cfg key c = c' at ho' hlay' ⊢
    let bs := c'.spawned.map fun s => (⟨s,.dialing,[]⟩ : Bridge)
    have hspawn : Owned { l with hub := l.hub.spawn bs } := h.hub h.rxOpen fun tag ht => ht.spawn bs
    apply hspawn.insert
    refine ⟨?_,hlay',rfl⟩
    intro sid st hst hcl
    left
    obtain ho | ⟨s,hs,hk,hsid⟩ := ho' sid st hst hcl
    · exact ho.spawn _
    · refine Or.inl ⟨⟨s,.dialing,[]⟩,List.mem_append_right _ (List.mem_map_of_mem hs),?_,by simp⟩
      rw [Bridge.tag, hk, hsid]

theorem step (h : l.Owned) (a : Act) : (l.step env a).Owned := by
  have hsel : (l.select env a).1.Owned := by
    apply select_induction h (Serves.of_forall (C := fun _ _ _ _ => True) (fun _ _ _ _ => trivial) l a)
    case hroute => exact fun peer pkt draw _ => h.routePacket peer pkt draw
    case hqueue => exact fun m rest _ he => h.dequeue he
    case htimeout => exact fun l key hl => hl.noteTimeout key
    case hservice => exact fun l key hl _ => hl.serviceAt key
    case hswap => exact fun _ _ => ⟨h.rxOpen,h.conns⟩
    case hbridge =>
      intro i b _
      refine h.hub ?_ fun tag ht => ht.act h.rxOpen i b
      rw [Hub.act_rxOpen]
      exact h.rxOpen
  rw [Listener.step]
  split
  · exact ⟨hsel.rxOpen,hsel.conns.retain⟩
  · exact hsel

end Owned

/-- No entry is left that could be reaped, but for the connection that is about to be serviced. -/
def ReapedBut (l : Listener) (key : Option Bytes) : Prop :=
  l.All fun k c => key ≠ some k → c.Reaped

theorem ReapedBut.serviceAt (h : l.Owned) {key : Bytes} (hr : l.ReapedBut (some key)) :
    (l.serviceAt env key).ReapedBut none := by
  intro k c hc _
  unfold Listener.serviceAt at hc
  cases hl : l.conns.lookup key with
  | none =>
    simp only [hl] at hc
    apply hr k c hc
    rintro ⟨⟩
    rw [hl] at hc
    cases hc
  | some c' =>
    obtain ⟨ho,hlay,_⟩ := h.conns key c' hl
    simp only [hl, Assoc.lookup_insert] at hc
    split_ifs at hc with hk
    · cases hc
      have hx : (Server.service env l.cfg key c').Owned key _ ∧ _ ∧ (Server.service env l.cfg key c').Reaped :=
        Server.service_owned ho hlay
      exact hx.2.2
    · exact hr k c hc fun he => hk (Option.some.inj he).symm

theorem ReapedBut.noteTimeout (hr : l.ReapedBut none) (key : Bytes) :
    (l.noteTimeout key).ReapedBut (some key) := by
  have hall : (l.noteTimeout key).All fun k c => none ≠ some k → c.Reaped :=
    All.noteTimeout hr (fun _ c call hc _ => hc) key
  exact fun k c hc _ => hall k c hc (by simp)

/-- Every entry has somebody to close it, or something to send. -/
def InUse (l : Listener) : Prop := l.Owned ∧ l.ReapedBut none

theorem InUse.serviceAt (h : l.InUse) (key : Bytes) : (l.serviceAt env key).InUse :=
  ⟨h.1.serviceAt key,ReapedBut.serviceAt h.1 fun k c hc _ => h.2 k c hc (by simp)⟩

theorem InUse.step (h : l.InUse) (a : Act) : (l.step env a).InUse := by
  refine ⟨h.1.step a,?_⟩
  have hsel : (l.select env a).1.ReapedBut none := by
    cases a with
    | datagram peer pkt draw =>
      have hroute : (l.routePacket env peer pkt draw).1.ReapedBut none := by
        apply All.routePacket h.2
        · intro key peer odcid _ sid st hl
          cases hl
        · exact fun key c call hc _ => hc
      have ho : (l.routePacket env peer pkt draw).1.Owned := h.1.routePacket peer pkt draw
      rw [select]
      cases hk : l.routePacket env peer pkt draw with
      | mk l' key =>
        rw [hk] at hroute ho
        cases key with
        | none => exact hroute
        | some key => exact (InUse.serviceAt ⟨ho,hroute⟩ key).2
    | recvError => exact h.2
    | egress =>
      rw [select]
      cases he : l.hub.egress with
      | nil => exact h.2
      | cons m rest =>
        apply ReapedBut.serviceAt (h.1.dequeue he)
        unfold queue
        split
        · exact fun k c hc _ => h.2 k c hc (by simp)
        · intro k c hc hne
          simp only [Assoc.lookup_insert] at hc
          rw [if_neg fun hk => hne (congrArg some hk.symm)] at hc
          exact h.2 k c hc (by simp)
    | readCredit order =>
      rw [select]
      split_ifs
      · exact (Run.induction (I := InUse) (fun l key hl => hl.serviceAt key) order h).2
      · exact h.2
    | timeout order =>
      rw [select]
      split_ifs
      · refine (Run.induction (I := InUse) (fun l key hl => ?_) order h).2
        have ho := hl.1.noteTimeout key
        exact ⟨ho.serviceAt key,ReapedBut.serviceAt ho (hl.2.noteTimeout key)⟩
      · exact h.2
    | swap certPem keyPem => exact h.2
    | bridge i b => exact h.2
  rw [Listener.step]
  split
  · exact All.retain hsel
  · exact hsel

theorem new_inUse (cfg : ServerCfg) (certs : CertSource) : (new cfg certs).InUse := by
  refine ⟨⟨rfl,?_⟩,?_⟩
  · intro key c hc
    cases hc
  · intro key c hc
    cases hc

end Listener

namespace Session
variable {env : Env} {s : Session}

/-- While the session runs, its entries are owned; then they are gone. -/
structure Owned (s : Session) : Prop where
  rxOpen : s.hub.rxOpen = s.running
  running : s.running = true → s.conn.Owned [] (fun sid => s.hub.Owes ([],sid)) ∧ s.conn.spawned = []
  ended : s.running = false → ∀ sid, s.conn.streams.lookup sid = none

namespace Owned

theorem finish (s : Session) : s.finish.Owned :=
  ⟨rfl,fun hr => by simp [Session.finish] at hr,fun _ _ => rfl⟩

theorem dequeue (h : s.Owned) {m : Egress} {rest : List Egress} (he : s.hub.egress = m :: rest) :
    Owned { s with conn := s.conn.queue m.streamId m.out, hub := { s.hub with egress := rest } } := by
  refine ⟨h.rxOpen,fun hr => ?_,fun hr sid => ?_⟩
  · obtain ⟨ho,hs⟩ := h.running hr
    have hrest : ∀ sid st, s.conn.streams.lookup sid = some st → st.closed = false →
        (m.streamId = sid → m.out ≠ .closed) → Hub.Owes { s.hub with egress := rest } ([],sid) := by
      intro sid st hl hc hm
      obtain ho | ⟨q,hq,_⟩ := ho sid st hl hc
      · refine (ho.dequeue he).resolve_right ?_
        rintro rfl
        exact hm rfl rfl
      · rw [hs] at hq
        cases hq
    unfold Conn.queue
    cases hst : s.conn.streams.lookup m.streamId with
    | none =>
      refine ⟨fun sid st hl hc => Or.inl (hrest sid st hl hc ?_),hs⟩
      rintro rfl
      rw [hst] at hl
      cases hl
    | some st =>
      refine ⟨fun sid st' hl hc => Or.inl ?_,hs⟩
      rw [Conn.put_lookup] at hl
      split_ifs at hl with hsid
      · cases hl
        subst hsid
        refine hrest _ st hst ?_ ?_
        · rw [← hc]
          cases hout : m.out with
          | closed => simp [hout, StreamState.queue] at hc
          | data bytes => rfl
          | fin => rfl
        · rintro - hout
          simp [hout, StreamState.queue] at hc
      · exact hrest sid st' hl hc fun hk => absurd hk.symm hsid
  · simp [Conn.queue, h.ended hr]

theorem servePending (h : s.Owned) (hr : s.running = true) : (s.servePending env).Owned := by
  unfold Session.servePending
  split
  · exact h
  · rename_i req _
    split
    · have hx := Client.owned_openStream env s.cfg req (h.running hr).1
      generalize Client.openStream env s.cfg s.conn req = r at hx ⊢
      refine ⟨h.rxOpen,fun _ => ⟨?_,rfl⟩,fun hn => by simp [hr] at hn⟩
      intro sid st hl hc
      left
      obtain ho | ⟨q,hq,hk,hsid⟩ := hx sid st hl hc
      · exact ho.spawn _
      · refine Or.inl ⟨⟨q,.copying,[]⟩,List.mem_append_right _ (List.mem_map_of_mem hq),?_,by simp⟩
        rw [Bridge.tag, hk, hsid]
    · exact h

theorem service (h : s.Owned) (hr : s.running = true) : (s.service env).Owned := by
  obtain ⟨ho,hs⟩ := h.running hr
  have hx : (exchange env Client.handleEvent s.conn).Owned [] (fun sid => s.hub.Owes ([],sid)) :=
    ho.exchange fun c p hc => Client.owned_eventStep p hc
  have hf : Owned { s with
      conn := (flushPackets env (exchange env Client.handleEvent s.conn)).1 } :=
    ⟨h.rxOpen,fun _ => ⟨hx.append [.flushPackets _] _,(Client.spawned_exchange s.conn).trans hs⟩,
      fun hn => by simp [hr] at hn⟩
  unfold Session.service
  simp only
  split
  · exact hf.servePending hr
  · exact finish _

theorem step (h : s.Owned) (a : Act) : (s.step env a).Owned := by
  apply step_induction h (Serves.of_forall (C := fun _ _ _ => True) (fun _ _ _ => trivial) s a)
  case hnote => exact fun call _ => ⟨h.rxOpen,h.running,h.ended⟩
  case hopen => exact fun _ => ⟨h.rxOpen,h.running,h.ended⟩
  case hqueue => exact fun m rest _ he => h.dequeue he
  case hservice => exact fun s' hr h' _ => h'.service hr
  case hfinish => exact finish s
  case hbridge =>
    intro i b _
    refine ⟨(s.hub.act_rxOpen i b).trans h.rxOpen,fun hr => ?_,h.ended⟩
    obtain ⟨ho,hs⟩ := h.running hr
    exact ⟨ho.mono fun sid ht => ht.act (h.rxOpen.trans hr) i b,hs⟩

theorem start (env : Env) (cfg : ClientCfg) (peer : SocketAddr) (scid : Bytes) (first : OpenReq) :
    (Session.start env cfg peer scid first).Owned := by
  refine servePending ⟨rfl,fun _ => ⟨?_,rfl⟩,fun hr => by cases hr⟩ rfl
  intro sid st hl
  cases hl

end Owned

theorem reaped_servePending (h : s.conn.Reaped) : (s.servePending env).conn.Reaped := by
  unfold servePending
  split
  · exact h
  · split
    · exact Client.reaped_openStream env s.cfg _ h
    · exact h

theorem reaped_finish (s : Session) : s.finish.conn.Reaped := by
  intro sid st hl
  cases hl

theorem reaped_service (env : Env) (s : Session) : (s.service env).conn.Reaped := by
  unfold service
  simp only
  split
  · exact reaped_servePending (reaped_exchange env _ s.conn)
  · exact reaped_finish _

theorem reaped_step (h : s.conn.Reaped) (a : Act) : (s.step env a).conn.Reaped := by
  cases a with
  | bridge i b => exact h
  | recvError =>
    rw [step]
    split_ifs
    · exact s.reaped_finish
    · exact h
  | packet | openReq | egress | readCredit | timeout =>
    simp only [step]
    split
    · exact reaped_service env _
    · exact h

end Session

/-- An entry that is not closed is owed its close notice; one that is has yet to be drained. -/
def StreamState.InUse (st : StreamState) (owed : Prop) : Prop :=
  if st.closed then ¬ st.Drained else owed

theorem StreamState.inUse_of (st : StreamState) {owed : Prop} (ho : st.closed = false → owed)
    (hr : st.closed = true → ¬ st.Drained) : st.InUse owed := by
  unfold InUse
  split_ifs with hc
  · exact hr hc
  · exact ho (by simpa using hc)

/-- In every reachable state of either event loop, every entry of a streams map is in use: its task has
not ended or its close notice is on the way, or it is closed and has still something to send. -/
theorem entries_in_use (env : ServerEnv) (cfg : ServerCfg) (certs : CertSource)
    (acts : List Listener.Act) (env' : Env) (cfg' : ClientCfg) (peer : SocketAddr) (scid : Bytes)
    (first : OpenReq) (acts' : List Session.Act) :
    (let l := Run.run (Listener.step env) (Listener.new cfg certs) acts
      ∀ key, ∀ c ∈ l.conns.lookup key, ∀ sid, ∀ st ∈ c.streams.lookup sid,
        st.InUse (l.hub.Owes (key,sid))) ∧
    let s := Run.run (Session.step env') (Session.start env' cfg' peer scid first) acts'
    ∀ sid, ∀ st ∈ s.conn.streams.lookup sid, st.InUse (s.hub.Owes ([],sid)) := by
  constructor
  · intro l key c hc sid st hst
    have h : l.InUse := Run.induction (fun l a hl => hl.step a) acts (Listener.new_inUse cfg certs)
    obtain ⟨ho,_,hs⟩ := h.1.conns key c hc
    apply st.inUse_of
    · intro hcl
      refine (ho sid st hst hcl).resolve_right ?_
      rintro ⟨q,hq,_⟩
      rw [hs] at hq
      cases hq
    · exact h.2 key c hc (by simp) sid st hst
  · intro s sid st hst
    have h : s.Owned := Run.induction (fun s a hs => hs.step a) acts'
      (Session.Owned.start env' cfg' peer scid first)
    have hr₀ : (Session.start env' cfg' peer scid first).conn.Reaped := by
      apply Session.reaped_servePending
      intro sid st hl
      cases hl
    have hr : s.conn.Reaped :=
      Run.induction (I := fun s : Session => s.conn.Reaped) (fun s a hs => Session.reaped_step hs a) acts' hr₀
    apply st.inUse_of
    · intro hcl
      cases hrun : s.running with
      | false =>
        rw [h.ended hrun sid] at hst
        cases hst
      | true =>
        obtain ⟨ho,hs⟩ := h.running hrun
        refine (ho sid st hst hcl).resolve_right ?_
        rintro ⟨q,hq,_⟩
        rw [hs] at hq
        cases hq
    · exact hr sid st hst

end EchTunnel
