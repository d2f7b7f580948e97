import EchTunnel.Http.Request

/-! What a prober sees does not depend on the secret path. -/
namespace EchTunnel
open Wire

/-- The same server under another path. -/
def ServerCfg.under (cfg : ServerCfg) (path : String) : ServerCfg := { cfg with wsPath := path }

/-- The connection has no tunnel. -/
def Conn.Quiet (c : Conn) : Prop := c.streams = ∅ ∧ c.spawned = []

/-- The passes over the streams find nothing to do. -/
theorem Conn.Quiet.pumps {c : Conn} (h : c.Quiet) (env : Env) :
    reapStreams env (pumpOutbound env (pumpInbound env c)) = c := by
  have hno : env.order c.quic c.streams.keys = [] := by
    have hp := env.order_perm c.quic c.streams.keys
    rw [h.1, AList.keys_empty] at hp
    rw [h.1]
    exact hp.eq_nil
  rw [reapStreams, pumpOutbound, pumpInbound]
  simp [hno]

namespace Server

/-- An event that is no request for a tunnel, neither under the server's path nor under another. -/
def Probe (cfg : ServerCfg) (path : String) (e : H3Event) : Prop :=
  ∀ list, e = .headers list → ¬ (Request.ofHeaders list).isTunnel cfg ∧
    ¬ (Request.ofHeaders list).isTunnel (cfg.under path)

instance (cfg : ServerCfg) (path : String) : (e : H3Event) → Decidable (Probe cfg path e)
  | .headers list => decidable_of_iff
      (¬ (Request.ofHeaders list).isTunnel cfg ∧ ¬ (Request.ofHeaders list).isTunnel (cfg.under path))
      ⟨by rintro h list' ⟨⟩; exact h,fun h => h list rfl⟩
  | .data | .finished | .reset _ | .priorityUpdate | .goAway => isTrue (by simp [Probe])

variable {env : ServerEnv} {cfg : ServerCfg} {path : String} {key : Bytes} {c : Conn}

theorem Probe.handleEvent {e : H3Event} (hp : Probe cfg path e) (hc : c.Quiet) (sid : ℕ) :
    handleEvent env (cfg.under path) key c sid e = handleEvent env cfg key c sid e ∧
      (Server.handleEvent env cfg key c sid e).Quiet := by
  have hlookup : c.streams.lookup sid = none := by
    rw [hc.1]
    rfl
  cases e with
  | headers list =>
    obtain ⟨hn,hn'⟩ := hp list rfl
    rw [Server.handleEvent, Server.handleEvent, handleHeaders, handleHeaders, if_pos hn, if_pos hn']
    refine ⟨rfl,?_⟩
    unfold sendFake404
    simp only
    split
    · exact hc
    · exact hc
  | data =>
    rw [Server.handleEvent, Server.handleEvent, hlookup]
    exact ⟨rfl,hc⟩
  | finished =>
    rw [Server.handleEvent, Server.handleEvent, Conn.markReadable, hlookup]
    exact ⟨rfl,hc⟩
  | reset code =>
    refine ⟨rfl,?_,hc.2⟩
    change c.streams.erase sid = ∅
    rw [hc.1]
    rfl
  | priorityUpdate => exact ⟨rfl,hc⟩
  | goAway => exact ⟨rfl,hc⟩

theorem Probe.exchange (hc : c.Quiet)
    (hp : Run.Meets (eventStep (Server.handleEvent env cfg key)) (fun _ p => Probe cfg path p.2) c
      (env.polls c.quic)) :
    exchange env.toEnv (Server.handleEvent env (cfg.under path) key) c =
        exchange env.toEnv (Server.handleEvent env cfg key) c ∧
      (EchTunnel.exchange env.toEnv (Server.handleEvent env cfg key) c).Quiet := by
  have hstep : ∀ (c : Conn) p, c.Quiet → Probe cfg path p.2 →
      eventStep (Server.handleEvent env (cfg.under path) key) c p =
        eventStep (Server.handleEvent env cfg key) c p ∧
      (eventStep (Server.handleEvent env cfg key) c p).Quiet := by
    intro c p hc hp
    exact hp.handleEvent (c := c.note (.poll p.1 p.2)) hc p.1
  obtain ⟨he,hq⟩ := hp.simulates id hstep hc
  have hpoll : pollH3 env.toEnv (Server.handleEvent env (cfg.under path) key) c =
      pollH3 env.toEnv (Server.handleEvent env cfg key) c := he
  have hquiet : (pollH3 env.toEnv (Server.handleEvent env cfg key) c).Quiet := hq
  rw [EchTunnel.exchange, EchTunnel.exchange, hpoll, hquiet.pumps]
  exact ⟨rfl,hquiet⟩

theorem Probe.service (hc : c.Quiet)
    (hp : ∀ c' ∈ polled env cfg c, Run.Meets (eventStep (Server.handleEvent env cfg key))
      (fun _ p => Probe cfg path p.2) c' (env.polls c'.quic)) :
    service env (cfg.under path) key c = service env cfg key c ∧ (service env cfg key c).Quiet := by
  have hserve : ∀ c', c'.Quiet → (c'.h3 = true → c' ∈ polled env cfg c) →
      serve env (cfg.under path) key c' = serve env cfg key c' ∧ (serve env cfg key c').Quiet := by
    intro c' hc' hpolled
    rw [serve, serve]
    cases hh : c'.h3 with
    | true =>
      obtain ⟨he,hq⟩ := Probe.exchange hc' (hp c' (hpolled hh))
      rw [if_pos rfl, if_pos rfl, he]
      exact ⟨rfl,hq⟩
    | false => exact ⟨rfl,hc'⟩
  have hech : echOk env (cfg.under path) c = echOk env cfg c := rfl
  have hstart : (startH3 env c).Quiet := by
    unfold startH3
    simp only
    split <;> exact hc
  rw [Server.service, Server.service, hech]
  unfold polled at hserve
  split
  · rename_i hup
    rw [if_pos hup] at hserve
    cases he : echOk env cfg c with
    | true => exact hserve _ hstart fun hh => by simp [he, hh]
    | false => exact ⟨rfl,hc⟩
  · rename_i hup
    rw [if_neg hup] at hserve
    exact hserve c hc fun hh => by simp [hh]

end Server

namespace Listener
open Server

/-- The same loop on a server under another path. -/
def under (l : Listener) (path : String) : Listener := { l with cfg := l.cfg.under path }

/-- No bridge has been started, and no connection has a tunnel. -/
def Quiet (l : Listener) : Prop := l.hub.bridges = [] ∧ l.All fun _ c => c.Quiet

variable {env : ServerEnv} {l : Listener} {path : String}

@[simp] theorem under_conns (l : Listener) (path : String) : (l.under path).conns = l.conns := rfl

theorem routePacket_under (l : Listener) (path : String) (peer : SocketAddr) (pkt draw : Bytes) :
    (l.under path).routePacket env peer pkt draw =
      ((l.routePacket env peer pkt draw).1.under path,(l.routePacket env peer pkt draw).2) := by
  have hdeliver : ∀ (l : Listener) key, (l.under path).deliver peer pkt key =
      ((l.deliver peer pkt key).1.under path,(l.deliver peer pkt key).2) := by
    intro l key
    unfold deliver
    rw [under_conns]
    cases l.conns.lookup key <;> rfl
  unfold Listener.routePacket
  cases env.fromSlice pkt with
  | none => rfl
  | some hdr =>
    simp only
    by_cases hl : (l.conns.lookup hdr.dcid).isSome
    · rw [if_pos (show ((l.under path).conns.lookup hdr.dcid).isSome = true from hl), if_pos hl]
      exact hdeliver { l with ids := hdr.dcid :: l.ids } hdr.dcid
    · rw [if_neg (show ¬ ((l.under path).conns.lookup hdr.dcid).isSome = true from hl), if_neg hl]
      split
      · rfl
      · split
        · rfl
        · have hensure : ensureConfig env ⟨(l.under path).cfg,(l.under path).conns,
              (l.under path).cached,(l.under path).certs,(l.under path).hub,
              hdr.dcid :: (l.under path).ids⟩ =
            ensureConfig env { l with ids := hdr.dcid :: l.ids } := rfl
          rw [hensure]
          cases ensureConfig env { l with ids := hdr.dcid :: l.ids } with
          | none => rfl
          | some cached =>
            simp only
            split
            · rfl
            · exact hdeliver { l with
                cached := some cached
                ids := draw :: hdr.dcid :: l.ids
                conns := l.conns.insert draw ⟨[.accept peer hdr.dcid draw],false,∅,[]⟩ } draw

theorem queue_under (l : Listener) (path : String) (m : Egress) :
    (l.under path).queue m = (l.queue m).under path := by
  unfold queue
  rw [under_conns]
  cases l.conns.lookup m.key <;> rfl

theorem noteTimeout_under (l : Listener) (path : String) (key : Bytes) :
    (l.under path).noteTimeout key = (l.noteTimeout key).under path := by
  unfold noteTimeout
  rw [under_conns]
  cases l.conns.lookup key <;> rfl

namespace Quiet

theorem routePacket (env : ServerEnv) (h : l.Quiet) (peer : SocketAddr) (pkt draw : Bytes) :
    (l.routePacket env peer pkt draw).1.Quiet := by
  refine ⟨?_,h.2.routePacket (fun _ _ _ => ⟨rfl,rfl⟩) (fun _ _ _ hc _ => hc) peer pkt draw⟩
  obtain ⟨_,_,_,he,_⟩ | ⟨_,_,_,_,he⟩ | ⟨_,_,_,_,_,_,he⟩ := routePacket_spec env l peer pkt draw
  · rw [he]
    exact h.1
  · rw [he]
    exact h.1
  · rw [he]
    exact h.1

theorem queue (h : l.Quiet) (m : Egress) : (l.queue m).Quiet := by
  refine ⟨?_,h.2.queue (fun key c sid out hc => ?_) m⟩
  · unfold Listener.queue
    split <;> exact h.1
  · have hl : c.streams.lookup sid = none := by
      rw [hc.1]
      rfl
    rw [Conn.queue, hl]
    exact hc

theorem noteTimeout (h : l.Quiet) (key : Bytes) : (l.noteTimeout key).Quiet := by
  refine ⟨?_,h.2.noteTimeout (fun _ _ _ hc _ => hc) key⟩
  unfold Listener.noteTimeout
  split <;> exact h.1

theorem serviceAt (h : l.Quiet) {key : Bytes}
    (hs : l.ServesAt env (fun l _ _ p => Probe l.cfg path p.2) key) :
    (l.under path).serviceAt env key = (l.serviceAt env key).under path ∧
      (l.serviceAt env key).Quiet := by
  unfold Listener.serviceAt
  rw [under_conns]
  cases hl : l.conns.lookup key with
  | none => exact ⟨rfl,h⟩
  | some c =>
    obtain ⟨he,hq⟩ := Probe.service (h.2 key c hl) (hs c hl)
    change service env (l.cfg.under path) key c = _ at he
    refine ⟨?_,?_,h.2.insert (c := { service env l.cfg key c with spawned := [] }) ⟨hq.1,rfl⟩ _⟩
    · simp only [under, he]
    · simp [Hub.spawn, hq.2, h.1]

theorem act (h : l.Quiet) (i : ℕ) (a : BridgeAct) : l.hub.act i a = l.hub := by
  rw [Hub.act, h.1]
  rfl

/-- A step under the other path is the same step. -/
theorem select (h : l.Quiet) {a : Act} (hs : l.Serves env (fun l _ _ p => Probe l.cfg path p.2) a) :
    (l.under path).select env a = ((l.select env a).1.under path,(l.select env a).2) ∧
      (l.select env a).1.Quiet := by
  cases a with
  | datagram peer pkt draw =>
    have hr := h.routePacket env peer pkt draw
    rw [Listener.select, Listener.select, routePacket_under]
    cases hk : l.routePacket env peer pkt draw with
    | mk l' key =>
      rw [hk] at hr
      cases key with
      | none => exact ⟨rfl,hr⟩
      | some key =>
        have hk' : l'.ServesAt env (fun l _ _ p => Probe l.cfg path p.2) key := by
          simpa [hk] using hs key (by simp [hk])
        obtain ⟨he,hq⟩ := hr.serviceAt hk'
        exact ⟨by simp only [he],hq⟩
  | recvError => exact ⟨rfl,h⟩
  | egress =>
    rw [Listener.select, Listener.select]
    rw [show (l.under path).hub = l.hub from rfl]
    cases he : l.hub.egress with
    | nil => exact ⟨rfl,h⟩
    | cons m rest =>
      have hm := hs m (by simp [he])
      rw [he, List.tail_cons] at hm
      have hq : Quiet { l with hub := { l.hub with egress := rest } } := h
      obtain ⟨he,hq⟩ := (hq.queue m).serviceAt hm
      rw [← queue_under] at he
      exact ⟨congrArg (·,true) he,hq⟩
  | readCredit order =>
    rw [Listener.select, Listener.select]
    change (if order.Perm l.conns.keys then _ else _) = _ ∧ _
    split_ifs with ho
    · obtain ⟨he,hq⟩ := (hs ho).simulates (·.under path) (fun l key hl hc => hl.serviceAt hc) h
      exact ⟨congrArg (·,true) he,hq⟩
    · exact ⟨rfl,h⟩
  | timeout order =>
    rw [Listener.select, Listener.select]
    change (if order.Perm l.conns.keys then _ else _) = _ ∧ _
    split_ifs with ho
    · obtain ⟨he,hq⟩ := (hs ho).simulates (f := fun l key => (l.noteTimeout key).serviceAt env key)
        (·.under path) (fun l key hl hc => by
          rw [noteTimeout_under]
          exact (hl.noteTimeout key).serviceAt hc) h
      exact ⟨congrArg (·,true) he,hq⟩
    · exact ⟨rfl,h⟩
  | swap certPem keyPem => exact ⟨rfl,h⟩
  | bridge i b => exact ⟨rfl,by rw [Listener.select, h.act]; exact h⟩

theorem step (h : l.Quiet) {a : Act} (hs : l.Serves env (fun l _ _ p => Probe l.cfg path p.2) a) :
    (l.under path).step env a = (l.step env a).under path ∧ (l.step env a).Quiet := by
  obtain ⟨he,hq⟩ := h.select hs
  rw [Listener.step, Listener.step, he]
  split_ifs
  · exact ⟨rfl,hq.1,hq.2.retain⟩
  · exact ⟨rfl,hq⟩

end Quiet
end Listener

/-- Two servers that differ in their secret path only answer probes alike: the HTTP/1.1 handler with
the same replies, none of them a tunnel, and the HTTP/3 loop with the same calls on every connection
and no entry for any stream. -/
theorem probes_learn_nothing (derive : Bytes → Bytes) (cfg : ServerCfg) (path : String)
    (reqs : List HttpRequest)
    (hreqs : ∀ req ∈ reqs, ¬ req.IsTunnel derive cfg.wsPath ∧ ¬ req.IsTunnel derive path)
    (env : ServerEnv) (certs : CertSource) (acts : List Listener.Act)
    (hacts : Run.Meets (Listener.step env)
      (Listener.Serves env fun l _ _ p => Server.Probe l.cfg path p.2) (Listener.new cfg certs) acts) :
    (reqs.map (handleRequest derive (cfg.under path)) = reqs.map (handleRequest derive cfg) ∧
      ∀ req ∈ reqs, ∀ reply ∈ handleRequest derive cfg req, reply.upgrade = false) ∧
    let l := Run.run (Listener.step env) (Listener.new cfg certs) acts
    Run.run (Listener.step env) (Listener.new (cfg.under path) certs) acts = l.under path ∧
      (∀ key, ∀ c ∈ l.conns.lookup key, c.streams = ∅) ∧ l.hub.bridges = [] := by
  have hreply : ∀ req ∈ reqs, handleRequest derive cfg req =
      (fake404 cfg.serverName).map fun page => ⟨page,false⟩ := by
    intro req hr
    obtain ⟨ht,_⟩ | ⟨_,he⟩ := handleRequest_spec derive cfg req
    · exact absurd ht (hreqs req hr).1
    · exact he
  refine ⟨⟨?_,?_⟩,?_⟩
  · apply List.map_congr_left
    intro req hr
    rw [hreply req hr]
    obtain ⟨ht,_⟩ | ⟨_,he⟩ := handleRequest_spec derive (cfg.under path) req
    · exact absurd ht (hreqs req hr).2
    · exact he
  · intro req hr reply hm
    rw [hreply req hr] at hm
    obtain ⟨page,_,rfl⟩ := Option.map_eq_some_iff.mp hm
    rfl
  · have hq : (Listener.new cfg certs).Quiet := ⟨rfl,fun _ _ hk => by cases hk⟩
    obtain ⟨he,hb,hc⟩ := hacts.simulates (·.under path) (fun l a hl ha => hl.step ha) hq
    exact ⟨he,fun key c hk => (hc key c hk).1,hb⟩

/-- Requests for the right path: by another method, without the upgrade, and without the key. -/
def nearMisses : List HttpRequest :=
  [⟨"POST","/ws",[header "upgrade" "websocket",header "connection" "Upgrade",header "sec-websocket-key" "x"]⟩,
    ⟨"GET","/ws",[header "sec-websocket-key" "x"]⟩,
    ⟨"GET","/ws",[header "upgrade" "websocket",header "connection" "Upgrade"]⟩]

theorem probes_learn_nothing_nearMisses :
    (nearMisses.map (handleRequest id (Listener.fresh.cfg.under "/")) =
        nearMisses.map (handleRequest id Listener.fresh.cfg) ∧
      ∀ req ∈ nearMisses, ∀ reply ∈ handleRequest id Listener.fresh.cfg req, reply.upgrade = false) ∧
    let l := Run.run (Listener.step ServerEnv.probed) Listener.fresh
      [.datagram ⟨[127,0,0,1],40000⟩ [1] [2],.timeout [[2]]]
    Run.run (Listener.step ServerEnv.probed) (Listener.new (Listener.fresh.cfg.under "/") (.new "" ""))
        [.datagram ⟨[127,0,0,1],40000⟩ [1] [2],.timeout [[2]]] = l.under "/" ∧
      (∀ key, ∀ c ∈ l.conns.lookup key, c.streams = ∅) ∧ l.hub.bridges = [] :=
  probes_learn_nothing id Listener.fresh.cfg "/" nearMisses (by decide) ServerEnv.probed _ _ (by decide)

end EchTunnel
