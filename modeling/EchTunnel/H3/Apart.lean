import EchTunnel.H3.Isolation

/-! The connections of a listener share its channel and nothing else: each goes through what it would go
through on a listener of its own. -/
namespace EchTunnel
open Wire

/-- What belongs to one connection: its entry in the map, its messages in the channel, and the tasks of
its tunnels. -/
structure Share where
  conn : Option Conn
  egress : List Egress
  bridges : List Bridge

/-- What can happen to a connection. -/
inductive ShareAct
  | accepted (peer : SocketAddr) (odcid pkt : Bytes)
  | packet (peer : SocketAddr) (pkt : Bytes)
  | egress
  | readCredit
  | timeout
  | bridge (i : ℕ) (a : BridgeAct)

namespace Share
open Server

variable (env : ServerEnv) (cfg : ServerCfg) (key : Bytes)

def none : Share := ⟨Option.none,[],[]⟩

def note (s : Share) (call : Call) : Share := { s with conn := s.conn.map (·.note call) }

def serve (s : Share) : Share :=
  match s.conn with
  | .none => s
  | some c =>
    let c := service env cfg key c
    { s with
      conn := some { c with spawned := [] }
      bridges := s.bridges ++ c.spawned.map fun q => ⟨q,.dialing,[]⟩ }

/-- A closed connection is dropped. -/
def retain (s : Share) : Share := { s with conn := s.conn.filter fun c => !env.isClosed c.quic }

def dequeue (s : Share) : Share :=
  match s.egress with
  | [] => s
  | m :: rest => { s with conn := s.conn.map (·.queue m.streamId m.out), egress := rest }

/-- A task takes a step; what it sends finds room in the channel. -/
def act (s : Share) (i : ℕ) (a : BridgeAct) : Share :=
  match s.bridges[i]? with
  | .none => s
  | some b =>
    { s with
      bridges := s.bridges.set i (b.act a).1
      egress := s.egress ++ (b.act a).2.toList }

def step (s : Share) : ShareAct → Share
  | .accepted peer odcid pkt =>
    let conn : Conn := ⟨[.recv peer pkt,.accept peer odcid key],false,∅,[]⟩
    (serve env cfg key { s with conn := some conn }).retain env
  | .packet peer pkt => (serve env cfg key (s.note (.recv peer pkt))).retain env
  | .egress => (serve env cfg key s.dequeue).retain env
  | .readCredit => (serve env cfg key s).retain env
  | .timeout => (serve env cfg key (s.note .onTimeout)).retain env
  | .bridge i a => s.act i a

end Share

namespace Listener
open Server

variable (env : ServerEnv) (key : Bytes)

def share (l : Listener) : Share where
  conn := l.conns.lookup key
  egress := l.hub.egress.filter fun m => m.key = key
  bridges := l.hub.bridges.filter fun b => b.stream.key = key

/-- What a step is for the connection under `key`. -/
def seen (l : Listener) : Act → List ShareAct
  | .datagram peer pkt draw =>
    match env.fromSlice pkt with
    | none => []
    | some hdr =>
      if (l.routePacket env peer pkt draw).2 ≠ some key then []
      else if (l.conns.lookup hdr.dcid).isSome then [.packet peer pkt]
      else [.accepted peer hdr.dcid pkt]
  | .recvError => []
  | .egress => if l.hub.egress.head?.any fun m => m.key = key then [.egress] else []
  | .readCredit order => if order.Perm l.conns.keys then [.readCredit] else []
  | .timeout order => if order.Perm l.conns.keys then [.timeout] else []
  | .swap .. => []
  | .bridge i a =>
    match l.hub.bridges[i]? with
    | none => []
    | some b =>
      if b.stream.key = key ∧ ∀ r ∈ a.reserve, l.hub.Answers r then
        [.bridge ((l.hub.bridges.take i).countP fun b => b.stream.key = key) a]
      else []

end Listener

/-- All tunnels that a connection has spawned and not handed over yet satisfy `P`. -/
def Conn.Spawns (P : QuicStream → Prop) (c : Conn) : Prop := ∀ q ∈ c.spawned, P q

namespace Conn.Spawns
open Server
variable {P : QuicStream → Prop} {env : ServerEnv} {cfg : ServerCfg} {key : Bytes} {c c' : Conn}

theorem of_eq (h : c.Spawns P) (hs : c'.spawned = c.spawned) : c'.Spawns P := fun q hq => h q (hs ▸ hq)

theorem concat (h : c.Spawns P) {q : QuicStream} (hq : P q) (hs : c'.spawned = c.spawned ++ [q]) :
    c'.Spawns P := by
  intro q' hq'
  rw [hs] at hq'
  obtain hq' | hq' := List.mem_append.mp hq'
  · exact h q' hq'
  · rw [List.mem_singleton.mp hq']
    exact hq

theorem eventStep (h : c.Spawns P) (hnew : ∀ sid rx, P (.new key sid rx)) (p : ℕ × H3Event) :
    (eventStep (handleEvent env cfg key) c p).Spawns P := by
  obtain ⟨sid,e⟩ := p
  unfold EchTunnel.eventStep
  obtain ⟨new,_,he⟩ | he | ⟨_,he⟩ | ⟨resp,_,he⟩ := handleEvent_spec env cfg key (c.note (.poll sid e)) sid e
  · rw [he]
    exact h
  · rw [he, Conn.markReadable]
    split <;> exact h
  · rw [he]
    exact h
  · rw [he]
    exact h.concat (hnew sid _) rfl

theorem pumpOutboundAt (h : c.Spawns P) (env : Env) (sid : ℕ) : (pumpOutboundAt env c sid).Spawns P := by
  unfold EchTunnel.pumpOutboundAt
  split <;> exact h

theorem reapAt (h : c.Spawns P) (env : Env) (sid : ℕ) : (reapAt env c sid).Spawns P := by
  obtain he | ⟨_,_,_,_,_,he,_⟩ := reapAt_spec env c sid
  · rwa [he]
  · rw [he]
    exact h

theorem exchange (h : c.Spawns P) (hnew : ∀ sid rx, P (.new key sid rx)) :
    (exchange env.toEnv (handleEvent env cfg key) c).Spawns P := by
  apply exchange_induction env.toEnv (P := Spawns P) (C := fun _ _ => True) h
    (Run.Meets.of_forall (fun _ _ => trivial) _ _)
  case hevent => exact fun c p hc _ => hc.eventStep hnew p
  case hin =>
    intro c sid hc
    obtain he | ⟨_,_,_,_,he,_⟩ := pumpInboundAt_spec env.toEnv c sid
    · rwa [he]
    · rw [he]
      exact hc
  case hout => exact fun c sid hc => hc.pumpOutboundAt env.toEnv sid
  case hreap => exact fun c sid hc => hc.reapAt env.toEnv sid

theorem service (h : c.Spawns P) (hnew : ∀ sid rx, P (.new key sid rx)) :
    (service env cfg key c).Spawns P := by
  obtain ⟨new,h3,ok,_,⟨_,he⟩ | ⟨_,he⟩⟩ := service_spec env cfg key c
  · rw [he]
    exact h
  · rw [he]
    exact exchange (c := { c with quic := new ++ c.quic, h3 }) h hnew

end Conn.Spawns

/-- The tunnels that a connection has spawned and not handed over yet are its own. -/
def Conn.Own (key : Bytes) (c : Conn) : Prop := c.Spawns fun q => q.key = key

section Select
variable {α : Type*} (p : α → Bool) {xs : List α} {i : ℕ} {a b : α}

/-- Where an element of a list stands among those that satisfy `p`. -/
theorem getElem?_filter_countP (hi : xs[i]? = some a) (ha : p a) :
    (xs.filter p)[(xs.take i).countP p]? = some a := by
  induction xs generalizing i with
  | nil => simp at hi
  | cons x xs ih =>
    cases i with
    | zero =>
      simp only [List.getElem?_cons_zero, Option.some.injEq] at hi
      subst hi
      simp [ha]
    | succ i =>
      rw [List.getElem?_cons_succ] at hi
      by_cases hx : p x
      · simpa [hx] using ih hi
      · simpa [hx] using ih hi

theorem filter_set (hi : xs[i]? = some a) (hab : p a = p b) : (xs.set i b).filter p =
    if p a then (xs.filter p).set ((xs.take i).countP p) b else xs.filter p := by
  induction xs generalizing i with
  | nil => simp at hi
  | cons x xs ih =>
    cases i with
    | zero =>
      simp only [List.getElem?_cons_zero, Option.some.injEq] at hi
      subst hi
      by_cases hx : p x
      · simp [hx, ← hab]
      · simp [hx, ← hab]
    | succ i =>
      rw [List.getElem?_cons_succ] at hi
      rw [List.set_cons_succ, List.filter_cons, ih hi]
      by_cases hx : p x
      · split_ifs <;> simp [hx]
      · split_ifs <;> simp [hx]

end Select

namespace Listener
open Server
variable {env : ServerEnv} {cfg : ServerCfg} {key : Bytes} {l : Listener}

theorem share_serviceAt (h : l.All Conn.Own) (k : Bytes) : (l.serviceAt env k).share key =
    if k = key then (l.share key).serve env l.cfg key else l.share key := by
  unfold serviceAt
  cases hl : l.conns.lookup k with
  | none =>
    split_ifs with hk
    · subst hk
      simp [Share.serve, share, hl]
    · rfl
  | some c =>
    have hown : ∀ q ∈ (service env l.cfg k c).spawned, q.key = k := Conn.Spawns.service (h k c hl) fun _ _ => rfl
    split_ifs with hk
    · subst hk
      simp only [share, Share.serve, hl, Hub.spawn, AList.lookup_insert, List.filter_append]
      congr 2
      rw [List.filter_eq_self]
      intro b hb
      obtain ⟨q,hq,rfl⟩ := List.mem_map.mp hb
      exact decide_eq_true (hown q hq)
    · have hnone : ((service env l.cfg k c).spawned.map fun q => (⟨q,.dialing,[]⟩ : Bridge)).filter
          (fun b => b.stream.key = key) = [] := by
        rw [List.filter_eq_nil_iff]
        intro b hb
        obtain ⟨q,hq,rfl⟩ := List.mem_map.mp hb
        simpa [hown q hq] using hk
      simp only [share, Hub.spawn, Assoc.lookup_insert, if_neg (Ne.symm hk), List.filter_append, hnone,
        List.append_nil]

theorem share_insert (k : Bytes) (c : Conn) : share key { l with conns := l.conns.insert k c } =
    if k = key then { l.share key with conn := some c } else l.share key := by
  simp only [share, Assoc.lookup_insert]
  by_cases hk : k = key
  · simp [hk]
  · simp [hk, Ne.symm hk]

theorem share_noteTimeout (k : Bytes) : (l.noteTimeout k).share key =
    if k = key then (l.share key).note .onTimeout else l.share key := by
  unfold noteTimeout
  cases hl : l.conns.lookup k with
  | none =>
    split_ifs with hk
    · subst hk
      simp [Share.note, share, hl]
    · rfl
  | some c =>
    simp only
    rw [share_insert]
    split_ifs with hk
    · subst hk
      simp [Share.note, share, hl]
    · rfl

/-- The loop takes a message out of the channel and applies it. -/
theorem share_dequeue {m : Egress} {rest : List Egress} (he : l.hub.egress = m :: rest) :
    share key (queue { l with hub := { l.hub with egress := rest } } m) =
      if m.key = key then (l.share key).dequeue else l.share key := by
  unfold queue
  simp only
  by_cases hk : m.key = key
  · subst hk
    have hfilter : l.hub.egress.filter (fun m' => m'.key = m.key) =
        m :: rest.filter fun m' => m'.key = m.key := by simp [he]
    rw [if_pos rfl, Share.dequeue]
    simp only [share, hfilter]
    cases hl : l.conns.lookup m.key with
    | none => simp [hl]
    | some c => simp
  · have hfilter : l.hub.egress.filter (fun m => m.key = key) =
        rest.filter fun m => m.key = key := by simp [he, hk]
    rw [if_neg hk]
    cases hl : l.conns.lookup m.key with
    | none => simp only [share, hfilter]
    | some c => simp only [share, hfilter, Assoc.lookup_insert, if_neg (Ne.symm hk)]

theorem act_key (b : Bridge) (a : BridgeAct) : (b.act a).1.stream.key = b.stream.key ∧
    ∀ m ∈ (b.act a).2, m.key = b.stream.key := by
  obtain he | ⟨_,_,_,he⟩ | ⟨_,_,_,_,he⟩ | ⟨r,_,_,_,_,he⟩ | ⟨r,_,_,_,he⟩ := b.act_cases a
  · simp [he]
  · simp [he]
  · simp [he, QuicStream.egress]
  · refine ⟨by rw [he],?_⟩
    intro m hm
    simp only [he, Option.mem_ite_none_right, Option.mem_some_iff] at hm
    rw [← hm.2]
    rfl
  · refine ⟨by rw [he],?_⟩
    intro m hm
    simp only [he, Option.mem_ite_none_right, Option.mem_some_iff] at hm
    rw [← hm.2]
    rfl

theorem share_act (i : ℕ) (a : BridgeAct) : share key { l with hub := l.hub.act i a } =
    Run.run (Share.step env cfg key) (l.share key) (l.seen env key (.bridge i a)) := by
  unfold Hub.act
  cases hb : l.hub.bridges[i]? with
  | none => simp [seen, hb]
  | some b =>
    obtain ⟨hkey,hsent⟩ := act_key b a
    simp only [seen, hb]
    by_cases ha : ∀ r ∈ a.reserve, l.hub.Answers r
    · rw [if_pos ha]
      have hset := filter_set (fun b : Bridge => decide (b.stream.key = key)) (b := (b.act a).1) hb
        (by rw [hkey])
      simp only [share, hset, List.filter_append]
      by_cases hk : b.stream.key = key
      · have hget := getElem?_filter_countP (fun b : Bridge => decide (b.stream.key = key)) hb
          (decide_eq_true hk)
        have hall : (b.act a).2.toList.filter (fun m => m.key = key) = (b.act a).2.toList := by
          rw [List.filter_eq_self]
          intro m hm
          exact decide_eq_true ((hsent m (Option.mem_toList.mp hm)).trans hk)
        rw [if_pos (decide_eq_true hk), if_pos ⟨hk,ha⟩, hall]
        simp only [Run.run_cons, Run.run_nil, Share.step, Share.act, hget]
      · have hnone : (b.act a).2.toList.filter (fun m => m.key = key) = [] := by
          rw [List.filter_eq_nil_iff]
          intro m hm
          simpa [hsent m (Option.mem_toList.mp hm)] using hk
        rw [if_neg (by simpa using hk), if_neg (fun h => hk h.1), hnone, List.append_nil]
        rfl
    · rw [if_neg ha, if_neg (fun h => ha h.2)]
      rfl

theorem share_retain : (l.retain env).share key = (l.share key).retain env := by
  simp only [retain, share, Share.retain, Assoc.lookup_filter]

/-- A pass over the connections, each of which is visited at most once. -/
theorem share_foldl {f : Listener → Bytes → Listener} {g : Share → Share} {I : Listener → Prop}
    (hf : ∀ l k, I l → share key (f l k) = (if k = key then g (l.share key) else l.share key) ∧ I (f l k))
    {order : List Bytes} (hnd : order.Nodup) (h : I l) :
    share key (order.foldl f l) = (if key ∈ order then g (l.share key) else l.share key) ∧
      I (order.foldl f l) := by
  induction order generalizing l with
  | nil => exact ⟨rfl,h⟩
  | cons k order ih =>
    obtain ⟨hk,hnd⟩ := List.nodup_cons.mp hnd
    obtain ⟨hs,hi⟩ := hf l k h
    obtain ⟨he,hi⟩ := ih hnd hi
    refine ⟨?_,hi⟩
    rw [List.foldl_cons, he, hs]
    by_cases hkey : k = key
    · subst hkey
      rw [if_neg hk, if_pos rfl, if_pos List.mem_cons_self]
    · simp only [if_neg hkey, List.mem_cons, Ne.symm hkey, false_or]

/-- What a connection needs of the state between two steps: none is closed, and every one has handed over
its tunnels. -/
structure Apart (env : ServerEnv) (cfg : ServerCfg) (l : Listener) : Prop where
  cfg : l.cfg = cfg
  own : l.All Conn.Own
  opened : ∀ k, ∀ c ∈ l.conns.lookup k, env.isClosed c.quic = false

theorem Apart.retain (h : l.Apart env cfg) : (l.share key).retain env = l.share key := by
  unfold Share.retain
  cases hl : l.conns.lookup key with
  | none => simp [share, hl]
  | some c => simp [share, hl, h.opened key c hl]

/-- A turn of the loop that does not come to its end has touched no connection. -/
theorem select_conns {a : Act} (h : (l.select env a).2 = false) : (l.select env a).1.conns = l.conns := by
  cases a with
  | datagram peer pkt draw =>
    rw [select] at h ⊢
    obtain ⟨cached,ids,_,he,_⟩ | ⟨hdr,c,_,_,he⟩ | ⟨hdr,cached,_,_,_,_,he⟩ :=
      routePacket_spec env l peer pkt draw
    · rw [he]
    · simp [he] at h
    · simp [he] at h
  | recvError => rfl
  | egress =>
    rw [select] at h ⊢
    cases he : l.hub.egress with
    | nil => rfl
    | cons m rest => simp [he] at h
  | readCredit order =>
    rw [select] at h ⊢
    split_ifs at h ⊢
    rfl
  | timeout order =>
    rw [select] at h ⊢
    split_ifs at h ⊢
    rfl
  | swap certPem keyPem => rfl
  | bridge i b => rfl

theorem Apart.step (h : l.Apart env cfg) (a : Act) : (l.step env a).Apart env cfg := by
  obtain ⟨hcfg,hown⟩ := All.step (P := Conn.Own) (C := fun _ _ _ _ => True) h.cfg h.own
    (fun key peer odcid => by simp [Conn.Own, Conn.Spawns]) (fun key c call hc _ => hc)
    (fun key c sid out hc => Conn.Spawns.of_eq hc (c.queue_spawned sid out))
    (Serves.of_forall (fun _ _ _ _ => trivial) l a) (fun l key c _ _ => by simp [Conn.Own, Conn.Spawns])
  refine ⟨hcfg,hown,?_⟩
  intro k c hc
  rw [Listener.step] at hc
  split_ifs at hc with hs
  · rw [Listener.retain, Assoc.lookup_filter, Option.mem_filter_iff] at hc
    simpa using hc.2
  · rw [select_conns (by simpa using hs)] at hc
    exact h.opened k c hc

/-- The loop services a connection that it has just handed a datagram to. -/
theorem share_routed (h : l.Apart env cfg) {k : Bytes} {c : Conn} (hc : c.Own k)
    (cached : Option CachedConfig) (ids : List Bytes) :
    ((serviceAt env { l with conns := l.conns.insert k c, cached, ids } k).retain env).share key =
      if k = key then (Share.serve env cfg key { l.share key with conn := some c }).retain env
      else l.share key := by
  have hown : All Conn.Own { l with conns := l.conns.insert k c, cached, ids } := h.own.insert hc l.hub
  have hshare : share key { l with conns := l.conns.insert k c, cached, ids } =
      if k = key then { l.share key with conn := some c } else l.share key := share_insert k c
  rw [share_retain, share_serviceAt hown, hshare, h.cfg]
  split_ifs
  · rfl
  · exact h.retain

/-- The loop visits all connections. -/
theorem share_pass (h : l.Apart env cfg) {f : Listener → Bytes → Listener} {g : Share → Share}
    (hf : ∀ l k, l.cfg = cfg → l.All Conn.Own →
      share key (f l k) = (if k = key then g (l.share key) else l.share key) ∧
        (f l k).cfg = cfg ∧ (f l k).All Conn.Own)
    (hnone : l.conns.lookup key = none → g (l.share key) = l.share key) {order : List Bytes}
    (ho : order.Perm l.conns.keys) : share key (order.foldl f l) = g (l.share key) := by
  have hpass : share key (order.foldl f l) = if key ∈ order then g (l.share key) else l.share key :=
    (share_foldl (I := fun l => l.cfg = cfg ∧ l.All Conn.Own) (fun l k hl => hf l k hl.1 hl.2)
      (ho.nodup_iff.mpr l.conns.nodupKeys) ⟨h.cfg,h.own⟩).1
  rw [hpass]
  split_ifs with hk
  · rfl
  · refine (hnone ?_).symm
    rw [AList.lookup_eq_none]
    exact fun hmem => hk (ho.mem_iff.mpr hmem)

/-- A step is for a connection what the connection sees of it. -/
theorem share_step (h : l.Apart env cfg) (a : Act) : (l.step env a).share key =
    Run.run (Share.step env cfg key) (l.share key) (l.seen env key a) := by
  have hserve : ∀ (l : Listener) k, l.cfg = cfg → l.All Conn.Own → (l.serviceAt env k).share key =
      (if k = key then (l.share key).serve env cfg key else l.share key) ∧
        (l.serviceAt env k).cfg = cfg ∧ (l.serviceAt env k).All Conn.Own := by
    intro l k hcfg hown
    refine ⟨?_,(serviceAt_cfg env l k).trans hcfg,hown.serviceAt k fun c _ _ => by simp [Conn.Own, Conn.Spawns]⟩
    rw [share_serviceAt hown, hcfg]
  have hnote : ∀ (l : Listener) k, l.cfg = cfg → l.All Conn.Own → (l.noteTimeout k).cfg = cfg ∧
      (l.noteTimeout k).All Conn.Own := fun l k hcfg hown =>
    ⟨(noteTimeout_cfg l k).trans hcfg,hown.noteTimeout (fun _ _ _ hc _ => hc) k⟩
  cases a with
  | datagram peer pkt draw =>
    obtain ⟨cached,ids,_,he,_⟩ | ⟨hdr,c,hf,hl,he⟩ | ⟨hdr,cached,hf,hl,_,_,he⟩ :=
      routePacket_spec env l peer pkt draw
    · have hseen : l.seen env key (.datagram peer pkt draw) = [] := by
        cases hf : env.fromSlice pkt with
        | none => simp only [seen, hf]
        | some hdr => simp [seen, hf, he]
      rw [hseen, Listener.step, select, he]
      rfl
    · have hstep : l.step env (.datagram peer pkt draw) = (serviceAt env { l with
          conns := l.conns.insert hdr.dcid (c.note (.recv peer pkt))
          ids := hdr.dcid :: l.ids } hdr.dcid).retain env := by simp [Listener.step, select, he]
      rw [hstep, share_routed h (c := c.note (.recv peer pkt)) (h.own hdr.dcid c hl)]
      by_cases hk : hdr.dcid = key
      · subst hk
        simp [seen, hf, he, hl, Share.step, Share.note, share]
      · simp [seen, hf, he, hk]
    · have hstep : l.step env (.datagram peer pkt draw) = (serviceAt env { l with
          conns := l.conns.insert draw ⟨[.recv peer pkt,.accept peer hdr.dcid draw],false,∅,[]⟩
          cached := some cached
          ids := draw :: hdr.dcid :: l.ids } draw).retain env := by simp [Listener.step, select, he]
      rw [hstep, share_routed h (by simp [Conn.Own, Conn.Spawns])]
      by_cases hk : draw = key
      · subst hk
        simp [seen, hf, he, hl, Share.step]
      · simp [seen, hf, he, hk]
  | recvError => rfl
  | egress =>
    cases he : l.hub.egress with
    | nil => simp [Listener.step, select, seen, he]
    | cons m rest =>
      have hstep : l.step env .egress =
          ((queue { l with hub := { l.hub with egress := rest } } m).serviceAt env m.key).retain env := by
        simp [Listener.step, select, he]
      have hown : (queue { l with hub := { l.hub with egress := rest } } m).All Conn.Own :=
        All.queue (l := { l with hub := { l.hub with egress := rest } }) h.own
          (fun key c sid out hc => Conn.Spawns.of_eq hc (c.queue_spawned sid out)) m
      have hcfg : (queue { l with hub := { l.hub with egress := rest } } m).cfg = cfg :=
        (queue_cfg _ m).trans h.cfg
      rw [hstep, share_retain, (hserve _ m.key hcfg hown).1, share_dequeue he]
      by_cases hk : m.key = key
      · simp [seen, he, hk, Share.step]
      · simp [seen, he, hk, h.retain]
  | readCredit order =>
    by_cases ho : order.Perm l.conns.keys
    · have hstep : l.step env (.readCredit order) = (order.foldl (serviceAt env) l).retain env := by
        simp [Listener.step, select, ho]
      rw [hstep, share_retain, share_pass h hserve (fun hl => by simp [Share.serve, share, hl]) ho]
      simp [seen, ho, Share.step]
    · simp [Listener.step, select, seen, ho]
  | timeout order =>
    by_cases ho : order.Perm l.conns.keys
    · have hstep : l.step env (.timeout order) =
          (order.foldl (fun l key => (l.noteTimeout key).serviceAt env key) l).retain env := by
        simp [Listener.step, select, ho]
      rw [hstep, share_retain, share_pass h (g := fun s => (s.note .onTimeout).serve env cfg key)
        (fun l k hcfg hown => ?_) (fun hl => by simp [Share.serve, Share.note, share, hl]) ho]
      · simp [seen, ho, Share.step]
      · obtain ⟨hcfg',hown'⟩ := hnote l k hcfg hown
        obtain ⟨hs,hi⟩ := hserve _ k hcfg' hown'
        refine ⟨?_,hi⟩
        rw [hs, share_noteTimeout]
        split_ifs
        · rfl
        · rfl
    · simp [Listener.step, select, seen, ho]
  | swap certPem keyPem => rfl
  | bridge i b => exact share_act i b

theorem new_apart (env : ServerEnv) (cfg : ServerCfg) (certs : CertSource) :
    (Listener.new cfg certs).Apart env cfg :=
  ⟨rfl,fun _ _ hk => (by cases hk),fun _ _ hk => (by cases hk)⟩

end Listener

/-- Connections of one listener do not interfere. What becomes of a connection, of its tunnels and of
their messages is what the steps that it sees make of them, one after the other; so two runs in which a
connection sees the same, whatever happens to the other connections, leave it with the same state, the
same calls made on it, and the same tunnels. -/
theorem connections_apart (env : ServerEnv) (cfg : ServerCfg) (key : Bytes) :
    let history (certs : CertSource) (acts : List Listener.Act) :=
      Run.history (Listener.step env) (Listener.seen env key) (Listener.new cfg certs) acts
    let left (certs : CertSource) (acts : List Listener.Act) :=
      (Run.run (Listener.step env) (Listener.new cfg certs) acts).share key
    (∀ certs acts, left certs acts = Run.run (Share.step env cfg key) .none (history certs acts)) ∧
      ∀ certs certs' acts acts', history certs acts = history certs' acts' →
        left certs acts = left certs' acts' := by
  intro history left
  have hrun : ∀ certs acts, left certs acts =
      Run.run (Share.step env cfg key) .none (history certs acts) := by
    intro certs acts
    exact Run.project (Listener.share key) (I := fun l => l.Apart env cfg)
      (fun l a hl => ⟨Listener.share_step hl a,hl.step a⟩) acts (Listener.new_apart env cfg certs)
  refine ⟨hrun,?_⟩
  intro certs certs' acts acts' he
  rw [hrun, hrun, he]

/-- What the first of the two connections sees of `twoPeers`. -/
def onePeer : List Listener.Act :=
  [.datagram ⟨[127,0,0,1],40000⟩ [1] [2],.bridge 0 (.dialed true),.bridge 0 (.write [8] .ready),.egress]

theorem connections_apart_onePeer :
    (Run.run (Listener.step ServerEnv.dialed) (.new Listener.fresh.cfg (.new "" "")) twoPeers).share [2] =
      (Run.run (Listener.step ServerEnv.dialed) (.new Listener.fresh.cfg (.new "" "")) onePeer).share [2] :=
  (connections_apart ServerEnv.dialed Listener.fresh.cfg [2]).2 (.new "" "") (.new "" "") twoPeers onePeer rfl

end EchTunnel
