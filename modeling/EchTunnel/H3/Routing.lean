import EchTunnel.H3.Server
import EchTunnel.Quic.Egress

/-! Which connection the datagrams of a first flight reach. -/
namespace EchTunnel
open Wire

theorem arrivals_exchange (env : Env) {handle : Conn → ℕ → H3Event → Conn}
    (h : ∀ c sid e, (handle c sid e).quic.arrivals = c.quic.arrivals) (c : Conn) :
    (exchange env handle c).quic.arrivals = c.quic.arrivals := by
  have hstream : ∀ (new t : Trace) (sid : ℕ), (∀ call ∈ new, call.stream = some sid) →
      Trace.arrivals (new ++ t) = t.arrivals := fun new t sid hn =>
    Trace.arrivals_append _ _ fun call hm => Call.isArrival_eq_false (hn call hm)
  refine exchange_induction env (P := fun c' => c'.quic.arrivals = c.quic.arrivals)
    (C := fun _ _ => True) rfl (Run.Meets.of_forall (fun _ _ => trivial) _ _) ?_ ?_ ?_ ?_
  · rintro c' ⟨sid,e⟩ hc _
    exact (h _ _ _).trans ((hstream [.poll sid e] c'.quic sid (by simp [Call.stream])).trans hc)
  · intro c' sid hc
    obtain he | ⟨_,_,new,_,he,hn,_⟩ := pumpInboundAt_spec env c' sid
    · rwa [he]
    · rw [he, Conn.put_quic, hstream new _ sid fun call hm => (hn call hm).stream]
      exact hc
  · intro c' sid hc
    obtain he | ⟨_,_,new,_,he,hn,_⟩ := pumpOutboundAt_spec env c' sid
    · rwa [he]
    · rw [he, Conn.put_quic, hstream new _ sid fun call hm => (hn call hm).stream]
      exact hc
  · intro c' sid hc
    obtain he | ⟨_,new,_,_,_,he,hn,_⟩ := reapAt_spec env c' sid
    · rwa [he]
    · rw [he, Conn.remove_quic, hstream new _ sid fun call hm => (hn call hm).stream]
      exact hc

namespace Server
variable (env : ServerEnv) (cfg : ServerCfg) (key : Bytes)

theorem arrivals_handleEvent (c : Conn) (sid : ℕ) (e : H3Event) :
    (handleEvent env cfg key c sid e).quic.arrivals = c.quic.arrivals := by
  obtain ⟨new,hn,he⟩ | he | ⟨_,he⟩ | ⟨resp,_,he⟩ := handleEvent_spec env cfg key c sid e
  · rw [he]
    exact Trace.arrivals_append _ _ fun call hm => Call.isArrival_eq_false (hn call hm).1
  · rw [he, Conn.markReadable]
    split <;> rfl
  · rw [he]
    rfl
  · rw [he]
    exact Trace.arrivals_append c.quic [.tunnel sid,.sendResponse sid resp false true]
      (by simp [Call.isArrival])

theorem arrivals_service (c : Conn) : (service env cfg key c).quic.arrivals = c.quic.arrivals := by
  obtain ⟨new,h3,ok,hn,hcase⟩ := service_spec env cfg key c
  have hflush : ∀ t : Trace, Trace.arrivals (.flushPackets ok :: t) = t.arrivals := fun t =>
    Trace.arrivals_append t [.flushPackets ok] (by simp [Call.isArrival])
  have hnew : Trace.arrivals (new ++ c.quic) = c.quic.arrivals :=
    Trace.arrivals_append _ _ fun call hm => (hn call hm).2
  obtain ⟨_,he⟩ | ⟨_,he⟩ := hcase
  · rw [he, Conn.note_quic, hflush]
    exact hnew
  · rw [he, Conn.note_quic, hflush, arrivals_exchange _ (arrivals_handleEvent env cfg key)]
    exact hnew

end Server

/-- The datagram is an Initial packet of a version the server speaks. -/
def ServerEnv.IsInitial (env : ServerEnv) (pkt : Bytes) (hdr : PacketHeader) : Prop :=
  env.fromSlice pkt = some hdr ∧ hdr.ty = .initial ∧ env.versionIsSupported hdr.version = true

namespace Conn

/-- The connection was accepted for an Initial of this peer with this destination id. -/
def AcceptedFor (c : Conn) (peer : SocketAddr) (odcid : Bytes) : Prop :=
  ∃ scid, .accept peer odcid scid ∈ c.quic

/-- An Initial of this peer with this destination id has reached the connection. -/
def Received (env : ServerEnv) (c : Conn) (peer : SocketAddr) (dcid : Bytes) : Prop :=
  ∃ pkt hdr, .recv peer pkt ∈ c.quic ∧ env.IsInitial pkt hdr ∧ hdr.dcid = dcid

variable {env : ServerEnv} {c c' : Conn} {peer : SocketAddr} {id : Bytes}

theorem acceptedFor_congr (h : c'.quic.arrivals = c.quic.arrivals) :
    c'.AcceptedFor peer id ↔ c.AcceptedFor peer id := by
  apply exists_congr
  intro scid
  rw [← Trace.mem_arrivals _ rfl, h, Trace.mem_arrivals _ rfl]

theorem received_congr (h : c'.quic.arrivals = c.quic.arrivals) :
    c'.Received env peer id ↔ c.Received env peer id := by
  apply exists_congr
  intro pkt
  apply exists_congr
  intro hdr
  apply and_congr_left
  intro _
  rw [← Trace.mem_arrivals _ rfl, h, Trace.mem_arrivals _ rfl]

theorem acceptedFor_recv (p : SocketAddr) (pkt : Bytes) :
    (c.note (.recv p pkt)).AcceptedFor peer id ↔ c.AcceptedFor peer id := by
  simp [AcceptedFor]

theorem received_recv (p : SocketAddr) (pkt : Bytes) : (c.note (.recv p pkt)).Received env peer id ↔
    c.Received env peer id ∨ peer = p ∧ ∃ hdr, env.IsInitial pkt hdr ∧ hdr.dcid = id := by
  constructor
  · rintro ⟨pkt',hdr,hm,hi,hd⟩
    rcases List.mem_cons.mp hm with he | hm
    · cases he
      exact Or.inr ⟨rfl,hdr,hi,hd⟩
    · exact Or.inl ⟨pkt',hdr,hm,hi,hd⟩
  · rintro (⟨pkt',hdr,hm,hi,hd⟩ | ⟨rfl,hdr,hi,hd⟩)
    · exact ⟨pkt',hdr,List.mem_cons_of_mem _ hm,hi,hd⟩
    · exact ⟨pkt,hdr,List.mem_cons_self,hi,hd⟩

end Conn

namespace Listener
variable (env : ServerEnv) (l : Listener)

/-- An Initial goes where an earlier one of the same peer and destination id went, as long as that
connection is live. -/
def RoutesAlike : Act → Prop
  | .datagram peer pkt draw => ∀ hdr, env.IsInitial pkt hdr → ∀ key, ∀ c ∈ l.conns.lookup key,
      c.Received env peer hdr.dcid → (l.routePacket env peer pkt draw).2 = some key
  | _ => True

/-- No two live connections were accepted for the same peer and destination id. -/
def NoTwins : Prop := ∀ peer odcid key key', ∀ c ∈ l.conns.lookup key, ∀ c' ∈ l.conns.lookup key',
  c.AcceptedFor peer odcid → c'.AcceptedFor peer odcid → key = key'

/-- No Initial repeats the peer and destination id that a live connection was accepted for. -/
def NoRepeat : Act → Prop
  | .datagram peer pkt _ => ∀ hdr, env.IsInitial pkt hdr → ∀ key, ∀ c ∈ l.conns.lookup key,
      ¬ c.AcceptedFor peer hdr.dcid
  | _ => True

/-- The ids in the map are known, and so are those connections were accepted for, which name no
connection themselves. -/
structure Traced : Prop where
  keys : ∀ key, ∀ c ∈ l.conns.lookup key, key ∈ l.ids
  accepted : ∀ key, ∀ c ∈ l.conns.lookup key, ∀ peer odcid, c.AcceptedFor peer odcid →
    odcid ∈ l.ids ∧ l.conns.lookup odcid = none ∧ c.Received env peer odcid
  received : ∀ key, ∀ c ∈ l.conns.lookup key, ∀ peer dcid, c.Received env peer dcid →
    dcid = key ∨ c.AcceptedFor peer dcid

/-- The connections of `l'` are among those of `l`, and nothing new has reached them. -/
def Keeps (l' : Listener) : Prop := l'.ids = l.ids ∧
  ∀ key, ∀ c' ∈ l'.conns.lookup key, ∃ c ∈ l.conns.lookup key, c'.quic.arrivals = c.quic.arrivals

variable {env l} {l' : Listener}

theorem Keeps.refl (l : Listener) : l.Keeps l := ⟨rfl,fun _ c hc => ⟨c,hc,rfl⟩⟩

theorem Keeps.trans {l'' : Listener} (h : l.Keeps l') (h' : l'.Keeps l'') : l.Keeps l'' := by
  refine ⟨h'.1.trans h.1,fun key c'' hc'' => ?_⟩
  obtain ⟨c',hc',he'⟩ := h'.2 key c'' hc''
  obtain ⟨c,hc,he⟩ := h.2 key c' hc'
  exact ⟨c,hc,he'.trans he⟩

theorem keeps_insert {key : Bytes} {c c' : Conn} {hub : Hub} (hl : l.conns.lookup key = some c)
    (hc : c'.quic.arrivals = c.quic.arrivals) :
    l.Keeps { l with conns := l.conns.insert key c', hub } := by
  refine ⟨rfl,fun k c'' hk => ?_⟩
  simp only [Assoc.lookup_insert] at hk
  split_ifs at hk with he
  · cases hk
    subst k
    exact ⟨c,hl,hc⟩
  · exact ⟨c'',hk,rfl⟩

theorem keeps_serviceAt (l : Listener) (key : Bytes) : l.Keeps (l.serviceAt env key) := by
  unfold serviceAt
  cases hl : l.conns.lookup key with
  | none => exact Keeps.refl l
  | some c => exact keeps_insert hl (Server.arrivals_service env l.cfg key c)

theorem keeps_noteTimeout (l : Listener) (key : Bytes) : l.Keeps (l.noteTimeout key) := by
  unfold noteTimeout
  cases hl : l.conns.lookup key with
  | none => exact Keeps.refl l
  | some c => exact keeps_insert hl (Trace.arrivals_append c.quic [.onTimeout] (by simp [Call.isArrival]))

theorem keeps_queue (l : Listener) (m : Egress) : l.Keeps (l.queue m) := by
  unfold queue
  cases hl : l.conns.lookup m.key with
  | none => exact Keeps.refl l
  | some c =>
    apply keeps_insert hl
    unfold Conn.queue
    split <;> rfl

theorem keeps_retain (l : Listener) : l.Keeps (l.retain env) := by
  refine ⟨rfl,fun key c hc => ⟨c,?_,rfl⟩⟩
  rw [retain, Assoc.lookup_filter, Option.mem_filter_iff] at hc
  exact hc.1

theorem Traced.keeps (h : l.Traced env) (hk : l.Keeps l') : l'.Traced env := by
  obtain ⟨hids,hconns⟩ := hk
  refine ⟨?_,?_,?_⟩
  · intro key c' hc'
    obtain ⟨c,hc,_⟩ := hconns key c' hc'
    rw [hids]
    exact h.keys key c hc
  · intro key c' hc' peer odcid ha
    obtain ⟨c,hc,he⟩ := hconns key c' hc'
    obtain ⟨hin,hnone,hr⟩ := h.accepted key c hc peer odcid ((Conn.acceptedFor_congr he).mp ha)
    refine ⟨by rwa [hids],?_,(Conn.received_congr he).mpr hr⟩
    rw [Option.eq_none_iff_forall_ne_some]
    intro d hd
    obtain ⟨d',hd',_⟩ := hconns odcid d hd
    rw [hnone] at hd'
    cases hd'
  · intro key c' hc' peer dcid hr
    obtain ⟨c,hc,he⟩ := hconns key c' hc'
    exact (h.received key c hc peer dcid ((Conn.received_congr he).mp hr)).imp_right
      (Conn.acceptedFor_congr he).mpr

theorem NoTwins.keeps (h : l.NoTwins) (hk : l.Keeps l') : l'.NoTwins := by
  intro peer odcid key key' c hc c' hc' ha ha'
  obtain ⟨d,hd,he⟩ := hk.2 key c hc
  obtain ⟨d',hd',he'⟩ := hk.2 key' c' hc'
  exact h peer odcid key key' d hd d' hd' ((Conn.acceptedFor_congr he).mp ha)
    ((Conn.acceptedFor_congr he').mp ha')

theorem Traced.known (h : l.Traced env) {hdr : PacketHeader} {c : Conn} {peer : SocketAddr} {pkt : Bytes}
    (hp : env.fromSlice pkt = some hdr) (hl : l.conns.lookup hdr.dcid = some c) :
    Traced env { l with
      conns := l.conns.insert hdr.dcid (c.note (.recv peer pkt)), ids := hdr.dcid :: l.ids } := by
  have hnone : ∀ odcid, l.conns.lookup odcid = none →
      (l.conns.insert hdr.dcid (c.note (.recv peer pkt))).lookup odcid = none := by
    intro odcid hn
    rw [Assoc.lookup_insert, if_neg (by rintro rfl; simp [hl] at hn), hn]
  refine ⟨?_,?_,?_⟩
  · intro key d hd
    simp only [Assoc.lookup_insert] at hd
    split_ifs at hd with he
    · exact he ▸ List.mem_cons_self
    · exact List.mem_cons_of_mem _ (h.keys key d hd)
  · intro key d hd peer' odcid ha
    simp only [Assoc.lookup_insert] at hd
    split_ifs at hd
    · cases hd
      obtain ⟨hin,hn,hr⟩ := h.accepted _ c hl peer' odcid ((Conn.acceptedFor_recv peer pkt).mp ha)
      exact ⟨List.mem_cons_of_mem _ hin,hnone odcid hn,(Conn.received_recv peer pkt).mpr (Or.inl hr)⟩
    · obtain ⟨hin,hn,hr⟩ := h.accepted key d hd peer' odcid ha
      exact ⟨List.mem_cons_of_mem _ hin,hnone odcid hn,hr⟩
  · intro key d hd peer' dcid hr
    simp only [Assoc.lookup_insert] at hd
    split_ifs at hd with he
    · cases hd
      subst key
      obtain hr | ⟨_,hdr',hi,rfl⟩ := (Conn.received_recv peer pkt).mp hr
      · exact (h.received _ c hl peer' dcid hr).imp_right (Conn.acceptedFor_recv peer pkt).mpr
      · cases hp.symm.trans hi.1
        exact Or.inl rfl
    · exact h.received key d hd peer' dcid hr

theorem Traced.created (h : l.Traced env) {hdr : PacketHeader} {pkt draw : Bytes} (peer : SocketAddr)
    (hi : env.IsInitial pkt hdr) (hl : l.conns.lookup hdr.dcid = none) (hd : draw ∉ hdr.dcid :: l.ids) :
    Traced env { l with
      conns := l.conns.insert draw ⟨[.recv peer pkt,.accept peer hdr.dcid draw],false,∅,[]⟩
      ids := draw :: hdr.dcid :: l.ids } := by
  obtain ⟨hne,hnin⟩ := List.ne_and_not_mem_of_not_mem_cons hd
  have hold : ∀ {id}, id ∈ l.ids → id ∈ draw :: hdr.dcid :: l.ids := fun hm =>
    List.mem_cons_of_mem _ (List.mem_cons_of_mem _ hm)
  refine ⟨?_,?_,?_⟩
  · intro key d hk
    simp only [Assoc.lookup_insert] at hk
    split_ifs at hk with he
    · exact he ▸ List.mem_cons_self
    · exact hold (h.keys key d hk)
  · intro key d hk peer' odcid ha
    simp only [Assoc.lookup_insert] at hk ⊢
    split_ifs at hk
    · cases hk
      obtain ⟨scid,ha⟩ := ha
      simp only [List.mem_cons, List.not_mem_nil, or_false, reduceCtorEq, false_or, Call.accept.injEq] at ha
      obtain ⟨rfl,rfl,_⟩ := ha
      refine ⟨List.mem_cons_of_mem _ List.mem_cons_self,?_,pkt,hdr,List.mem_cons_self,hi,rfl⟩
      rw [if_neg (Ne.symm hne), hl]
    · obtain ⟨hin,hn,hr⟩ := h.accepted key d hk peer' odcid ha
      refine ⟨hold hin,?_,hr⟩
      rw [if_neg (by rintro rfl; exact hnin hin), hn]
  · intro key d hk peer' dcid hr
    simp only [Assoc.lookup_insert] at hk
    split_ifs at hk
    · cases hk
      obtain ⟨pkt',hdr',hm,hi',rfl⟩ := hr
      simp only [List.mem_cons, List.not_mem_nil, or_false, reduceCtorEq, Call.recv.injEq] at hm
      obtain ⟨rfl,rfl⟩ := hm
      cases hi.1.symm.trans hi'.1
      exact Or.inr ⟨draw,by simp⟩
    · exact h.received key d hk peer' dcid hr

theorem Traced.routePacket (h : l.Traced env) {peer : SocketAddr} {pkt draw : Bytes}
    (hf : l.Fresh env (.datagram peer pkt draw)) : (l.routePacket env peer pkt draw).1.Traced env := by
  obtain ⟨cached,ids,hids,he,_⟩ | ⟨hdr,c,hp,hl,he⟩ | ⟨hdr,cached,hp,hl,ht,hv,he⟩ :=
    routePacket_spec env l peer pkt draw
  · rw [he]
    refine ⟨fun key c hc => hids (h.keys key c hc),?_,h.received⟩
    exact fun key c hc peer odcid ha => (h.accepted key c hc peer odcid ha).imp_left (hids ·)
  · rw [he]
    exact h.known hp hl
  · rw [he]
    have hc := h.created peer ⟨hp,ht,hv⟩ hl (hf hdr hp hl)
    exact ⟨hc.keys,hc.accepted,hc.received⟩

theorem Traced.step (h : l.Traced env) (a : Act) (hf : l.Fresh env a) : (l.step env a).Traced env := by
  have hs : (l.select env a).1.Traced env := by
    apply select_induction (C := fun _ _ _ _ => True) h (Serves.of_forall (fun _ _ _ _ => trivial) l a)
    case hroute =>
      rintro peer pkt draw rfl
      exact h.routePacket hf
    case hqueue => exact fun m rest _ _ => h.keeps (keeps_queue { l with hub := _ } m)
    case htimeout => exact fun l key hl => hl.keeps (keeps_noteTimeout l key)
    case hservice => exact fun l key hl _ => hl.keeps (keeps_serviceAt l key)
    case hswap => exact fun _ _ => ⟨h.keys,h.accepted,h.received⟩
    case hbridge => exact fun _ _ _ => ⟨h.keys,h.accepted,h.received⟩
  rw [Listener.step]
  split
  · exact hs.keeps (keeps_retain _)
  · exact hs

theorem NoTwins.routePacket (h : l.NoTwins) {peer : SocketAddr} {pkt draw : Bytes}
    (hn : l.NoRepeat env (.datagram peer pkt draw)) : (l.routePacket env peer pkt draw).1.NoTwins := by
  obtain ⟨_,_,_,he,_⟩ | ⟨hdr,c,_,hl,he⟩ | ⟨hdr,_,hp,_,ht,hv,he⟩ := routePacket_spec env l peer pkt draw
  · rw [he]
    exact h
  · rw [he]
    have hback : ∀ key, ∀ d ∈ (l.conns.insert hdr.dcid (c.note (.recv peer pkt))).lookup key,
        ∃ d' ∈ l.conns.lookup key, ∀ p id, d.AcceptedFor p id → d'.AcceptedFor p id := by
      intro key d hd
      rw [Assoc.lookup_insert] at hd
      split_ifs at hd with hk
      · cases hd
        exact ⟨c,hk ▸ hl,fun p id => (Conn.acceptedFor_recv peer pkt).mp⟩
      · exact ⟨d,hd,fun _ _ => id⟩
    intro p odcid key key' d hd d' hd' ha ha'
    obtain ⟨x,hx,hax⟩ := hback key d hd
    obtain ⟨x',hx',hax'⟩ := hback key' d' hd'
    exact h p odcid key key' x hx x' hx' (hax p odcid ha) (hax' p odcid ha')
  · rw [he]
    -- the new connection is the only one for its peer and destination id
    have hnew : ∀ key, ∀ d ∈ (l.conns.insert draw
          ⟨[.recv peer pkt,.accept peer hdr.dcid draw],false,∅,[]⟩).lookup key,
        ∀ p id, d.AcceptedFor p id → key = draw ∧ p = peer ∧ id = hdr.dcid ∨
          d ∈ l.conns.lookup key ∧ ¬ (p = peer ∧ id = hdr.dcid) := by
      intro key d hd p id ha
      rw [Assoc.lookup_insert] at hd
      split_ifs at hd with hk
      · cases hd
        obtain ⟨scid,ha⟩ := ha
        simp only [List.mem_cons, List.not_mem_nil, or_false, reduceCtorEq, false_or, Call.accept.injEq] at ha
        exact Or.inl ⟨hk,ha.1,ha.2.1⟩
      · refine Or.inr ⟨hd,?_⟩
        rintro ⟨rfl,rfl⟩
        exact hn hdr ⟨hp,ht,hv⟩ key d hd ha
    intro p odcid key key' d hd d' hd' ha ha'
    obtain ⟨hk,hpo⟩ | ⟨hd,hpo⟩ := hnew key d hd p odcid ha
    · obtain ⟨hk',_⟩ | ⟨_,hpo'⟩ := hnew key' d' hd' p odcid ha'
      · exact hk.trans hk'.symm
      · exact absurd hpo hpo'
    · obtain ⟨_,hpo'⟩ | ⟨hd',_⟩ := hnew key' d' hd' p odcid ha'
      · exact absurd hpo' hpo
      · exact h p odcid key key' d hd d' hd' ha ha'

theorem NoTwins.step (h : l.NoTwins) (a : Act) (hn : l.NoRepeat env a) : (l.step env a).NoTwins := by
  have hs : (l.select env a).1.NoTwins := by
    apply select_induction (C := fun _ _ _ _ => True) h (Serves.of_forall (fun _ _ _ _ => trivial) l a)
    case hroute =>
      rintro peer pkt draw rfl
      exact h.routePacket hn
    case hqueue => exact fun m rest _ _ => h.keeps (keeps_queue { l with hub := _ } m)
    case htimeout => exact fun l key hl => hl.keeps (keeps_noteTimeout l key)
    case hservice => exact fun l key hl _ => hl.keeps (keeps_serviceAt l key)
    case hswap => exact fun _ _ => h
    case hbridge => exact fun _ _ _ => h
  rw [Listener.step]
  split
  · exact hs.keeps (keeps_retain _)
  · exact hs

/-- For a single packet: earlier and later Initials part ways exactly when the later one repeats what a
connection was accepted for. -/
theorem Traced.routesAlike_iff (h : l.Traced env) {a : Act} (hf : l.Fresh env a) :
    l.RoutesAlike env a ↔ l.NoRepeat env a := by
  cases a with
  | datagram peer pkt draw =>
    constructor
    · intro hr hdr hi key c hc ha
      obtain ⟨_,hnone,hrec⟩ := h.accepted key c hc peer hdr.dcid ha
      have hk := hr hdr hi key c hc hrec
      obtain ⟨_,_,_,he,_⟩ | ⟨hdr',c',hp,hl,he⟩ | ⟨hdr',_,hp,hl,_,_,he⟩ :=
        routePacket_spec env l peer pkt draw
      · rw [he] at hk
        contradiction
      · cases hp.symm.trans hi.1
        rw [hnone] at hl
        contradiction
      · rw [he] at hk
        cases hk
        exact hf hdr' hp hl (List.mem_cons_of_mem _ (h.keys _ c hc))
    · intro hn hdr hi key c hc hrec
      obtain rfl | ha := h.received key c hc peer hdr.dcid hrec
      · obtain ⟨_,_,_,_,hd⟩ | ⟨hdr',c',hp,hl,he⟩ | ⟨hdr',_,hp,hl,_,_,_⟩ :=
          routePacket_spec env l peer pkt draw
        · rw [hd hdr hi.1] at hc
          contradiction
        · cases hp.symm.trans hi.1
          rw [he]
        · cases hp.symm.trans hi.1
          rw [hl] at hc
          contradiction
      · exact absurd ha (hn hdr hi key c hc)
  | _ => exact ⟨fun _ => trivial,fun _ => trivial⟩

/-- The Initials of a first flight all reach one connection, and no twin of it is made, exactly in the
runs in which no Initial repeats what a live connection was accepted for. -/
theorem first_flight_iff (env : ServerEnv) (cfg : ServerCfg) (certs : CertSource) (acts : List Act)
    (hfresh : Run.Meets (step env) (Fresh env) (new cfg certs) acts) :
    Run.Meets (step env) (fun l a => l.RoutesAlike env a ∧ (l.step env a).NoTwins) (new cfg certs) acts ↔
      Run.Meets (step env) (NoRepeat env) (new cfg certs) acts := by
  have ht : (new cfg certs).Traced env := by
    refine ⟨?_,?_,?_⟩
    · exact fun _ _ hc => by cases hc
    · exact fun _ _ hc => by cases hc
    · exact fun _ _ hc => by cases hc
  constructor
  · intro h
    refine Run.Meets.imp (I := Traced env) ?_ ?_ ht (hfresh.and h)
    · exact fun l a hl hc => hl.step a hc.1
    · exact fun l a hl hc => (hl.routesAlike_iff hc.1).mp hc.2.1
  · intro h
    have hn : (new cfg certs).NoTwins := fun _ _ _ _ _ hc => by cases hc
    refine Run.Meets.imp (I := fun l => l.Traced env ∧ l.NoTwins) ?_ ?_ ⟨ht,hn⟩ (hfresh.and h)
    · exact fun l a hl hc => ⟨hl.1.step a hc.1,hl.2.step a hc.2⟩
    · exact fun l a hl hc => ⟨(hl.1.routesAlike_iff hc.1).mpr hc.2,hl.2.step a hc.2⟩

/-- A datagram from a client that has not sent one before, and its retransmission. -/
def retransmitted : List Act :=
  [.datagram ⟨[127,0,0,1],40000⟩ [1] [2],.datagram ⟨[127,0,0,1],40000⟩ [1] [3]]

theorem first_flight_iff_retransmitted :
    Run.Meets (step ServerEnv.idle) (fun l a => l.RoutesAlike ServerEnv.idle a ∧
        (l.step ServerEnv.idle a).NoTwins) fresh retransmitted ↔
      Run.Meets (step ServerEnv.idle) (NoRepeat ServerEnv.idle) fresh retransmitted :=
  first_flight_iff ServerEnv.idle _ _ retransmitted (by decide)

/-- A retransmitted Initial opens a second connection beside the first. -/
theorem twins_of_retransmission :
    ¬ ∀ (env : ServerEnv) (cfg : ServerCfg) (certs : CertSource) (acts : List Act),
      Run.Meets (step env) (Fresh env) (new cfg certs) acts →
        Run.Meets (step env) (fun l a => l.RoutesAlike env a ∧ (l.step env a).NoTwins) (new cfg certs)
          acts := by
  intro h
  have hm := h ServerEnv.idle fresh.cfg fresh.certs retransmitted (by decide)
  have ht := hm.2.1.2 ⟨[127,0,0,1],40000⟩ [1] [2] [3]
    ⟨[.flushPackets true,.withTransport true,.recv ⟨[127,0,0,1],40000⟩ [1],
      .accept ⟨[127,0,0,1],40000⟩ [1] [2]],true,∅,[]⟩ rfl
    ⟨[.flushPackets true,.withTransport true,.recv ⟨[127,0,0,1],40000⟩ [1],
      .accept ⟨[127,0,0,1],40000⟩ [1] [3]],true,∅,[]⟩ rfl ⟨[2],by simp⟩ ⟨[3],by simp⟩
  exact absurd ht (by decide)

end Listener
end EchTunnel
