import Mathlib.Data.List.Forall2
import EchTunnel.H3.Watched

/-! One stream of a server connection carries one tunnel, or answers to probes, but never both. -/
namespace EchTunnel
open Wire

theorem FAKE_404_BODY_ne_nil : FAKE_404_BODY ≠ [] := by
  have hne : ∀ s : String, s ≠ "" → utf8 s ≠ [] := fun s hs h => hs (utf8_injective h)
  exact hne _ (by simp)

/-- Calls that neither answer a request nor open a tunnel. -/
def Call.Plain : Call → Prop
  | .tunnel _ => False
  | .sendResponse _ _ _ ok => ok = false
  | .sendBody _ body fin _ => fin = true → body = []
  | _ => True

theorem Call.Inbound.plain {sid : ℕ} {call : Call} (h : call.Inbound sid) : call.Plain := by
  cases call <;> trivial

theorem Call.Reaping.plain {sid : ℕ} {call : Call} (h : call.Reaping sid) : call.Plain := by
  cases call <;> trivial

theorem Call.plain_of_stream {call : Call} (h : call.stream = none) : call.Plain := by
  cases call <;> trivial

/-- `pump_outbound` sends a fin only with an empty body. -/
theorem pumpStream_plain (env : Env) (sid : ℕ) (t : Trace) (st : StreamState) :
    ∃ new : Trace, (pumpStream env sid t st).1 = new ++ t ∧ ∀ call ∈ new, call.Plain := by
  obtain ⟨new,pending,failed,_,he,hn,_⟩ := drainPending_spec env sid st.pending t st
  have hnew : ∀ call ∈ new, call.Plain := by
    intro call hc
    obtain ⟨body,a,rfl⟩ := hn call hc
    exact nofun
  simp only [pumpStream, he]
  obtain hs | ⟨_,_,_,a,hs,_⟩ := sendFin_spec env sid (new ++ t)
    { st with pending := pending, finSent := st.finSent || failed }
  · exact ⟨new,by rw [hs],hnew⟩
  · refine ⟨.sendBody sid [] true a :: new,by rw [hs]; rfl,?_⟩
    intro call hc
    obtain rfl | hc := List.mem_cons.mp hc
    · exact fun _ => rfl
    · exact hnew call hc

namespace Server

/-- The headers of an accepted tunnel. -/
def okHeaders (cfg : ServerCfg) : List Header := [header ":status" "200",header "server" cfg.serverName]

end Server

namespace Conn
open Server

/-- A stream on which a tunnel was opened has been accepted once, has got no other answer, and no
page. -/
structure Sole (cfg : ServerCfg) (c : Conn) : Prop where
  once : ∀ sid, c.quic.count (.tunnel sid) ≤ 1
  accepted : ∀ sid, .tunnel sid ∈ c.quic → .sendResponse sid (okHeaders cfg) false true ∈ c.quic
  answer : ∀ sid, .tunnel sid ∈ c.quic → ∀ hs fin, .sendResponse sid hs fin true ∈ c.quic →
    hs = okHeaders cfg
  page : ∀ sid a, .sendBody sid FAKE_404_BODY true a ∈ c.quic →
    .tunnel sid ∉ c.quic ∧ ∃ hs fin, .sendResponse sid hs fin true ∈ c.quic
  live : ∀ sid, (c.streams.lookup sid).isSome → .tunnel sid ∈ c.quic

namespace Sole
variable {cfg : ServerCfg} {c : Conn} {sid : ℕ}

theorem append (h : c.Sole cfg) (new : Trace) (hn : ∀ call ∈ new, call.Plain) :
    Sole cfg { c with quic := new ++ c.quic } := by
  have hno : ∀ sid, .tunnel sid ∉ new := fun sid hm => hn (.tunnel sid) hm
  have htunnel : ∀ sid, .tunnel sid ∈ new ++ c.quic → .tunnel sid ∈ c.quic := fun sid hm =>
    (List.mem_append.mp hm).resolve_left (hno sid)
  refine ⟨fun sid => ?_,?_,?_,?_,fun sid hs => List.mem_append_right new (h.live sid hs)⟩
  · rw [List.count_append, List.count_eq_zero.mpr (hno sid), Nat.zero_add]
    exact h.once sid
  · exact fun sid hm => List.mem_append_right new (h.accepted sid (htunnel sid hm))
  · intro sid hm hs fin hr
    obtain hr | hr := List.mem_append.mp hr
    · exact absurd (hn _ hr) (by simp [Call.Plain])
    · exact h.answer sid (htunnel sid hm) hs fin hr
  · intro sid a ha
    obtain ha | ha := List.mem_append.mp ha
    · exact absurd (hn _ ha rfl) FAKE_404_BODY_ne_nil
    · obtain ⟨hm,hs,fin,hr⟩ := h.page sid a ha
      exact ⟨fun hm' => hm (htunnel sid hm'),hs,fin,List.mem_append_right new hr⟩

theorem note (h : c.Sole cfg) {call : Call} (hc : call.Plain) : (c.note call).Sole cfg :=
  h.append [call] (by simpa using hc)

theorem opened {t : Trace} (ht : ∀ call ∈ t, call.Plain) : Sole cfg ⟨t,false,∅,[]⟩ := by
  have h : Sole cfg ⟨[],false,∅,[]⟩ := ⟨by simp,by simp,by simp,by simp,fun sid hs => by cases hs⟩
  have := h.append t ht
  rwa [List.append_nil] at this

/-- Entries come and go, but none appears for a stream without a tunnel. -/
theorem streams (h : c.Sole cfg) {streams : AList fun _ : ℕ => StreamState}
    (hs : ∀ sid, (streams.lookup sid).isSome → (c.streams.lookup sid).isSome) :
    Sole cfg { c with streams } := { h with live := fun sid hl => h.live sid (hs sid hl) }

theorem put (h : c.Sole cfg) (new : Trace) (hn : ∀ call ∈ new, call.Plain)
    {st : StreamState} (hl : c.streams.lookup sid = some st) (st' : StreamState) :
    (c.put sid (new ++ c.quic) st').Sole cfg := by
  refine (h.append new hn).streams fun k hk => ?_
  rw [Assoc.lookup_insert] at hk
  split_ifs at hk with he
  · rw [he, hl]
    rfl
  · exact hk

theorem remove (h : c.Sole cfg) (sid : ℕ) : (c.remove sid).Sole cfg := by
  refine h.streams fun k hk => ?_
  rw [Assoc.lookup_erase] at hk
  split_ifs at hk with he
  · contradiction
  · exact hk

theorem markReadable (h : c.Sole cfg) (sid : ℕ) : (c.markReadable sid).Sole cfg := by
  unfold Conn.markReadable
  cases hl : c.streams.lookup sid with
  | none => exact h
  | some st => exact h.put [] (by simp) hl _

theorem queue (h : c.Sole cfg) (sid : ℕ) (out : StreamOut) : (c.queue sid out).Sole cfg := by
  unfold Conn.queue
  cases hl : c.streams.lookup sid with
  | none => exact h
  | some st => exact h.put [] (by simp) hl _

/-- `quiche` answers only once on a stream, so a stream that takes an answer has no tunnel. -/
theorem not_tunnel (env : Env) (h : c.Sole cfg) {hs : List Header}
    (ha : env.sendResponse c.quic sid hs false = true) : .tunnel sid ∉ c.quic := by
  intro hm
  rw [env.sendResponse_once (h.accepted sid hm)] at ha
  contradiction

/-- The answer to a probe. -/
theorem sendFake404 (env : ServerEnv) (h : c.Sole cfg) (sid : ℕ) :
    (sendFake404 env cfg.serverName c sid).Sole cfg := by
  unfold Server.sendFake404
  generalize hresp : [header ":status" "404",header "server" cfg.serverName,
    header "content-type" "text/html",
    header "content-length" (toString FAKE_404_BODY.length)] = resp
  simp only
  cases ha : env.sendResponse c.quic sid resp false with
  | false => exact h.note rfl
  | true =>
    have hno : .tunnel sid ∉ c.quic := h.not_tunnel env.toEnv ha
    have hback : ∀ {k : ℕ} {new : Trace}, .tunnel k ∈ new ++ c.quic → .tunnel k ∉ new →
        .tunnel k ∈ c.quic ∧ k ≠ sid := by
      intro k new hm hn
      have hm := (List.mem_append.mp hm).resolve_left hn
      exact ⟨hm,by rintro rfl; exact hno hm⟩
    change Sole cfg { c with
      quic := [.sendBody sid FAKE_404_BODY true _,.sendResponse sid resp false true] ++ c.quic }
    refine ⟨fun k => ?_,fun k hm => ?_,fun k hm => ?_,fun k a hb => ?_,fun k hs => ?_⟩
    · rw [List.count_append, List.count_eq_zero.mpr (by simp), Nat.zero_add]
      exact h.once k
    · exact List.mem_append_right _ (h.accepted k (hback hm (by simp)).1)
    · intro hs fin hr
      obtain ⟨hm,hk⟩ := hback hm (by simp)
      have hr : Call.sendResponse k hs fin true ∈ c.quic := by simpa [hk] using hr
      exact h.answer k hm hs fin hr
    · by_cases hk : k = sid
      · subst k
        exact ⟨fun hm => hno (hback hm (by simp)).1,resp,false,List.mem_append_left _ (by simp)⟩
      · have hb : Call.sendBody k FAKE_404_BODY true a ∈ c.quic := by simpa [hk] using hb
        obtain ⟨hm,hs,fin,hr⟩ := h.page k a hb
        exact ⟨fun hm' => hm (hback hm' (by simp)).1,hs,fin,List.mem_append_right _ hr⟩
    · exact List.mem_append_right _ (h.live k hs)

/-- The answer to a tunnel request, and the tunnel. -/
theorem enter (env : ServerEnv) (h : c.Sole cfg) (sid : ℕ)
    (ha : env.sendResponse c.quic sid (okHeaders cfg) false = true) (spawned : List QuicStream) :
    Sole cfg { (c.note (.sendResponse sid (okHeaders cfg) false true)).enter sid with spawned } := by
  have hno : .tunnel sid ∉ c.quic := h.not_tunnel env.toEnv ha
  have htunnel : ∀ {k : ℕ}, k ≠ sid →
      .tunnel k ∈ Call.tunnel sid :: .sendResponse sid (okHeaders cfg) false true :: c.quic →
        .tunnel k ∈ c.quic := by
    intro k hk hm
    simpa [hk] using hm
  refine ⟨fun k => ?_,fun k hm => ?_,fun k hm hs fin hr => ?_,fun k a hb => ?_,fun k hs => ?_⟩
  · change List.count _ (Call.tunnel sid :: .sendResponse sid _ false true :: c.quic) ≤ 1
    rw [List.count_cons, List.count_cons_of_ne (by simp)]
    by_cases hk : k = sid
    · rw [hk, List.count_eq_zero.mpr hno]
      simp
    · have := h.once k
      simp [Ne.symm hk, this]
  · by_cases hk : k = sid
    · subst k
      exact List.mem_cons_of_mem _ List.mem_cons_self
    · exact List.mem_append_right [_,_] (h.accepted k (htunnel hk hm))
  · by_cases hk : k = sid
    · subst k
      obtain ⟨rfl,-⟩ | hr : (hs = okHeaders cfg ∧ fin = false) ∨ .sendResponse sid hs fin true ∈ c.quic := by
        simpa [Conn.enter] using hr
      · rfl
      · rw [env.sendResponse_once hr] at ha
        contradiction
    · exact h.answer k (htunnel hk hm) hs fin (by simpa [Conn.enter, hk] using hr)
  · obtain ⟨hm,hs,fin,hr⟩ := h.page k a (by simpa [Conn.enter] using hb)
    refine ⟨fun hm' => hm (htunnel ?_ hm'),hs,fin,List.mem_append_right [_,_] hr⟩
    rintro rfl
    rw [env.sendResponse_once hr] at ha
    contradiction
  · change ((c.streams.insert sid _).lookup k).isSome at hs
    rw [Assoc.lookup_insert] at hs
    split_ifs at hs with hk
    · subst k
      exact List.mem_cons_self
    · exact List.mem_append_right [_,_] (h.live k hs)

theorem handleHeaders (env : ServerEnv) (h : c.Sole cfg) (key : Bytes) (sid : ℕ)
    (list : List Header) : (handleHeaders env cfg key c sid list).Sole cfg := by
  unfold Server.handleHeaders
  split
  · exact h.sendFake404 env sid
  · rw [show [header ":status" "200",header "server" cfg.serverName] = okHeaders cfg from rfl]
    cases ha : env.sendResponse c.quic sid (okHeaders cfg) false with
    | true =>
      simp only [ha]
      exact h.enter env sid ha _
    | false =>
      simp only [ha]
      exact Sole.note (h.note (show Call.Plain (.sendResponse sid (okHeaders cfg) false false) from rfl)) trivial

theorem eventStep (env : ServerEnv) (h : c.Sole cfg) (key : Bytes) (p : ℕ × H3Event) :
    (eventStep (handleEvent env cfg key) c p).Sole cfg := by
  obtain ⟨sid,e⟩ := p
  have hn : Sole cfg (c.note (.poll sid e)) := h.note trivial
  unfold EchTunnel.eventStep
  cases e with
  | headers list => exact hn.handleHeaders env key sid list
  | data =>
    rw [handleEvent]
    split
    · exact hn.markReadable sid
    · exact hn.note trivial
  | finished => exact hn.markReadable sid
  | reset code => exact hn.remove sid
  | priorityUpdate => exact hn
  | goAway => exact hn

end Sole

/-- The bridges of the connection under `key` that were started after `t`, each on a stream that had
no tunnel before and no two on one stream. -/
structure Starts (key : Bytes) (t : Trace) (c : Conn) : Prop where
  own : ∀ s ∈ c.spawned, s.key = key
  opened : ∀ s ∈ c.spawned, .tunnel s.streamId ∈ c.quic ∧ .tunnel s.streamId ∉ t
  distinct : (c.spawned.map QuicStream.streamId).Nodup
  grows : t ⊆ c.quic

namespace Starts
variable {cfg : ServerCfg} {key : Bytes} {t : Trace} {c : Conn} {sid : ℕ}

theorem append (h : c.Starts key t) (new : Trace) (streams : AList fun _ : ℕ => StreamState)
    (h3 : Bool) : Starts key t ⟨new ++ c.quic,h3,streams,c.spawned⟩ where
  own := h.own
  opened s hs := (h.opened s hs).imp_left (List.mem_append_right new)
  distinct := h.distinct
  grows := List.subset_append_of_subset_right new h.grows

theorem markReadable (h : c.Starts key t) (sid : ℕ) : (c.markReadable sid).Starts key t := by
  unfold Conn.markReadable
  split
  · exact h
  · exact h.append [] _ c.h3

theorem enter (h : c.Starts key t) (hno : .tunnel sid ∉ c.quic) (new : Trace) (rx : ℕ) :
    Starts key t { ({ c with quic := new ++ c.quic } : Conn).enter sid with
      spawned := c.spawned ++ [.new key sid rx] } := by
  have hnew : ∀ s ∈ c.spawned, s.streamId ≠ sid := by
    rintro s hs rfl
    exact hno (h.opened s hs).1
  refine ⟨fun s hs => ?_,fun s hs => ?_,?_,?_⟩
  · obtain hs | hs := List.mem_append.mp hs
    · exact h.own s hs
    · rw [List.mem_singleton.mp hs]
      rfl
  · obtain hs | hs := List.mem_append.mp hs
    · exact (h.opened s hs).imp_left (List.mem_append_right (.tunnel sid :: new))
    · rw [List.mem_singleton.mp hs]
      exact ⟨List.mem_cons_self,fun hm => hno (h.grows hm)⟩
  · rw [List.map_append, List.nodup_append]
    refine ⟨h.distinct,List.nodup_singleton _,?_⟩
    intro k hk k' hk' he
    obtain ⟨s,hs,rfl⟩ := List.mem_map.mp hk
    rw [List.map_singleton, List.mem_singleton] at hk'
    exact hnew s hs (he.trans hk')
  · exact List.subset_append_of_subset_right (.tunnel sid :: new) h.grows

theorem eventStep (env : ServerEnv) (h : c.Starts key t) (hc : c.Sole cfg) (p : ℕ × H3Event) :
    (eventStep (handleEvent env cfg key) c p).Starts key t := by
  obtain ⟨sid,e⟩ := p
  have hn : Starts key t (c.note (.poll sid e)) := h.append [.poll sid e] c.streams c.h3
  have hp : Sole cfg (c.note (.poll sid e)) := hc.note trivial
  unfold EchTunnel.eventStep
  obtain ⟨new,_,he⟩ | he | ⟨_,he⟩ | ⟨resp,ha,he⟩ :=
    handleEvent_spec env cfg key (c.note (.poll sid e)) sid e
  · rw [he]
    exact hn.append new _ c.h3
  · rw [he]
    exact hn.markReadable sid
  · rw [he]
    exact hn.append [] _ c.h3
  · rw [he]
    exact hn.enter (hp.not_tunnel env.toEnv ha) [.sendResponse sid resp false true] _

end Starts

/-- What one pass of the loop over a connection keeps. -/
theorem Sole.exchange {cfg : ServerCfg} {key : Bytes} {t : Trace} {c : Conn} (env : ServerEnv)
    (h : c.Sole cfg) (hs : c.Starts key t) :
    (exchange env.toEnv (handleEvent env cfg key) c).Sole cfg ∧
      (EchTunnel.exchange env.toEnv (handleEvent env cfg key) c).Starts key t := by
  apply exchange_induction env.toEnv (P := fun c => c.Sole cfg ∧ c.Starts key t)
    (C := fun _ _ => True) ⟨h,hs⟩ (Run.Meets.of_forall (fun _ _ => trivial) _ _)
  case hevent => exact fun c p hc _ => ⟨hc.1.eventStep env key p,hc.2.eventStep env hc.1 p⟩
  case hin =>
    intro c sid hc
    obtain he | ⟨st,st',new,hl,he,hn,_⟩ := pumpInboundAt_spec env.toEnv c sid
    · rw [he]
      exact hc
    · rw [he]
      exact ⟨hc.1.put new (fun call hm => (hn call hm).plain) hl st',hc.2.append new _ c.h3⟩
  case hout =>
    intro c sid hc
    unfold pumpOutboundAt
    split
    · exact hc
    · rename_i st hl
      obtain ⟨new,he,hn⟩ := pumpStream_plain env.toEnv sid c.quic st
      simp only [he]
      exact ⟨hc.1.put new hn hl _,hc.2.append new _ c.h3⟩
  case hreap =>
    intro c sid hc
    obtain he | ⟨_,new,_,_,_,he,hn,_⟩ := reapAt_spec env.toEnv c sid
    · rwa [he]
    · rw [he]
      exact ⟨(hc.1.remove sid).append new fun call hm => (hn call hm).plain,
        hc.2.append new _ c.h3⟩

/-- The state in which a pass finds the connection. -/
theorem Sole.polled {cfg : ServerCfg} {c : Conn} (env : ServerEnv) (h : c.Sole cfg) (key : Bytes) :
    ∀ c' ∈ polled env cfg c, c'.Sole cfg := by
  intro c' hp
  obtain ⟨new,h3,_,hn,⟨hnone,_⟩ | ⟨hsome,_⟩⟩ := service_spec env cfg key c
  · rw [hnone] at hp
    contradiction
  · rw [hsome] at hp
    cases hp
    exact { h.append new fun call hm => Call.plain_of_stream (hn call hm).1 with }

theorem Sole.service {cfg : ServerCfg} {c : Conn} (env : ServerEnv) (h : c.Sole cfg)
    (hs : c.spawned = []) (key : Bytes) :
    (service env cfg key c).Sole cfg ∧ (service env cfg key c).Starts key c.quic := by
  obtain ⟨new,h3,ok,hn,hcase⟩ := service_spec env cfg key c
  have hsole : Sole cfg { c with quic := new ++ c.quic, h3 } :=
    { h.append new fun call hm => Call.plain_of_stream (hn call hm).1 with }
  have hstarts : Starts key c.quic { c with quic := new ++ c.quic, h3 } :=
    ⟨by simp [hs],by simp [hs],by simp [hs],List.subset_append_right new c.quic⟩
  obtain ⟨_,he⟩ | ⟨_,he⟩ := hcase
  · rw [he]
    exact ⟨hsole.note trivial,hstarts.append [_] _ _⟩
  · rw [he]
    obtain ⟨hsole,hstarts⟩ := hsole.exchange env hstarts
    exact ⟨hsole.note trivial,hstarts.append [_] _ _⟩

end Conn

namespace Watched
open Listener

/-- The tunnels that were opened: the connection, and the stream on it. -/
def tunnels (w : Watched) : List (ℕ × ℕ) :=
  w.owners.zip (w.l.hub.bridges.map fun b => b.stream.streamId)

/-- The books are in order: keys, bridges and messages belong to the connections they are booked on,
and no connection has two tunnels on a stream. -/
structure Booked (cfg : ServerCfg) (w : Watched) : Prop where
  same : w.l.cfg = cfg
  conns : w.l.All fun _ c => c.Sole cfg ∧ c.spawned = []
  named : ∀ key, ∀ c ∈ w.l.conns.lookup key, w.keys[w.number key]? = some key
  owned : List.Forall₂ (fun n b => w.keys[n]? = some (Bridge.tag b).1) w.owners w.l.hub.bridges
  sent : List.Forall₂ (fun i m => ∃ b, w.l.hub.bridges[i]? = some b ∧ b.tag = (m.key,m.streamId))
    w.senders w.l.hub.egress
  entered : ∀ key, ∀ c ∈ w.l.conns.lookup key, ∀ sid, (w.number key,sid) ∈ w.tunnels →
    .tunnel sid ∈ c.quic
  distinct : w.tunnels.Nodup

namespace Booked
variable {env : ServerEnv} {cfg : ServerCfg} {w : Watched}

/-- Every bridge is booked. -/
theorem tunnels_length (h : w.Booked cfg) : w.tunnels.length = w.l.hub.bridges.length := by
  rw [tunnels, List.length_zip, List.length_map, h.owned.length_eq, min_self]

/-- The connection a tunnel is booked on has been opened. -/
theorem known (h : w.Booked cfg) {n sid : ℕ} (hm : (n,sid) ∈ w.tunnels) : n < w.keys.length := by
  rw [tunnels, List.zip_map_right] at hm
  obtain ⟨⟨n',b⟩,hz,he⟩ := List.mem_map.mp hm
  cases he
  exact (List.getElem?_eq_some_iff.mp (List.forall₂_zip h.owned hz)).1

theorem insert (h : w.Booked cfg) {key : Bytes} {c c' : Conn} (hl : w.l.conns.lookup key = some c)
    (hs : c'.Sole cfg ∧ c'.spawned = []) (hq : c.quic ⊆ c'.quic) :
    Booked cfg { w with l := { w.l with conns := w.l.conns.insert key c' } } where
  same := h.same
  conns := h.conns.insert hs w.l.hub
  named k c'' hk := by
    simp only [Assoc.lookup_insert] at hk
    split_ifs at hk with he
    · subst k
      exact h.named key c hl
    · exact h.named k c'' hk
  owned := h.owned
  sent := h.sent
  entered k c'' hk sid hm := by
    simp only [Assoc.lookup_insert] at hk
    split_ifs at hk with he
    · cases hk
      subst k
      exact hq (h.entered key c hl sid hm)
    · exact h.entered k c'' hk sid hm
  distinct := h.distinct

theorem note (h : w.Booked cfg) {key : Bytes} {c : Conn} (hl : w.l.conns.lookup key = some c)
    (call : Call) (hc : call.stream = none) :
    Booked cfg { w with l := { w.l with conns := w.l.conns.insert key (c.note call) } } := by
  obtain ⟨hs,hn⟩ := h.conns key c hl
  exact h.insert hl ⟨hs.note (Call.plain_of_stream hc),hn⟩ (List.subset_cons_self call c.quic)

theorem routePacket (h : w.Booked cfg) (peer : SocketAddr) (pkt draw : Bytes) :
    (w.routePacket env peer pkt draw).1.Booked cfg := by
  unfold Watched.routePacket
  obtain ⟨cached,ids,_,he,_⟩ | ⟨hdr,c,hf,hl,he⟩ | ⟨hdr,cached,hf,hl,_,_,he⟩ :=
    routePacket_spec env w.l peer pkt draw
  · have hno : ¬ w.l.Opens env peer pkt draw := fun ho => ho.2 (by rw [he])
    simp only [he, if_neg hno]
    exact ⟨h.same,h.conns,h.named,h.owned,h.sent,h.entered,h.distinct⟩
  · have hno : ¬ w.l.Opens env peer pkt draw := by
      rintro ⟨⟨hdr',hf',hl'⟩,_⟩
      cases hf.symm.trans hf'
      simp [hl] at hl'
    simp only [he, if_neg hno]
    have hn := h.note hl (.recv peer pkt) rfl
    exact ⟨hn.same,hn.conns,hn.named,hn.owned,hn.sent,hn.entered,hn.distinct⟩
  · have ho : w.l.Opens env peer pkt draw := ⟨⟨hdr,hf,hl⟩,by simp [he]⟩
    simp only [he, if_pos ho]
    have hmono : ∀ {n : ℕ} {k : Bytes}, w.keys[n]? = some k → (w.keys ++ [draw])[n]? = some k := by
      intro n k hn
      obtain ⟨hlt,_⟩ := List.getElem?_eq_some_iff.mp hn
      rwa [List.getElem?_append_left hlt]
    refine ⟨h.same,?_,?_,h.owned.imp fun _ _ => hmono,h.sent,?_,h.distinct⟩
    · exact h.conns.insert ⟨.opened (by simp [Call.Plain]),rfl⟩ w.l.hub
    · intro k c hk
      simp only [Assoc.lookup_insert] at hk
      by_cases he : k = draw
      · subst k
        simp
      · rw [if_neg he] at hk
        simp only [Function.update_of_ne he]
        exact hmono (h.named k c hk)
    · intro k c hk sid hm
      simp only [Assoc.lookup_insert] at hk
      by_cases he : k = draw
      · -- no bridge is booked on a connection that has just been opened
        subst k
        have hm : (w.keys.length,sid) ∈ w.tunnels := by simpa [tunnels] using hm
        have hlt := h.known hm
        exact absurd hlt (lt_irrefl _)
      · rw [if_neg he] at hk
        simp only [Function.update_of_ne he] at hm
        exact h.entered k c hk sid hm

theorem dequeue (h : w.Booked cfg) {m : Egress} {rest : List Egress} (he : w.l.hub.egress = m :: rest) :
    (w.dequeue m rest).Booked cfg := by
  have hsent : List.Forall₂ (fun i m => ∃ b, w.l.hub.bridges[i]? = some b ∧
      b.tag = (Egress.key m,m.streamId)) w.senders.tail rest := by
    have := h.sent
    rw [he, List.forall₂_cons_right_iff] at this
    obtain ⟨i,is,_,hs,he⟩ := this
    rw [he]
    exact hs
  have h' : Booked cfg { w with
      l := { w.l with hub := { w.l.hub with egress := rest } }, senders := w.senders.tail } :=
    ⟨h.same,h.conns,h.named,h.owned,hsent,h.entered,h.distinct⟩
  unfold Watched.dequeue Listener.queue
  cases hl : w.l.conns.lookup m.key with
  | none => exact h'
  | some c =>
    obtain ⟨hs,hn⟩ := h.conns m.key c hl
    refine h'.insert hl ⟨hs.queue m.streamId m.out,(c.queue_spawned _ _).trans hn⟩ ?_
    rw [c.queue_quic]
    exact List.Subset.refl _

theorem noteTimeout (h : w.Booked cfg) (key : Bytes) :
    Booked cfg { w with l := w.l.noteTimeout key } := by
  unfold Listener.noteTimeout
  cases hl : w.l.conns.lookup key with
  | none => exact h
  | some c => exact h.note hl .onTimeout rfl

theorem serviceAt (h : w.Booked cfg) (key : Bytes) : (w.serviceAt env key).Booked cfg := by
  obtain rfl := h.same
  unfold Watched.serviceAt Listener.serviceAt
  cases hl : w.l.conns.lookup key with
  | none => exact h
  | some c =>
    obtain ⟨hs,hn⟩ := h.conns key c hl
    obtain ⟨hsole,hstarts⟩ := hs.service env hn key
    simp only
    generalize Server.service env w.l.cfg key c = c' at hsole hstarts ⊢
    have hkey : w.keys[w.number key]? = some key := h.named key c hl
    have htunnels : ∀ (l : Listener) keys number senders,
        l.hub = w.l.hub.spawn (c'.spawned.map fun s => ⟨s,.dialing,[]⟩) →
        tunnels ⟨l,keys,number,w.owners ++ c'.spawned.map fun _ => w.number key,senders⟩ =
          w.tunnels ++ (c'.spawned.map QuicStream.streamId).map (Prod.mk (w.number key)) := by
      intro l keys number senders hhub
      rw [tunnels, hhub, Hub.spawn, List.map_append, List.zip_append, tunnels, List.map_map,
        List.map_map, List.zip_map']
      · rfl
      · rw [List.length_map]
        exact h.owned.length_eq
    have hsole' : Conn.Sole w.l.cfg { c' with spawned := [] } := { hsole with }
    refine ⟨h.same,h.conns.insert ⟨hsole',rfl⟩ _,?_,?_,?_,?_,?_⟩
    · intro k c'' hk
      simp only [Assoc.lookup_insert] at hk
      split_ifs at hk with he
      · subst k
        exact hkey
      · exact h.named k c'' hk
    · refine List.rel_append h.owned ?_
      rw [List.forall₂_map_left_iff, List.forall₂_map_right_iff, List.forall₂_same]
      intro s hs
      rw [Bridge.tag, hstarts.own s hs]
      exact hkey
    · refine h.sent.imp fun i m hm => hm.imp fun b hb => hb.imp_left fun hb => ?_
      rwa [Hub.spawn, List.getElem?_append_left (List.getElem?_eq_some_iff.mp hb).1]
    · intro k c'' hk sid hm
      rw [htunnels _ _ _ _ rfl, List.mem_append] at hm
      simp only [Assoc.lookup_insert] at hk
      split_ifs at hk with he
      · cases hk
        subst k
        obtain hm | hm := hm
        · exact hstarts.grows (h.entered key c hl sid hm)
        · simp only [List.map_map, List.mem_map, Function.comp, Prod.mk.injEq] at hm
          obtain ⟨s,hs,_,rfl⟩ := hm
          exact (hstarts.opened s hs).1
      · obtain hm | hm := hm
        · exact h.entered k c'' hk sid hm
        · -- a number belongs to one key
          simp only [List.map_map, List.mem_map, Function.comp, Prod.mk.injEq] at hm
          obtain ⟨_,_,hnum,_⟩ := hm
          have hk' := h.named k c'' hk
          rw [← hnum, hkey] at hk'
          exact absurd (Option.some.inj hk').symm he
    · rw [htunnels _ _ _ _ rfl, List.nodup_append]
      refine ⟨h.distinct,hstarts.distinct.map (Prod.mk_right_injective _),?_⟩
      intro p hp q hq he
      simp only [List.map_map, List.mem_map, Function.comp] at hq
      obtain ⟨s,hs,rfl⟩ := hq
      subst p
      exact (hstarts.opened s hs).2 (h.entered key c hl _ hp)

theorem act (h : w.Booked cfg) (i : ℕ) (a : BridgeAct) : (w.act i a).Booked cfg := by
  have hsame : (w.act i a).tunnels = w.tunnels := by
    have := congrArg (List.map Prod.snd) (w.l.hub.act_tags i a)
    rw [List.map_map, List.map_map] at this
    rw [tunnels, tunnels]
    exact congrArg _ this
  refine ⟨h.same,h.conns,h.named,?_,?_,?_,?_⟩
  · have howned := h.owned
    rw [← List.forall₂_map_right_iff (f := Bridge.tag) (R := fun n t => w.keys[n]? = some (Prod.fst t)),
      ← w.l.hub.act_tags i a, List.forall₂_map_right_iff] at howned
    exact howned
  · simp only [Watched.act]
    rw [Hub.act_egress]
    refine List.rel_append (h.sent.imp fun j m hm => w.l.hub.act_bridge i a hm) ?_
    rw [List.forall₂_map_left_iff, List.forall₂_same]
    intro m hm
    exact w.l.hub.act_bridge i a (w.l.hub.sent_tag i a (by simpa using hm))
  · rw [hsame]
    exact h.entered
  · rw [hsame]
    exact h.distinct

theorem retain (h : w.Booked cfg) : Booked cfg { w with l := w.l.retain env } := by
  have hl : ∀ key, ∀ c ∈ (w.l.retain env).conns.lookup key, c ∈ w.l.conns.lookup key := by
    intro key c hc
    rw [Listener.retain, Assoc.lookup_filter, Option.mem_filter_iff] at hc
    exact hc.1
  exact ⟨h.same,fun key c hc => h.conns key c (hl key c hc),fun key c hc => h.named key c (hl key c hc),
    h.owned,h.sent,fun key c hc => h.entered key c (hl key c hc),h.distinct⟩

theorem step (h : w.Booked cfg) (a : Act) : (w.step env a).Booked cfg := by
  apply step_induction h
  case hroute => exact fun peer pkt draw _ => h.routePacket peer pkt draw
  case hqueue => exact fun m rest he => h.dequeue he
  case htimeout => exact fun w key hw => hw.noteTimeout key
  case hservice => exact fun w key hw => hw.serviceAt key
  case hswap => exact fun _ _ => ⟨h.same,h.conns,h.named,h.owned,h.sent,h.entered,h.distinct⟩
  case hbridge => exact fun i b => h.act i b
  case hretain => exact fun w hw => hw.retain

theorem new (cfg : ServerCfg) (certs : CertSource) : (Watched.new cfg certs).Booked cfg := by
  refine ⟨rfl,?_,?_,List.Forall₂.nil,List.Forall₂.nil,?_,List.nodup_nil⟩
  all_goals
    intro _ _ hc
    cases hc

theorem run (env : ServerEnv) (cfg : ServerCfg) (certs : CertSource) (acts : List Act) :
    (Run.run (Watched.step env) (Watched.new cfg certs) acts).Booked cfg := by
  have hstep : ∀ (w : Watched) a, w.Booked cfg → (w.step env a).Booked cfg := fun w a hw => hw.step a
  exact Run.induction hstep acts (.new cfg certs)

end Booked
end Watched

namespace Server

/-- An event leaves the entry of a tunnel as it is, marks it readable, or resets its stream. -/
def KeepsEntries (env : ServerEnv) (l : Listener) (key : Bytes) (c : Conn) (p : ℕ × H3Event) : Prop :=
  let c' := eventStep (handleEvent env l.cfg key) c p
  ∀ sid st, c.streams.lookup sid = some st → c'.streams.lookup sid = some st ∨
    c'.streams.lookup sid = some st.markReadable ∨
    c'.streams.lookup sid = none ∧ p.1 = sid ∧ ∃ code, p.2 = .reset code

theorem keepsEntries (env : ServerEnv) {l : Listener} {c : Conn} (h : c.Sole l.cfg) (key : Bytes)
    (p : ℕ × H3Event) : KeepsEntries env l key c p := by
  obtain ⟨sid,e⟩ := p
  intro k st hl
  have hn : Conn.Sole l.cfg (c.note (.poll sid e)) := h.note trivial
  have hl : (c.note (.poll sid e)).streams.lookup k = some st := hl
  unfold eventStep
  obtain ⟨new,_,he⟩ | he | ⟨hr,he⟩ | ⟨resp,ha,he⟩ :=
    handleEvent_spec env l.cfg key (c.note (.poll sid e)) sid e
  · rw [he]
    exact Or.inl hl
  · rw [he, Conn.markReadable]
    cases hs : (c.note (.poll sid e)).streams.lookup sid with
    | none => exact Or.inl hl
    | some st' =>
      by_cases hk : k = sid
      · subst k
        cases hl.symm.trans hs
        exact Or.inr (Or.inl (by simp))
      · exact Or.inl (by simpa [hk] using hl)
  · rw [he]
    by_cases hk : k = sid
    · exact Or.inr (Or.inr ⟨by simp [hk],hk.symm,hr⟩)
    · exact Or.inl (by simpa [hk] using hl)
  · rw [he]
    have hk : k ≠ sid := by
      rintro rfl
      exact hn.not_tunnel env.toEnv ha (hn.live k (by simp [hl]))
    left
    rw [← hl]
    simp [Conn.enter, hk]
    rfl

end Server

/-- However the events come, a stream of a server connection gets at most one bridge, a live entry is
never replaced, and what has been accepted as a tunnel gets no other answer and no page. -/
theorem one_tunnel (env : ServerEnv) (cfg : ServerCfg) (certs : CertSource)
    (acts : List Listener.Act) :
    Run.Meets (Listener.step env) (Listener.Serves env (Server.KeepsEntries env))
        (Listener.new cfg certs) acts ∧
      let w := Run.run (Watched.step env) (Watched.new cfg certs) acts
      w.l = Run.run (Listener.step env) (Listener.new cfg certs) acts ∧
        w.tunnels.length = w.l.hub.bridges.length ∧ w.tunnels.Nodup ∧
        ∀ key, ∀ c ∈ w.l.conns.lookup key, ∀ sid, .tunnel sid ∈ c.quic →
          (∀ hs fin, .sendResponse sid hs fin true ∈ c.quic → hs = Server.okHeaders cfg) ∧
            ∀ a, .sendBody sid FAKE_404_BODY true a ∉ c.quic := by
  constructor
  · refine (Listener.All.run (P := fun _ c => c.Sole cfg ∧ c.spawned = []) certs ?_ ?_ ?_ ?_ ?_ acts).1
    case refine_1 => exact fun key peer odcid => ⟨.opened (by simp [Call.Plain]),rfl⟩
    case refine_2 =>
      intro key c call hc hs
      exact ⟨hc.1.note (Call.plain_of_stream hs),hc.2⟩
    case refine_3 => exact fun key c sid out hc => ⟨hc.1.queue sid out,(c.queue_spawned sid out).trans hc.2⟩
    case refine_4 => exact fun key c hc => ⟨{ (hc.1.service env hc.2 key).1 with },rfl⟩
    case refine_5 =>
      rintro l key c rfl hc c' hp
      have hc' : c'.Sole l.cfg := hc.1.polled env key c' hp
      exact Run.Meets.imp (fun c p hc _ => hc.eventStep env key p)
        (fun c p hc _ => Server.keepsEntries env hc key p) hc'
        (Run.Meets.of_forall (fun _ _ => trivial) _ _)
  · intro w
    have h : w.Booked cfg := Watched.Booked.run env cfg certs acts
    refine ⟨Watched.run_l env acts _,h.tunnels_length,h.distinct,?_⟩
    intro key c hc sid ht
    have hs := (h.conns key c hc).1
    exact ⟨hs.answer sid ht,fun a ha => (hs.page sid a ha).1 ht⟩

end EchTunnel
