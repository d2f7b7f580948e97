import EchTunnel.H3.OneTunnel

/-! A connection that did not use ECH gets no HTTP/3 from a server that insists on it. -/
namespace EchTunnel
open Wire

namespace Conn

/-- At some point the handshake had come far enough to be checked, and ECH had been accepted. -/
def Cleared (env : Env) (c : Conn) : Prop :=
  ∃ u t : Trace, c.quic = u ++ t ∧ (env.isEstablished t ∨ env.isInEarlyData t) ∧
    env.echAccepted t = true

/-- HTTP/3 has not begun. -/
def Untouched (c : Conn) : Prop :=
  c.h3 = false ∧ c.streams = ∅ ∧ ∀ call ∈ c.quic, call.stream = none

variable {env : Env} {c : Conn}

theorem Cleared.extend (h : c.Cleared env) {c' : Conn} (new : Trace) (hq : c'.quic = new ++ c.quic) :
    c'.Cleared env := by
  obtain ⟨u,t,ht,he⟩ := h
  exact ⟨new ++ u,t,by rw [hq, ht, List.append_assoc],he⟩

theorem Untouched.note (h : c.Untouched) (call : Call) (hc : call.stream = none) :
    (c.note call).Untouched :=
  ⟨h.1,h.2.1,by simpa [hc] using h.2.2⟩

end Conn

namespace Server
open Conn

theorem handleEvent_quic (env : ServerEnv) (cfg : ServerCfg) (key : Bytes) (c : Conn) (sid : ℕ)
    (e : H3Event) : c.quic <:+ (handleEvent env cfg key c sid e).quic := by
  obtain ⟨new,_,he⟩ | he | ⟨_,he⟩ | ⟨resp,_,he⟩ := handleEvent_spec env cfg key c sid e
  · exact ⟨new,by rw [he]⟩
  · exact ⟨[],by rw [he, markReadable_quic]; rfl⟩
  · exact ⟨[],by rw [he]; rfl⟩
  · exact ⟨[.tunnel sid,.sendResponse sid resp false true],by rw [he]; rfl⟩

variable {env : ServerEnv} {cfg : ServerCfg} {c : Conn}

theorem cleared_service (h : c.Cleared env.toEnv) (key : Bytes) :
    (service env cfg key c).Cleared env.toEnv := by
  obtain ⟨new,h3,ok,_,⟨_,he⟩ | ⟨_,he⟩⟩ := service_spec env cfg key c
  · rw [he]
    exact h.extend (.flushPackets ok :: new) rfl
  · rw [he]
    have hc : Cleared env.toEnv { c with quic := new ++ c.quic, h3 } := h.extend new rfl
    obtain ⟨t,ht⟩ := exchange_quic env.toEnv (handleEvent_quic env cfg key) { c with quic := new ++ c.quic, h3 }
    exact (hc.extend t ht.symm).extend [.flushPackets ok] rfl

/-- The check: HTTP/3 begins only where ECH was accepted. -/
theorem guarded_service (hech : cfg.ech ≠ none) (hreject : cfg.rejectNonEch = true) (h : c.Untouched)
    (key : Bytes) :
    (service env cfg key c).Cleared env.toEnv ∨ (service env cfg key c).Untouched := by
  by_cases hup : env.isEstablished c.quic ∨ env.isInEarlyData c.quic
  · cases ha : env.echAccepted c.quic with
    | true => exact Or.inl (cleared_service ⟨[],c.quic,rfl,hup,ha⟩ key)
    | false =>
      have hok : echOk env cfg c = false := by
        simp [echOk, ha, hreject, Option.isNone_eq_false_iff, Option.isSome_iff_ne_none, hech]
      right
      rw [service, if_pos ⟨h.1,hup⟩, if_neg (by simp [hok])]
      exact (h.note (.close false 0x0) rfl).note _ rfl
  · right
    rw [service, if_neg fun hb => hup hb.2, serve, if_neg (by simp [h.1])]
    exact h.note _ rfl

end Server

/-- Where ECH is configured and required, a connection whose handshake did not have it accepted has no
HTTP/3 layer, has had no request, and has no tunnel. `SSL_ech_accepted` does not change once the
handshake is up. -/
theorem ech_enforced (env : ServerEnv) (cfg : ServerCfg) (certs : CertSource)
    (acts : List Listener.Act) (hech : cfg.ech ≠ none) (hreject : cfg.rejectNonEch = true)
    (hconst : ∀ t u : Trace, (env.isEstablished t ∨ env.isInEarlyData t) →
      env.echAccepted (u ++ t) = env.echAccepted t) :
    let w := Run.run (Watched.step env) (Watched.new cfg certs) acts
    w.l = Run.run (Listener.step env) (Listener.new cfg certs) acts ∧
      w.tunnels.length = w.l.hub.bridges.length ∧
      ∀ key, ∀ c ∈ w.l.conns.lookup key, env.echAccepted c.quic = false →
        c.h3 = false ∧ c.streams = ∅ ∧ (∀ call ∈ c.quic, call.stream = none) ∧
          ∀ p ∈ w.tunnels, p.1 ≠ w.number key := by
  intro w
  have hw : w.l = Run.run (Listener.step env) (Listener.new cfg certs) acts := Watched.run_l env acts _
  have hbooked : w.Booked cfg := Watched.Booked.run env cfg certs acts
  refine ⟨hw,hbooked.tunnels_length,fun key c hc ha => ?_⟩
  have hall : w.l.All fun _ c => c.Cleared env.toEnv ∨ c.Untouched := by
    rw [hw]
    refine (Listener.All.run (C := fun _ _ _ _ => True) certs ?_ ?_ ?_ ?_ ?_ acts).2
    case refine_1 => exact fun key peer odcid => Or.inr ⟨rfl,rfl,by simp [Call.stream]⟩
    case refine_2 =>
      intro key c call hc hs
      exact hc.imp (fun h => h.extend [call] rfl) fun h => h.note call hs
    case refine_3 =>
      intro key c sid out hc
      refine hc.imp (fun h => h.extend [] (c.queue_quic sid out)) fun h => ?_
      rw [Conn.queue, h.2.1]
      exact h
    case refine_4 =>
      rintro key c (hc | hc)
      · exact Or.inl (Server.cleared_service hc key)
      · exact Server.guarded_service hech hreject hc key
    case refine_5 => exact fun _ _ _ _ _ _ _ => Run.Meets.of_forall (fun _ _ => trivial) _ _
  obtain ⟨u,t,ht,hup,hacc⟩ | ⟨hh,hs,hcalls⟩ := hall key c hc
  · rw [ht, hconst t u hup, hacc] at ha
    contradiction
  · refine ⟨hh,hs,hcalls,?_⟩
    rintro ⟨n,sid⟩ hp rfl
    exact absurd (hcalls _ (hbooked.entered key c hc sid hp)) (by simp [Call.stream])

def ServerCfg.strict : ServerCfg :=
  { Listener.fresh.cfg with ech := some ⟨"example.com","ech.key"⟩, rejectNonEch := true }

/-- A connection with ECH and one without, and both are serviced again. -/
theorem ech_enforced_choosy :
    let w := Run.run (Watched.step ServerEnv.choosy) (Watched.new .strict (.new "" ""))
      [.datagram ⟨[127,0,0,1],40000⟩ [1] [2],.datagram ⟨[127,0,0,1],40001⟩ [3] [4],
        .timeout [[2],[4]],.timeout [[4],[2]]]
    w.l = Run.run (Listener.step ServerEnv.choosy) (Listener.new .strict (.new "" ""))
        [.datagram ⟨[127,0,0,1],40000⟩ [1] [2],.datagram ⟨[127,0,0,1],40001⟩ [3] [4],
          .timeout [[2],[4]],.timeout [[4],[2]]] ∧
      w.tunnels.length = w.l.hub.bridges.length ∧ ∀ key, ∀ c ∈ w.l.conns.lookup key,
        ServerEnv.choosy.echAccepted c.quic = false →
          c.h3 = false ∧ c.streams = ∅ ∧ (∀ call ∈ c.quic, call.stream = none) ∧
            ∀ p ∈ w.tunnels, p.1 ≠ w.number key := by
  refine ech_enforced ServerEnv.choosy _ _ _ (by decide) rfl ?_
  rintro t u (ht | ht)
  · have hne : t ≠ [] := by simpa [ServerEnv.choosy] using ht
    simp only [ServerEnv.choosy, List.getLast?_append_of_ne_nil u hne]
  · contradiction

end EchTunnel
