import EchTunnel.H3.Client
import EchTunnel.H3.Server
import EchTunnel.Quic.Egress

/-! Both directions of a tunnel's stream are ended when its state leaves the map. -/
namespace EchTunnel
open Wire

/-- The fin flag of an entry is backed by a call, and a tunnel without an entry is ended. -/
def EndedAt (t : Trace) (entry : Option StreamState) (sid : ℕ) : Prop :=
  match entry with
  | some st => st.finSent → t.WriteEnded sid
  | none => .tunnel sid ∈ t → t.WriteEnded sid ∧ t.ReadEnded sid

theorem EndedAt.append {t : Trace} {entry : Option StreamState} {sid : ℕ} (h : EndedAt t entry sid)
    (new : Trace) (hn : .tunnel sid ∉ new) : EndedAt (new ++ t) entry sid := by
  cases entry with
  | some st => exact fun hf => (h hf).mono (List.subset_append_right new t)
  | none =>
    intro ht
    obtain ⟨hw,hr⟩ := h ((List.mem_append.mp ht).resolve_left hn)
    exact ⟨hw.mono (List.subset_append_right new t),hr.mono (List.subset_append_right new t)⟩

namespace Conn

/-- No stream of the connection is half-open. -/
def Tidy (c : Conn) : Prop := ∀ sid, EndedAt c.quic (c.streams.lookup sid) sid

/-- No tunnel is left on the stream that still owes its fin. -/
def FinOut (c : Conn) (sid : ℕ) : Prop := ∀ st ∈ c.streams.lookup sid, st.finSent = true

instance (c : Conn) (sid : ℕ) : Decidable (c.FinOut sid) := inferInstanceAs (Decidable (∀ _ ∈ _, _))

variable {c : Conn} {sid : ℕ} {st st' : StreamState}

theorem Tidy.append (h : c.Tidy) (new : Trace) (hn : ∀ k, .tunnel k ∉ new) :
    Tidy { c with quic := new ++ c.quic } := fun k => (h k).append new (hn k)

theorem Tidy.put (h : c.Tidy) (new : Trace) (hl : c.streams.lookup sid = some st) (hn : ∀ k, .tunnel k ∉ new)
    (hf : st'.finSent → st.finSent ∨ new.WriteEnded sid) : (c.put sid (new ++ c.quic) st').Tidy := by
  intro k
  rw [put_quic, put_lookup]
  split_ifs with hk
  · subst k
    intro hs
    have hsid := h sid
    rw [hl] at hsid
    obtain hs | hs := hf hs
    · exact (hsid hs).mono (List.subset_append_right new c.quic)
    · exact hs.mono (List.subset_append_left new c.quic)
  · exact (h k).append new (hn k)

theorem Tidy.enter (h : c.Tidy) (sid : ℕ) : (c.enter sid).Tidy := by
  intro k
  rw [Conn.enter, put_quic, put_lookup]
  split_ifs with hk
  · exact fun hs => by simp [StreamState.tunnel] at hs
  · exact (h k).append [.tunnel sid] (by simpa using hk)

theorem Tidy.remove (h : c.Tidy)
    (he : .tunnel sid ∈ c.quic → c.quic.WriteEnded sid ∧ c.quic.ReadEnded sid) :
    (c.remove sid).Tidy := by
  intro k
  rw [remove_quic, remove_lookup]
  split_ifs with hk
  · subst k
    exact he
  · exact h k

/-- With the fin out, only the read side has to be ended. -/
theorem Tidy.drop (h : c.Tidy) (hf : c.FinOut sid) (hr : c.quic.ReadEnded sid) :
    (c.remove sid).Tidy := by
  refine h.remove fun ht => ⟨?_,hr⟩
  have hsid := h sid
  cases hl : c.streams.lookup sid with
  | none =>
    rw [hl] at hsid
    exact (hsid ht).1
  | some st =>
    rw [hl] at hsid
    exact hsid (hf st hl)

theorem Tidy.markReadable (h : c.Tidy) (sid : ℕ) : (c.markReadable sid).Tidy := by
  unfold Conn.markReadable
  cases hl : c.streams.lookup sid with
  | none => exact h
  | some st => exact h.put [] hl (by simp) (fun hs => Or.inl hs)

theorem Tidy.queue (h : c.Tidy) (sid : ℕ) (out : StreamOut) : (c.queue sid out).Tidy := by
  unfold Conn.queue
  cases hl : c.streams.lookup sid with
  | none => exact h
  | some st =>
    refine h.put [] hl (by simp) fun hs => Or.inl ?_
    cases out <;> exact hs

end Conn

variable {env : Env} {c : Conn}

theorem Conn.Tidy.reapAt (h : c.Tidy) (sid : ℕ) : (reapAt env c sid).Tidy := by
  obtain he | ⟨st,new,hl,_,_,he,hn,hw,hr⟩ := reapAt_spec env c sid
  · rwa [he]
  · rw [he]
    have hc : Tidy { c with quic := new ++ c.quic } := by
      apply h.append new
      intro k hk
      exact absurd (hn _ hk) (by simp [Call.Reaping])
    refine hc.remove fun _ => ⟨?_,hr.mono (List.subset_append_left new c.quic)⟩
    -- the write side is shut down unless the fin is out
    cases hs : st.finSent with
    | true =>
      have hsid := h sid
      rw [hl] at hsid
      exact (hsid hs).mono (List.subset_append_right new c.quic)
    | false => exact ⟨_,List.mem_append_left _ (hw.mpr hs),rfl⟩

/-- Every pass of the loop leaves the connection tidy if every event it handles does. -/
theorem Conn.Tidy.exchange (h : c.Tidy) {C : Conn → ℕ × H3Event → Prop}
    {handle : Conn → ℕ → H3Event → Conn}
    (hmeets : Run.Meets (eventStep handle) C c (env.polls c.quic))
    (hevent : ∀ c p, c.Tidy → C c p → (eventStep handle c p).Tidy) :
    (exchange env handle c).Tidy := by
  refine exchange_induction env h hmeets hevent ?_ ?_ ?_
  · intro c sid hc
    obtain he | ⟨st,st',new,hl,he,hn,hs⟩ := pumpInboundAt_spec env c sid
    · rwa [he]
    · rw [he]
      refine hc.put new hl (fun k hk => absurd (hn _ hk) (by simp [Call.Inbound])) fun hf => Or.inl ?_
      rwa [← hs.2.2.1]
  · intro c sid hc
    obtain he | ⟨st,st',new,hl,he,hn,_,_,hf,_⟩ := pumpOutboundAt_spec env c sid
    · rwa [he]
    · rw [he]
      exact hc.put new hl (fun k hk => absurd (hn _ hk) (by simp [Call.Outbound])) hf
  · exact fun c sid hc => hc.reapAt sid

namespace Server

/-- A reset hits no tunnel that still owes its fin. -/
def DropsEnded (c : Conn) (p : ℕ × H3Event) : Prop := (∃ code, p.2 = .reset code) → c.FinOut p.1

instance (c : Conn) : (p : ℕ × H3Event) → Decidable (DropsEnded c p)
  | (sid,.reset code) => decidable_of_iff (c.FinOut sid) ⟨fun h _ => h,fun h => h ⟨code,rfl⟩⟩
  | (_,.headers _) | (_,.data) | (_,.finished) | (_,.priorityUpdate) | (_,.goAway) =>
    isTrue (by simp [DropsEnded])

theorem tidy_eventStep (env : ServerEnv) (cfg : ServerCfg) (key : Bytes) (c : Conn) (p : ℕ × H3Event)
    (h : c.Tidy) (hp : DropsEnded c p) : (eventStep (handleEvent env cfg key) c p).Tidy := by
  obtain ⟨sid,e⟩ := p
  have hc : (c.note (.poll sid e)).Tidy := h.append [.poll sid e] (by simp)
  obtain ⟨new,hn,he⟩ | he | ⟨⟨code,hr⟩,he⟩ | ⟨resp,_,he⟩ :=
    handleEvent_spec env cfg key (c.note (.poll sid e)) sid e
  · rw [eventStep, he]
    apply hc.append new
    intro k hk
    obtain ⟨hs,ht⟩ := hn _ hk
    cases hs
    exact ht rfl
  · rw [eventStep, he]
    exact hc.markReadable sid
  · rw [eventStep, he]
    exact hc.drop (hp ⟨code,hr⟩) ⟨.poll sid e,by simp,by simp [hr, Call.EndsRead]⟩
  · rw [eventStep, he]
    have hs : ((c.note (.poll sid e)).note (.sendResponse sid resp false true)).Tidy :=
      hc.append [.sendResponse sid resp false true] (by simp)
    exact hs.enter sid

theorem tidy_service (env : ServerEnv) (cfg : ServerCfg) (key : Bytes) {c : Conn} (h : c.Tidy)
    (hs : ∀ c' ∈ polled env cfg c,
      Run.Meets (eventStep (handleEvent env cfg key)) DropsEnded c' (env.polls c'.quic)) :
    (service env cfg key c).Tidy := by
  obtain ⟨new,h3,ok,hn,hcase⟩ := service_spec env cfg key c
  have hc : Conn.Tidy { c with quic := new ++ c.quic, h3 } :=
    h.append new fun k hk => absurd (hn _ hk).1 (by simp [Call.stream])
  obtain ⟨_,he⟩ | ⟨hp,he⟩ := hcase
  · rw [he]
    exact hc.append [.flushPackets ok] (by simp)
  · rw [he]
    have hx := hc.exchange (hs _ hp) (tidy_eventStep env cfg key)
    exact hx.append [.flushPackets ok] (by simp)

end Server

namespace Client

/-- No reset and no refusal hits a tunnel that still owes its fin. -/
def DropsEnded (c : Conn) (p : ℕ × H3Event) : Prop := Drops p.2 → c.FinOut p.1

instance (c : Conn) (p : ℕ × H3Event) : Decidable (DropsEnded c p) :=
  inferInstanceAs (Decidable (_ → _))

theorem tidy_eventStep (c : Conn) (p : ℕ × H3Event) (h : c.Tidy) (hp : DropsEnded c p) :
    (eventStep handleEvent c p).Tidy := by
  obtain ⟨sid,e⟩ := p
  have hc : (c.note (.poll sid e)).Tidy := h.append [.poll sid e] (by simp)
  obtain he | he | ⟨⟨code,hr⟩,he⟩ | ⟨hr,he⟩ := handleEvent_spec (c.note (.poll sid e)) sid e
  · rwa [eventStep, he]
  · rw [eventStep, he]
    exact hc.markReadable sid
  · rw [eventStep, he]
    exact hc.drop (hp (Or.inl ⟨code,hr⟩)) ⟨.poll sid e,by simp,by simp [hr, Call.EndsRead]⟩
  · rw [eventStep, he]
    have hs : ((c.note (.poll sid e)).note (.streamShutdown sid .read)).Tidy :=
      hc.append [.streamShutdown sid .read] (by simp)
    exact hs.drop (hp (Or.inr hr)) ⟨.streamShutdown sid .read,by simp,rfl⟩

/-- A request whose requester is gone leaves both directions shut down. -/
theorem tidy_openStream (env : Env) (cfg : ClientCfg) {c : Conn} (req : OpenReq) (h : c.Tidy) :
    (openStream env cfg c req).1.Tidy := by
  obtain ⟨call,hcall,he⟩ | ⟨sid,hs,_,he⟩ := openStream_spec env cfg c req
  · rw [he]
    apply h.append [call]
    intro k hk
    rw [List.mem_singleton] at hk
    simp [← hk, Call.stream] at hcall
  · have hc : ((c.note (.sendRequest hs false (.ok sid))).enter sid).Tidy :=
      Conn.Tidy.enter (h.append [.sendRequest hs false (.ok sid)] (by simp)) sid
    obtain he | he := he
    · rw [he]
      have hn := hc.append [.streamShutdown sid .read,.streamShutdown sid .write] (by simp)
      exact hn.remove fun _ => ⟨⟨.streamShutdown sid .write,by simp,rfl⟩,
        .streamShutdown sid .read,by simp,rfl⟩
    · rw [he]
      exact hc

end Client
namespace Listener

/-- No connection has a half-open stream. -/
def Tidy (l : Listener) : Prop := ∀ key, ∀ c ∈ l.conns.lookup key, c.Tidy

variable {env : ServerEnv} {l : Listener}

theorem Tidy.step (h : l.Tidy) (a : Act)
    (hs : l.Serves env (fun _ _ => Server.DropsEnded) a) : (l.step env a).Tidy := by
  refine (All.step (P := fun _ => Conn.Tidy) rfl h ?_ ?_ ?_ hs ?_).2
  · exact fun key peer odcid sid ht => absurd ht (by simp)
  · intro key c call hc hcall
    apply hc.append [call]
    intro k hk
    rw [List.mem_singleton] at hk
    simp [← hk, Call.stream] at hcall
  · exact fun key c sid out hc => hc.queue sid out
  · exact fun l' key c hc hmeets => Server.tidy_service env l.cfg key hc hmeets

end Listener

namespace Session

/-- While the session runs, its connection has no half-open stream. -/
def Tidy (s : Session) : Prop := s.running = true → s.conn.Tidy

variable {env : Env} {s : Session}

theorem Tidy.servePending (h : s.Tidy) : (s.servePending env).Tidy := by
  unfold Session.servePending
  split
  · exact h
  · rename_i req _
    split
    · exact fun hr => Client.tidy_openStream env s.cfg req (h hr)
    · exact h

theorem Tidy.step (h : s.Tidy) (a : Act) (hs : s.Serves env (fun _ => Client.DropsEnded) a) :
    (s.step env a).Tidy := by
  apply step_induction h hs
  case hnote =>
    intro call hcall hr
    apply (h hr).append [call]
    intro k hk
    rw [List.mem_singleton] at hk
    simp [← hk, Call.stream] at hcall
  case hopen => exact fun _ => h
  case hqueue => exact fun m rest _ _ hr => (h hr).queue m.streamId m.out
  case hservice =>
    intro s' hr h' hc
    have hx := (h' hr).exchange hc Client.tidy_eventStep
    have hf : Conn.Tidy (flushPackets env (exchange env Client.handleEvent s'.conn)).1 :=
      hx.append [.flushPackets _] (by simp)
    unfold Session.service
    simp only
    split
    · exact servePending fun _ => hf
    · exact fun hr => by simp [finish] at hr
  case hfinish => exact fun hr => by simp [finish] at hr
  case hbridge => exact fun _ _ _ => h

end Session

/-- A tunnel whose state has left the map of an open connection has both directions of its stream
ended, provided no reset and, on the client, no refusal hits a tunnel that still owes its fin. -/
theorem no_half_open (env : ServerEnv) (cfg : ServerCfg) (certs : CertSource)
    (acts : List Listener.Act)
    (hl : Run.Meets (Listener.step env) (Listener.Serves env fun _ _ => Server.DropsEnded)
      (Listener.new cfg certs) acts)
    (env' : Env) (cfg' : ClientCfg) (peer : SocketAddr) (scid : Bytes) (first : OpenReq)
    (acts' : List Session.Act)
    (hs : Run.Meets (Session.step env') (Session.Serves env' fun _ => Client.DropsEnded)
      (Session.start env' cfg' peer scid first) acts') :
    (∀ key, ∀ c ∈ (Run.run (Listener.step env) (Listener.new cfg certs) acts).conns.lookup key,
      ∀ sid, .tunnel sid ∈ c.quic → c.streams.lookup sid = none →
        c.quic.WriteEnded sid ∧ c.quic.ReadEnded sid) ∧
    let s := Run.run (Session.step env') (Session.start env' cfg' peer scid first) acts'
    s.running = true → ∀ sid, .tunnel sid ∈ s.conn.quic → s.conn.streams.lookup sid = none →
      s.conn.quic.WriteEnded sid ∧ s.conn.quic.ReadEnded sid := by
  constructor
  · intro key c hc sid ht hn
    have h₀ : (Listener.new cfg certs).Tidy := fun _ _ hk => by cases hk
    have h := hl.induction (fun l a hl hs => hl.step a hs) h₀
    have hsid := h key c hc sid
    rw [hn] at hsid
    exact hsid ht
  · intro s hr sid ht hn
    have h₀ : (Session.start env' cfg' peer scid first).Tidy :=
      Session.Tidy.servePending fun _ k hk => absurd hk (by simp)
    have h := hs.induction (fun s a hs hc => hs.step a hc) h₀
    have hsid := h hr sid
    rw [hn] at hsid
    exact hsid ht

/-- A tunnel on either side whose bridge ends at once: its state is reaped. -/
def endedAtOnce : List BridgeAct := [.dialed false,.finish,.close .ready]

theorem no_half_open_reaped :
    (∀ key, ∀ c ∈ (Run.run (Listener.step ServerEnv.dialed) Listener.fresh
        (.datagram ⟨[127,0,0,1],40000⟩ [1] [2] :: endedAtOnce.map (.bridge 0) ++
          [.egress])).conns.lookup key,
      ∀ sid, .tunnel sid ∈ c.quic → c.streams.lookup sid = none →
        c.quic.WriteEnded sid ∧ c.quic.ReadEnded sid) ∧
    let s := Run.run (Session.step Env.dialer) (Session.dialed Env.dialer)
      (endedAtOnce.map (.bridge 0) ++ [.egress])
    s.running = true → ∀ sid, .tunnel sid ∈ s.conn.quic → s.conn.streams.lookup sid = none →
      s.conn.quic.WriteEnded sid ∧ s.conn.quic.ReadEnded sid :=
  no_half_open ServerEnv.dialed _ _ _ (by decide) Env.dialer _ _ _ _ _ (by decide)

/-- A reset takes the tunnel out of the map, and nobody ends the write side. -/
theorem half_open_after_reset :
    ¬ ∀ (env : Env) (cfg : ClientCfg) (peer : SocketAddr) (scid : Bytes) (first : OpenReq)
      (acts : List Session.Act),
      (Run.run (Session.step env) (Session.start env cfg peer scid first) acts).running = true →
        ∀ sid, let c := (Run.run (Session.step env) (Session.start env cfg peer scid first) acts).conn
          .tunnel sid ∈ c.quic → c.streams.lookup sid = none →
            c.quic.WriteEnded sid ∧ c.quic.ReadEnded sid := by
  intro h
  have hw := h Env.rebuffed .plain ⟨[127,0,0,1],443⟩ [] 0 [.packet [1]] (by decide) 0 (by decide)
    (by decide)
  exact absurd hw.1 (by decide)

end EchTunnel
