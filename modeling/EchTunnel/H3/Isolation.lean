import EchTunnel.H3.OneTunnel

/-! No message of one connection reaches a tunnel of another, on the server as on the client. -/
namespace EchTunnel
open Wire

namespace Watched
open Listener

variable (env : ServerEnv)

/-- A connection is opened under an id that no earlier one was opened under. -/
def Unrepeated (w : Watched) : Act → Prop
  | .datagram peer pkt draw => w.l.Opens env peer pkt draw → draw ∉ w.keys
  | _ => True

instance (w : Watched) : (a : Act) → Decidable (w.Unrepeated env a)
  | .datagram .. => inferInstanceAs (Decidable (_ → _))
  | .recvError | .egress | .readCredit _ | .timeout _ | .swap .. | .bridge .. => isTrue trivial

/-- A message for a connection that is in the map is one of a bridge of that very connection. -/
def Delivers (w : Watched) (a : Act) : Prop :=
  a = .egress → ∀ m ∈ w.l.hub.egress.head?, ∀ c ∈ w.l.conns.lookup m.key,
    ∃ i ∈ w.senders.head?, w.owners[i]? = some (w.number m.key)

variable {env} {w : Watched}

theorem nodup_step (h : w.keys.Nodup) {a : Act} (ha : w.Unrepeated env a) :
    (w.step env a).keys.Nodup := by
  apply step_induction (P := fun w => w.keys.Nodup) h
  case hroute =>
    rintro peer pkt draw rfl
    unfold Watched.routePacket
    split_ifs with ho
    · rw [List.nodup_append]
      refine ⟨h,List.nodup_singleton draw,?_⟩
      rintro k hk k' hk' rfl
      rw [List.mem_singleton] at hk'
      exact ha ho (hk' ▸ hk)
    · exact h
  case hservice =>
    intro w key hw
    unfold Watched.serviceAt
    split <;> exact hw
  all_goals intros; assumption

theorem Booked.delivers {cfg : ServerCfg} (h : w.Booked cfg) (hk : w.keys.Nodup) (a : Act) :
    w.Delivers a := by
  rintro - m hm c hc
  obtain ⟨rest,he⟩ := List.head?_eq_some_iff.mp hm
  have hsent := h.sent
  rw [he, List.forall₂_cons_right_iff] at hsent
  obtain ⟨i,is,⟨b,hb,ht⟩,_,hs⟩ := hsent
  refine ⟨i,by simp [hs],?_⟩
  obtain ⟨hi,hget⟩ := List.getElem?_eq_some_iff.mp hb
  have hn : i < w.owners.length := by rwa [h.owned.length_eq]
  have howner := h.owned.get hn hi
  simp only [List.get_eq_getElem, hget, ht] at howner
  rw [List.getElem?_eq_getElem hn]
  -- the owner and the connection in the map have the same key
  obtain ⟨hlt,_⟩ := List.getElem?_eq_some_iff.mp howner
  exact congrArg some ((List.getElem?_inj hlt hk).mp (howner.trans (h.named m.key c hc).symm))

end Watched

/-- A session and the answers its surroundings give. -/
structure ClientSession where
  env : Env
  s : Session

/-- The sessions that `manager` has run, one after another; the bridges of those that are over may
still be at work. `senders` tells for each message in a session's channel whose bridge put it there. -/
structure Manager where
  cfg : ClientCfg
  sessions : List ClientSession
  senders : List (List (ℕ × ℕ))

namespace Manager

def new (cfg : ClientCfg) : Manager := ⟨cfg,[],[]⟩

/-- `manager` comes by a request while no session runs, and one comes up; or something happens in
a session. -/
inductive Act
  | dial (env : Env) (peer : SocketAddr) (scid : Bytes) (first : OpenReq)
  | session (n : ℕ) (a : Session.Act)

/-- What a step of the `n`-th session does to the senders of the messages in its channel. -/
def relabel (n : ℕ) (s s' : Session) (q : List (ℕ × ℕ)) : Session.Act → List (ℕ × ℕ)
  | .bridge i a => q ++ (s.hub.sent i a).toList.map fun _ => (n,i)
  | .egress => if s'.running then q.tail else []
  | _ => if s'.running then q else []

def step (m : Manager) : Act → Manager
  | .dial env peer scid first =>
    if ∀ c ∈ m.sessions, c.s.running = false then
      { m with
        sessions := m.sessions ++ [⟨env,.start env m.cfg peer scid first⟩]
        senders := m.senders ++ [[]] }
    else m
  | .session n a =>
    match m.sessions[n]?, m.senders[n]? with
    | some c, some q =>
      let s := c.s.step c.env a
      { m with
        sessions := m.sessions.set n { c with s }
        senders := m.senders.set n (relabel n c.s s q a) }
    | _, _ => m

/-- A message that a session applies is one of its own bridges. -/
def Delivers (m : Manager) (a : Act) : Prop :=
  ∀ n, a = .session n .egress → ∀ c ∈ m.sessions[n]?, c.s.running = true →
    ∀ msg ∈ c.s.hub.egress.head?, ∃ q ∈ m.senders[n]?, ∃ p ∈ q.head?, p.1 = n ∧
      ∃ b ∈ c.s.hub.bridges[p.2]?, b.tag = (msg.key,msg.streamId)

/-- The messages in the `n`-th session's channel are of its bridges, and once it is over there are
none and none can come. -/
structure Labelled (n : ℕ) (s : Session) (q : List (ℕ × ℕ)) : Prop where
  sent : List.Forall₂ (fun p m => p.1 = n ∧ ∃ b, s.hub.bridges[p.2]? = some b ∧
    b.tag = (Egress.key m,m.streamId)) q s.hub.egress
  ended : s.running = false → s.hub.egress = [] ∧ s.hub.rxOpen = false

namespace Labelled
variable {n : ℕ} {s : Session} {q : List (ℕ × ℕ)}

theorem bridge (h : Labelled n s q) (i : ℕ) (a : BridgeAct) :
    Labelled n { s with hub := s.hub.act i a } (q ++ (s.hub.sent i a).toList.map fun _ => (n,i)) := by
  refine ⟨?_,fun hr => ?_⟩
  · simp only [Hub.act_egress]
    refine List.rel_append (h.sent.imp fun p m hm => hm.imp_right (s.hub.act_bridge i a)) ?_
    rw [List.forall₂_map_left_iff, List.forall₂_same]
    intro m hm
    exact ⟨rfl,s.hub.act_bridge i a (s.hub.sent_tag i a (by simpa using hm))⟩
  · obtain ⟨he,hc⟩ := h.ended hr
    refine ⟨?_,(s.hub.act_rxOpen i a).trans hc⟩
    rw [Hub.act_egress, he, s.hub.sent_of_closed i a hc]
    rfl

/-- The session goes on, and may have started a bridge. -/
theorem spawn (h : Labelled n s q) {s' : Session} {bs : List Bridge} (hr : s'.running = s.running)
    (hh : s'.hub = s.hub.spawn bs) : Labelled n s' q := by
  refine ⟨?_,?_⟩
  · rw [hh]
    refine h.sent.imp fun p m hm => hm.imp_right fun hb => hb.imp fun b hb => hb.imp_left fun hb => ?_
    rwa [Hub.spawn, List.getElem?_append_left (List.getElem?_eq_some_iff.mp hb).1]
  · rw [hh, hr]
    exact h.ended

theorem finish (n : ℕ) (s : Session) : Labelled n s.finish [] := ⟨List.Forall₂.nil,fun _ => ⟨rfl,rfl⟩⟩

theorem servePending (h : Labelled n s q) (env : Env) : Labelled n (s.servePending env) q := by
  unfold Session.servePending
  split
  · exact h
  · split
    · exact h.spawn rfl rfl
    · exact h

theorem start (n : ℕ) (env : Env) (cfg : ClientCfg) (peer : SocketAddr) (scid : Bytes)
    (first : OpenReq) : Labelled n (.start env cfg peer scid first) [] := by
  refine servePending ⟨?_,fun hr => ?_⟩ env
  · exact List.Forall₂.nil
  · cases hr

/-- A turn of the loop ends with the session going on, or over. -/
theorem service (h : Labelled n s q) (hr : s.running = true) (env : Env) :
    Labelled n (s.service env) (if (s.service env).running then q else []) := by
  have h' : Labelled n { s with conn := (flushPackets env (exchange env Client.handleEvent s.conn)).1 } q :=
    ⟨h.sent,h.ended⟩
  have hcases : (s.service env).running = true ∧ Labelled n (s.service env) q ∨
      (s.service env).running = false ∧ Labelled n (s.service env) [] := by
    unfold Session.service
    simp only
    split
    · exact Or.inl ⟨(Session.servePending_running env _).trans hr,h'.servePending env⟩
    · exact Or.inr ⟨rfl,finish n _⟩
  obtain ⟨hs,hl⟩ | ⟨hs,hl⟩ := hcases
  · simpa only [hs, if_true] using hl
  · simpa only [hs, Bool.false_eq_true, if_false] using hl

theorem dequeue (h : Labelled n s q) {m : Egress} {rest : List Egress} (he : s.hub.egress = m :: rest)
    (c : Conn) : Labelled n { s with conn := c, hub := { s.hub with egress := rest } } q.tail := by
  have hs := h.sent
  rw [he, List.forall₂_cons_right_iff] at hs
  obtain ⟨p,ps,_,hs,hq⟩ := hs
  refine ⟨by rw [hq]; exact hs,fun hr => ?_⟩
  have := (h.ended hr).1
  rw [he] at this
  contradiction

/-- A session that is over does nothing more, save for its bridges. -/
theorem ended_step (hr : s.running = false) (env : Env) {a : Session.Act}
    (ha : ∀ i b, a ≠ .bridge i b) : s.step env a = s ∧ relabel n s s q a = [] := by
  cases a with
  | bridge i b => exact absurd rfl (ha i b)
  | _ => simp [Session.step, Session.select, relabel, hr]

theorem running_step (h : Labelled n s q) (hr : s.running = true) (env : Env) {a : Session.Act}
    (ha : ∀ i b, a ≠ .bridge i b) :
    Labelled n (s.step env a) (relabel n s (s.step env a) q a) := by
  cases a with
  | bridge i b => exact absurd rfl (ha i b)
  | recvError =>
    simp only [Session.step, hr, if_true]
    exact finish n s
  | packet pkt =>
    have hs : s.step env (.packet pkt) =
        Session.service env { s with conn := s.conn.note (.recv s.peer pkt) } := by
      simp [Session.step, Session.select, hr]
    rw [hs]
    exact service (s := { s with conn := s.conn.note (.recv s.peer pkt) }) ⟨h.sent,h.ended⟩ hr env
  | openReq req =>
    by_cases hp : s.pending.isNone
    · have hs : s.step env (.openReq req) = Session.service env { s with pending := some req } := by
        simp [Session.step, Session.select, hr, hp]
      rw [hs]
      exact service (s := { s with pending := some req }) ⟨h.sent,h.ended⟩ hr env
    · have hs : s.step env (.openReq req) = s := by simp [Session.step, Session.select, hp]
      have hq : relabel n s s q (.openReq req) = q := by simp [relabel, hr]
      rw [hs, hq]
      exact h
  | egress =>
    cases he : s.hub.egress with
    | nil =>
      have hs : s.step env .egress = s := by simp [Session.step, Session.select, he]
      obtain rfl : q = [] := by simpa [he] using h.sent
      rw [hs, relabel, if_pos hr]
      exact h
    | cons m rest =>
      have hs : s.step env .egress = Session.service env { s with
          conn := s.conn.queue m.streamId m.out, hub := { s.hub with egress := rest } } := by
        simp [Session.step, Session.select, hr, he]
      rw [hs]
      exact (h.dequeue he (s.conn.queue m.streamId m.out)).service hr env
  | readCredit =>
    have hs : s.step env .readCredit = s.service env := by simp [Session.step, Session.select, hr]
    rw [hs]
    exact h.service hr env
  | timeout =>
    have hs : s.step env .timeout = Session.service env { s with conn := s.conn.note .onTimeout } := by
      simp [Session.step, Session.select, hr]
    rw [hs]
    exact service (s := { s with conn := s.conn.note .onTimeout }) ⟨h.sent,h.ended⟩ hr env

theorem step (h : Labelled n s q) (env : Env) (a : Session.Act) :
    Labelled n (s.step env a) (relabel n s (s.step env a) q a) := by
  by_cases hb : ∃ i b, a = .bridge i b
  · obtain ⟨i,b,rfl⟩ := hb
    exact h.bridge i b
  · have ha : ∀ i b, a ≠ .bridge i b := fun i b he => hb ⟨i,b,he⟩
    cases hr : s.running with
    | true => exact h.running_step hr env ha
    | false =>
      obtain ⟨hs,hq⟩ := ended_step (n := n) (q := q) hr env ha
      rw [hs, hq]
      exact ⟨by rw [(h.ended hr).1]; exact List.Forall₂.nil,h.ended⟩

end Labelled

/-- Every session has its senders. -/
def Labels (m : Manager) : Prop :=
  m.senders.length = m.sessions.length ∧
    ∀ n, ∀ c ∈ m.sessions[n]?, ∀ q ∈ m.senders[n]?, Labelled n c.s q

theorem Labels.step {m : Manager} (h : m.Labels) (a : Act) : (m.step a).Labels := by
  obtain ⟨hlen,hall⟩ := h
  cases a with
  | dial env peer scid first =>
    rw [Manager.step]
    split_ifs
    · refine ⟨by simp [hlen],fun n c hc q hq => ?_⟩
      by_cases hn : n < m.sessions.length
      · simp only [List.getElem?_append_left hn] at hc
        simp only [List.getElem?_append_left (hlen ▸ hn)] at hq
        exact hall n c hc q hq
      · simp only [List.getElem?_append_right (not_lt.mp hn)] at hc
        simp only [List.getElem?_append_right (hlen ▸ not_lt.mp hn)] at hq
        obtain rfl : c = ⟨env,.start env m.cfg peer scid first⟩ := by
          simpa using List.mem_of_getElem? hc
        obtain rfl : q = [] := by simpa using List.mem_of_getElem? hq
        exact Labelled.start n env m.cfg peer scid first
    · exact ⟨hlen,hall⟩
  | session n a =>
    rw [Manager.step]
    split
    · rename_i c q hc hq
      refine ⟨by simp [hlen],fun k c' hc' q' hq' => ?_⟩
      by_cases hk : k = n
      · subst k
        have hn : n < m.sessions.length := (List.getElem?_eq_some_iff.mp hc).1
        simp only [List.getElem?_set_self hn] at hc'
        simp only [List.getElem?_set_self (hlen ▸ hn)] at hq'
        cases hc'
        cases hq'
        exact (hall n c hc q hq).step c.env a
      · simp only [List.getElem?_set_ne (Ne.symm hk)] at hc' hq'
        exact hall k c' hc' q' hq'
    · exact ⟨hlen,hall⟩

theorem Labels.delivers {m : Manager} (h : m.Labels) (a : Act) : m.Delivers a := by
  obtain ⟨hlen,hall⟩ := h
  rintro n rfl c hc hr msg hm
  have hn : n < m.senders.length := hlen ▸ (List.getElem?_eq_some_iff.mp hc).1
  have hq : m.senders[n]? = some m.senders[n] := List.getElem?_eq_getElem hn
  obtain ⟨rest,he⟩ := List.head?_eq_some_iff.mp hm
  have hs := (hall n c hc _ hq).sent
  rw [he, List.forall₂_cons_right_iff] at hs
  obtain ⟨p,ps,⟨hp,b,hb,ht⟩,_,hq'⟩ := hs
  exact ⟨m.senders[n],hq,p,by simp [hq'],hp,b,hb,ht⟩

end Manager

/-- Whatever a bridge sends, and however long it outlives its connection, what the server applies to
a connection was sent by a bridge of that connection, and what a client session applies by one of
that session. -/
theorem isolation (env : ServerEnv) (cfg : ServerCfg) (certs : CertSource) (acts : List Listener.Act)
    (h : Run.Meets (Watched.step env) (Watched.Unrepeated env) (Watched.new cfg certs) acts)
    (cfg' : ClientCfg) (acts' : List Manager.Act) :
    (Run.run (Watched.step env) (Watched.new cfg certs) acts).l =
        Run.run (Listener.step env) (Listener.new cfg certs) acts ∧
      Run.Meets (Watched.step env) Watched.Delivers (Watched.new cfg certs) acts ∧
        Run.Meets Manager.step Manager.Delivers (Manager.new cfg') acts' := by
  refine ⟨Watched.run_l env acts _,?_,?_⟩
  · exact Run.Meets.imp (I := fun w => w.Booked cfg ∧ w.keys.Nodup)
      (fun w a hw ha => ⟨hw.1.step a,Watched.nodup_step hw.2 ha⟩)
      (fun w a hw _ => hw.1.delivers hw.2 a) ⟨.new cfg certs,List.nodup_nil⟩ h
  · exact Run.Meets.imp (I := Manager.Labels) (fun m a hm _ => hm.step a)
      (fun m a hm _ => hm.delivers a)
      ⟨rfl,fun n c hc => by simp [Manager.new] at hc⟩ (Run.Meets.of_forall (fun _ _ => trivial) _ acts')

/-- Two connections with a tunnel on stream 0 each, one after the other on the client, whose bridges
write to the end. -/
def twoPeers : List Listener.Act :=
  [.datagram ⟨[127,0,0,1],40000⟩ [1] [2],.datagram ⟨[127,0,0,1],40001⟩ [3] [4],
    .bridge 1 (.dialed true),.bridge 0 (.dialed true),.bridge 1 (.write [7] .ready),
    .bridge 0 (.write [8] .ready),.egress,.egress]

def twoSessions : List Manager.Act :=
  [.dial Env.dialer ⟨[127,0,0,1],443⟩ [1] 0,.session 0 (.bridge 0 (.write [7] .ready)),
    .session 0 .recvError,.dial Env.dialer ⟨[127,0,0,1],443⟩ [2] 1,
    .session 0 (.bridge 0 (.write [8] .closed)),.session 1 (.bridge 0 (.write [9] .ready)),
    .session 1 .egress]

theorem isolation_twoPeers :
    (Run.run (Watched.step ServerEnv.dialed) (Watched.new Listener.fresh.cfg (.new "" "")) twoPeers).l =
        Run.run (Listener.step ServerEnv.dialed) Listener.fresh twoPeers ∧
      Run.Meets (Watched.step ServerEnv.dialed) Watched.Delivers
        (Watched.new Listener.fresh.cfg (.new "" "")) twoPeers ∧
        Run.Meets Manager.step Manager.Delivers (Manager.new .plain) twoSessions :=
  isolation ServerEnv.dialed _ _ _ (by decide) _ _

end EchTunnel
