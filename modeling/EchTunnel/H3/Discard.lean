import EchTunnel.H3.Client
import EchTunnel.H3.Server
import EchTunnel.Quic.Egress

/-! A bridge whose stream the event loop has dropped cannot write to it any more. -/
namespace EchTunnel
open Wire

namespace Bridge

/-- The connection and stream a task writes to. -/
def tag (b : Bridge) : Bytes × ℕ := (b.stream.key,b.stream.streamId)

/-- The task holds its `QuicStream` and has not shut it down. -/
def Writing (b : Bridge) : Prop := b.Live ∧ b.stream.shutdownSent = false

instance (b : Bridge) : Decidable b.Writing := inferInstanceAs (Decidable (_ ∧ _))

/-- Every write of something fails. -/
def WritesFail (b : Bridge) (h : Hub) : Prop :=
  ∀ r buf, h.Answers r → buf ≠ [] → (b.stream.pollWrite r buf).1 = .ready (.error brokenPipe)

variable {b : Bridge}

theorem writesFail_of_shutdown (hs : b.stream.shutdownSent = true) (h : Hub) : b.WritesFail h := by
  intro r buf _ _
  simp [QuicStream.pollWrite, hs]

theorem writesFail_of_closed {h : Hub} (hc : h.rxOpen = false) (b : Bridge) : b.WritesFail h := by
  intro r buf hr _
  cases r with
  | ready => simp [Hub.Answers, hc] at hr
  | closed => by_cases hs : b.stream.shutdownSent <;> simp [QuicStream.pollWrite, hs]
  | pending => simp [Hub.Answers, hc] at hr

/-- A step of a task: it stays on its stream, it does not come back to life, and its close notice is
the last thing it does. -/
theorem act_spec (b : Bridge) (a : BridgeAct) :
    (b.act a).1.tag = b.tag ∧ ((b.act a).1.Writing → b.Writing) ∧ ((b.act a).1.Live → b.Live) ∧
      ∀ m ∈ (b.act a).2, m.out = .closed → (m.key,m.streamId) = b.tag ∧ ¬ (b.act a).1.Live := by
  obtain he | ⟨phase,hlive,_,he⟩ | ⟨buf,rfl,_,_,he⟩ | ⟨r,rfl,_,_,_,he⟩ | ⟨r,rfl,_,_,he⟩ :=
    b.act_cases a
  · rw [he]
    exact ⟨rfl,id,id,by simp⟩
  · rw [he]
    exact ⟨rfl,fun hw => ⟨hlive,hw.2⟩,fun _ => hlive,by simp⟩
  · rw [he]
    exact ⟨rfl,id,id,by simp [QuicStream.egress]⟩
  · rw [he]
    refine ⟨rfl,fun hw => by simp [Writing] at hw,id,?_⟩
    intro m hm hc
    obtain ⟨_,⟨⟩⟩ := Option.ite_none_right_eq_some.mp hm
    cases hc
  · rw [he]
    have hd : ¬ Live { b with phase := .done } := by simp [Live]
    refine ⟨rfl,fun hw => absurd hw.1 hd,fun hl => absurd hl hd,?_⟩
    intro m hm _
    obtain ⟨_,⟨⟩⟩ := Option.ite_none_right_eq_some.mp hm
    exact ⟨rfl,hd⟩

end Bridge

/-- The tasks of a loop, those a connection has spawned and not handed over yet included. -/
def Conn.tasks (c : Conn) (bridges : List Bridge) (phase : Phase) : List Bridge :=
  bridges ++ c.spawned.map fun s => ⟨s,phase,[]⟩

/-- A connection and the tasks on it. A task that may write has its entry in the map, a task whose
entry is closed has ended, and every task was granted its stream by a call. -/
structure Attended (grants : ℕ → Call → Prop) (key : Bytes) (bridges : List Bridge) (phase : Phase)
    (c : Conn) : Prop where
  own : ∀ s ∈ c.spawned, s.key = key
  distinct : ((c.tasks bridges phase).map Bridge.tag).Nodup
  writing : ∀ b ∈ c.tasks bridges phase, b.stream.key = key → b.Writing →
    (c.streams.lookup b.stream.streamId).isSome
  closed : ∀ sid st, c.streams.lookup sid = some st → st.closed = true →
    ∃ b ∈ c.tasks bridges phase, b.tag = (key,sid) ∧ ¬ b.Live
  granted : ∀ b ∈ c.tasks bridges phase, b.stream.key = key →
    ∃ call ∈ c.quic, grants b.stream.streamId call

namespace Attended
variable {grants : ℕ → Call → Prop} {key : Bytes} {bridges : List Bridge} {phase : Phase} {c : Conn}
  {sid : ℕ} {st st' : StreamState}

theorem append (h : Attended grants key bridges phase c) (new : Trace) :
    Attended grants key bridges phase { c with quic := new ++ c.quic } where
  own := h.own
  distinct := h.distinct
  writing := h.writing
  closed := h.closed
  granted b hb hk := (h.granted b hb hk).imp fun _ hc => hc.imp_left (List.mem_append_right new)

theorem put (h : Attended grants key bridges phase c) (new : Trace)
    (hl : c.streams.lookup sid = some st)
    (hc : st'.closed → st.closed ∨ ∃ b ∈ c.tasks bridges phase, b.tag = (key,sid) ∧ ¬ b.Live) :
    Attended grants key bridges phase (c.put sid (new ++ c.quic) st') where
  own := h.own
  distinct := h.distinct
  writing b hb hk hw := by
    rw [Conn.put_lookup]
    split_ifs
    · rfl
    · exact h.writing b hb hk hw
  closed k st'' hk hcl := by
    rw [Conn.put_lookup] at hk
    split_ifs at hk with he
    · subst k
      cases hk
      exact (hc hcl).elim (h.closed sid st hl) id
    · exact h.closed k st'' hk hcl
  granted := (h.append new).granted

theorem enter (h : Attended grants key bridges phase c) (sid : ℕ) :
    Attended grants key bridges phase (c.enter sid) where
  own := h.own
  distinct := h.distinct
  writing b hb hk hw := by
    rw [Conn.enter, Conn.put_lookup]
    split_ifs
    · rfl
    · exact h.writing b hb hk hw
  closed k st hk hcl := by
    rw [Conn.enter, Conn.put_lookup] at hk
    split_ifs at hk
    · cases hk
      simp [StreamState.tunnel] at hcl
    · exact h.closed k st hk hcl
  granted := (h.append [.tunnel sid]).granted

/-- An entry may go when no task may write to its stream. -/
theorem remove (h : Attended grants key bridges phase c)
    (hno : ∀ b ∈ c.tasks bridges phase, b.tag = (key,sid) → ¬ b.Writing) :
    Attended grants key bridges phase (c.remove sid) where
  own := h.own
  distinct := h.distinct
  writing b hb hk hw := by
    rw [Conn.remove_lookup]
    split_ifs with he
    · exact absurd hw (hno b hb (by rw [Bridge.tag, hk, he]))
    · exact h.writing b hb hk hw
  closed k st hk hcl := by
    rw [Conn.remove_lookup] at hk
    split_ifs at hk
    exact h.closed k st hk hcl
  granted := h.granted

/-- A stream that no call has granted yet has no task. -/
theorem unclaimed (h : Attended grants key bridges phase c) (hn : ∀ call ∈ c.quic, ¬ grants sid call) :
    ∀ b ∈ c.tasks bridges phase, b.tag ≠ (key,sid) := by
  rintro b hb he
  obtain ⟨hk,rfl⟩ := Prod.mk.inj he
  obtain ⟨call,hc,hg⟩ := h.granted b hb hk
  exact hn call hc hg

theorem spawn (h : Attended grants key bridges phase c) (hl : (c.streams.lookup sid).isSome)
    (hn : ∀ b ∈ c.tasks bridges phase, b.tag ≠ (key,sid)) (hg : ∃ call ∈ c.quic, grants sid call)
    (rx : ℕ) : Attended grants key bridges phase { c with spawned := c.spawned ++ [.new key sid rx] } := by
  have ht : Conn.tasks { c with spawned := c.spawned ++ [.new key sid rx] } bridges phase =
      c.tasks bridges phase ++ [⟨.new key sid rx,phase,[]⟩] := by
    simp [Conn.tasks]
  refine ⟨?_,?_,?_,?_,?_⟩
  · intro s hs
    rcases List.mem_append.mp hs with hs | hs
    · exact h.own s hs
    · rw [List.mem_singleton.mp hs]
      rfl
  · rw [ht, List.map_append, List.nodup_append]
    refine ⟨h.distinct,List.nodup_singleton _,?_⟩
    intro t ht u hu htu
    obtain ⟨b,hb,rfl⟩ := List.mem_map.mp ht
    rw [List.map_singleton, List.mem_singleton] at hu
    exact hn b hb (htu.trans hu)
  · intro b hb hk hw
    rw [ht] at hb
    rcases List.mem_append.mp hb with hb | hb
    · exact h.writing b hb hk hw
    · rw [List.mem_singleton.mp hb]
      exact hl
  · intro k st hk hc
    obtain ⟨b,hb,hbt⟩ := h.closed k st hk hc
    exact ⟨b,by rw [ht]; exact List.mem_append_left _ hb,hbt⟩
  · intro b hb hk
    rw [ht] at hb
    rcases List.mem_append.mp hb with hb | hb
    · exact h.granted b hb hk
    · rw [List.mem_singleton.mp hb]
      exact hg

theorem markReadable (h : Attended grants key bridges phase c) (sid : ℕ) :
    Attended grants key bridges phase (c.markReadable sid) := by
  unfold Conn.markReadable
  cases hl : c.streams.lookup sid with
  | none => exact h
  | some st => exact h.put [] hl fun hc => Or.inl hc

theorem queue (h : Attended grants key bridges phase c) {out : StreamOut}
    (hc : out = .closed → ∃ b ∈ c.tasks bridges phase, b.tag = (key,sid) ∧ ¬ b.Live) :
    Attended grants key bridges phase (c.queue sid out) := by
  unfold Conn.queue
  cases hl : c.streams.lookup sid with
  | none => exact h
  | some st =>
    apply h.put [] hl
    intro hcl
    cases out with
    | data bytes => exact Or.inl hcl
    | fin => exact Or.inl hcl
    | closed => exact Or.inr (hc rfl)

/-- When the entry is closed its only task has ended. -/
theorem ended (h : Attended grants key bridges phase c) (hl : c.streams.lookup sid = some st)
    (hc : st.closed = true) : ∀ b ∈ c.tasks bridges phase, b.tag = (key,sid) → ¬ b.Live := by
  intro b hb ht
  obtain ⟨b',hb',ht',hlive⟩ := h.closed sid st hl hc
  rwa [List.inj_on_of_nodup_map h.distinct hb hb' (ht.trans ht'.symm)]

theorem reapAt (h : Attended grants key bridges phase c) (env : Env) (sid : ℕ) :
    Attended grants key bridges phase (reapAt env c sid) := by
  obtain he | ⟨st,new,hl,hc,_,he,_⟩ := reapAt_spec env c sid
  · rwa [he]
  · rw [he]
    apply (h.append new).remove
    intro b hb ht hw
    exact h.ended hl hc b hb ht hw.1

/-- The passes of the loop keep the tasks attended if the handling of every event does. -/
theorem exchange {env : Env} (h : Attended grants key bridges phase c) {C : Conn → ℕ × H3Event → Prop}
    {handle : Conn → ℕ → H3Event → Conn}
    (hmeets : Run.Meets (eventStep handle) C c (env.polls c.quic))
    (hevent : ∀ c p, Attended grants key bridges phase c → C c p →
      Attended grants key bridges phase (eventStep handle c p)) :
    Attended grants key bridges phase (exchange env handle c) := by
  refine exchange_induction env h hmeets hevent ?_ ?_ ?_
  · intro c sid hc
    obtain he | ⟨st,st',new,hl,he,_,hs⟩ := pumpInboundAt_spec env c sid
    · rwa [he]
    · rw [he]
      exact hc.put new hl fun hcl => Or.inl (by rwa [← hs.2.2.2])
  · intro c sid hc
    obtain he | ⟨st,st',new,hl,he,_,hs,_⟩ := pumpOutboundAt_spec env c sid
    · rwa [he]
    · rw [he]
      exact hc.put new hl fun hcl => Or.inl (by rwa [← hs])
  · exact fun c sid hc => hc.reapAt env sid

end Attended

namespace Server

/-- The call that answers a request on a stream with a response. -/
def Grants (sid : ℕ) (call : Call) : Prop := ∃ resp fin, call = .sendResponse sid resp fin true

/-- A reset hits no stream that a task may still write to. -/
def DropsHeeded (key : Bytes) (bridges : List Bridge) (c : Conn) (p : ℕ × H3Event) : Prop :=
  (∃ code, p.2 = .reset code) →
    ∀ b ∈ c.tasks bridges .dialing, b.tag = (key,p.1) → ¬ b.Writing

instance (key : Bytes) (bridges : List Bridge) (c : Conn) :
    (p : ℕ × H3Event) → Decidable (DropsHeeded key bridges c p)
  | (sid,.reset code) => decidable_of_iff
      (∀ b ∈ c.tasks bridges .dialing, b.tag = (key,sid) → ¬ b.Writing)
      ⟨fun h _ => h,fun h => h ⟨code,rfl⟩⟩
  | (_,.headers _) | (_,.data) | (_,.finished) | (_,.priorityUpdate) | (_,.goAway) =>
    isTrue (by simp [DropsHeeded])

variable {env : ServerEnv} {cfg : ServerCfg} {key : Bytes} {bridges : List Bridge} {c : Conn}

theorem attended_eventStep {p : ℕ × H3Event} (h : Attended Grants key bridges .dialing c)
    (hp : DropsHeeded key bridges c p) :
    Attended Grants key bridges .dialing (eventStep (handleEvent env cfg key) c p) := by
  obtain ⟨sid,e⟩ := p
  have hc : Attended Grants key bridges .dialing (c.note (.poll sid e)) := h.append [.poll sid e]
  obtain ⟨new,_,he⟩ | he | ⟨hr,he⟩ | ⟨resp,ha,he⟩ :=
    handleEvent_spec env cfg key (c.note (.poll sid e)) sid e
  · rw [eventStep, he]
    exact hc.append new
  · rw [eventStep, he]
    exact hc.markReadable sid
  · rw [eventStep, he]
    exact hc.remove (hp hr)
  · rw [eventStep, he]
    have hs := (hc.append [.sendResponse sid resp false true]).enter sid
    refine hs.spawn (by simp [Conn.enter]) ?_ ⟨_,?_,resp,false,rfl⟩ _
    · -- a second response on the stream would have failed
      apply hc.unclaimed
      rintro call hm ⟨resp',fin,rfl⟩
      rw [env.sendResponse_once hm] at ha
      contradiction
    · exact List.mem_cons_of_mem _ List.mem_cons_self

theorem attended_service (h : Attended Grants key bridges .dialing c)
    (hs : ∀ c' ∈ polled env cfg c,
      Run.Meets (eventStep (handleEvent env cfg key)) (DropsHeeded key bridges) c'
        (env.polls c'.quic)) :
    Attended Grants key bridges .dialing (service env cfg key c) := by
  obtain ⟨new,h3,ok,_,hcase⟩ := service_spec env cfg key c
  have hc : Attended Grants key bridges .dialing { c with quic := new ++ c.quic, h3 } := by
    have := h.append new
    exact ⟨this.own,this.distinct,this.writing,this.closed,this.granted⟩
  obtain ⟨_,he⟩ | ⟨hp,he⟩ := hcase
  · rw [he]
    exact hc.append [.flushPackets ok]
  · rw [he]
    exact (hc.exchange (hs _ hp) fun c p hc hd => attended_eventStep hc hd).append [.flushPackets ok]

end Server

namespace Client

/-- The call that opens a stream. -/
def Grants (sid : ℕ) (call : Call) : Prop := ∃ hs fin, call = .sendRequest hs fin (.ok sid)

/-- No reset and no refusal hits a stream that a task may still write to. -/
def DropsHeeded (bridges : List Bridge) (c : Conn) (p : ℕ × H3Event) : Prop :=
  Drops p.2 → ∀ b ∈ c.tasks bridges .copying, b.tag = ([],p.1) → ¬ b.Writing

instance (bridges : List Bridge) (c : Conn) (p : ℕ × H3Event) :
    Decidable (DropsHeeded bridges c p) := inferInstanceAs (Decidable (_ → _))

variable {env : Env} {bridges : List Bridge} {c : Conn}

theorem attended_eventStep {p : ℕ × H3Event} (h : Attended Grants [] bridges .copying c)
    (hp : DropsHeeded bridges c p) :
    Attended Grants [] bridges .copying (eventStep handleEvent c p) := by
  obtain ⟨sid,e⟩ := p
  have hc : Attended Grants [] bridges .copying (c.note (.poll sid e)) := h.append [.poll sid e]
  obtain he | he | ⟨hr,he⟩ | ⟨hr,he⟩ := handleEvent_spec (c.note (.poll sid e)) sid e
  · rwa [eventStep, he]
  · rw [eventStep, he]
    exact hc.markReadable sid
  · rw [eventStep, he]
    exact hc.remove (hp (Or.inl hr))
  · rw [eventStep, he]
    exact (hc.remove (hp (Or.inr hr))).append [.streamShutdown sid .read]

theorem spawned_exchange (c : Conn) : (exchange env handleEvent c).spawned = c.spawned := by
  refine exchange_induction env (P := fun c' => c'.spawned = c.spawned) (C := fun _ _ => True) rfl
    (Run.Meets.of_forall (fun _ _ => trivial) _ _) ?_ ?_ ?_ ?_
  · rintro c' ⟨sid,e⟩ hc _
    obtain he | he | ⟨_,he⟩ | ⟨_,he⟩ := handleEvent_spec (c'.note (.poll sid e)) sid e
    · rwa [eventStep, he]
    · rw [eventStep, he, Conn.markReadable]
      split <;> exact hc
    · rwa [eventStep, he]
    · rwa [eventStep, he]
  · intro c' sid hc
    obtain he | ⟨_,_,_,_,he,_⟩ := pumpInboundAt_spec env c' sid
    · rwa [he]
    · rwa [he]
  · intro c' sid hc
    obtain he | ⟨_,_,_,_,he,_⟩ := pumpOutboundAt_spec env c' sid
    · rwa [he]
    · rwa [he]
  · intro c' sid hc
    obtain he | ⟨_,_,_,_,_,he,_⟩ := reapAt_spec env c' sid
    · rwa [he]
    · rwa [he]

theorem attended_openStream (env : Env) (h : Attended Grants [] bridges .copying c) (cfg : ClientCfg)
    (req : OpenReq) : Attended Grants [] bridges .copying (openStream env cfg c req).1 := by
  obtain ⟨call,_,he⟩ | ⟨sid,hs,ha,he⟩ := openStream_spec env cfg c req
  · rw [he]
    exact h.append [call]
  · have hn : ∀ b ∈ c.tasks bridges .copying, b.tag ≠ ([],sid) := by
      apply h.unclaimed
      rintro call hm ⟨hs',fin,rfl⟩
      exact env.sendRequest_fresh ha hs' fin hm
    have hc := (h.append [.sendRequest hs false (.ok sid)]).enter sid
    obtain he | he := he
    · rw [he]
      refine Attended.append (Attended.remove hc fun b hb ht => ?_)
        [.streamShutdown sid .read,.streamShutdown sid .write]
      exact absurd ht (hn b hb)
    · rw [he]
      refine hc.spawn (by simp [Conn.enter]) hn ⟨_,?_,hs,false,rfl⟩ _
      exact List.mem_cons_of_mem _ List.mem_cons_self

end Client
/-- Tasks that took steps: the same streams, nobody back to life, and the ended stay so. -/
structure Follow (bs bs' : List Bridge) : Prop where
  tags : bs'.map Bridge.tag = bs.map Bridge.tag
  writing : ∀ b' ∈ bs', b'.Writing → ∃ b ∈ bs, b.tag = b'.tag ∧ b.Writing
  ended : ∀ b ∈ bs, ¬ b.Live → ∃ b' ∈ bs', b'.tag = b.tag ∧ ¬ b'.Live

namespace Follow
variable {bs bs' : List Bridge}

theorem origin (h : Follow bs bs') {b' : Bridge} (hb : b' ∈ bs') : ∃ b ∈ bs, b.tag = b'.tag := by
  have ht : b'.tag ∈ bs'.map Bridge.tag := List.mem_map_of_mem hb
  rw [h.tags] at ht
  exact List.mem_map.mp ht

theorem set {i : ℕ} {b : Bridge} (hb : bs[i]? = some b) (a : BridgeAct) :
    Follow bs (bs.set i (b.act a).1) := by
  obtain ⟨htag,hw,hl,_⟩ := b.act_spec a
  obtain ⟨hi,hget⟩ := List.getElem?_eq_some_iff.mp hb
  refine ⟨?_,?_,?_⟩
  · rw [List.map_set, htag, ← List.map_set, ← hget, List.set_getElem_self]
  · intro b' hb' hw'
    rcases List.mem_or_eq_of_mem_set hb' with hm | rfl
    · exact ⟨b',hm,rfl,hw'⟩
    · exact ⟨b,List.mem_of_getElem? hb,htag.symm,hw hw'⟩
  · intro x hx hd
    obtain ⟨j,hj⟩ := List.getElem?_of_mem hx
    by_cases hji : j = i
    · subst j
      cases hj.symm.trans hb
      exact ⟨_,List.mem_set hi _,htag,fun hlive => hd (hl hlive)⟩
    · exact ⟨x,List.mem_of_getElem? (by rwa [List.getElem?_set_ne (Ne.symm hji)]),rfl,hd⟩

end Follow

/-- The tasks of the loop each have a stream of their own, and a close notice in the channel is the
last word of its task. -/
structure Hub.Orderly (h : Hub) : Prop where
  distinct : (h.bridges.map Bridge.tag).Nodup
  notices : ∀ m ∈ h.egress, m.out = .closed → ∃ b ∈ h.bridges, b.tag = (m.key,m.streamId) ∧ ¬ b.Live

namespace Hub.Orderly
variable {h : Hub}

theorem act (ho : h.Orderly) (i : ℕ) (a : BridgeAct) :
    (h.act i a).Orderly ∧ Follow h.bridges (h.act i a).bridges := by
  have hself : Follow h.bridges h.bridges :=
    ⟨rfl,fun b hb hw => ⟨b,hb,rfl,hw⟩,fun b hb hd => ⟨b,hb,rfl,hd⟩⟩
  unfold Hub.act
  cases hb : h.bridges[i]? with
  | none => exact ⟨ho,hself⟩
  | some b =>
    simp only
    split
    · have hf := Follow.set hb a
      refine ⟨⟨?_,?_⟩,hf⟩
      · simp only
        rw [hf.tags]
        exact ho.distinct
      · intro m hm hc
        rcases List.mem_append.mp hm with hm | hm
        · obtain ⟨x,hx,ht,hd⟩ := ho.notices m hm hc
          obtain ⟨x',hx',ht',hd'⟩ := hf.ended x hx hd
          exact ⟨x',hx',ht'.trans ht,hd'⟩
        · obtain ⟨htag,_,_,hmsg⟩ := b.act_spec a
          obtain ⟨ht,hd⟩ := hmsg m (by simpa using hm) hc
          exact ⟨_,List.mem_set (List.getElem?_eq_some_iff.mp hb).1 _,htag.trans ht.symm,hd⟩
    · exact ⟨ho,hself⟩

theorem dequeue (ho : h.Orderly) {m : Egress} {rest : List Egress} (he : h.egress = m :: rest) :
    Hub.Orderly { h with egress := rest } :=
  ⟨ho.distinct,fun m' hm => ho.notices m' (by simp [he, hm])⟩

theorem spawn (ho : h.Orderly) {bs : List Bridge} (hd : ((h.bridges ++ bs).map Bridge.tag).Nodup) :
    (h.spawn bs).Orderly :=
  ⟨hd,fun m hm hc => (ho.notices m hm hc).imp fun _ hb => hb.imp_left (List.mem_append_left bs)⟩

end Hub.Orderly

namespace Attended
variable {grants : ℕ → Call → Prop} {key : Bytes} {bs bs' : List Bridge} {phase : Phase} {c : Conn}

theorem follow (h : Attended grants key bs phase c) (hs : c.spawned = []) (hf : Follow bs bs') :
    Attended grants key bs' phase c := by
  have ht : ∀ bridges, c.tasks bridges phase = bridges := by simp [Conn.tasks, hs]
  obtain ⟨hown,hdis,hw,hc,hg⟩ := h
  simp only [ht] at hdis hw hc hg
  refine ⟨hown,?_,?_,?_,?_⟩ <;> simp only [ht]
  · rw [hf.tags]
    exact hdis
  · intro b' hb hk hw'
    obtain ⟨b,hb,ht,hwb⟩ := hf.writing b' hb hw'
    obtain ⟨hkey,hsid⟩ := Prod.mk.inj ht
    rw [← hsid]
    exact hw b hb (hkey.trans hk) hwb
  · intro sid st hl hcl
    obtain ⟨b,hb,ht,hd⟩ := hc sid st hl hcl
    obtain ⟨b',hb',ht',hd'⟩ := hf.ended b hb hd
    exact ⟨b',hb',ht'.trans ht,hd'⟩
  · intro b' hb hk
    obtain ⟨b,hb,ht⟩ := hf.origin hb
    obtain ⟨hkey,hsid⟩ := Prod.mk.inj ht
    rw [← hsid]
    exact hg b hb (hkey.trans hk)

/-- The spawned tasks are handed over to the runtime. -/
theorem settle (h : Attended grants key bs phase c) :
    Attended grants key (c.tasks bs phase) phase { c with spawned := [] } := by
  have ht : Conn.tasks { c with spawned := [] } (c.tasks bs phase) phase = c.tasks bs phase := by
    simp [Conn.tasks]
  refine ⟨by simp,?_,?_,?_,?_⟩ <;> rw [ht]
  · exact h.distinct
  · exact h.writing
  · exact h.closed
  · exact h.granted

/-- Tasks on other connections make no difference. -/
theorem widen (h : Attended grants key bs phase c) (hs : c.spawned = []) {new : List Bridge}
    (hd : ((bs ++ new).map Bridge.tag).Nodup) (hn : ∀ b ∈ new, b.stream.key ≠ key) :
    Attended grants key (bs ++ new) phase c := by
  have ht : ∀ bridges, c.tasks bridges phase = bridges := by simp [Conn.tasks, hs]
  obtain ⟨hown,_,hw,hc,hg⟩ := h
  simp only [ht] at hw hc hg
  have hold : ∀ b ∈ bs ++ new, b.stream.key = key → b ∈ bs := fun b hb hk =>
    (List.mem_append.mp hb).resolve_right fun hb => hn b hb hk
  refine ⟨hown,?_,?_,?_,?_⟩ <;> rw [ht]
  · exact hd
  · exact fun b hb hk => hw b (hold b hb hk) hk
  · exact fun sid st hl hcl => (hc sid st hl hcl).imp fun _ hb => hb.imp_left (List.mem_append_left new)
  · exact fun b hb hk => hg b (hold b hb hk) hk

end Attended
namespace Listener
variable (env : ServerEnv)

/-- What a step must respect: connection ids are drawn fresh, and no stream is reset and no closed
connection dropped while a task may still write to it. -/
def Heeds (l : Listener) (a : Act) : Prop :=
  l.Fresh env a ∧ l.Serves env (fun l key => Server.DropsHeeded key l.hub.bridges) a ∧
    ((l.select env a).2 = true → ∀ b ∈ (l.select env a).1.hub.bridges, b.Writing →
      ∀ c ∈ (l.select env a).1.conns.lookup b.stream.key, env.isClosed c.quic = false)

instance (l : Listener) (a : Act) : Decidable (l.Heeds env a) := inferInstanceAs (Decidable (_ ∧ _ ∧ _))

/-- Every task that may write has its connection and its entry. -/
structure Attentive (l : Listener) : Prop where
  hub : l.hub.Orderly
  conns : ∀ key, ∀ c ∈ l.conns.lookup key, c.spawned = [] ∧
    Attended Server.Grants key l.hub.bridges .dialing c ∧ key ∈ l.ids
  orphans : ∀ b ∈ l.hub.bridges, l.conns.lookup b.stream.key = none → ¬ b.Writing
  met : ∀ b ∈ l.hub.bridges, b.stream.key ∈ l.ids

namespace Attentive
variable {env : ServerEnv} {l : Listener}

theorem insert (h : l.Attentive) {key : Bytes} {c : Conn} (c' : Conn) (hl : l.conns.lookup key = some c)
    (hc : c'.spawned = [] ∧ Attended Server.Grants key l.hub.bridges .dialing c') :
    Attentive { l with conns := l.conns.insert key c' } := by
  refine ⟨h.hub,?_,?_,h.met⟩
  · intro k c'' hk
    simp only [Assoc.lookup_insert] at hk
    split_ifs at hk with he
    · cases hk
      subst k
      exact ⟨hc.1,hc.2,(h.conns key c hl).2.2⟩
    · exact h.conns k c'' hk
  · intro b hb hk
    simp only [Assoc.lookup_insert] at hk
    split_ifs at hk
    exact h.orphans b hb hk

theorem meet (h : l.Attentive) {ids : List Bytes} (hids : l.ids ⊆ ids)
    (cached : Option CachedConfig) : Attentive { l with ids, cached } :=
  ⟨h.hub,fun key c hl => (h.conns key c hl).imp_right fun hc => hc.imp_right (hids ·),h.orphans,
    fun b hb => hids (h.met b hb)⟩

/-- A connection under a fresh id has no tasks. -/
theorem create (h : l.Attentive) {draw : Bytes} (hd : draw ∉ l.ids) (t : Trace)
    {ids : List Bytes} (hids : l.ids ⊆ ids) (hin : draw ∈ ids) :
    Attentive { l with conns := l.conns.insert draw ⟨t,false,∅,[]⟩, ids } := by
  have hno : ∀ b ∈ l.hub.bridges, b.stream.key ≠ draw := by
    rintro b hb rfl
    exact hd (h.met b hb)
  have ht : Conn.tasks ⟨t,false,∅,[]⟩ l.hub.bridges .dialing = l.hub.bridges := by simp [Conn.tasks]
  refine ⟨h.hub,?_,?_,fun b hb => hids (h.met b hb)⟩
  · intro k c hk
    simp only [Assoc.lookup_insert] at hk
    split_ifs at hk with he
    · cases hk
      subst k
      refine ⟨rfl,⟨by simp,?_,?_,?_,?_⟩,hin⟩
      · rw [ht]
        exact h.hub.distinct
      · rw [ht]
        exact fun b hb hk => absurd hk (hno b hb)
      · exact fun sid st hl => by cases hl
      · rw [ht]
        exact fun b hb hk => absurd hk (hno b hb)
    · exact (h.conns k c hk).imp_right fun hc => hc.imp_right (hids ·)
  · intro b hb hk
    simp only [Assoc.lookup_insert, if_neg (hno b hb)] at hk
    exact h.orphans b hb hk

theorem routePacket (h : l.Attentive) {peer : SocketAddr} {pkt draw : Bytes}
    (hf : l.Fresh env (.datagram peer pkt draw)) : (l.routePacket env peer pkt draw).1.Attentive := by
  obtain ⟨cached,ids,hids,he,_⟩ | ⟨hdr,c,_,hl,he⟩ | ⟨hdr,cached,hp,hl,_,_,he⟩ :=
    routePacket_spec env l peer pkt draw
  · rw [he]
    exact h.meet hids cached
  · rw [he]
    obtain ⟨hs,hc,_⟩ := h.conns _ c hl
    have hi := h.insert (c.note (.recv peer pkt)) hl ⟨hs,hc.append [.recv peer pkt]⟩
    exact hi.meet (List.subset_cons_self _ _) _
  · rw [he]
    have hd : draw ∉ l.ids := fun hm => hf hdr hp hl (List.mem_cons_of_mem _ hm)
    have hids : l.ids ⊆ draw :: hdr.dcid :: l.ids :=
      List.subset_cons_of_subset _ (List.subset_cons_self _ _)
    exact (h.create hd _ hids List.mem_cons_self).meet (List.Subset.refl _) (some cached)

theorem dequeue (h : l.Attentive) {m : Egress} {rest : List Egress} (he : l.hub.egress = m :: rest) :
    ({ l with hub := { l.hub with egress := rest } }.queue m : Listener).Attentive := by
  have h' : Attentive { l with hub := { l.hub with egress := rest } } :=
    ⟨h.hub.dequeue he,h.conns,h.orphans,h.met⟩
  unfold queue
  cases hl : l.conns.lookup m.key with
  | none => exact h'
  | some c =>
    obtain ⟨hs,hc,_⟩ := h.conns m.key c hl
    refine h'.insert _ hl ⟨?_,?_⟩
    · unfold Conn.queue
      split <;> exact hs
    · apply hc.queue
      intro hcl
      simp only [Conn.tasks, hs, List.map_nil, List.append_nil]
      exact h.hub.notices m (by simp [he]) hcl

theorem noteTimeout (h : l.Attentive) (key : Bytes) : (l.noteTimeout key).Attentive := by
  unfold Listener.noteTimeout
  cases hl : l.conns.lookup key with
  | none => exact h
  | some c =>
    obtain ⟨hs,hc,_⟩ := h.conns key c hl
    exact h.insert (c.note .onTimeout) hl ⟨hs,hc.append [.onTimeout]⟩

theorem serviceAt (h : l.Attentive) {key : Bytes}
    (hs : l.ServesAt env (fun l key => Server.DropsHeeded key l.hub.bridges) key) :
    (l.serviceAt env key).Attentive := by
  unfold Listener.serviceAt
  cases hl : l.conns.lookup key with
  | none => exact h
  | some c =>
    obtain ⟨_,hc,hkey⟩ := h.conns key c hl
    have hx := Server.attended_service hc (hs c hl)
    simp only
    generalize Server.service env l.cfg key c = c' at hx ⊢
    have hnew : ∀ b ∈ c'.spawned.map fun s => (⟨s,.dialing,[]⟩ : Bridge), b.stream.key = key := by
      intro b hb
      obtain ⟨s,hsp,rfl⟩ := List.mem_map.mp hb
      exact hx.own s hsp
    refine ⟨h.hub.spawn hx.distinct,?_,?_,?_⟩
    · intro k c'' hk
      simp only [Assoc.lookup_insert] at hk
      split_ifs at hk with he
      · cases hk
        subst k
        exact ⟨rfl,hx.settle,hkey⟩
      · obtain ⟨hs'',hc'',hkey''⟩ := h.conns k c'' hk
        refine ⟨hs'',hc''.widen hs'' hx.distinct fun b hb => ?_,hkey''⟩
        rw [hnew b hb]
        exact Ne.symm he
    · intro b hb hk
      simp only [Assoc.lookup_insert] at hk
      split_ifs at hk with he
      rcases List.mem_append.mp hb with hb | hb
      · exact h.orphans b hb hk
      · exact absurd (hnew b hb) he
    · intro b hb
      rcases List.mem_append.mp hb with hb | hb
      · exact h.met b hb
      · rw [hnew b hb]
        exact hkey

theorem act (h : l.Attentive) (i : ℕ) (a : BridgeAct) :
    Attentive { l with hub := l.hub.act i a } := by
  obtain ⟨ho,hf⟩ := h.hub.act i a
  refine ⟨ho,?_,?_,?_⟩
  · intro key c hl
    obtain ⟨hs,hc,hkey⟩ := h.conns key c hl
    exact ⟨hs,hc.follow hs hf,hkey⟩
  · intro b' hb hk hw
    obtain ⟨b,hb,ht,hwb⟩ := hf.writing b' hb hw
    have hkey : b.stream.key = b'.stream.key := (Prod.mk.inj ht).1
    exact h.orphans b hb (by rw [hkey]; exact hk) hwb
  · intro b' hb
    obtain ⟨b,hb,ht⟩ := hf.origin hb
    have hkey : b.stream.key = b'.stream.key := (Prod.mk.inj ht).1
    rw [← hkey]
    exact h.met b hb

theorem step (h : l.Attentive) (a : Act) (ha : l.Heeds env a) : (l.step env a).Attentive := by
  obtain ⟨hf,hs,hr⟩ := ha
  have hsel : (l.select env a).1.Attentive := by
    apply select_induction h hs
    case hroute =>
      rintro peer pkt draw rfl
      exact h.routePacket hf
    case hqueue => exact fun m rest _ he => h.dequeue he
    case htimeout => exact fun l key hl => hl.noteTimeout key
    case hservice => exact fun l key hl hc => hl.serviceAt hc
    case hswap => exact fun _ _ => ⟨h.hub,h.conns,h.orphans,h.met⟩
    case hbridge => exact fun i b _ => h.act i b
  rw [Listener.step]
  split
  · rename_i hgo
    refine ⟨hsel.hub,?_,?_,hsel.met⟩
    · intro key c hl
      rw [retain, Assoc.lookup_filter, Option.mem_filter_iff] at hl
      exact hsel.conns key c hl.1
    · intro b hb hk hw
      rw [retain, Assoc.lookup_filter, Option.filter_eq_none_iff] at hk
      cases hl : (l.select env a).1.conns.lookup b.stream.key with
      | none => exact hsel.orphans b hb hl hw
      | some c => exact absurd (hr hgo b hb hw c hl) (by simpa using hk c hl)
  · exact hsel

end Attentive
end Listener
namespace Session
variable (env : Env)

/-- What a step must respect: no stream is reset or refused while a task may still write to it. -/
def Heeds (s : Session) (a : Act) : Prop := s.Serves env (fun s => Client.DropsHeeded s.hub.bridges) a

instance (s : Session) (a : Act) : Decidable (s.Heeds env a) :=
  inferInstanceAs (Decidable (s.Serves env _ a))

/-- The channel is open while the session runs, and then every task that may write has its entry. -/
structure Attentive (s : Session) : Prop where
  hub : s.hub.Orderly
  keys : ∀ b ∈ s.hub.bridges, b.stream.key = []
  channel : s.hub.rxOpen = s.running
  conn : s.running = true → s.conn.spawned = [] ∧ Attended Client.Grants [] s.hub.bridges .copying s.conn

namespace Attentive
variable {env : Env} {s : Session}

theorem finish (h : s.Attentive) : s.finish.Attentive :=
  ⟨⟨h.hub.distinct,by simp [Session.finish]⟩,h.keys,rfl,fun hr => by cases hr⟩

theorem servePending (h : s.Attentive) (hr : s.running = true) : (s.servePending env).Attentive := by
  unfold Session.servePending
  split
  · exact h
  · rename_i req _
    split
    · have hx := Client.attended_openStream env (h.conn hr).2 s.cfg req
      generalize Client.openStream env s.cfg s.conn req = r at hx ⊢
      refine ⟨h.hub.spawn hx.distinct,?_,h.channel,fun _ => ⟨rfl,hx.settle⟩⟩
      intro b hb
      rcases List.mem_append.mp hb with hb | hb
      · exact h.keys b hb
      · obtain ⟨q,hq,rfl⟩ := List.mem_map.mp hb
        exact hx.own q hq
    · exact h

theorem conn_append (h : s.Attentive) (new : Trace) :
    Attentive { s with conn := { s.conn with quic := new ++ s.conn.quic } } :=
  ⟨h.hub,h.keys,h.channel,fun hr => (h.conn hr).imp_right fun hc => hc.append new⟩

theorem step (h : s.Attentive) (a : Act) (ha : s.Heeds env a) : (s.step env a).Attentive := by
  apply step_induction h ha
  case hnote => exact fun call _ => h.conn_append [call]
  case hopen => exact fun _ => ⟨h.hub,h.keys,h.channel,h.conn⟩
  case hqueue =>
    intro m rest _ he
    refine ⟨h.hub.dequeue he,h.keys,h.channel,fun hr => ?_⟩
    obtain ⟨hs,hc⟩ := h.conn hr
    refine ⟨?_,hc.queue fun hcl => ?_⟩
    · simp only [Conn.queue]
      split <;> exact hs
    · simp only [Conn.tasks, hs, List.map_nil, List.append_nil]
      obtain ⟨b,hb,ht,hd⟩ := h.hub.notices m (by simp [he]) hcl
      refine ⟨b,hb,?_,hd⟩
      rw [ht, ← h.keys b hb, ← (Prod.mk.inj ht).1]
  case hservice =>
    intro s' hr h' hm
    obtain ⟨hs,hc⟩ := h'.conn hr
    have hx := hc.exchange hm fun c p hc hd => Client.attended_eventStep hc hd
    have hf : Attentive { s' with
        conn := (flushPackets env (EchTunnel.exchange env Client.handleEvent s'.conn)).1 } :=
      ⟨h'.hub,h'.keys,h'.channel,fun _ =>
        ⟨(Client.spawned_exchange s'.conn).trans hs,hx.append [.flushPackets _]⟩⟩
    unfold Session.service
    simp only
    split
    · exact hf.servePending hr
    · exact hf.finish
  case hfinish => exact h.finish
  case hbridge =>
    intro i b _
    obtain ⟨ho,hf⟩ := h.hub.act i b
    refine ⟨ho,?_,?_,fun hr => ?_⟩
    · intro b' hb
      obtain ⟨x,hx,ht⟩ := hf.origin hb
      rw [← (Prod.mk.inj ht).1]
      exact h.keys x hx
    · have : (s.hub.act i b).rxOpen = s.hub.rxOpen := by
        unfold Hub.act
        split
        · rfl
        · split <;> rfl
      exact this.trans h.channel
    · obtain ⟨hs,hc⟩ := h.conn hr
      exact ⟨hs,hc.follow hs hf⟩

end Attentive
end Session
theorem Listener.new_attentive (cfg : ServerCfg) (certs : CertSource) : (new cfg certs).Attentive := by
  refine ⟨⟨List.nodup_nil,?_⟩,?_,?_,?_⟩
  · simp [new, Hub.new]
  · exact fun key c hl => by cases hl
  · simp [new, Hub.new]
  · simp [new, Hub.new]

theorem Session.start_attentive (env : Env) (cfg : ClientCfg) (peer : SocketAddr) (scid : Bytes)
    (first : OpenReq) : (start env cfg peer scid first).Attentive := by
  refine Attentive.servePending ⟨⟨List.nodup_nil,?_⟩,?_,rfl,fun _ => ⟨rfl,?_⟩⟩ rfl
  · simp [Hub.new]
  · simp [Hub.new]
  · refine ⟨by simp,List.nodup_nil,?_,?_,?_⟩
    · simp [Conn.tasks, Hub.new]
    · exact fun sid st hl => by cases hl
    · simp [Conn.tasks, Hub.new]

/-- A tunnel that the loop has dropped takes no more bytes from its bridge, provided no stream is
reset or refused, and no closed connection dropped, while its task may still write. -/
theorem no_silent_discard (env : ServerEnv) (cfg : ServerCfg) (certs : CertSource)
    (acts : List Listener.Act)
    (hl : Run.Meets (Listener.step env) (Listener.Heeds env) (Listener.new cfg certs) acts)
    (env' : Env) (cfg' : ClientCfg) (peer : SocketAddr) (scid : Bytes) (first : OpenReq)
    (acts' : List Session.Act)
    (hs : Run.Meets (Session.step env') (Session.Heeds env') (Session.start env' cfg' peer scid first)
      acts') :
    (let l := Run.run (Listener.step env) (Listener.new cfg certs) acts
      ∀ b ∈ l.hub.bridges, b.Live →
        (∀ c ∈ l.conns.lookup b.stream.key, c.streams.lookup b.stream.streamId = none) →
          b.WritesFail l.hub) ∧
    let s := Run.run (Session.step env') (Session.start env' cfg' peer scid first) acts'
    ∀ b ∈ s.hub.bridges, b.Live → s.conn.streams.lookup b.stream.streamId = none →
      b.WritesFail s.hub := by
  constructor
  · intro l b hb hlive hgone
    have h : l.Attentive := hl.induction (fun l a hl ha => hl.step a ha) (Listener.new_attentive cfg certs)
    apply Bridge.writesFail_of_shutdown
    by_contra hs
    have hw : b.Writing := ⟨hlive,by simpa using hs⟩
    cases hc : l.conns.lookup b.stream.key with
    | none => exact h.orphans b hb hc hw
    | some c =>
      have := (h.conns _ c hc).2.1.writing b (List.mem_append_left _ hb) rfl hw
      rw [hgone c hc] at this
      contradiction
  · intro s b hb hlive hgone
    have h : s.Attentive := hs.induction (fun s a hs ha => hs.step a ha)
      (Session.start_attentive env' cfg' peer scid first)
    cases hr : s.running with
    | false => exact Bridge.writesFail_of_closed (h.channel.trans hr) b
    | true =>
      apply Bridge.writesFail_of_shutdown
      by_contra hs
      have := (h.conn hr).2.writing b (List.mem_append_left _ hb) (h.keys b hb)
        ⟨hlive,by simpa using hs⟩
      rw [hgone] at this
      contradiction

/-- The same surroundings, but with the second packet comes a reset. -/
def Env.jilted (env : Env) : Env :=
  { env with
    polls := fun t =>
      if (t.filter fun | .recv .. => true | _ => false).length = 2 then [(0,.reset 0x10c)]
      else env.polls t }

def ServerEnv.jilted : ServerEnv := { ServerEnv.dialed with toEnv := ServerEnv.dialed.toEnv.jilted }

/-- A bridge that writes and shuts down, after which the tunnel is reset and dropped. -/
def shutInTime : List BridgeAct := [.dialed true,.write [1] .ready,.shutdown .ready]

theorem no_silent_discard_shutInTime :
    (let l := Run.run (Listener.step ServerEnv.jilted) Listener.fresh
        (.datagram ⟨[127,0,0,1],40000⟩ [1] [2] :: shutInTime.map (.bridge 0) ++
          [.datagram ⟨[127,0,0,1],40000⟩ [2] [3]])
      ∀ b ∈ l.hub.bridges, b.Live →
        (∀ c ∈ l.conns.lookup b.stream.key, c.streams.lookup b.stream.streamId = none) →
          b.WritesFail l.hub) ∧
    let s := Run.run (Session.step Env.dialer.jilted) (Session.dialed Env.dialer.jilted)
      (.packet [1] :: shutInTime.map (.bridge 0) ++ [.packet [1]])
    ∀ b ∈ s.hub.bridges, b.Live → s.conn.streams.lookup b.stream.streamId = none →
      b.WritesFail s.hub :=
  no_silent_discard ServerEnv.jilted _ _ _ (by decide) Env.dialer.jilted _ _ _ _ _ (by decide)

/-- After a reset the loop has dropped the tunnel, and the bridge's writes still succeed. -/
theorem write_accepted_after_reset :
    ¬ ∀ (env : Env) (cfg : ClientCfg) (peer : SocketAddr) (scid : Bytes) (first : OpenReq)
      (acts : List Session.Act),
      let s := Run.run (Session.step env) (Session.start env cfg peer scid first) acts
      ∀ b ∈ s.hub.bridges, b.Live → s.conn.streams.lookup b.stream.streamId = none →
        b.WritesFail s.hub := by
  intro h
  have hw := h Env.rebuffed .plain ⟨[127,0,0,1],443⟩ [] 0 [.packet [1]] ⟨.new [] 0 3,.copying,[]⟩
    (by decide) (by decide) (by decide) .ready [1] (by decide) (by decide)
  exact absurd hw (by decide)

end EchTunnel
