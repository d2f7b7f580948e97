import EchTunnel.H3.Loop

/-! No announcement of bytes is lost on a connection: its tunnels are marked readable while they have
unread bytes. -/
namespace EchTunnel
open Wire

def Call.isData : Call → Bool
  | .poll _ .data => true
  | _ => false

namespace Trace

/-- `quiche` has announced body bytes of the stream, and they have not been read to the end since. It
announces no more of them until `recv_body` has answered `Done`. -/
def unread (sid : ℕ) : Trace → Bool
  | [] => false
  | .poll s .data :: t => s = sid || unread sid t
  | .recvBody s .done :: t => s ≠ sid && unread sid t
  | .streamShutdown s .read :: t => s ≠ sid && unread sid t
  | _ :: t => unread sid t

variable {t : Trace} {sid : ℕ}

theorem unread_of_cons {call : Call} (h : call.isData = false)
    (hu : Trace.unread sid (call :: t) = true) : t.unread sid = true := by
  rw [unread.eq_def] at hu
  split at hu
  · contradiction
  · rename_i he
    cases he
    contradiction
  · rename_i he
    cases he
    exact ((Bool.and_eq_true _ _).mp hu).2
  · rename_i he
    cases he
    exact ((Bool.and_eq_true _ _).mp hu).2
  · rename_i he
    cases he
    exact hu

theorem unread_of_append {new : Trace} (h : ∀ call ∈ new, call.isData = false)
    (hu : Trace.unread sid (new ++ t) = true) : t.unread sid = true := by
  induction new with
  | nil => exact hu
  | cons call new ih =>
    obtain ⟨hc,hn⟩ := List.forall_mem_cons.mp h
    exact ih hn (unread_of_cons hc hu)

theorem unread_data {s : ℕ} (hu : Trace.unread sid (.poll s .data :: t) = true) :
    s = sid ∨ t.unread sid = true := by
  simpa [unread] using hu

end Trace

theorem Call.Reaping.isData {sid : ℕ} {call : Call} (h : call.Reaping sid) : call.isData = false := by
  cases call <;> first | rfl | contradiction

theorem Call.Outbound.isData {sid : ℕ} {call : Call} (h : call.Outbound sid) :
    call.isData = false := by
  cases call <;> first | rfl | contradiction

theorem Call.Inbound.isData {sid : ℕ} {call : Call} (h : call.Inbound sid) : call.isData = false := by
  cases call <;> first | rfl | contradiction

/-- A connection whose tunnels are marked readable while they have unread bytes, and have a bridge as
long as they have their sender. -/
structure Alert (r : Role) (key : Bytes) (names : List (Bytes × ℕ × ℕ)) (c : Conn) : Prop where
  own : ∀ q ∈ c.spawned, q.key = key
  lit : ∀ sid st rx, c.streams.lookup sid = some st → st.inboundTx = some rx →
    c.quic.unread sid = true → st.readable = true
  granted : ∀ sid, (c.streams.lookup sid).isSome ∨ c.quic.unread sid = true →
    ∃ call ∈ c.quic, r.Grants sid call
  named : ∀ sid st rx, c.streams.lookup sid = some st → st.inboundTx = some rx →
    (key,sid,rx) ∈ names ++ c.spawned.map QuicStream.name
  dark : c.h3 = false → r.lazy = true ∧ ∀ sid, c.streams.lookup sid = none

namespace Alert
variable {r : Role} {key : Bytes} {names : List (Bytes × ℕ × ℕ)} {c c' : Conn}
  {sid : ℕ} {st st' : StreamState} {u : Trace}

/-- What calls other than the arrival of data may change: entries go, or lose their sender, and a mark
goes once nothing is unread. -/
theorem advance (h : Alert r key names c) (hs : c'.spawned = c.spawned)
    (hh : c'.h3 = false → c.h3 = false) (hq : c'.quic = u ++ c.quic)
    (hn : ∀ call ∈ u, call.isData = false)
    (hst : ∀ k st', c'.streams.lookup k = some st' → ∃ st, c.streams.lookup k = some st ∧
      ∀ rx, st'.inboundTx = some rx → st.inboundTx = some rx ∧
        (c'.quic.unread k = true → st.readable = true → st'.readable = true)) :
    Alert r key names c' := by
  have hu : ∀ k, c'.quic.unread k = true → c.quic.unread k = true := by
    intro k hk
    rw [hq] at hk
    exact Trace.unread_of_append hn hk
  refine ⟨?_,?_,?_,?_,?_⟩
  · rw [hs]
    exact h.own
  · intro k st' rx hl hrx hk
    obtain ⟨st,hl',himp⟩ := hst k st' hl
    obtain ⟨hrx',hr⟩ := himp rx hrx
    exact hr hk (h.lit k st rx hl' hrx' (hu k hk))
  · intro k hk
    have hg : ∃ call ∈ c.quic, r.Grants k call := by
      apply h.granted
      refine hk.imp ?_ (hu k)
      intro hsome
      obtain ⟨st',hl⟩ := Option.isSome_iff_exists.mp hsome
      obtain ⟨st,hl',_⟩ := hst k st' hl
      simp [hl']
    rw [hq]
    exact hg.imp fun _ hc => hc.imp_left (List.mem_append_right u)
  · intro k st' rx hl hrx
    obtain ⟨st,hl',himp⟩ := hst k st' hl
    rw [hs]
    exact h.named k st rx hl' (himp rx hrx).1
  · intro hd
    obtain ⟨hlazy,hno⟩ := h.dark (hh hd)
    refine ⟨hlazy,fun k => ?_⟩
    cases hl : c'.streams.lookup k with
    | none => rfl
    | some st' =>
      obtain ⟨st,hl',_⟩ := hst k st' hl
      rw [hno k] at hl'
      contradiction

theorem append (h : Alert r key names c) (hn : ∀ call ∈ u, call.isData = false) :
    Alert r key names { c with quic := u ++ c.quic } :=
  h.advance rfl id rfl hn fun _ st hl => ⟨st,hl,fun _ hrx => ⟨hrx,fun _ => id⟩⟩

theorem note (h : Alert r key names c) {call : Call} (hn : call.isData = false) :
    Alert r key names (c.note call) :=
  h.append (u := [call]) (by simpa using hn)

theorem put (h : Alert r key names c) (hl : c.streams.lookup sid = some st)
    (hn : ∀ call ∈ u, call.isData = false)
    (hst : ∀ rx, st'.inboundTx = some rx → st.inboundTx = some rx ∧
      (Trace.unread sid (u ++ c.quic) = true → st.readable = true → st'.readable = true)) :
    Alert r key names (c.put sid (u ++ c.quic) st') := by
  refine h.advance rfl id rfl hn ?_
  intro k st'' hk
  rw [Conn.put_lookup] at hk
  split_ifs at hk with he
  · cases hk
    subst k
    exact ⟨st,hl,hst⟩
  · exact ⟨st'',hk,fun _ hrx => ⟨hrx,fun _ => id⟩⟩

theorem remove (h : Alert r key names c) (sid : ℕ) : Alert r key names (c.remove sid) := by
  refine h.advance (u := []) rfl id rfl (by simp) ?_
  intro k st hk
  rw [Conn.remove_lookup] at hk
  split_ifs at hk
  exact ⟨st,hk,fun _ hrx => ⟨hrx,fun _ => id⟩⟩

/-- Data is announced on a stream that has been granted. -/
theorem announce (h : Alert r key names c) (hg : ∃ call ∈ c.quic, r.Grants sid call) :
    Alert r key names ((c.note (.poll sid .data)).markReadable sid) := by
  have hgrant : ∀ k, (c.streams.lookup k).isSome ∨
      Trace.unread k (.poll sid .data :: c.quic) = true →
        ∃ call ∈ (.poll sid .data :: c.quic : Trace), r.Grants k call := by
    intro k hk
    have hold : ∃ call ∈ c.quic, r.Grants k call := by
      rcases hk with hk | hk
      · exact h.granted k (Or.inl hk)
      · obtain rfl | hk := Trace.unread_data hk
        · exact hg
        · exact h.granted k (Or.inr hk)
    exact hold.imp fun _ hc => hc.imp_left (List.mem_cons_of_mem _)
  unfold Conn.markReadable
  cases hl : (c.note (.poll sid .data)).streams.lookup sid with
  | none =>
    refine ⟨h.own,?_,hgrant,h.named,h.dark⟩
    intro k st rx hk hrx hu
    obtain rfl | hu := Trace.unread_data hu
    · exact absurd (hl.symm.trans hk) (by simp)
    · exact h.lit k st rx hk hrx hu
  | some st =>
    simp only
    have hl : c.streams.lookup sid = some st := hl
    refine ⟨h.own,?_,?_,?_,?_⟩
    · intro k st' rx hk hrx hu
      rw [Conn.put_lookup] at hk
      split_ifs at hk with he
      · cases hk
        rfl
      · obtain rfl | hu := Trace.unread_data hu
        · exact absurd rfl he
        · exact h.lit k st' rx hk hrx hu
    · intro k hk
      refine hgrant k (hk.imp_left ?_)
      intro hsome
      by_cases he : k = sid
      · subst k
        rw [hl]
        rfl
      · rwa [Conn.put_lookup, if_neg he] at hsome
    · intro k st' rx hk hrx
      rw [Conn.put_lookup] at hk
      split_ifs at hk with he
      · cases hk
        exact he ▸ h.named sid st rx hl hrx
      · exact h.named k st' rx hk hrx
    · intro hd
      rw [(h.dark hd).2 sid] at hl
      contradiction

theorem markReadable (h : Alert r key names c) (sid : ℕ) :
    Alert r key names (c.markReadable sid) := by
  unfold Conn.markReadable
  cases hl : c.streams.lookup sid with
  | none => exact h
  | some st => exact h.put (u := []) hl (by simp) fun _ hrx => ⟨hrx,fun _ _ => rfl⟩

theorem queue (h : Alert r key names c) (sid : ℕ) (out : StreamOut) :
    Alert r key names (c.queue sid out) := by
  unfold Conn.queue
  cases hl : c.streams.lookup sid with
  | none => exact h
  | some st =>
    refine h.put (u := []) hl (by simp) fun rx hrx => ?_
    cases out with
    | data b => exact ⟨hrx,fun _ => id⟩
    | fin => exact ⟨hrx,fun _ => id⟩
    | closed => exact ⟨hrx,fun _ => id⟩

/-- A new tunnel on a stream with nothing unread, and its bridge. -/
theorem enter (h : Alert r key names c) (hh : c.h3 = true) (hu : c.quic.unread sid = false)
    (hg : ∃ call ∈ c.quic, r.Grants sid call) :
    Alert r key names
      { c.enter sid with spawned := c.spawned ++ [.new key sid c.quic.length] } := by
  refine ⟨?_,?_,?_,?_,?_⟩
  · intro q hq
    rcases List.mem_append.mp hq with hq | hq
    · exact h.own q hq
    · rw [List.mem_singleton.mp hq]
      rfl
  · intro k st rx hk hrx hk'
    have hk' : c.quic.unread k = true := Trace.unread_of_cons rfl hk'
    simp only [Conn.enter, Conn.put_lookup] at hk
    split_ifs at hk with he
    · rw [he, hu] at hk'
      contradiction
    · exact h.lit k st rx hk hrx hk'
  · intro k hk
    have hold : ∃ call ∈ c.quic, r.Grants k call := by
      by_cases he : k = sid
      · exact he ▸ hg
      · simp only [Conn.enter, Conn.put_lookup, if_neg he] at hk
        exact h.granted k (hk.imp_right (Trace.unread_of_cons rfl))
    exact hold.imp fun _ hc => hc.imp_left (List.mem_cons_of_mem _)
  · intro k st rx hk hrx
    simp only [Conn.enter, Conn.put_lookup] at hk
    rw [List.map_append, ← List.append_assoc]
    split_ifs at hk with he
    · cases hk
      cases hrx
      subst k
      exact List.mem_append_right _ (by simp [QuicStream.new, QuicStream.name])
    · exact List.mem_append_left _ (h.named k st rx hk hrx)
  · intro hd
    exact absurd (hh.symm.trans hd) (by simp)

theorem mono (h : Alert r key names c) {names' : List (Bytes × ℕ × ℕ)} (hn : names ⊆ names') :
    Alert r key names' c :=
  ⟨h.own,h.lit,h.granted,fun sid st rx hl hrx => (List.mem_append.mp (h.named sid st rx hl hrx)).elim
    (fun hm => List.mem_append_left _ (hn hm)) fun hm => List.mem_append_right _ hm,h.dark⟩

/-- A connection that a packet has just opened. -/
theorem accepted {env : ServerEnv} {cfg : ServerCfg} {peer : SocketAddr} {odcid pkt : Bytes} :
    Alert (.server env cfg) key names ⟨[.recv peer pkt,.accept peer odcid key],false,∅,[]⟩ := by
  refine ⟨by simp,?_,?_,?_,fun _ => ⟨rfl,fun _ => rfl⟩⟩
  · exact fun sid st rx hl => by cases hl
  · rintro sid (hs | hu)
    · cases hs
    · cases hu
  · exact fun sid st rx hl => by cases hl

/-- The runtime takes over the spawned bridges. -/
theorem adopt (h : Alert r key names c) :
    Alert r key (names ++ c.spawned.map QuicStream.name) { c with spawned := [] } :=
  ⟨by simp,h.lit,h.granted,fun sid st rx hl hrx => by simpa using h.named sid st rx hl hrx,h.dark⟩

end Alert

theorem Call.isData_poll {e : H3Event} (h : e ≠ .data) (sid : ℕ) :
    (Call.poll sid e).isData = false := by
  cases e <;> first | rfl | contradiction

theorem Call.isData_of_stream {call : Call} (h : call.stream = none) : call.isData = false := by
  cases call <;> first | rfl | contradiction

theorem Conn.markReadable_h3 (c : Conn) (sid : ℕ) : (c.markReadable sid).h3 = c.h3 := by
  unfold Conn.markReadable
  split <;> rfl

namespace Server
variable {env : ServerEnv} {cfg : ServerCfg} {key : Bytes} {names : List (Bytes × ℕ × ℕ)} {c : Conn}

/-- The reaction to an event makes calls on the connection, and none of them announces data. -/
theorem handleEvent_calls (env : ServerEnv) (cfg : ServerCfg) (key : Bytes) (c : Conn) (sid : ℕ)
    (e : H3Event) : ∃ new : Trace, (handleEvent env cfg key c sid e).quic = new ++ c.quic ∧
      ∀ call ∈ new, call.isData = false := by
  cases e with
  | headers list =>
    simp only [handleEvent, handleHeaders]
    split
    · simp only [sendFake404]
      split
      · exact ⟨[.sendBody sid _ true _,.sendResponse sid _ false _],rfl,by simp [Call.isData]⟩
      · exact ⟨[.sendResponse sid _ false _],rfl,by simp [Call.isData]⟩
    · split
      · exact ⟨[.streamShutdown sid .write,.sendResponse sid _ false _],rfl,by simp [Call.isData]⟩
      · exact ⟨[.tunnel sid,.sendResponse sid _ false _],rfl,by simp [Call.isData]⟩
  | data =>
    simp only [handleEvent]
    split
    · exact ⟨[],c.markReadable_quic sid,by simp⟩
    · exact ⟨[.streamShutdown sid .read],rfl,by simp [Call.isData]⟩
  | finished => exact ⟨[],c.markReadable_quic sid,by simp⟩
  | reset code => exact ⟨[],rfl,by simp⟩
  | priorityUpdate => exact ⟨[],rfl,by simp⟩
  | goAway => exact ⟨[],rfl,by simp⟩

/-- Data on a stream without an entry is not read: the stream is shut down for reading. -/
theorem alert_refuse (h : Alert (.server env cfg) key names c) (sid : ℕ) :
    Alert (.server env cfg) key names ((c.note (.poll sid .data)).note (.streamShutdown sid .read)) := by
  have hu : ∀ k, Trace.unread k (.streamShutdown sid .read :: .poll sid .data :: c.quic) = true →
      c.quic.unread k = true := by
    intro k hk
    simp only [Trace.unread, Bool.and_eq_true, decide_eq_true_eq, Bool.or_eq_true] at hk
    exact hk.2.resolve_left hk.1
  refine ⟨h.own,fun k st rx hl hrx hk => h.lit k st rx hl hrx (hu k hk),?_,h.named,h.dark⟩
  intro k hk
  obtain ⟨call,hc,hg⟩ := h.granted k (hk.imp_right (hu k))
  exact ⟨call,List.mem_cons_of_mem _ (List.mem_cons_of_mem _ hc),hg⟩

theorem alert_eventStep (h : Alert (.server env cfg) key names c) (hh : c.h3 = true) (p : ℕ × H3Event) :
    Alert (.server env cfg) key names (eventStep (handleEvent env cfg key) c p) ∧
      (eventStep (handleEvent env cfg key) c p).h3 = true := by
  obtain ⟨sid,e⟩ := p
  unfold eventStep
  by_cases hd : e = .data
  · subst e
    simp only [handleEvent]
    split
    · rename_i st hl
      have hl : c.streams.lookup sid = some st := hl
      refine ⟨h.announce (h.granted sid (Or.inl (by simp [hl]))),?_⟩
      rw [Conn.markReadable_h3]
      exact hh
    · exact ⟨alert_refuse h sid,hh⟩
  · have hn : Alert (.server env cfg) key names (c.note (.poll sid e)) := h.note (Call.isData_poll hd sid)
    obtain ⟨new,_,he⟩ | he | ⟨_,he⟩ | ⟨resp,ha,he⟩ :=
      handleEvent_spec env cfg key (c.note (.poll sid e)) sid e
    · obtain ⟨new',hq,hn'⟩ := handleEvent_calls env cfg key (c.note (.poll sid e)) sid e
      rw [he] at hq ⊢
      have : new = new' := List.append_cancel_right hq
      subst this
      exact ⟨hn.append hn',hh⟩
    · rw [he, Conn.markReadable_h3]
      exact ⟨hn.markReadable sid,hh⟩
    · rw [he]
      exact ⟨hn.remove sid,hh⟩
    · rw [he]
      have hresp : Alert (.server env cfg) key names
          ((c.note (.poll sid e)).note (.sendResponse sid resp false true)) := hn.note rfl
      refine ⟨hresp.enter hh ?_ ⟨_,List.mem_cons_self,resp,false,rfl⟩,hh⟩
      -- a stream with unread bytes has been answered, and a second response would have failed
      rw [← Bool.not_eq_true]
      intro hu
      obtain ⟨_,hm,hs,f,rfl⟩ := hn.granted sid (Or.inr (Trace.unread_of_cons rfl hu))
      rw [env.sendResponse_once hm] at ha
      contradiction

end Server
namespace Client
variable {env : Env} {cfg : ClientCfg} {peer : SocketAddr} {scid : Bytes} {first : OpenReq}
  {key : Bytes} {names : List (Bytes × ℕ × ℕ)} {c : Conn}

theorem alert_eventStep (h : Alert (.client env cfg peer scid first) key names c) (p : ℕ × H3Event)
    (hg : p.2 = .data → ∃ call ∈ c.quic, Grants p.1 call) :
    Alert (.client env cfg peer scid first) key names (eventStep handleEvent c p) ∧
      c.quic ⊆ (eventStep handleEvent c p).quic := by
  obtain ⟨sid,e⟩ := p
  have hsub : c.quic ⊆ .poll sid e :: c.quic := List.subset_cons_self _ _
  unfold eventStep
  by_cases hd : e = .data
  · subst e
    rw [handleEvent, Conn.markReadable_quic]
    exact ⟨h.announce (hg rfl),hsub⟩
  · have hn : Alert (.client env cfg peer scid first) key names (c.note (.poll sid e)) :=
      h.note (Call.isData_poll hd sid)
    obtain he | he | ⟨_,he⟩ | ⟨_,he⟩ := handleEvent_spec (c.note (.poll sid e)) sid e
    · rw [he]
      exact ⟨hn,hsub⟩
    · rw [he, Conn.markReadable_quic]
      exact ⟨hn.markReadable sid,hsub⟩
    · rw [he]
      exact ⟨hn.remove sid,hsub⟩
    · rw [he]
      exact ⟨(hn.remove sid).note rfl,List.subset_cons_of_subset _ hsub⟩

/-- A request may open a tunnel. It has nothing unread, and what was there before is untouched. -/
theorem alert_openStream (h : Alert (.client env cfg peer scid first) [] names c)
    (hs : c.spawned = []) (req : OpenReq) : let c' := (openStream env cfg c req).1
    Alert (.client env cfg peer scid first) [] names c' ∧ ∀ sid st,
      c'.streams.lookup sid = some st → st.readable = true →
        c.streams.lookup sid = some st ∧ ∀ q ∈ c'.spawned, q.streamId ≠ sid := by
  intro c'
  have hh : c.h3 = true := by
    rw [← Bool.not_eq_false]
    intro hd
    exact absurd (h.dark hd).1 (by simp [Role.lazy])
  obtain ⟨call,hcall,he⟩ | ⟨sid,hs',ha,he⟩ := openStream_spec env cfg c req
  · rw [show c' = c.note call from he]
    refine ⟨h.note (Call.isData_of_stream hcall),fun k st hl _ => ⟨hl,?_⟩⟩
    simp [Conn.note, hs]
  · have hn : Alert (.client env cfg peer scid first) [] names
        (c.note (.sendRequest hs' false (.ok sid))) := h.note rfl
    -- the stream is new, so nothing of it can be unread
    have hu : c.quic.unread sid = false := by
      rw [← Bool.not_eq_true]
      intro hu
      obtain ⟨_,hm,hs,f,rfl⟩ := h.granted sid (Or.inr hu)
      exact env.sendRequest_fresh ha hs f hm
    have hopen := hn.enter hh hu ⟨_,List.mem_cons_self,hs',false,rfl⟩
    rcases he with he | he
    · rw [show c' = _ from he]
      have hold : ∀ k st,
          (((c.note (.sendRequest hs' false (.ok sid))).enter sid).remove sid).streams.lookup k = some st →
            c.streams.lookup k = some st := by
        intro k st hl
        simp only [Conn.remove_lookup, Conn.enter, Conn.put_lookup] at hl
        split_ifs at hl
        exact hl
      refine ⟨hn.advance (u := [.streamShutdown sid .read,.streamShutdown sid .write,.tunnel sid]) rfl id
        rfl (by simp [Call.isData]) fun k st hl => ⟨st,hold k st hl,fun _ hrx => ⟨hrx,fun _ => id⟩⟩,?_⟩
      refine fun k st hl _ => ⟨hold k st hl,?_⟩
      simp [Conn.note, Conn.remove, Conn.enter, Conn.put, hs]
    · rw [show c' = _ from he]
      refine ⟨hopen,?_⟩
      intro k st hl hr
      simp only [Conn.enter, Conn.put_lookup] at hl
      split_ifs at hl with hk
      · cases hl
        contradiction
      · refine ⟨hl,?_⟩
        simpa [hs, QuicStream.new] using Ne.symm hk

end Client

/-- Every entry of the one connection is in the other, in the same state for reading. -/
def Conn.Within (c c' : Conn) : Prop := ∀ sid st, c.streams.lookup sid = some st →
  ∃ st', c'.streams.lookup sid = some st' ∧ st.inboundTx = st'.inboundTx ∧ st.readable = st'.readable

theorem Conn.Within.refl (c : Conn) : c.Within c := fun _ st hl => ⟨st,hl,rfl,rfl⟩

theorem Conn.Within.trans {c₁ c₂ c₃ : Conn} (h : c₁.Within c₂) (h' : c₂.Within c₃) : c₁.Within c₃ := by
  intro sid st hl
  obtain ⟨st',hl',htx,hr⟩ := h sid st hl
  obtain ⟨st'',hl'',htx',hr'⟩ := h' sid st' hl'
  exact ⟨st'',hl'',htx.trans htx',hr.trans hr'⟩

namespace Alert
variable {r : Role} {key : Bytes} {names : List (Bytes × ℕ × ℕ)} {c c' : Conn}
  {sid : ℕ} {st : StreamState} {u : Trace}

theorem within (h : Alert r key names c) (hs : c'.spawned = c.spawned) (hh : c'.h3 = c.h3)
    (hq : c'.quic = u ++ c.quic) (hu : ∀ call ∈ u, call.isData = false) (hw : c'.Within c) :
    Alert r key names c' := by
  refine h.advance hs (fun hd => hh.symm.trans hd) hq hu fun k st' hl => ?_
  obtain ⟨st,hl',htx,hr⟩ := hw k st' hl
  exact ⟨st,hl',fun rx hrx => ⟨htx.symm.trans hrx,fun _ hst => hr.trans hst⟩⟩

/-- The passes after `pump_inbound` drop entries, and leave the others as they are for reading. -/
theorem outbound (env : Env) (h : Alert r key names c) :
    let c' := reapStreams env (pumpOutbound env c)
    Alert r key names c' ∧ c'.spawned = c.spawned ∧ c'.Within c := by
  have hpump : ∀ c' sid, Alert r key names c' ∧ c'.spawned = c.spawned ∧ c'.Within c →
      Alert r key names (pumpOutboundAt env c' sid) ∧
        (pumpOutboundAt env c' sid).spawned = c.spawned ∧ (pumpOutboundAt env c' sid).Within c := by
    rintro c' sid ⟨hc,hs,hw⟩
    obtain he | ⟨st,st',new,hl,he,hn,_,_,_,htx,hr⟩ := pumpOutboundAt_spec env c' sid
    · rw [he]
      exact ⟨hc,hs,hw⟩
    · have hw' : Conn.Within (c'.put sid (new ++ c'.quic) st') c' := by
        intro k st'' hk
        rw [Conn.put_lookup] at hk
        split_ifs at hk with hks
        · cases hk
          subst k
          exact ⟨st,hl,htx,hr⟩
        · exact ⟨st'',hk,rfl,rfl⟩
      rw [he]
      exact ⟨hc.within rfl rfl rfl (fun call hm => (hn call hm).isData) hw',hs,hw'.trans hw⟩
  have hreap : ∀ c' sid, Alert r key names c' ∧ c'.spawned = c.spawned ∧ c'.Within c →
      Alert r key names (reapAt env c' sid) ∧ (reapAt env c' sid).spawned = c.spawned ∧
        (reapAt env c' sid).Within c := by
    rintro c' sid ⟨hc,hs,hw⟩
    obtain he | ⟨st,new,_,_,_,he,hn,_⟩ := reapAt_spec env c' sid
    · rw [he]
      exact ⟨hc,hs,hw⟩
    · have hw' : (Conn.remove { c' with quic := new ++ c'.quic } sid).Within c' := by
        intro k st' hk
        rw [Conn.remove_lookup] at hk
        split_ifs at hk
        exact ⟨st',hk,rfl,rfl⟩
      rw [he]
      exact ⟨hc.within rfl rfl rfl (fun call hm => (hn call hm).isData) hw',hs,hw'.trans hw⟩
  exact Run.induction hreap _ (Run.induction hpump _ ⟨h,rfl,Conn.Within.refl c⟩)

/-- A turn of `pump_inbound`. Where it is the last one, a mark is left only if the channel is full. -/
theorem pumpTurn (env : Env) (h : Alert r key names c) (hl : c.streams.lookup sid = some st)
    (slot : Slot) : let p := pumpTurn env sid slot c.quic st
    Alert r key names (c.put sid p.1 p.2.1) ∧
      (p.2.2 = none → ∀ rx, p.2.1.inboundTx = some rx → p.2.1.readable = true →
        st.inboundTx = some rx ∧ slot = .full) := by
  cases slot with
  | permit =>
    simp only [EchTunnel.pumpTurn]
    cases ha : env.recvBody c.quic sid with
    | ok b =>
      refine ⟨h.put (u := [.recvBody sid (.ok b)]) hl (by simp [Call.isData]) ?_,by simp⟩
      exact fun rx hrx => ⟨hrx,fun _ => id⟩
    | done =>
      refine ⟨?_,by simp⟩
      generalize env.streamFinished (.recvBody sid .done :: c.quic) sid = finished
      refine h.put (u := [.streamFinished sid finished,.recvBody sid .done]) hl
        (by simp [Call.isData]) fun rx hrx => ?_
      -- the bytes have been read to the end
      obtain ⟨_,hrx⟩ := Option.ite_none_left_eq_some.mp hrx
      exact ⟨hrx,by simp [Trace.unread]⟩
    | err =>
      refine ⟨h.put (u := [.recvBody sid .err]) hl (by simp [Call.isData]) ?_,by simp⟩
      simp
  | full =>
    refine ⟨h.put (u := []) hl (by simp) fun rx hrx => ⟨hrx,fun _ => id⟩,?_⟩
    exact fun _ rx hrx _ => ⟨hrx,rfl⟩
  | closed =>
    refine ⟨h.put (u := [.streamShutdown sid .read]) hl (by simp [Call.isData]) ?_,?_⟩
    · simp [EchTunnel.pumpTurn]
    · simp [EchTunnel.pumpTurn]

end Alert
namespace Server
variable {env : ServerEnv} {cfg : ServerCfg} {c c' : Conn}

theorem polled_h3 (h : polled env cfg c = some c') : c'.h3 = true := by
  unfold polled at h
  split_ifs at h with hn hs hh
  · cases h
    exact hs.2
  · cases h
    exact hh

theorem h3_of_polled (h : polled env cfg c = none) : c.h3 = false := by
  rw [← Bool.not_eq_true]
  intro hh
  simp [polled, hh] at h

end Server
namespace Role

/-- Data comes only on streams that the connection has: those the client has opened. -/
def Announces : Role → Prop
  | .server .. => True
  | .client env .. => ∀ t sid, (sid,.data) ∈ env.polls t → ∃ call ∈ t, Client.Grants sid call

variable {r : Role} {key : Bytes} {names : List (Bytes × ℕ × ℕ)} {c : Conn}

/-- All events handled, the connection is alert. -/
theorem alert_pollH3 (h : Alert r key names c) (hr : r.Announces) (c' : Conn)
    (hp : r.polled c = some c') : Alert r key names (pollH3 r.env (r.handleEvent key) c') := by
  cases r with
  | server env cfg =>
    have hc' : Alert (.server env cfg) key names c' := by
      obtain ⟨new,h3,_,hn,⟨hp',_⟩ | ⟨hp',_⟩⟩ := Server.service_spec env cfg key c
      · exact absurd (hp'.symm.trans hp) (by simp)
      · cases hp'.symm.trans hp
        have hh : h3 = true := Server.polled_h3 hp
        exact h.advance (u := new) rfl (by simp [hh]) rfl
          (fun call hm => Call.isData_of_stream (hn call hm).1)
          fun _ st hl => ⟨st,hl,fun _ hrx => ⟨hrx,fun _ => id⟩⟩
    exact (Run.induction (I := fun c => Alert (.server env cfg) key names c ∧ c.h3 = true)
      (fun c p hc => Server.alert_eventStep hc.1 hc.2 p) _ ⟨hc',Server.polled_h3 hp⟩).1
  | client env cfg peer scid first =>
    cases hp
    have hm : Run.Meets (eventStep Client.handleEvent) (fun _ p => p ∈ env.polls c.quic) c
        (env.polls c.quic) := Run.Meets.of_mem (fun _ _ hp => hp) c
    refine (hm.induction
      (I := fun c' => Alert (.client env cfg peer scid first) key names c' ∧ c.quic ⊆ c'.quic)
      ?_ ⟨h,List.Subset.refl _⟩).1
    rintro c' ⟨sid,e⟩ ⟨hc',hsub⟩ hp
    have hg : e = .data → ∃ call ∈ c'.quic, Client.Grants sid call := by
      rintro rfl
      obtain ⟨call,hc,hg⟩ := hr c.quic sid hp
      exact ⟨call,hsub hc,hg⟩
    obtain ⟨hn,hsub'⟩ := Client.alert_eventStep hc' (sid,e) hg
    exact ⟨hn,List.Subset.trans hsub hsub'⟩

theorem alert_skip (h : Alert r key names c) (hp : r.polled c = none) :
    Alert r key names (r.skip key c) ∧ (r.skip key c).spawned = c.spawned ∧
      ∀ sid, (r.skip key c).streams.lookup sid = none := by
  cases r with
  | server env cfg =>
    have hd : ∀ sid, c.streams.lookup sid = none := (h.dark (Server.h3_of_polled hp)).2
    obtain ⟨new,h3,ok,hn,⟨_,he⟩ | ⟨hp',_⟩⟩ := Server.service_spec env cfg key c
    · rw [show skip key (.server env cfg) c = _ from he]
      refine ⟨h.advance (u := .flushPackets ok :: new) rfl (fun _ => Server.h3_of_polled hp) rfl ?_ ?_,rfl,hd⟩
      · refine List.forall_mem_cons.mpr ⟨rfl,fun call hm => Call.isData_of_stream (hn call hm).1⟩
      · exact fun _ st hl => ⟨st,hl,fun _ hrx => ⟨hrx,fun _ => id⟩⟩
    · exact absurd (hp.symm.trans hp') (by simp)
  | client env cfg peer scid first => contradiction

end Role
end EchTunnel
