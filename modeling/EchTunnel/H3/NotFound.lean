import EchTunnel.H3.Server
import EchTunnel.Quic.Egress

/-! The 404 that a probe on HTTP/3 gets, followed through the life of its connection. -/
namespace EchTunnel
open Wire

/-- The headers of the 404. -/
def Server.fake404Headers (serverName : String) : List Header :=
  [header ":status" "404",header "server" serverName,header "content-type" "text/html",
    header "content-length" (toString FAKE_404_BODY.length)]

/-- The header list, if the call reports one on this stream. -/
def Call.headersOn (sid : ℕ) : Call → Option (List Header)
  | .poll s (.headers list) => if s = sid then some list else none
  | _ => none

/-- The body handed to `send_body`, if the call does that on this stream. -/
def Call.bodyOn (sid : ℕ) : Call → Option (Bytes × Bool × SendBody)
  | .sendBody s body fin a => if s = sid then some (body,fin,a) else none
  | _ => none

namespace Trace

/-- The request on a stream: the first header list that is reported on it. -/
def requestOn (t : Trace) (sid : ℕ) : Option (List Header) := (t.filterMap (Call.headersOn sid)).getLast?

/-- What was handed to `send_body` on a stream, newest first. -/
def bodies (t : Trace) (sid : ℕ) : List (Bytes × Bool × SendBody) := t.filterMap (Call.bodyOn sid)

/-- The part of it that `quiche` has taken, in order. -/
def bodyTaken (t : Trace) (sid : ℕ) : Bytes :=
  (t.bodies sid).reverse.flatMap fun (body,_,a) => match a with | .ok n => body.take n | _ => []

/-- The end of the response is taken, too. -/
def FinTaken (t : Trace) (sid : ℕ) : Prop := ∃ body, (body,true,.ok body.length) ∈ t.bodies sid

end Trace

namespace Conn

/-- What the server still holds for a stream. -/
def queued (c : Conn) (sid : ℕ) : Bytes :=
  match c.streams.lookup sid with
  | none => []
  | some st => st.pending.flatten

def FinQueued (c : Conn) (sid : ℕ) : Prop :=
  ∃ st ∈ c.streams.lookup sid, st.finPending = true ∧ st.finSent = false

/-- What `quiche` has accepted of the 404 and what the server still holds of it are all of it. -/
def Answered404 (c : Conn) (serverName : String) (sid : ℕ) : Prop :=
  .sendResponse sid (Server.fake404Headers serverName) false true ∈ c.quic ∧
    c.quic.bodyTaken sid ++ c.queued sid = FAKE_404_BODY ∧ (c.quic.FinTaken sid ∨ c.FinQueued sid)

end Conn

namespace Server

/-- When a stream asks for something that is not the tunnel, its headers are accepted and the whole
body is. -/
def Takes404 (env : ServerEnv) (cfg : ServerCfg) (c : Conn) : ℕ × H3Event → Prop
  | (sid,.headers list) =>
    c.quic.requestOn sid = none → ¬ (Request.ofHeaders list).isTunnel cfg →
      env.sendResponse (.poll sid (.headers list) :: c.quic) sid (Server.fake404Headers cfg.serverName) false = true ∧
      env.sendBody (.sendResponse sid (Server.fake404Headers cfg.serverName) false true ::
        .poll sid (.headers list) :: c.quic) sid FAKE_404_BODY true = .ok FAKE_404_BODY.length
  | _ => True

instance (env : ServerEnv) (cfg : ServerCfg) (c : Conn) : (p : ℕ × H3Event) → Decidable (Takes404 env cfg c p)
  | (_,.headers _) => inferInstanceAs (Decidable (_ → _ → _ ∧ _))
  | (_,.data) | (_,.finished) | (_,.reset _) | (_,.priorityUpdate) | (_,.goAway) => isTrue trivial

end Server

section Settled
variable {cfg : ServerCfg} {c : Conn} {sid : ℕ} {t new : Trace}

/-- A stream without a request has nothing to it; one with a probe has the 404, sent at once. -/
def Conn.Settled (cfg : ServerCfg) (c : Conn) (sid : ℕ) : Prop :=
  match c.quic.requestOn sid with
  | none => c.streams.lookup sid = none ∧ c.quic.bodies sid = []
  | some list => ¬ (Server.Request.ofHeaders list).isTunnel cfg →
      c.streams.lookup sid = none ∧
        c.quic.bodies sid = [(FAKE_404_BODY,true,.ok FAKE_404_BODY.length)] ∧
        .sendResponse sid (Server.fake404Headers cfg.serverName) false true ∈ c.quic

theorem Conn.Settled.answered (h : c.Settled cfg sid) {list : List Header}
    (hr : c.quic.requestOn sid = some list) (hp : ¬ (Server.Request.ofHeaders list).isTunnel cfg) :
    c.Answered404 cfg.serverName sid := by
  rw [Settled, hr] at h
  obtain ⟨hl,hb,hm⟩ := h hp
  refine ⟨hm,?_,Or.inl ⟨FAKE_404_BODY,by rw [hb]; exact List.mem_singleton_self _⟩⟩
  have hq : c.queued sid = [] := by rw [queued, hl]
  rw [hq, Trace.bodyTaken, hb]
  simp

theorem Call.headersOn_eq_none {call : Call} (h : call.stream ≠ some sid) : call.headersOn sid = none := by
  unfold headersOn
  split
  · rename_i s list
    exact if_neg fun he : s = sid => h (congrArg some he)
  · rfl

theorem Call.bodyOn_eq_none {call : Call} (h : call.stream ≠ some sid) : call.bodyOn sid = none := by
  unfold bodyOn
  split
  · rename_i s body fin a
    exact if_neg fun he : s = sid => h (congrArg some he)
  · rfl

theorem Trace.requestOn_append (h : ∀ call ∈ new, call.headersOn sid = none) :
    requestOn (new ++ t) sid = requestOn t sid := by
  rw [requestOn, List.filterMap_append, List.filterMap_eq_nil_iff.mpr h, List.nil_append, requestOn]

theorem Trace.bodies_append (h : ∀ call ∈ new, call.bodyOn sid = none) :
    bodies (new ++ t) sid = bodies t sid := by
  rw [bodies, List.filterMap_append, List.filterMap_eq_nil_iff.mpr h, List.nil_append, bodies]

/-- A stream stays settled while neither header lists nor bodies are added, and its entry stays. -/
theorem Conn.Settled.append (h : c.Settled cfg sid) (new : Trace) {c' : Conn} (hq : c'.quic = new ++ c.quic)
    (hh : ∀ call ∈ new, call.headersOn sid = none) (hb : ∀ call ∈ new, call.bodyOn sid = none)
    (hl : c.streams.lookup sid = none → c'.streams.lookup sid = none) : c'.Settled cfg sid := by
  unfold Settled at h ⊢
  rw [hq, Trace.requestOn_append hh, Trace.bodies_append hb]
  cases hr : c.quic.requestOn sid with
  | none =>
    rw [hr] at h
    exact ⟨hl h.1,h.2⟩
  | some list =>
    rw [hr] at h
    intro hp
    obtain ⟨hl',hb',hm⟩ := h hp
    exact ⟨hl hl',hb',List.mem_append_right new hm⟩

theorem Conn.Settled.note (h : c.Settled cfg sid) {call : Call} (hc : call.stream = none) :
    (c.note call).Settled cfg sid := by
  refine h.append [call] rfl ?_ ?_ id
  · simp [Call.headersOn_eq_none, hc]
  · simp [Call.bodyOn_eq_none, hc]

/-- What happens to a stream that has an entry settles nothing anew: it is no probe. -/
theorem Conn.Settled.tunnel (h : c.Settled cfg sid) {c' : Conn} {k : ℕ} {st : StreamState}
    (hk : c.streams.lookup k = some st) (hq : c'.quic = new ++ c.quic)
    (hn : ∀ call ∈ new, call.stream = some k ∧ call.headersOn k = none)
    (hl : sid ≠ k → c'.streams.lookup sid = c.streams.lookup sid) : c'.Settled cfg sid := by
  by_cases hs : sid = k
  · subst hs
    have hreq : c'.quic.requestOn sid = c.quic.requestOn sid := by
      rw [hq]
      exact Trace.requestOn_append fun call hc => (hn call hc).2
    unfold Settled at h ⊢
    rw [hreq]
    cases hr : c.quic.requestOn sid with
    | none =>
      rw [hr, hk] at h
      exact absurd h.1 nofun
    | some list =>
      rw [hr, hk] at h
      exact fun hp => absurd (h hp).1 nofun
  · have hne : ∀ call ∈ new, call.stream ≠ some sid := by
      intro call hc he
      rw [(hn call hc).1, Option.some.injEq] at he
      exact hs he.symm
    exact h.append new hq (fun call hc => Call.headersOn_eq_none (hne call hc))
      (fun call hc => Call.bodyOn_eq_none (hne call hc)) fun hc => (hl hs).trans hc

/-- Whatever is reported later, the request is the first. -/
theorem Trace.requestOn_of_some {list : List Header} (h : requestOn t sid = some list) :
    requestOn (new ++ t) sid = some list := by
  rw [requestOn] at h ⊢
  rw [List.filterMap_append, List.getLast?_append, h]
  rfl

/-- A stream that has its request stays settled if no body is added and its entry stays. -/
theorem Conn.Settled.extend (h : c.Settled cfg sid) (new : Trace) {c' : Conn} (hq : c'.quic = new ++ c.quic)
    (hr : c.quic.requestOn sid ≠ none) (hb : ∀ call ∈ new, call.bodyOn sid = none)
    (hl : c'.streams.lookup sid = c.streams.lookup sid) : c'.Settled cfg sid := by
  obtain ⟨list,hr⟩ := Option.ne_none_iff_exists'.mp hr
  unfold Settled at h ⊢
  rw [hq, Trace.requestOn_of_some hr, Trace.bodies_append hb, hl]
  rw [hr] at h
  exact fun hp => (h hp).imp_right (And.imp_right (List.mem_append_right new))

end Settled

namespace Server
variable {env : ServerEnv} {cfg : ServerCfg} {key : Bytes} {c : Conn} {sid k : ℕ}

theorem sendFake404_eq (env : ServerEnv) (serverName : String) (c : Conn) (sid : ℕ) :
    sendFake404 env serverName c sid =
      if env.sendResponse c.quic sid (fake404Headers serverName) false then
        let c := c.note (.sendResponse sid (fake404Headers serverName) false true)
        c.note (.sendBody sid FAKE_404_BODY true (env.sendBody c.quic sid FAKE_404_BODY true))
      else c.note (.sendResponse sid (fake404Headers serverName) false false) := by
  change (let ok := env.sendResponse c.quic sid (fake404Headers serverName) false
    let c := c.note (.sendResponse sid (fake404Headers serverName) false ok)
    if ok then c.note (.sendBody sid FAKE_404_BODY true (env.sendBody c.quic sid FAKE_404_BODY true))
    else c) = _
  cases env.sendResponse c.quic sid (fake404Headers serverName) false <;> rfl

theorem markReadable_lookup_none (c : Conn) (k : ℕ) (h : c.streams.lookup sid = none) :
    (c.markReadable k).streams.lookup sid = none := by
  unfold Conn.markReadable
  split
  · exact h
  · rename_i st hk
    rw [Conn.put_lookup]
    split_ifs with hs
    · rw [hs, hk] at h
      exact absurd h nofun
    · exact h

/-- An event that is no header list adds neither header lists nor bodies, and enters nothing. -/
theorem settled_handleEvent {e : H3Event} (he : ∀ list, e ≠ .headers list)
    (h : c.Settled cfg sid) : (eventStep (handleEvent env cfg key) c (k,e)).Settled cfg sid := by
  have hnew : ∀ call ∈ [.poll k e], Call.headersOn sid call = none ∧ Call.bodyOn sid call = none := by
    intro call hc
    rw [List.mem_singleton] at hc
    subst hc
    cases e with
    | headers list => exact absurd rfl (he list)
    | _ => exact ⟨rfl,rfl⟩
  have hnote : (c.note (.poll k e)).Settled cfg sid :=
    h.append [.poll k e] rfl (fun call hc => (hnew call hc).1) (fun call hc => (hnew call hc).2) id
  have hmark : ((c.note (.poll k e)).markReadable k).Settled cfg sid :=
    hnote.append [] (Conn.markReadable_quic _ k) nofun nofun (markReadable_lookup_none _ k)
  cases e with
  | headers list => exact absurd rfl (he list)
  | data =>
    rw [eventStep, handleEvent]
    split
    · exact hmark
    · refine hnote.append [.streamShutdown k .read] rfl ?_ ?_ id
      · simp [Call.headersOn]
      · simp [Call.bodyOn]
  | finished => exact hmark
  | reset code =>
    refine hnote.append [] rfl nofun nofun fun hl => ?_
    rw [eventStep, handleEvent, Conn.remove_lookup, hl, ite_self]
  | priorityUpdate => exact hnote
  | goAway => exact hnote

/-- A header list on another stream. -/
theorem settled_headers_ne {list : List Header} (hk : sid ≠ k) (h : c.Settled cfg sid) :
    (eventStep (handleEvent env cfg key) c (k,.headers list)).Settled cfg sid := by
  have hne : ∀ {call : Call}, call.stream = some k → call.stream ≠ some sid := by
    intro call hc he
    rw [hc, Option.some.injEq] at he
    exact hk he.symm
  have hframe : ∃ new : Trace, (∀ call ∈ new, call.stream = some k) ∧
      (eventStep (handleEvent env cfg key) c (k,.headers list)).quic = new ++ c.quic ∧
      (eventStep (handleEvent env cfg key) c (k,.headers list)).streams.lookup sid =
        c.streams.lookup sid := by
    obtain ⟨new,hn,he⟩ | ⟨resp,_,he⟩ :=
      handleHeaders_spec env cfg key (c.note (.poll k (.headers list))) k list
    · refine ⟨new ++ [.poll k (.headers list)],?_,?_,?_⟩
      · intro call hc
        rw [List.mem_append, List.mem_singleton] at hc
        obtain hc | rfl := hc
        · exact (hn call hc).1
        · rfl
      · rw [eventStep, handleEvent, he, List.append_assoc]
        rfl
      · rw [eventStep, handleEvent, he]
        rfl
    · refine ⟨[.tunnel k,.sendResponse k resp false true,.poll k (.headers list)],?_,?_,?_⟩
      · simp [Call.stream]
      · rw [eventStep, handleEvent, he]
        rfl
      · rw [eventStep, handleEvent, he]
        simp only [Conn.enter, Conn.put_lookup, if_neg hk]
        rfl
  obtain ⟨new,hn,hq,hl⟩ := hframe
  exact h.append new hq (fun call hc => Call.headersOn_eq_none (hne (hn call hc)))
    (fun call hc => Call.bodyOn_eq_none (hne (hn call hc))) fun hc => hl.trans hc

/-- The handler reports nothing itself. -/
theorem handleHeaders_headersOn (env : ServerEnv) (cfg : ServerCfg) (key : Bytes) (c : Conn) (k : ℕ)
    (list : List Header) : ∃ new : Trace, (∀ call ∈ new, ∀ sid, call.headersOn sid = none) ∧
      (handleHeaders env cfg key c k list).quic = new ++ c.quic := by
  unfold handleHeaders
  split
  · unfold sendFake404
    simp only
    split
    · exact ⟨[.sendBody k FAKE_404_BODY true _,.sendResponse k _ false _],by simp [Call.headersOn],rfl⟩
    · exact ⟨[.sendResponse k _ false _],by simp [Call.headersOn],rfl⟩
  · simp only
    split
    · exact ⟨[.streamShutdown k .write,.sendResponse k _ false _],by simp [Call.headersOn],rfl⟩
    · exact ⟨[.tunnel k,.sendResponse k _ false _],by simp [Call.headersOn],rfl⟩

/-- A second header list gets no response. -/
theorem settled_headers_again {list : List Header} (hr : c.quic.requestOn sid ≠ none)
    (h : c.Settled cfg sid) :
    (eventStep (handleEvent env cfg key) c (sid,.headers list)).Settled cfg sid := by
  obtain ⟨request,hreq⟩ := Option.ne_none_iff_exists'.mp hr
  by_cases hp : (Request.ofHeaders request).isTunnel cfg
  · obtain ⟨new,-,hq⟩ := handleHeaders_headersOn env cfg key (c.note (.poll sid (.headers list))) sid list
    have hx : (eventStep (handleEvent env cfg key) c (sid,.headers list)).quic =
        (new ++ [.poll sid (.headers list)]) ++ c.quic := by
      rw [List.append_assoc]
      exact hq
    unfold Conn.Settled
    rw [hx, Trace.requestOn_of_some hreq]
    exact fun hn => absurd hp hn
  · have hm : .sendResponse sid (fake404Headers cfg.serverName) false true ∈ c.quic := by
      unfold Conn.Settled at h
      rw [hreq] at h
      exact (h hp).2.2
    have hno : ∀ resp, env.sendResponse (.poll sid (.headers list) :: c.quic) sid resp false = false :=
      fun resp => env.sendResponse_once (List.mem_cons_of_mem _ hm) resp false
    by_cases ht : (Request.ofHeaders list).isTunnel cfg
    · refine h.extend [.streamShutdown sid .write,.sendResponse sid
        [header ":status" "200",header "server" cfg.serverName] false false,.poll sid (.headers list)]
        ?_ hr (by simp [Call.bodyOn]) ?_
      · simp [eventStep, handleEvent, handleHeaders, ht, hno]
      · simp [eventStep, handleEvent, handleHeaders, ht, hno, Conn.note]
    · refine h.extend [.sendResponse sid (fake404Headers cfg.serverName) false false,
        .poll sid (.headers list)] ?_ hr (by simp [Call.bodyOn]) ?_
      · simp [eventStep, handleEvent, handleHeaders, ht, sendFake404_eq, hno]
      · simp [eventStep, handleEvent, handleHeaders, ht, sendFake404_eq, hno, Conn.note]

/-- The request itself. -/
theorem settled_headers_first {list : List Header} (hr : c.quic.requestOn sid = none)
    (h : c.Settled cfg sid) (ht : Takes404 env cfg c (sid,.headers list)) :
    (eventStep (handleEvent env cfg key) c (sid,.headers list)).Settled cfg sid := by
  have hnow : ∀ new : Trace, (∀ call ∈ new, call.headersOn sid = none) →
      Trace.requestOn (new ++ .poll sid (.headers list) :: c.quic) sid = some list := by
    intro new hn
    rw [Trace.requestOn_append hn, Trace.requestOn, List.filterMap_cons]
    rw [Trace.requestOn, List.getLast?_eq_none_iff] at hr
    simp [Call.headersOn, hr]
  unfold Conn.Settled at h
  rw [hr] at h
  obtain ⟨hl,hb⟩ := h
  by_cases hp : (Request.ofHeaders list).isTunnel cfg
  · obtain ⟨new,hn,hq⟩ := handleHeaders_headersOn env cfg key (c.note (.poll sid (.headers list))) sid list
    have hx : (eventStep (handleEvent env cfg key) c (sid,.headers list)).quic =
        new ++ .poll sid (.headers list) :: c.quic := hq
    unfold Conn.Settled
    rw [hx, hnow new fun call hc => hn call hc sid]
    exact fun hnot => absurd hp hnot
  · obtain ⟨hresp,hbody⟩ := ht hr hp
    have hx : eventStep (handleEvent env cfg key) c (sid,.headers list) =
        { c with quic := [.sendBody sid FAKE_404_BODY true (.ok FAKE_404_BODY.length),
          .sendResponse sid (fake404Headers cfg.serverName) false true] ++
            .poll sid (.headers list) :: c.quic } := by
      rw [eventStep, handleEvent, handleHeaders, if_pos hp, sendFake404_eq]
      simp only [Conn.note_quic, hresp, if_true, hbody]
      rfl
    rw [hx]
    unfold Conn.Settled
    simp only
    rw [hnow _ (by simp [Call.headersOn])]
    intro _
    refine ⟨hl,?_,by simp⟩
    simp only [Trace.bodies, List.cons_append, List.nil_append, List.filterMap_cons, Call.bodyOn, if_true]
    exact congrArg _ hb

theorem settled_eventStep {p : ℕ × H3Event} (h : c.Settled cfg sid) (ht : Takes404 env cfg c p) :
    (eventStep (handleEvent env cfg key) c p).Settled cfg sid := by
  obtain ⟨k,e⟩ := p
  cases e with
  | headers list =>
    by_cases hk : sid = k
    · subst hk
      by_cases hr : c.quic.requestOn sid = none
      · exact settled_headers_first hr h ht
      · exact settled_headers_again hr h
    · exact settled_headers_ne hk h
  | _ => exact settled_handleEvent nofun h

theorem settled_service (h : ∀ sid, c.Settled cfg sid)
    (hs : ∀ c' ∈ polled env cfg c,
      Run.Meets (eventStep (handleEvent env cfg key)) (Takes404 env cfg) c' (env.polls c'.quic))
    (sid : ℕ) : (service env cfg key c).Settled cfg sid := by
  obtain ⟨new,h3,ok,hn,hcase⟩ := service_spec env cfg key c
  have hc : ∀ sid, Conn.Settled cfg { c with quic := new ++ c.quic, h3 } sid := by
    intro sid
    have hne : ∀ call ∈ new, call.stream ≠ some sid := fun call hcall => by simp [(hn call hcall).1]
    exact (h sid).append _ rfl (fun call hcall => Call.headersOn_eq_none (hne call hcall))
      (fun call hcall => Call.bodyOn_eq_none (hne call hcall)) id
  obtain ⟨_,he⟩ | ⟨hp,he⟩ := hcase
  · rw [he]
    exact (hc sid).note rfl
  · rw [he]
    refine Conn.Settled.note ?_ rfl
    revert sid
    refine exchange_induction (P := fun c => ∀ sid, c.Settled cfg sid) env.toEnv hc (hs _ hp)
      (fun c p hc ht sid => settled_eventStep (hc sid) ht) ?_ ?_ ?_
    · intro c k hc sid
      obtain he | ⟨st,st',new,hl,he,hn,_⟩ := pumpInboundAt_spec env.toEnv c k
      · rw [he]
        exact hc sid
      · rw [he]
        refine (hc sid).tunnel hl rfl (fun call hcall => ⟨(hn call hcall).stream,?_⟩) fun hne => ?_
        · cases call <;> first | rfl | exact absurd (hn _ hcall) (by simp [Call.Inbound])
        · rw [Conn.put_lookup, if_neg hne]
    · intro c k hc sid
      obtain he | ⟨st,st',new,hl,he,hn,_⟩ := pumpOutboundAt_spec env.toEnv c k
      · rw [he]
        exact hc sid
      · rw [he]
        refine (hc sid).tunnel hl rfl (fun call hcall => ⟨(hn call hcall).stream,?_⟩) fun hne => ?_
        · cases call <;> first | rfl | exact absurd (hn _ hcall) (by simp [Call.Outbound])
        · rw [Conn.put_lookup, if_neg hne]
    · intro c k hc sid
      obtain he | ⟨st,new,hl,_,_,he,hn,_⟩ := reapAt_spec env.toEnv c k
      · rw [he]
        exact hc sid
      · rw [he]
        refine (hc sid).tunnel hl rfl (fun call hcall => ⟨(hn call hcall).stream,?_⟩) fun hne => ?_
        · cases call <;> first | rfl | exact absurd (hn _ hcall) (by simp [Call.Reaping])
        · rw [Conn.remove_lookup, if_neg hne]

end Server

namespace Listener

theorem settled_step {env : ServerEnv} {l : Listener} {cfg : ServerCfg} (hcfg : l.cfg = cfg)
    (h : l.All fun _ c => ∀ sid, c.Settled cfg sid) {a : Act}
    (ha : l.Serves env (fun _ _ => Server.Takes404 env cfg) a) :
    (l.step env a).cfg = cfg ∧ (l.step env a).All fun _ c => ∀ sid, c.Settled cfg sid := by
  refine All.step hcfg h ?_ ?_ ?_ ha ?_
  · exact fun key peer odcid sid => ⟨rfl,rfl⟩
  · exact fun key c call hc hcall sid => (hc sid).note hcall
  · intro key c k out hc sid
    unfold Conn.queue
    split
    · exact hc sid
    · rename_i st hl
      refine (hc sid).tunnel hl (List.nil_append _).symm nofun fun hne => ?_
      rw [Conn.put_lookup, if_neg hne]
  · exact fun _ key c hc hmeets => Server.settled_service hc hmeets

end Listener

/-- As long as `quiche` takes the headers and the body of every 404 when it is sent, every probe has the
whole of it; the server itself never holds any part back. -/
theorem probes_get_whole_404 (env : ServerEnv) (cfg : ServerCfg) (certs : CertSource)
    (acts : List Listener.Act)
    (h : Run.Meets (Listener.step env) (Listener.Serves env fun _ _ => Server.Takes404 env cfg)
      (Listener.new cfg certs) acts) :
    ∀ key, ∀ c ∈ (Run.run (Listener.step env) (Listener.new cfg certs) acts).conns.lookup key,
      ∀ sid list, c.quic.requestOn sid = some list →
        ¬ (Server.Request.ofHeaders list).isTunnel cfg → c.Answered404 cfg.serverName sid := by
  intro key c hc sid list hr hp
  have h₀ : (Listener.new cfg certs).cfg = cfg ∧
      (Listener.new cfg certs).All fun _ c => ∀ sid, c.Settled cfg sid :=
    ⟨rfl,fun _ _ hk => by cases hk⟩
  have hall := h.induction (I := fun l => l.cfg = cfg ∧ l.All fun _ c => ∀ sid, c.Settled cfg sid)
    (fun l a hl ha => Listener.settled_step hl.1 hl.2 ha) h₀
  exact (hall.2 key c hc sid).answered hr hp

/-- A listener whose tunnel is on another path than the one that is asked for. -/
def Listener.elsewhere : Listener :=
  new ⟨"example.com","/elsewhere",false,.static "" "",none,false,false,"nginx",true⟩ (.new "" "")

theorem probes_get_whole_404_elsewhere :
    ∃ c ∈ (Run.run (Listener.step ServerEnv.dialed) Listener.elsewhere
        [.datagram ⟨[127,0,0,1],40000⟩ [1] [2]]).conns.lookup [2], c.Answered404 "nginx" 0 := by
  have h := probes_get_whole_404 ServerEnv.dialed Listener.elsewhere.cfg (.new "" "")
    [.datagram ⟨[127,0,0,1],40000⟩ [1] [2]] (by decide +kernel)
  exact ⟨_,rfl,h [2] _ rfl 0 _ rfl (by decide +kernel)⟩

/-- The body does not fit, and nobody keeps it. -/
theorem probe_404_without_body :
    ¬ ∀ (env : ServerEnv) (cfg : ServerCfg) (certs : CertSource) (acts : List Listener.Act),
      ∀ key, ∀ c ∈ (Run.run (Listener.step env) (Listener.new cfg certs) acts).conns.lookup key,
        ∀ sid list, c.quic.requestOn sid = some list →
          ¬ (Server.Request.ofHeaders list).isTunnel cfg → c.Answered404 cfg.serverName sid := by
  intro h
  have hc : (Run.run (Listener.step .narrow) Listener.elsewhere
      [.datagram ⟨[127,0,0,1],40000⟩ [1] [2]]).conns.lookup [2] = some _ := rfl
  obtain ⟨-,-,⟨body,hb⟩ | ⟨st,hst,-⟩⟩ := h .narrow Listener.elsewhere.cfg (.new "" "") _ [2] _ hc 0 _ rfl
    (by decide +kernel)
  · change _ ∈ [(FAKE_404_BODY,true,SendBody.done)] at hb
    simp at hb
  · cases hst

end EchTunnel
