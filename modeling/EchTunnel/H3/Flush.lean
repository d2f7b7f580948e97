import EchTunnel.H3.Client

/-! What the client session has not sent when it waits in `select!`. -/
namespace EchTunnel
open Wire

/-- The calls of the loop that can give `quiche` something to send. -/
def Call.Sends : Call → Prop
  | .sendRequest .. | .sendBody .. | .streamShutdown .. | .recv .. | .onTimeout | .recvBody .. => True
  | _ => False

instance : (call : Call) → Decidable call.Sends
  | .sendRequest .. | .sendBody .. | .streamShutdown .. | .recv .. | .onTimeout | .recvBody .. => isTrue trivial
  | .connect _ | .accept .. | .close .. | .withTransport _ | .poll .. | .sendResponse ..
  | .streamFinished .. | .flushPackets _ | .tunnel _ => isFalse not_false

/-- `flush_packets` has completed since the last call that can give `quiche` something to send. -/
def Trace.Flushed : Trace → Prop
  | [] => True
  | call :: t => call = .flushPackets true ∨ ¬ call.Sends ∧ Flushed t

instance : (t : Trace) → Decidable t.Flushed
  | [] => isTrue trivial
  | call :: t =>
    have : Decidable (Trace.Flushed t) := instDecidableFlushed t
    inferInstanceAs (Decidable (call = .flushPackets true ∨ ¬ call.Sends ∧ Trace.Flushed t))

theorem Trace.not_flushed {new : Trace} (hf : .flushPackets true ∉ new) (hs : ∃ call ∈ new, call.Sends)
    (t : Trace) : ¬ Flushed (new ++ t) := by
  induction new with
  | nil =>
    obtain ⟨_,hm,_⟩ := hs
    cases hm
  | cons call new ih =>
    rw [List.mem_cons, not_or] at hf
    rintro (hc | ⟨hc,ht⟩)
    · exact hf.1 hc.symm
    · refine ih hf.2 ?_ ht
      obtain ⟨call',hm,hs⟩ := hs
      obtain rfl | hm := List.mem_cons.mp hm
      · exact absurd hs hc
      · exact ⟨call',hm,hs⟩

namespace Client

/-- Whatever becomes of the request, it leaves something to send. -/
theorem openStream_quic (env : Env) (cfg : ClientCfg) (c : Conn) (req : OpenReq) :
    ∃ new : Trace, (openStream env cfg c req).1.quic = new ++ c.quic ∧
      .flushPackets true ∉ new ∧ ∃ call ∈ new, call.Sends := by
  unfold openStream
  generalize requestHeaders cfg = hs
  cases env.sendRequest c.quic hs false with
  | ok sid =>
    simp only
    split
    · exact ⟨[.streamShutdown sid .read,.streamShutdown sid .write,.tunnel sid,
        .sendRequest hs false (.ok sid)],rfl,by simp,_,List.mem_cons_self,trivial⟩
    · exact ⟨[.tunnel sid,.sendRequest hs false (.ok sid)],rfl,by simp,.sendRequest hs false (.ok sid),
        by simp,trivial⟩
  | streamBlocked => exact ⟨[.sendRequest hs false .streamBlocked],rfl,by simp,_,List.mem_cons_self,trivial⟩
  | streamLimit => exact ⟨[.sendRequest hs false .streamLimit],rfl,by simp,_,List.mem_cons_self,trivial⟩
  | err => exact ⟨[.sendRequest hs false .err],rfl,by simp,_,List.mem_cons_self,trivial⟩

end Client

namespace Session
open Client
variable (env : Env)

/-- The session as it gets to the top of the loop after this turn, if it does. -/
def top (s : Session) : Option Session :=
  let (c,ok) := flushPackets env (exchange env handleEvent s.conn)
  if ok ∧ ¬ env.isClosed c.quic then some { s with conn := c } else none

/-- No request is parked, or the peer's SETTINGS do not let it go yet. -/
def HoldsBack (s : Session) : Prop :=
  s.pending ≠ none → env.extendedConnectEnabledByPeer s.conn.quic = false

/-- The step does not lead to the top of the loop with a request that can go. -/
def HoldsBackAtTop (s : Session) (a : Act) : Prop := ∀ s₁ ∈ s.select a, ∀ s₂ ∈ s₁.top env, s₂.HoldsBack env

variable {env} {s : Session}

theorem service_of_top {s' : Session} (h : s.top env = some s') :
    s.service env = s'.servePending env ∧ s'.running = s.running ∧ s'.conn.quic.Flushed := by
  unfold top at h
  unfold service
  simp only [Option.ite_none_right_eq_some, Option.some.injEq] at h ⊢
  obtain ⟨hok,rfl⟩ := h
  exact ⟨if_pos hok,rfl,Or.inl (congrArg _ hok.1)⟩

theorem service_of_top_none (h : s.top env = none) : (s.service env).running = false := by
  unfold top at h
  unfold service
  simp only [ite_eq_right_iff, reduceCtorEq, imp_false] at h ⊢
  rw [if_neg h]
  rfl

theorem servePending_flushed (h : s.conn.quic.Flushed) :
    (s.servePending env).conn.quic.Flushed ↔ s.HoldsBack env := by
  unfold servePending HoldsBack
  cases s.pending with
  | none => simp [h]
  | some req =>
    cases he : env.extendedConnectEnabledByPeer s.conn.quic with
    | false => simp [h]
    | true =>
      obtain ⟨new,hq,hf,hs⟩ := openStream_quic env s.cfg s.conn req
      refine iff_of_false (fun hflushed => ?_) (by simp)
      simp only [if_true] at hflushed
      rw [hq] at hflushed
      exact Trace.not_flushed hf hs _ hflushed

/-- A turn of the loop that gets through is back in `select!` with nothing left to send exactly if no
request went on its way at the top. -/
theorem service_flushed (hr : s.running = true) :
    ((s.service env).running = true → (s.service env).conn.quic.Flushed) ↔
      ∀ s' ∈ s.top env, s'.HoldsBack env := by
  cases ht : s.top env with
  | none => simp [service_of_top_none ht]
  | some s' =>
    obtain ⟨he,hrun,hf⟩ := service_of_top ht
    simp [he, servePending_running, hrun, hr, servePending_flushed hf]

theorem holdsBackAtTop_of_none {a : Act} (h : s.select a = none) : s.HoldsBackAtTop env a := by
  intro s₁ hs
  rw [h] at hs
  cases hs

theorem step_flushed (h : s.running = true → s.conn.quic.Flushed) (a : Act) :
    ((s.step env a).running = true → (s.step env a).conn.quic.Flushed) ↔ s.HoldsBackAtTop env a := by
  have hselect : s.step env a = (s.select a).elim s (service env) →
      (((s.step env a).running = true → (s.step env a).conn.quic.Flushed) ↔ s.HoldsBackAtTop env a) := by
    intro he
    rw [he, HoldsBackAtTop]
    cases hsel : s.select a with
    | none => simpa using h
    | some s₁ =>
      have hr : s₁.running = true := by
        obtain ⟨hr,⟨_,_,rfl⟩ | ⟨_,rfl⟩ | rfl | ⟨_,_,_,_,rfl⟩⟩ := select_spec hsel <;> exact hr
      simpa using service_flushed hr
  cases a with
  | bridge i b => exact iff_of_true h (holdsBackAtTop_of_none rfl)
  | recvError =>
    refine iff_of_true ?_ (holdsBackAtTop_of_none rfl)
    rw [step]
    split_ifs with hr
    · exact fun hrun => absurd hrun Bool.false_ne_true
    · exact h
  | _ =>
    refine hselect ?_
    simp only [step]
    cases s.select _ <;> rfl

end Session

/-- Whenever the session waits, everything is sent, exactly when no request goes on its way: the loop
sends it after the flush. -/
theorem waits_flushed (env : Env) (cfg : ClientCfg) (peer : SocketAddr) (scid : Bytes) (first : OpenReq)
    (acts : List Session.Act) :
    (∀ n, let s := Run.run (Session.step env) (Session.start env cfg peer scid first) (acts.take n)
      s.running = true → s.conn.quic.Flushed) ↔
      env.extendedConnectEnabledByPeer [.withTransport true,.connect scid] = false ∧
        Run.Meets (Session.step env) (Session.HoldsBackAtTop env) (.start env cfg peer scid first) acts := by
  rw [Run.forall_run_take_iff (I := fun s : Session => s.running = true → s.conn.quic.Flushed)
    fun s a h => Session.step_flushed h a]
  refine and_congr_left' ?_
  unfold Session.start
  rw [Session.servePending_running, Session.servePending_flushed (by simp [Trace.Flushed, Call.Sends])]
  simp [Session.HoldsBack]

/-- Surroundings in which SETTINGS come with the first packet. -/
def Env.settled : Env :=
  { Env.dialer with
    extendedConnectEnabledByPeer := fun t => t.any fun | .recv .. => true | _ => false }

/-- The CONNECT request is sent once SETTINGS are there, and stays where it is. -/
theorem request_not_flushed :
    let s := Run.run (Session.step .settled) (Session.dialed .settled) [.packet [1]]
    s.running = true ∧ ¬ s.conn.quic.Flushed := by
  decide

end EchTunnel
