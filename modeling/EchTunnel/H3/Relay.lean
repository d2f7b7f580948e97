import EchTunnel.H3.End
import EchTunnel.Http.SecretPath

/-! A tunnel over HTTP/3: the two ends of one stream, with `quiche` and the network in between. -/
namespace EchTunnel
open Wire

/-- A client session, a server connection, and the stream of theirs that carries the tunnel. -/
structure Peers where
  sid : ℕ
  clientEnv : Env
  clientCfg : ClientCfg
  addr : SocketAddr
  scid : Bytes
  first : OpenReq
  serverEnv : ServerEnv
  serverCfg : ServerCfg
  serverKey : Bytes

namespace Peers
variable (p : Peers)

def role : Side → Role
  | .client => .client p.clientEnv p.clientCfg p.addr p.scid p.first
  | .server => .server p.serverEnv p.serverCfg

def key : Side → Bytes
  | .client => []
  | .server => p.serverKey

/-- The response that opens the tunnel. -/
def response : List Header := [header ":status" "200",header "server" p.serverCfg.serverName]

end Peers

def Side.other : Side → Side
  | .client => .server
  | .server => .client

structure QuicTunnel where
  client : QuicEnd
  server : QuicEnd

namespace QuicTunnel
variable (p : Peers)

/-- A tunnel as `open_stream` and `handle_headers` leave it, on connections with these histories. -/
def new (t t' : Trace) : QuicTunnel where
  client := .new
    (.tunnel p.sid :: .sendRequest (Client.requestHeaders p.clientCfg) false (.ok p.sid) :: t)
    [] p.sid (t.length + 1) .copying
  server := .new
    (.tunnel p.sid :: .sendResponse p.sid p.response false true ::
      .poll p.sid (.headers (Client.requestHeaders p.clientCfg)) :: t')
    p.serverKey p.sid (t'.length + 2) .dialing

def side (t : QuicTunnel) : Side → QuicEnd
  | .client => t.client
  | .server => t.server

def put (t : QuicTunnel) (e : QuicEnd) : Side → QuicTunnel
  | .client => { t with client := e }
  | .server => { t with server := e }

def step (t : QuicTunnel) (q : Side × QuicEndAct) : QuicTunnel :=
  t.put ((t.side q.1).act (p.role q.1) (p.key q.1) p.sid q.2) q.1

end QuicTunnel

namespace QuicEnd

/-- What `quiche` has accepted on the stream, and the bytes it has handed over. -/
def accepted (e : QuicEnd) (sid : ℕ) : List (Option Byte) := (e.quic.on sid).accepted

def taken (e : QuicEnd) (sid : ℕ) : Bytes := e.quic.taken sid

/-- What `quiche` has accepted from `x` and has not handed over to `y` yet. -/
def inTransit (x y : QuicEnd) (sid : ℕ) : Bytes := (x.accepted sid).reduceOption.drop (y.taken sid).length

/-- `y` has taken all that `x` will ever send. -/
def AllTaken (x y : QuicEnd) (sid : ℕ) : Prop := x.accepted sid = marked (y.taken sid) true

instance (x y : QuicEnd) (sid : ℕ) : Decidable (x.AllTaken y sid) := inferInstanceAs (Decidable (_ = _))

/-- The body `recv_body` hands `y` is the next of what `x` had accepted. -/
def Next (x y : QuicEnd) (sid : ℕ) : RecvBody → Prop
  | .ok b => b ≠ [] ∧ (y.taken sid ++ b).map some <+: x.accepted sid
  | .done | .err => True

instance (x y : QuicEnd) (sid : ℕ) : (answer : RecvBody) → Decidable (Next x y sid answer)
  | .ok _ => inferInstanceAs (Decidable (_ ∧ _))
  | .done | .err => inferInstanceAs (Decidable True)

/-- How `quiche` links the ends: the next bytes that `y` is handed are the next that `x` had accepted, the
stream is finished for `y` when it has taken all of them and the fin, nothing is accepted after a hard
failure, and a HEADERS event after the first is a response of `x`. -/
def Linked (env : Env) (sid : ℕ) (x y : QuicEnd) : QuicEndAct → Prop
  | .turn =>
    x.Next y sid (env.recvBody y.quic sid) ∧
    (env.streamFinished (.recvBody sid .done :: y.quic) sid = true → x.AllTaken y sid)
  | .pump => Trace.Settled ((y.pump sid env).quic.on sid)
  | .reap =>
    (env.streamFinished y.quic sid = true → x.AllTaken y sid) ∧
    (env.streamFinished (.streamShutdown sid .write :: y.quic) sid = true → x.AllTaken y sid)
  | .event (.headers list) => ∃ fin, .sendResponse sid list fin true ∈ x.quic
  | _ => True

instance (env : Env) (sid : ℕ) (x y : QuicEnd) : (a : QuicEndAct) → Decidable (Linked env sid x y a)
  | .turn | .reap => inferInstanceAs (Decidable (_ ∧ _))
  | .pump => inferInstanceAs (Decidable (Trace.Settled _))
  | .event (.headers list) =>
    decidable_of_iff _ (Bool.exists_bool (p := fun fin => .sendResponse sid list fin true ∈ x.quic)).symm
  | .event .data | .event .finished | .event (.reset _) | .event .priorityUpdate | .event .goAway |
    .send _ | .finish | .abort | .dialed _ | .fill _ | .write _ | .shutdown _ | .read _ | .deliver _ |
    .shutdownLocal | .complete | .close _ | .dequeue | .pass | .call _ | .lost _ =>
    inferInstanceAs (Decidable True)

end QuicEnd

namespace QuicTunnel
variable (p : Peers)

/-- The end that makes the step is linked to the other one. -/
def Linked (t : QuicTunnel) (q : Side × QuicEndAct) : Prop :=
  QuicEnd.Linked (p.role q.1).env p.sid (t.side q.1.other) (t.side q.1) q.2

instance (t : QuicTunnel) (q : Side × QuicEndAct) : Decidable (Linked p t q) :=
  inferInstanceAs (Decidable (QuicEnd.Linked ..))

end QuicTunnel

namespace QuicEnd
variable {x x' y : QuicEnd} {sid : ℕ} {r : Role} {key : Bytes}

/-- What `y` has been handed is a first part of what `x` has had accepted, all of it and the fin once the
stream is finished. -/
structure Wired (x y : QuicEnd) (sid : ℕ) : Prop where
  inOrder : (y.taken sid).map some <+: x.accepted sid
  finished : .streamFinished sid true ∈ y.quic → x.AllTaken y sid

theorem accepted_mono (hq : x.quic <:+ x'.quic) : ∃ more, x'.accepted sid = x.accepted sid ++ more := by
  obtain ⟨new,hq⟩ := hq
  refine ⟨(Trace.on new sid).accepted,?_⟩
  rw [accepted, ← hq, Trace.on_append, Trace.accepted_append]
  rfl

/-- Nothing is accepted after the fin. -/
theorem Wired.sender (h : x.Wired y sid) (hq : x.quic <:+ x'.quic)
    (ha : Accepts (x'.quic.on sid) x'.bridge) : x'.Wired y sid := by
  obtain ⟨more,hm⟩ := accepted_mono hq
  constructor
  · rw [hm]
    exact h.inOrder.trans (List.prefix_append _ _)
  · intro hf
    have hall := h.finished hf
    obtain ⟨bytes,fin,hb,-⟩ := ha
    have hmark : marked (y.taken sid) true ++ more = marked bytes fin := by
      rw [← hb, ← show x.accepted sid = _ from hall]
      exact hm.symm
    rw [AllTaken, hm, marked_append_eq hmark, List.append_nil]
    exact hall

theorem Wired.quiet (h : x.Wired y sid) {y' : QuicEnd} (ht : y'.taken sid = y.taken sid)
    (hf : .streamFinished sid true ∈ y'.quic → .streamFinished sid true ∈ y.quic ∨ x.AllTaken y sid) :
    x.Wired y' sid := by
  constructor
  · rw [ht]
    exact h.inOrder
  · intro hm
    rw [AllTaken, ht]
    exact (hf hm).elim h.finished id

theorem Wired.turn (h : x.Wired y sid) {env : Env} (hl : Linked env sid x y .turn) :
    x.Wired (y.turn sid env) sid := by
  obtain ⟨hrecv,hfin⟩ := hl
  unfold QuicEnd.turn
  cases hentry : y.entry with
  | none => exact h
  | some st =>
    cases hslot : y.slot with
    | permit =>
      simp only [pumpTurn]
      cases hr : env.recvBody y.quic sid with
      | ok b =>
        rw [hr] at hrecv
        obtain ⟨hb,hnext⟩ := hrecv
        have ht : Trace.taken (.recvBody sid (.ok b) :: y.quic) sid = y.taken sid ++ b := by
          simp [Call.taken, taken]
        constructor
        · change (Trace.taken (.recvBody sid (.ok b) :: y.quic) sid).map some <+: _
          rw [ht]
          exact hnext
        · intro hm
          have hall := h.finished (by simpa using hm)
          rw [show x.accepted sid = _ from hall, map_some_prefix_marked] at hnext
          have hlen := hnext.length_le
          rw [List.length_append] at hlen
          exact absurd (List.length_eq_zero_iff.mp (by omega)) hb
      | done =>
        apply h.quiet
        · simp [taken, Call.taken]
        · intro hm
          cases hf : env.streamFinished (.recvBody sid .done :: y.quic) sid with
          | true => exact Or.inr (hfin hf)
          | false => exact Or.inl (by simpa [hf] using hm)
      | err => exact h.quiet (by simp [taken, Call.taken]) fun hm => Or.inl (by simpa using hm)
    | full => exact h.quiet rfl fun hm => Or.inl (by simpa [pumpTurn] using hm)
    | closed =>
      exact h.quiet (by simp [taken, Call.taken, pumpTurn]) fun hm => Or.inl (by simpa [pumpTurn] using hm)

/-- A reap finds the stream finished before or after it has shut down the write side. -/
theorem mem_reapCalls {env : Env} {t : Trace} {st : StreamState}
    (h : .streamFinished sid true ∈ reapCalls env sid t st) : .streamFinished sid true ∈ t ∨
      env.streamFinished t sid = true ∨ env.streamFinished (.streamShutdown sid .write :: t) sid = true := by
  unfold reapCalls at h
  cases hs : st.finSent with
  | true =>
    simp only [hs, if_true] at h
    cases hf : env.streamFinished t sid with
    | true => exact Or.inr (Or.inl rfl)
    | false => exact Or.inl (by simpa [hf] using h)
  | false =>
    simp only [hs, Bool.false_eq_true, if_false] at h
    cases hf : env.streamFinished (.streamShutdown sid .write :: t) sid with
    | true => exact Or.inr (Or.inr rfl)
    | false => exact Or.inl (by simpa [hf] using h)

theorem Wired.reap (h : x.Wired y sid) {env : Env} (hl : Linked env sid x y .reap)
    (ht : (y.reap sid env).taken sid = y.taken sid) : x.Wired (y.reap sid env) sid := by
  apply h.quiet ht
  intro hm
  unfold QuicEnd.reap at hm
  cases hentry : y.entry with
  | none =>
    rw [hentry] at hm
    exact Or.inl hm
  | some st =>
    rw [hentry] at hm
    simp only at hm
    split at hm
    · exact Or.inl hm
    · exact (mem_reapCalls hm).imp id fun hf => hf.elim hl.1 hl.2

theorem Wired.receiver (h : x.Wired y sid) (a : QuicEndAct) (hl : Linked r.env sid x y a)
    (hev : ∀ ev, a = .event ev → Expects r ev) : x.Wired (y.act r key sid a) sid := by
  obtain ⟨new,hq,hcalls⟩ := y.act_calls key sid a hev
  have htaken : a ≠ .turn → (y.act r key sid a).taken sid = y.taken sid := by
    intro ha
    rw [taken, hq]
    apply Receives.taken_append
    intro call hm
    exact (hcalls call hm).elim Receives.taken_of_stream fun hc => hc.2.1 ha
  have hquiet : a ≠ .turn → a ≠ .reap → x.Wired (y.act r key sid a) sid := by
    intro ht hr
    refine h.quiet (htaken ht) fun hm => Or.inl ?_
    rw [hq] at hm
    rcases List.mem_append.mp hm with hm | hm
    · exact (hcalls _ hm).elim (fun hs => absurd rfl hs) fun hc => absurd rfl (hc.2.2.1 ht hr)
    · exact hm
  cases a with
  | turn =>
    rw [act]
    split_ifs
    · exact h.turn hl
    · exact h
  | reap =>
    have ht := htaken (by simp)
    rw [act] at ht ⊢
    split_ifs with hp
    · exact h
    · rw [if_neg hp] at ht
      exact h.reap hl ht
  | _ => exact hquiet (by simp) (by simp)

/-- The answers to requests on the stream. -/
def Responses (t : Trace) (sid : ℕ) (list : List Header) : Prop :=
  ∃ fin ok, .sendResponse sid list fin ok ∈ t

theorem responses_act (e : QuicEnd) (a : QuicEndAct) (hev : ∀ ev, a = .event ev → Expects r ev)
    {list : List Header} (h : Responses (e.act r key sid a).quic sid list) :
    Responses e.quic sid list := by
  obtain ⟨new,hq,hcalls⟩ := e.act_calls key sid a hev
  obtain ⟨fin,ok,hm⟩ := h
  rw [hq] at hm
  rcases List.mem_append.mp hm with hm | hm
  · exact (hcalls _ hm).elim (fun hs => absurd rfl hs) fun hc => hc.1.elim
  · exact ⟨fin,ok,hm⟩

theorem Unused.settled (h : Unused x.quic sid) : (x.quic.on sid).Settled := by
  have hkeep : ∀ call ∈ x.quic.on sid, call.KeepsWrite := by
    intro call hm
    obtain ⟨hm,hs⟩ := (Trace.mem_on _ _).mp hm
    exact (h call hm hs).1
  rw [← List.append_nil (x.quic.on sid)]
  exact Trace.Settled.append (by simp [Trace.Settled]) (Trace.keepsWrite hkeep).1

theorem Unused.wired (h : Unused y.quic sid) (x : QuicEnd) : x.Wired y sid := by
  refine ⟨?_,fun hm => absurd rfl (h _ hm rfl).2.2⟩
  rw [QuicEnd.taken, h.taken]
  exact List.nil_prefix

theorem settled_act (h : (x.quic.on sid).Settled) {a : QuicEndAct} (hl : Linked r.env sid y x a)
    (hev : ∀ ev, a = .event ev → Expects r ev) : ((x.act r key sid a).quic.on sid).Settled := by
  obtain ⟨new,hq,hcalls⟩ := x.act_calls key sid a hev
  by_cases ha : a = .pump
  · subst ha
    rw [act]
    split_ifs
    · exact h
    · exact hl
  · rw [hq, Trace.on_append]
    apply h.append
    rw [Trace.accepted, List.flatMap_eq_nil_iff]
    intro call hm
    obtain ⟨hm,hs⟩ := (Trace.mem_on _ _).mp (List.mem_reverse.mp hm)
    obtain hc | hc := hcalls call hm
    · exact absurd hs hc
    · cases call
      case sendBody s body fin ans =>
        cases hs
        exact absurd rfl (hc.2.2.2 ha _ _ _)
      all_goals rfl

/-- From the local peer into `quiche`, and out of it to the other local peer. -/
theorem Sends.conveys (h : x.Sends sid) : Conveys x.sent (x.finished = true)
    x.bridge.written.flatten (x.bridge.stream.shutdownSent = true) := by
  apply Conveys.of_append (x.up.buf ++ x.socket)
  · rw [← List.append_assoc]
    exact h.kept
  · intro hs
    obtain ⟨hd,hb⟩ := h.whole (h.shut ▸ hs)
    obtain ⟨hf,hso⟩ := h.up hd
    exact ⟨hf,by rw [hb, hso]; rfl⟩

theorem Receives.conveys (h : y.Receives sid) : Conveys (y.taken sid)
    (.streamFinished sid true ∈ y.quic) y.delivered (y.down.shut = true ∧ y.disturbed = false) := by
  apply Conveys.of_append (y.down.buf ++ y.bridge.stream.rxBuf ++ y.channel.flatten)
  · simp only [← List.append_assoc]
    exact h.conserved.symm
  · rintro ⟨hs,hd⟩
    obtain ⟨hdone,hb⟩ := h.shut hs
    obtain ⟨hr,hc,_,hf⟩ := h.eof (h.done hdone)
    exact ⟨hf hd,by rw [hb, hr, hc]; rfl⟩

/-- What has been accepted has been handed over, or it is on its way. -/
theorem Wired.taken_append_inTransit (h : x.Wired y sid) {bytes : Bytes} {fin : Bool}
    (ha : x.accepted sid = marked bytes fin) : y.taken sid ++ x.inTransit y sid = bytes := by
  have ho := h.inOrder
  rw [ha, map_some_prefix_marked] at ho
  rw [inTransit, ha, reduceOption_marked]
  exact (List.prefix_append_drop ho).symm

theorem Wired.conveys (h : x.Wired y sid) (hs : x.Sends sid) (hset : (x.quic.on sid).Settled) :
    Conveys x.bridge.written.flatten (x.bridge.stream.shutdownSent = true) (y.taken sid)
      (.streamFinished sid true ∈ y.quic) := by
  obtain ⟨bytes,fin,ha,hp,hf⟩ := hs.lane.accepts
  have ha : x.accepted sid = marked bytes fin := ha
  have hlane : Conveys x.bridge.written.flatten (x.bridge.stream.shutdownSent = true) bytes (fin = true) :=
    ⟨hp hset,hf⟩
  refine hlane.trans ⟨?_,fun hm => ?_⟩
  · have ho := h.inOrder
    rwa [ha, map_some_prefix_marked] at ho
  · have hall := h.finished hm
    rw [AllTaken, ha] at hall
    obtain ⟨rfl,rfl⟩ := marked_inj.mp hall
    exact ⟨rfl,rfl⟩

/-- The peer was told to stop sending before it had sent everything. -/
def Stops (x : QuicEnd) (sid : ℕ) : Prop :=
  .streamShutdown sid .read ∈ x.quic ∧ .streamFinished sid true ∉ x.quic

instance (x : QuicEnd) (sid : ℕ) : Decidable (x.Stops sid) := inferInstanceAs (Decidable (_ ∧ _))

/-- Nothing outside the program disturbs the step: the local socket works, the connection lives, `quiche`
resets a stream and refuses a body only when a loop has shut a side down, and a finished stream stays
finished. -/
def Calm (env : Env) (sid : ℕ) (x y : QuicEnd) : QuicEndAct → Prop
  | .abort | .lost _ => False
  | .dialed ok => ok = true
  | .event (.reset _) => .streamShutdown sid .write ∈ x.quic
  | .turn => env.recvBody y.quic sid = .err → .streamShutdown sid .write ∈ x.quic
  | .pump => ((y.pump sid env).quic.on sid).Failed →
      x.Stops sid ∨ .streamShutdown sid .write ∈ y.quic
  | .reap => .streamFinished sid true ∈ y.quic → env.streamFinished y.quic sid = true
  | _ => True

instance (env : Env) (sid : ℕ) (x y : QuicEnd) : (a : QuicEndAct) → Decidable (Calm env sid x y a)
  | .abort | .lost _ => inferInstanceAs (Decidable False)
  | .dialed _ => inferInstanceAs (Decidable (_ = _))
  | .event (.reset _) => inferInstanceAs (Decidable (_ ∈ _))
  | .turn | .pump | .reap => inferInstanceAs (Decidable (_ → _))
  | .event (.headers _) | .event .data | .event .finished | .event .priorityUpdate | .event .goAway |
    .send _ | .finish | .fill _ | .write _ | .shutdown _ | .read _ | .deliver _ | .shutdownLocal |
    .complete | .close _ | .dequeue | .pass | .call _ =>
    inferInstanceAs (Decidable True)

/-- An end that has come through undisturbed. -/
structure Clean (e : QuicEnd) (sid : ℕ) : Prop where
  disturbed : e.disturbed = false
  rxOpen : e.rxOpen = true
  whole : e.bridge.Live ∨ e.up.shut = true ∧ e.down.shut = true
  unreset : .streamShutdown sid .write ∉ e.quic
  unstopped : ¬ e.Stops sid
  healthy : ¬ (e.quic.on sid).Failed
  gone : e.entry = none → e.bridge.phase = .done ∧ e.egress = [] ∧ .streamFinished sid true ∈ e.quic ∧
    e.accepted sid = marked e.bridge.written.flatten true

end QuicEnd

/-- A task is alive until its copy ends or its dial fails. -/
theorem Bridge.Live.act {b : Bridge} (h : b.Live) {a : BridgeAct} (hf : a ≠ .finish)
    (hd : a ≠ .dialed false) : (b.act a).1.Live := by
  have hclosing : b.phase ≠ .closing := by rcases h with h | h <;> simp [h]
  unfold Bridge.act
  split
  · rename_i ok _
    cases ok
    · exact absurd rfl hd
    · exact Or.inr rfl
  · split <;> exact h
  · exact h
  · exact absurd rfl hf
  · rename_i hp
    exact absurd hp hclosing
  · rename_i hp
    exact absurd hp hclosing
  · exact h

namespace QuicEnd.Clean
variable {e x : QuicEnd} {sid : ℕ} {r : Role} {key : Bytes}

/-- A task that ends has shut both directions down. -/
theorem task (h : e.Clean sid) (a : BridgeAct)
    (hl : e.bridge.Live → (e.bridge.act a).1.Live ∨ e.up.shut = true ∧ e.down.shut = true) :
    (e.task a).Clean sid := by
  refine { h with whole := ?_, gone := ?_ }
  · exact h.whole.elim hl Or.inr
  · intro hn
    have hg := h.gone hn
    have hact : e.task a = e := task_eq_self (by simp [Bridge.act, hg.1])
    rw [hact]
    exact hg

theorem write (h : e.Clean sid) (hs : e.Sends sid) (r : Reserve) : (e.write r).Clean sid := by
  obtain he | ⟨_,_,_,he⟩ | ⟨_,hr,_⟩ := write_cases hs.opened r
  · rwa [he]
  · rw [he]
    exact { h.task (.write e.up.buf .ready) fun hl => Or.inl (hl.act (by simp) (by simp)) with }
  · rw [h.rxOpen] at hr
    contradiction

theorem shutdown (h : e.Clean sid) (hs : e.Sends sid) (r : Reserve) : (e.shutdown r).Clean sid := by
  obtain he | ⟨_,_,_,_,_,_,he⟩ := shutdown_cases hs.shut r
  · rwa [he]
  · rw [he]
    have ht := h.task (.shutdown r) fun hl => Or.inl (hl.act (by simp) (by simp))
    exact { ht with whole := ht.whole.imp id fun hw => ⟨rfl,hw.2⟩ }

theorem read (h : e.Clean sid) (room : ℕ) : (e.read room).Clean sid := by
  obtain he | ⟨_,_,rxBuf,rxEof,channel,bytes,readDone,he,_⟩ := e.read_cases room
  · rwa [he]
  · rw [he]
    exact { h with }

/-- The stream is dropped neither by a reset nor by a refusal. -/
theorem event (h : e.Clean sid) {ev : H3Event} (hev : Expects r ev) (hd : ¬ Client.Drops ev) :
    (e.event r key sid ev).Clean sid := by
  obtain ⟨entry,new,he,hcase⟩ := e.event_spec key sid hev
  rw [he]
  have hnew : new = [] ∨ new = [.streamShutdown sid .read] ∧ e.entry = none := by
    obtain ⟨_,rfl⟩ | ⟨_,rfl⟩ | ⟨_,rfl | rfl,hn⟩ := hcase
    · exact Or.inl rfl
    · exact Or.inl rfl
    · exact Or.inl rfl
    · exact Or.inr ⟨rfl,hn.resolve_right hd⟩
  have hentry : entry = none ↔ e.entry = none := by
    obtain ⟨rfl,_⟩ | ⟨rfl,_⟩ | ⟨rfl,_,hn⟩ := hcase
    · exact Iff.rfl
    · exact Option.map_eq_none_iff
    · exact iff_of_true rfl (hn.resolve_right hd)
  have hkeep : ∀ call ∈ new ++ [.poll sid ev], call.stream = some sid ∧ call.KeepsWrite := by
    obtain rfl | ⟨rfl,-⟩ := hnew <;> simp [Call.stream, Call.KeepsWrite]
  have hq : Trace.on (new ++ .poll sid ev :: e.quic) sid = (new ++ [.poll sid ev]) ++ e.quic.on sid := by
    rw [List.append_cons, Trace.on_append, Trace.on_eq_self _ _ fun call hm => (hkeep call hm).1]
  obtain ⟨hacc,hfail⟩ := Trace.keepsWrite fun call hm => (hkeep call hm).2
  have hmem : ∀ call, call ∈ new ++ .poll sid ev :: e.quic → call ∈ e.quic ∨ call = .poll sid ev ∨
      call = .streamShutdown sid .read ∧ e.entry = none := by
    intro call hm
    obtain rfl | ⟨rfl,hn⟩ := hnew
    · simp at hm
      tauto
    · simp at hm
      tauto
  refine ⟨?_,h.rxOpen,h.whole,?_,?_,?_,?_⟩
  · cases hn : e.entry with
    | none => simp [h.disturbed]
    | some st =>
      have hsome : entry.isNone = false := by
        rw [Option.isNone_eq_false_iff, Option.isSome_iff_ne_none]
        simp [hentry, hn]
      simp [h.disturbed, hsome]
  · intro hm
    obtain hm | hm | ⟨hm,-⟩ := hmem _ hm
    · exact h.unreset hm
    · cases hm
    · cases hm
  · rintro ⟨hm,hf⟩
    have hf : .streamFinished sid true ∉ e.quic := fun hx =>
      hf (List.mem_append_right _ (List.mem_cons_of_mem _ hx))
    obtain hm | hm | ⟨-,hn⟩ := hmem _ hm
    · exact h.unstopped ⟨hm,hf⟩
    · cases hm
    · exact hf (h.gone hn).2.2.1
  · rw [hq, Trace.failed_append]
    exact fun hx => hx.elim hfail h.healthy
  · intro hn
    obtain ⟨hp,hg,hf,ha⟩ := h.gone (hentry.mp hn)
    refine ⟨hp,hg,List.mem_append_right _ (List.mem_cons_of_mem _ hf),?_⟩
    rw [accepted, hq, Trace.accepted_append, hacc, List.append_nil]
    exact ha

/-- The loop's calls on the stream that neither send a body nor shut a side down. -/
theorem calls (h : e.Clean sid) {e' : QuicEnd} {new : Trace}
    (he : e' = { e with
      quic := e'.quic, entry := e'.entry, pumping := e'.pumping, channel := e'.channel })
    (hq : e'.quic = new ++ e.quic) (hs : ∀ call ∈ new, call.stream = some sid)
    (hn : ∀ call ∈ new, call.KeepsWrite)
    (hread : .streamShutdown sid .read ∈ e'.quic → .streamShutdown sid .read ∈ e.quic)
    (hentry : e'.entry = none → e.entry = none) : e'.Clean sid := by
  have hon : e'.quic.on sid = new ++ e.quic.on sid := by
    rw [hq, Trace.on_append, Trace.on_eq_self _ _ hs]
  obtain ⟨hacc,hfail⟩ := Trace.keepsWrite hn
  refine ⟨?_,?_,?_,?_,?_,?_,?_⟩
  · rw [he]
    exact h.disturbed
  · rw [he]
    exact h.rxOpen
  · rw [he]
    exact h.whole
  · rw [hq]
    exact fun hm => (List.mem_append.mp hm).elim (fun hm => (hn _ hm).2 sid rfl) h.unreset
  · rintro ⟨hm,hf⟩
    rw [hq] at hf
    exact h.unstopped ⟨hread hm,fun hx => hf (List.mem_append_right _ hx)⟩
  · rw [hon, Trace.failed_append]
    exact fun hx => hx.elim hfail h.healthy
  · intro hnone
    obtain ⟨hp,hg,hf,ha⟩ := h.gone (hentry hnone)
    have hbridge : e'.bridge = e.bridge := by rw [he]
    have hegress : e'.egress = e.egress := by rw [he]
    rw [hbridge, hegress, accepted, hon, hq, Trace.accepted_append, hacc, List.append_nil]
    exact ⟨hp,hg,List.mem_append_right _ hf,ha⟩

theorem pass (h : e.Clean sid) : e.pass.Clean sid := by
  unfold QuicEnd.pass
  cases hentry : e.entry with
  | none => exact h
  | some st =>
    simp only
    split_ifs
    · exact h.calls rfl (List.nil_append _).symm (by simp) (by simp) id (by simp)
    · exact h.calls (by rw [← hentry]) (List.nil_append _).symm (by simp) (by simp) id (by simp)
    · exact h

/-- While the bridge's end of the channel is still fed, the bridge is there. -/
theorem live (h : e.Clean sid) (hr : e.Receives sid) (hs : e.senders = true) : e.bridge.Live := by
  refine h.whole.resolve_right fun hw => ?_
  have hsend := (hr.eof (hr.done (hr.shut hw.2).1)).2.2.1
  rw [hs] at hsend
  contradiction

theorem turn (h : e.Clean sid) (hr : e.Receives sid) {env : Env} (hp : e.pumping = true)
    (herr : env.recvBody e.quic sid ≠ .err) : (e.turn sid env).Clean sid := by
  have hlive := h.live hr (hr.pumped hp)
  unfold QuicEnd.turn
  cases hentry : e.entry with
  | none => exact h
  | some st =>
    obtain ⟨new,ht,hn,-⟩ := pumpTurn_spec env sid e.slot e.quic st
    have hclosed : e.slot ≠ .closed := by
      unfold slot
      rw [if_neg (not_not.mpr hlive)]
      split_ifs <;> simp
    have hread : .streamShutdown sid .read ∈ (pumpTurn env sid e.slot e.quic st).1 →
        .streamShutdown sid .read ∈ e.quic := by
      cases hslot : e.slot with
      | permit =>
        simp only [pumpTurn]
        cases env.recvBody e.quic sid <;> simp
      | full => exact id
      | closed => contradiction
    refine h.calls ?_ ht (fun call hm => (hn call hm).stream) (fun call hm => (hn call hm).keepsWrite) hread
      (by simp)
    simp [h.disturbed, herr]

theorem pump (h : e.Clean sid) {env : Env} (hf : ¬ ((e.pump sid env).quic.on sid).Failed) :
    (e.pump sid env).Clean sid := by
  unfold QuicEnd.pump at hf ⊢
  cases hentry : e.entry with
  | none => exact h
  | some st =>
    rw [hentry] at hf
    obtain ⟨new,ht,hn,-⟩ := pumpStream_spec env sid e.quic st
    simp only [ht] at hf ⊢
    have hbody : ∀ {d}, .streamShutdown sid d ∈ new ++ e.quic → .streamShutdown sid d ∈ e.quic :=
      fun hm => (List.mem_append.mp hm).resolve_left fun hm => hn _ hm
    refine ⟨h.disturbed,h.rxOpen,h.whole,fun hm => h.unreset (hbody hm),?_,hf,by simp⟩
    rintro ⟨hm,hx⟩
    exact h.unstopped ⟨hbody hm,fun hx' => hx (List.mem_append_right _ hx')⟩

/-- An entry that is reaped has sent its fin and has been read to its end. -/
theorem reap (h : e.Clean sid) (hs : e.Sound sid) {env : Env}
    (hcalm : .streamFinished sid true ∈ e.quic → env.streamFinished e.quic sid = true) :
    (e.reap sid env).Clean sid := by
  unfold QuicEnd.reap
  cases hentry : e.entry with
  | none => exact h
  | some st =>
    simp only
    split
    · exact h
    · rename_i hr
      obtain ⟨hc,hd⟩ := not_or.mp hr
      rw [not_not] at hc hd
      have hlane := hs.sends.lane
      unfold InLane at hlane
      rw [hentry] at hlane
      obtain ⟨new,he,hcalls,hegress,hdone,hhealthy,-⟩ := hlane.2.reap env sid e.quic hc hd
      obtain ⟨hup,hdown⟩ := h.whole.resolve_left (by simp [Bridge.Live, hdone])
      -- the bridge has shut the stream down, so the fin is out
      have hnf : ¬ Trace.Failed (new ++ e.quic.on sid) := by
        rw [Trace.failed_append]
        rintro (⟨s,body,fin,hm⟩ | hx)
        · exact hcalls _ hm
        · exact h.healthy hx
      obtain ⟨fin,hacc,hfin,hreset⟩ := hhealthy hnf
      have hfin : fin = true := hfin.mpr (hs.sends.shut.trans hup)
      subst hfin
      have hsent : st.finSent = true := by
        obtain ⟨new',he',-,hw',-⟩ := reapCalls_spec env sid e.quic st
        have hnew : new' = new := List.append_cancel_right (he'.symm.trans he)
        subst hnew
        by_contra hx
        exact absurd (hreset.mp ⟨sid,List.mem_append_left _ (hw'.mpr (by simpa using hx))⟩) (by decide)
      -- it has met the end of the stream, so that is finished
      have hended := (hs.receives.eof (hs.receives.done (hs.receives.shut hdown).1)).2.2.2 h.disturbed
      have hq : reapCalls env sid e.quic st = .streamFinished sid true :: e.quic := by
        simp only [reapCalls, hsent, if_true, hcalm hended]
      have hon : (reapCalls env sid e.quic st).on sid = new ++ e.quic.on sid := by
        rw [he, Trace.on_append, Trace.on_eq_self _ _ fun call hm => (hcalls call hm).stream]
      refine ⟨h.disturbed,h.rxOpen,h.whole,?_,?_,?_,fun _ => ⟨hdone,hegress,?_,?_⟩⟩
      · rw [hq]
        simpa using h.unreset
      · rintro ⟨-,hf⟩
        rw [hq] at hf
        simp at hf
      · change ¬ Trace.Failed ((reapCalls env sid e.quic st).on sid)
        rw [hon]
        exact hnf
      · rw [hq]
        exact List.mem_cons_self
      · rw [accepted, hon]
        exact hacc

theorem foreign (h : e.Clean sid) {c : Call} (hc : c.stream ≠ some sid) :
    Clean { e with quic := c :: e.quic } sid := by
  have hon : Trace.on (c :: e.quic) sid = e.quic.on sid := Trace.on_cons_of_ne _ _ hc
  have hmem : ∀ {call}, call.stream = some sid → call ∈ c :: e.quic → call ∈ e.quic := by
    intro call hs hm
    rcases List.mem_cons.mp hm with rfl | hm
    · exact absurd hs hc
    · exact hm
  refine ⟨h.disturbed,h.rxOpen,h.whole,fun hm => h.unreset (hmem rfl hm),?_,?_,?_⟩
  · rintro ⟨hm,hf⟩
    exact h.unstopped ⟨hmem rfl hm,fun hx => hf (List.mem_cons_of_mem _ hx)⟩
  · change ¬ Trace.Failed (Trace.on (c :: e.quic) sid)
    rw [hon]
    exact h.healthy
  · intro hn
    obtain ⟨hp,hg,hf,ha⟩ := h.gone hn
    refine ⟨hp,hg,List.mem_cons_of_mem _ hf,?_⟩
    rw [accepted, hon]
    exact ha

/-- An undisturbed step leaves the end undisturbed. -/
theorem act (h : e.Clean sid) (hs : e.Sound sid) (hx : x.Clean sid) {a : QuicEndAct}
    (hc : Calm r.env sid x e a) (hev : ∀ ev, a = .event ev → Expects r ev)
    (hok : ∀ list, a = .event (.headers list) → Client.isSuccess list = true) :
    (e.act r key sid a).Clean sid := by
  cases a with
  | send bytes =>
    rw [QuicEnd.act]
    split_ifs
    · exact h
    · exact { h with }
  | finish => exact { h with }
  | abort => exact hc.elim
  | dialed ok => exact h.task (.dialed ok) fun hl => Or.inl (hl.act (by simp) (by simp [show ok = true from hc]))
  | fill n =>
    rw [QuicEnd.act, QuicEnd.fill]
    split_ifs
    · exact h
    · exact { h with }
    · exact { h with }
  | write r => exact h.write hs.sends r
  | shutdown r => exact h.shutdown hs.sends r
  | read room => exact h.read room
  | deliver n =>
    rw [QuicEnd.act, QuicEnd.deliver]
    split_ifs
    · exact { h with }
    · exact h
  | shutdownLocal =>
    rw [QuicEnd.act, QuicEnd.shutdownLocal]
    split_ifs
    · exact h
    · exact { h with whole := h.whole.imp id fun hb => ⟨hb.1,rfl⟩ }
  | complete =>
    rw [QuicEnd.act]
    split_ifs with hb
    · exact h.task .finish fun _ => Or.inr hb.2
    · exact h
  | close r =>
    rw [QuicEnd.act]
    split_ifs
    · exact h.task (.close r) fun hl => Or.inl (hl.act (by simp) (by simp))
    · exact h
  | dequeue =>
    rw [QuicEnd.act, QuicEnd.dequeue]
    split_ifs
    · exact h
    · split
      · exact h
      · rename_i he
        refine { h with gone := fun hn => ?_ }
        obtain ⟨-,hg,-⟩ := h.gone (Option.map_eq_none_iff.mp hn)
        rw [he] at hg
        contradiction
  | event ev =>
    rw [QuicEnd.act]
    split_ifs
    · exact h
    · apply h.event (hev ev rfl)
      rintro (⟨code,rfl⟩ | ⟨list,rfl,hl⟩)
      · exact hx.unreset hc
      · rw [hok list rfl] at hl
        contradiction
  | pass =>
    rw [QuicEnd.act]
    split_ifs
    · exact h
    · exact h.pass
  | turn =>
    rw [QuicEnd.act]
    split_ifs with hp
    · exact h.turn hs.receives hp fun he => hx.unreset (hc he)
    · exact h
  | pump =>
    rw [QuicEnd.act]
    split_ifs
    · exact h
    · exact h.pump fun hf => (hc hf).elim hx.unstopped h.unreset
  | reap =>
    rw [QuicEnd.act]
    split_ifs
    · exact h
    · exact h.reap hs hc
  | call c =>
    rw [QuicEnd.act]
    split_ifs with hcall
    · exact h
    · exact h.foreign fun hst => hcall (Or.inr hst)
  | lost rx => exact hc.elim

theorem new {u : Trace} (hu : Unused u sid) (rx : ℕ) {phase : Phase}
    (hp : phase = .dialing ∨ phase = .copying) (hr : .streamShutdown sid .read ∉ u) :
    (QuicEnd.new u key sid rx phase).Clean sid := by
  refine ⟨rfl,rfl,Or.inl hp,fun hm => (hu _ hm rfl).1.2 sid rfl,fun hs => hr hs.1,?_,by simp [QuicEnd.new]⟩
  refine (Trace.keepsWrite fun call hm => ?_).2
  obtain ⟨hm,hs⟩ := (Trace.mem_on _ _).mp hm
  exact (hu call hm hs).1

end QuicEnd.Clean

namespace QuicEnd
variable {e x y : QuicEnd} {sid : ℕ}

/-- What the copy, the channel and the map still hold of what the local peer has sent. -/
def unsent (e : QuicEnd) : Bytes :=
  e.entry.elim [] (fun st => st.pending.flatten) ++ payload e.egress ++ e.up.buf ++ e.socket

/-- What the channel, the adapter and the copy still hold for the local peer. -/
def undelivered (e : QuicEnd) : Bytes :=
  e.down.buf ++ e.bridge.stream.rxBuf ++ e.channel.flatten

theorem Clean.conserved (h : e.Clean sid) (hs : e.Sends sid) : ∃ bytes fin,
    e.accepted sid = marked bytes fin ∧ bytes ++ e.unsent = e.sent := by
  have hkept := hs.kept
  have hlane := hs.lane
  unfold unsent
  unfold InLane at hlane
  cases hentry : e.entry with
  | none =>
    obtain ⟨-,hg,-,ha⟩ := h.gone hentry
    refine ⟨_,true,ha,?_⟩
    rw [hg, ← hkept]
    simp [payload]
  | some st =>
    rw [hentry] at hlane
    obtain ⟨-,taken,hout,hcar⟩ := hlane
    obtain ⟨bytes,ha,hp,-⟩ := hcar.healthy h.healthy
    refine ⟨bytes,st.finSent,ha,?_⟩
    rw [← hkept, ← e.bridge.payload_outs, hout, payload_append, ← hp]
    simp

end QuicEnd

namespace QuicTunnel
variable {p : Peers} {t : QuicTunnel}

/-- Both ends, and both directions between them. -/
structure Sound (p : Peers) (t : QuicTunnel) : Prop where
  client : t.client.Sound p.sid
  server : t.server.Sound p.sid
  up : t.client.Wired t.server p.sid
  down : t.server.Wired t.client p.sid
  requester : ∀ list, ¬ QuicEnd.Responses t.client.quic p.sid list
  responder : ∀ list, QuicEnd.Responses t.server.quic p.sid list → list = p.response
  settled : (t.client.quic.on p.sid).Settled ∧ (t.server.quic.on p.sid).Settled

/-- A further HEADERS block can only be the server's response. -/
theorem Sound.expects (h : Sound p t) {side : Side} {a : QuicEndAct} (hl : Linked p t (side,a)) :
    (∀ ev, a = .event ev → QuicEnd.Expects (p.role side) ev) ∧
      ∀ list, a = .event (.headers list) → list = p.response := by
  cases side with
  | client =>
    constructor
    · rintro ev -
      cases ev <;> trivial
    · rintro list rfl
      obtain ⟨fin,hm⟩ := hl
      exact h.responder list ⟨fin,true,hm⟩
  | server =>
    have hno : ∀ list, a ≠ .event (.headers list) := by
      rintro list rfl
      obtain ⟨fin,hm⟩ := hl
      exact h.requester list ⟨fin,true,hm⟩
    refine ⟨?_,fun list ha => absurd ha (hno list)⟩
    rintro ev rfl
    cases ev with
    | headers list => exact absurd rfl (hno list)
    | _ => trivial

theorem Sound.step (h : Sound p t) (q : Side × QuicEndAct) (hl : Linked p t q) :
    Sound p (step p t q) := by
  obtain ⟨side,a⟩ := q
  have hev := (h.expects hl).1
  cases side with
  | client =>
    have hs := h.client.act (p.key .client) a hev
    obtain ⟨new,hq,-⟩ := t.client.act_calls (p.key .client) p.sid a hev
    refine ⟨hs,h.server,h.up.sender ⟨new,hq.symm⟩ hs.sends.lane.accepts,h.down.receiver a hl hev,?_,
      h.responder,QuicEnd.settled_act h.settled.1 hl hev,h.settled.2⟩
    exact fun list hr => h.requester list (t.client.responses_act a hev hr)
  | server =>
    have hs := h.server.act (p.key .server) a hev
    obtain ⟨new,hq,-⟩ := t.server.act_calls (p.key .server) p.sid a hev
    refine ⟨h.client,hs,h.up.receiver a hl hev,h.down.sender ⟨new,hq.symm⟩ hs.sends.lane.accepts,
      h.requester,?_,h.settled.1,QuicEnd.settled_act h.settled.2 hl hev⟩
    exact fun list hr => h.responder list (t.server.responses_act a hev hr)

variable (p) in
/-- `open_stream` leaves a client so, when `quiche` takes the request and the requester is still there. -/
theorem client_opens {c : Conn} {req : OpenReq} (u' : Trace)
    (hs : p.clientEnv.sendRequest c.quic (Client.requestHeaders p.clientCfg) false = .ok p.sid)
    (hr : p.clientEnv.requesterGone (new p c.quic u').client.quic req = false) :
    let c' := (Client.openStream p.clientEnv p.clientCfg c req).1
    let e := (new p c.quic u').client
    c'.quic = e.quic ∧ c'.streams.lookup p.sid = e.entry ∧
      c'.spawned = c.spawned ++ [e.bridge.stream] := by
  simp only [new, QuicEnd.new] at hr
  simp [Client.openStream, hs, hr, new, QuicEnd.new, Conn.note, Conn.enter, Conn.put]

variable (p) in
/-- The request opens the server's end when both are configured with the same path. -/
theorem server_opens {c : Conn} (u : Trace) (hpath : p.clientCfg.wsPath = p.serverCfg.wsPath)
    (hs : p.serverEnv.sendResponse (.poll p.sid (.headers (Client.requestHeaders p.clientCfg)) :: c.quic)
      p.sid p.response false = true) :
    let c' := eventStep (Server.handleEvent p.serverEnv p.serverCfg p.serverKey) c
      (p.sid,.headers (Client.requestHeaders p.clientCfg))
    let e := (new p u c.quic).server
    c'.quic = e.quic ∧ c'.streams.lookup p.sid = e.entry ∧
      c'.spawned = c.spawned ++ [e.bridge.stream] := by
  have ht := (requestHeaders_isTunnel p.clientCfg).mpr hpath
  rw [Peers.response] at hs
  simp [eventStep, Server.handleEvent, Server.handleHeaders, ht, hs, new, QuicEnd.new, Peers.response,
    Conn.note, Conn.enter, Conn.put]

theorem notMem_of_on {u : Trace} {sid : ℕ} (hu : u.on sid = []) {call : Call} (hs : call.stream = some sid) :
    call ∉ u := by
  intro hm
  have hon := (Trace.mem_on u sid).mpr ⟨hm,hs⟩
  rw [hu] at hon
  cases hon

/-- All that has happened on the stream so far is the request and its response. -/
theorem new_unused {u u' : Trace} (hu : u.on p.sid = []) (hu' : u'.on p.sid = []) :
    QuicEnd.Unused (new p u u').client.quic p.sid ∧ QuicEnd.Unused (new p u u').server.quic p.sid := by
  constructor
  · intro call hm hcall
    simp only [new, QuicEnd.new, List.mem_cons] at hm
    obtain rfl | rfl | hm := hm
    · simp [Call.KeepsWrite, Call.taken]
    · simp [Call.KeepsWrite, Call.taken]
    · exact absurd hm (notMem_of_on hu hcall)
  · intro call hm hcall
    simp only [new, QuicEnd.new, List.mem_cons] at hm
    obtain rfl | rfl | rfl | hm := hm
    · simp [Call.KeepsWrite, Call.taken]
    · simp [Call.KeepsWrite, Call.taken]
    · simp [Call.KeepsWrite, Call.taken]
    · exact absurd hm (notMem_of_on hu' hcall)

theorem Sound.new {u u' : Trace} (hu : u.on p.sid = []) (hu' : u'.on p.sid = []) :
    Sound p (new p u u') := by
  obtain ⟨hc,hs⟩ := new_unused hu hu'
  refine ⟨.new hc _ (by simp),.new hs _ (by simp),hs.wired _,hc.wired _,?_,?_,hc.settled,hs.settled⟩
  · rintro list ⟨fin,ok,hm⟩
    have hm : .sendResponse p.sid list fin ok ∈ u := by simpa [QuicTunnel.new, QuicEnd.new] using hm
    exact notMem_of_on hu rfl hm
  · rintro list ⟨fin,ok,hm⟩
    have hm : (list = p.response ∧ fin = false ∧ ok = true) ∨ .sendResponse p.sid list fin ok ∈ u' := by
      simpa [QuicTunnel.new, QuicEnd.new] using hm
    exact hm.elim And.left fun hm => absurd hm (notMem_of_on hu' rfl)

/-- One direction. -/
theorem Sound.conveys (h : Sound p t) (side : Side) :
    let x := t.side side
    let y := t.side side.other
    Conveys x.sent (x.finished = true) y.delivered (y.down.shut = true ∧ y.disturbed = false) := by
  cases side with
  | client =>
    exact (h.client.sends.conveys.trans (h.up.conveys h.client.sends h.settled.1)).trans
      h.server.receives.conveys
  | server =>
    exact (h.server.sends.conveys.trans (h.down.conveys h.server.sends h.settled.2)).trans
      h.client.receives.conveys

/-- A tunnel that nothing outside the program disturbs. -/
def Calm (p : Peers) (t : QuicTunnel) (q : Side × QuicEndAct) : Prop :=
  Linked p t q ∧ QuicEnd.Calm (p.role q.1).env p.sid (t.side q.1.other) (t.side q.1) q.2

instance (t : QuicTunnel) (q : Side × QuicEndAct) : Decidable (Calm p t q) :=
  inferInstanceAs (Decidable (_ ∧ QuicEnd.Calm ..))

structure Clean (p : Peers) (t : QuicTunnel) : Prop where
  sound : Sound p t
  client : t.client.Clean p.sid
  server : t.server.Clean p.sid

theorem isSuccess_response (p : Peers) : Client.isSuccess p.response = true := by
  have hstatus : Client.parseU16 (utf8 "200") = some 200 := by decide +kernel
  simp [Client.isSuccess, Peers.response, header, hstatus]

theorem Clean.step (h : Clean p t) (q : Side × QuicEndAct) (hc : Calm p t q) :
    Clean p (QuicTunnel.step p t q) := by
  have hs := h.sound.step q hc.1
  obtain ⟨side,a⟩ := q
  obtain ⟨hl,hcalm⟩ := hc
  obtain ⟨hev,hresp⟩ := h.sound.expects hl
  have hok : ∀ list, a = .event (.headers list) → Client.isSuccess list = true := by
    intro list ha
    rw [hresp list ha]
    exact isSuccess_response p
  cases side with
  | client =>
    exact ⟨hs,h.client.act h.sound.client h.server hcalm hev hok,h.server⟩
  | server =>
    exact ⟨hs,h.client,h.server.act h.sound.server h.client hcalm hev hok⟩

theorem Clean.new {u u' : Trace} (hu : u.on p.sid = []) (hu' : u'.on p.sid = []) :
    Clean p (QuicTunnel.new p u u') := by
  obtain ⟨hc,hs⟩ := new_unused hu hu'
  refine ⟨.new hu hu',.new hc _ (Or.inr rfl) ?_,.new hs _ (Or.inl rfl) ?_⟩
  · have h : Call.streamShutdown p.sid .read ∉ u := notMem_of_on hu rfl
    simpa [QuicTunnel.new, QuicEnd.new] using h
  · have h : Call.streamShutdown p.sid .read ∉ u' := notMem_of_on hu' rfl
    simpa [QuicTunnel.new, QuicEnd.new] using h

/-- Half-close: in a tunnel that nothing outside the program disturbs, no stream is reset and no task
ends before both of its directions, and each direction carries every byte to its end, whatever has become
of the other. -/
theorem calm_relays (p : Peers) {u u' : Trace} (hu : u.on p.sid = []) (hu' : u'.on p.sid = [])
    {acts : List (Side × QuicEndAct)} (h : Run.Meets (step p) (Calm p) (new p u u') acts)
    (side : Side) :
    let t := Run.run (step p) (new p u u') acts
    let x := t.side side
    let y := t.side side.other
    (x.bridge.Live ∨ x.up.shut = true ∧ x.down.shut = true) ∧
      .streamShutdown p.sid .write ∉ x.quic ∧
      x.sent = y.delivered ++ y.undelivered ++ x.inTransit y p.sid ++ x.unsent ∧
      (y.down.shut = true → x.finished = true ∧ y.delivered = x.sent) := by
  intro t x y
  have hc : Clean p t := h.induction (fun _ q hs hl => hs.step q hl) (.new hu hu')
  have hcon := hc.sound.conveys side
  have hends : x.Clean p.sid ∧ y.Clean p.sid ∧ x.Sound p.sid ∧ y.Sound p.sid ∧ x.Wired y p.sid := by
    cases side with
    | client => exact ⟨hc.client,hc.server,hc.sound.client,hc.sound.server,hc.sound.up⟩
    | server => exact ⟨hc.server,hc.client,hc.sound.server,hc.sound.client,hc.sound.down⟩
  obtain ⟨hx,hy,hsx,hsy,hw⟩ := hends
  refine ⟨hx.whole,hx.unreset,?_,fun hd => hcon.whole ⟨hd,hy.disturbed⟩⟩
  obtain ⟨bytes,fin,ha,hsent⟩ := hx.conserved hsx.sends
  have htaken : y.taken p.sid = y.delivered ++ y.undelivered := by
    rw [QuicEnd.taken, hsy.receives.conserved]
    simp [QuicEnd.undelivered]
  rw [← hsent, ← hw.taken_append_inTransit ha, htaken]

end QuicTunnel

/-- Surroundings in which the body of a stream is one byte, with its fin right behind. -/
def Env.handing (b : Byte) : Env :=
  { Env.idle with
    recvBody := fun t sid => if t.taken sid = [] then .ok [b] else .done
    streamFinished := fun t sid => decide (t.taken sid = [b])
    recvBody_le := by
      intro t sid bytes h
      split at h
      · cases h
        simp [RECV_CHUNK]
      · contradiction }

namespace QuicTunnel

/-- Peers whose clients ask for `/ws` and get the byte 2, while the server gets the byte 1. -/
def exchangePeers : Peers where
  sid := 0
  clientEnv := .handing 2
  clientCfg := .plain
  addr := ⟨[127,0,0,1],443⟩
  scid := []
  first := 0
  serverEnv :=
    { Env.handing 1 with
      fromSlice := fun pkt => some ⟨.initial,1,pkt,[]⟩
      versionIsSupported := fun _ => true
      serverConfig := fun _ => true
      accept := fun _ _ => true }
  serverCfg := Listener.fresh.cfg
  serverKey := [1]

/-- One side sends a byte and closes its half. -/
def oneByte (side : Side) (b : Byte) : List (Side × QuicEndAct) :=
  [(side,.send [b]),(side,.finish),(side,.fill 8),(side,.write .ready),(side,.fill 8),
    (side,.shutdown .ready),(side,.dequeue),(side,.dequeue),(side,.pump),
    (side.other,.event .data),(side.other,.pass),(side.other,.turn),(side.other,.turn),
    (side.other,.read 8),(side.other,.read 8),(side.other,.deliver 8),(side.other,.shutdownLocal)]

def goodbye (side : Side) : List (Side × QuicEndAct) :=
  [(side,.complete),(side,.close .ready),(side,.dequeue),(side,.reap)]

/-- The server answers after the client has closed its half. -/
def exchange : List (Side × QuicEndAct) :=
  (.server,.dialed true) :: (.client,.event (.headers exchangePeers.response)) ::
    oneByte .client 1 ++ oneByte .server 2 ++ goodbye .server ++ goodbye .client

theorem calm_relays_exchange :
    let t := Run.run (step exchangePeers) (new exchangePeers [] []) exchange
    let x := t.side .server
    let y := t.side (Side.other .server)
    (x.bridge.Live ∨ x.up.shut = true ∧ x.down.shut = true) ∧
      .streamShutdown exchangePeers.sid .write ∉ x.quic ∧
      x.sent = y.delivered ++ y.undelivered ++ x.inTransit y exchangePeers.sid ++ x.unsent ∧
      (y.down.shut = true → x.finished = true ∧ y.delivered = x.sent) :=
  calm_relays exchangePeers rfl rfl (by decide +kernel) .server

end QuicTunnel
end EchTunnel
