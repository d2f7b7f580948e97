import EchTunnel.Library.Run
import EchTunnel.Quic.Pump

/-! The bytes `quiche` accepts on a tunnel stream are the bytes its bridge wrote. -/
namespace EchTunnel
open Wire

/-- What a call puts on the stream: the accepted bytes, and `none` for the fin. -/
def Call.accepted : Call → List (Option Byte)
  | .sendBody _ body fin (.ok n) =>
    (body.take n).map some ++ if fin ∧ n = body.length then [none] else []
  | _ => []

/-- A `send_body` that failed hard. -/
def Call.refused : Call → Bool
  | .sendBody _ _ _ .err => true
  | _ => false

namespace Trace

/-- Everything accepted so far, oldest first. -/
def accepted (t : Trace) : List (Option Byte) := t.reverse.flatMap Call.accepted

/-- `send_body` failed hard. -/
def Failed (t : Trace) : Prop := ∃ sid body fin, .sendBody sid body fin .err ∈ t

/-- Nothing was accepted after a hard failure. -/
def Settled (t : Trace) : Prop :=
  ∀ sid body fin new old, t = new ++ .sendBody sid body fin .err :: old → accepted new = []

@[simp] theorem accepted_nil : accepted [] = [] := rfl

@[simp] theorem accepted_append (t u : Trace) : accepted (u ++ t) = accepted t ++ accepted u := by
  simp [accepted]

@[simp] theorem accepted_cons (call : Call) (t : Trace) :
    accepted (call :: t) = accepted t ++ call.accepted := by simp [accepted]

theorem failed_append (t u : Trace) : Failed (u ++ t) ↔ Failed u ∨ Failed t := by
  constructor
  · rintro ⟨sid,body,fin,h⟩
    exact (List.mem_append.mp h).imp (⟨sid,body,fin,·⟩) (⟨sid,body,fin,·⟩)
  · rintro (⟨sid,body,fin,h⟩ | ⟨sid,body,fin,h⟩)
    · exact ⟨sid,body,fin,List.mem_append_left _ h⟩
    · exact ⟨sid,body,fin,List.mem_append_right _ h⟩

@[simp] theorem failed_nil : ¬ Failed [] := by
  rintro ⟨sid,body,fin,h⟩
  cases h

@[simp] theorem failed_singleton (call : Call) :
    Failed [call] ↔ ∃ sid body fin, call = .sendBody sid body fin .err := by
  simp only [Failed, List.mem_singleton, eq_comm]

theorem Settled.old {t u : Trace} (h : Settled (u ++ t)) : Settled t := by
  intro sid body fin new old ht
  have := h sid body fin (u ++ new) old (by rw [ht, List.append_assoc])
  rw [accepted_append, List.append_eq_nil_iff] at this
  exact this.1

/-- After a failure nothing more is accepted. -/
theorem Settled.quiet {t u : Trace} (h : Settled (u ++ t)) (hf : t.Failed) : accepted u = [] := by
  obtain ⟨sid,body,fin,hm⟩ := hf
  obtain ⟨new,old,ht⟩ := List.append_of_mem hm
  have := h sid body fin (u ++ new) old (by rw [ht, List.append_assoc])
  rw [accepted_append, List.append_eq_nil_iff] at this
  exact this.2

/-- Calls that send no body leave a settled history settled. -/
theorem Settled.append {t u : Trace} (h : Settled t) (hu : accepted u = []) : Settled (u ++ t) := by
  intro sid body fin new old he
  rcases List.append_eq_append_iff.mp he with ⟨l,rfl,ht⟩ | ⟨l,rfl,-⟩
  · rw [accepted_append, hu, List.append_nil]
    exact h sid body fin l old ht
  · rw [accepted_append, List.append_eq_nil_iff] at hu
    exact hu.2

theorem settled_cons (call : Call) (t : Trace) :
    Settled (call :: t) ↔ Settled t ∧ (Failed t → call.accepted = []) := by
  constructor
  · intro h
    have hsplit : Settled ([call] ++ t) := h
    exact ⟨hsplit.old,fun hf => by simpa using hsplit.quiet hf⟩
  · rintro ⟨h,hc⟩
    by_cases hf : Failed t
    · exact h.append (show accepted [call] = [] by simpa using hc hf)
    · intro sid body fin new old he
      cases new with
      | nil => rfl
      | cons c new =>
        obtain ⟨rfl,rfl⟩ := List.cons.inj he
        exact absurd ⟨sid,body,fin,List.mem_append_right _ List.mem_cons_self⟩ hf

instance (t : Trace) : Decidable (Failed t) :=
  decidable_of_iff (∃ call ∈ t, call.refused) <| by
    constructor
    · rintro ⟨call,hm,hr⟩
      unfold Call.refused at hr
      split at hr
      · exact ⟨_,_,_,hm⟩
      · contradiction
    · rintro ⟨sid,body,fin,hm⟩
      exact ⟨_,hm,rfl⟩

instance : (t : Trace) → Decidable (Settled t)
  | [] => isTrue (by simp [Settled])
  | call :: t =>
    have : Decidable (Settled t) := instDecidableSettled t
    decidable_of_iff _ (settled_cons call t).symm

end Trace

/-- The payload of a sequence of messages. -/
def payload (outs : List StreamOut) : Bytes :=
  outs.flatMap fun
    | .data b => b
    | _ => []

@[simp] theorem payload_append (xs ys : List StreamOut) :
    payload (xs ++ ys) = payload xs ++ payload ys := List.flatMap_append

@[simp] theorem payload_data (bs : List Bytes) : payload (bs.map .data) = bs.flatten := by
  induction bs with
  | nil => rfl
  | cons b bs ih => simpa [payload] using ih

namespace Bridge

/-- The messages the bridge has put into the egress channel. -/
def outs (b : Bridge) : List StreamOut :=
  b.written.map .data ++ ((if b.stream.shutdownSent then [.fin] else []) ++
    if b.phase = .done then [.closed] else [])

theorem payload_outs (b : Bridge) : payload b.outs = b.written.flatten := by
  rw [outs, payload_append, payload_data, payload_append]
  split_ifs <;> simp [payload]

/-- While the channel is open, what a task sends is appended to what it has sent. -/
theorem act_outs (b : Bridge) (a : BridgeAct) (h : ∀ r ∈ a.reserve, r ≠ .closed) :
    (b.act a).1.outs = b.outs ++ (b.act a).2.toList.map Egress.out ∧
      (b.act a).1.stream.streamId = b.stream.streamId ∧
      ∀ m ∈ (b.act a).2, m.streamId = b.stream.streamId := by
  obtain he | ⟨phase,hlive,hphase,he⟩ | ⟨buf,rfl,hp,hs,he⟩ | ⟨r,rfl,hr,hp,hs,he⟩ |
    ⟨r,rfl,hr,hp,he⟩ := b.act_cases a
  · rw [he]
    simp
  · have hd : b.phase ≠ .done := by rcases hlive with h | h <;> simp [h]
    have hd' : phase ≠ .done := by rcases hphase with h | h <;> simp [h]
    rw [he]
    simp [outs, hd, hd']
  · rw [he]
    simp [outs, hs, hp, QuicStream.egress]
  · cases r with
    | ready =>
      rw [he]
      simp [outs, hs, hp, QuicStream.egress]
    | closed => exact absurd rfl (h .closed rfl)
    | pending => exact absurd rfl hr
  · cases r with
    | ready =>
      rw [he]
      simp [outs, hp, QuicStream.closeNotice, QuicStream.egress]
    | closed => exact absurd rfl (h .closed rfl)
    | pending => exact absurd rfl hr

end Bridge

/-- What is left of a stream's state while it is in the map: `taken` has been dequeued, the front
part of its payload is accepted, the rest is pending. -/
structure Carrying (u : Trace) (st : StreamState) (taken : List StreamOut) : Prop where
  closed : st.closed = true ↔ .closed ∈ taken
  finPending : st.finPending = true ↔ .fin ∈ taken
  unreset : ∀ sid, .streamShutdown sid .write ∉ u
  healthy : ¬ u.Failed → ∃ bs, u.accepted = bs.map some ++ (if st.finSent then [none] else []) ∧
    bs ++ st.pending.flatten = payload taken ∧ (st.finSent → st.pending = [] ∧ .fin ∈ taken)
  failed : u.Failed → st.finSent ∧ ∃ bs, u.accepted = bs.map some ∧
    (u.Settled → bs <+: payload taken)

theorem drainPending_spec (env : Env) (sid : ℕ) (fronts : List Bytes) (t : Trace) (st : StreamState) :
    ∃ (new : Trace) (pending : List Bytes) (failed : Bool) (bs : Bytes),
      drainPending env sid fronts t st =
        (new ++ t,{ st with pending := pending, finSent := st.finSent || failed }) ∧
      (∀ call ∈ new, ∃ body a, call = .sendBody sid body false a) ∧
      new.accepted = bs.map some ∧ pending.length ≤ fronts.length ∧ (fronts = [] → new = []) ∧
      (failed = false → ¬ new.Failed ∧ bs ++ pending.flatten = fronts.flatten) ∧
      (failed = true → new.Failed ∧ pending = [] ∧ bs <+: fronts.flatten) := by
  induction fronts generalizing t with
  | nil => exact ⟨[],[],false,[],by simp [drainPending],by simp,rfl,le_rfl,fun _ => rfl,by simp,by simp⟩
  | cons front rest ih =>
    rw [drainPending]
    cases ha : env.sendBody t sid front false with
    | ok n =>
      simp only
      by_cases hn : n = front.length
      · rw [if_pos hn]
        obtain ⟨new,pending,failed,bs,he,hc,hb,hl,_,hok,hfail⟩ := ih (.sendBody sid front false (.ok n) :: t)
        refine ⟨new ++ [.sendBody sid front false (.ok n)],pending,failed,front ++ bs,?_,?_,?_,?_,by simp,?_,?_⟩
        · rw [he, List.append_assoc, List.singleton_append]
        · intro call hm
          rcases List.mem_append.mp hm with hm | hm
          · exact hc call hm
          · exact ⟨front,.ok n,List.mem_singleton.mp hm⟩
        · simp [hb, Call.accepted, hn]
        · simp only [List.length_cons]
          omega
        · intro h
          obtain ⟨hnf,hp⟩ := hok h
          refine ⟨?_,by rw [List.append_assoc, hp, List.flatten_cons]⟩
          rw [Trace.failed_append]
          exact fun hf => hf.elim hnf (by simp)
        · intro h
          obtain ⟨hf,hp,hbs⟩ := hfail h
          refine ⟨(Trace.failed_append _ _).mpr (Or.inl hf),hp,?_⟩
          rw [List.flatten_cons]
          exact (List.prefix_append_right_inj front).mpr hbs
      · rw [if_neg hn]
        refine ⟨[.sendBody sid front false (.ok n)],front.drop n :: rest,false,front.take n,?_,?_,?_,
          by simp,by simp,?_,?_⟩
        · simp
        · simp
        · simp [Call.accepted, hn]
        · intro _
          refine ⟨by simp,?_⟩
          rw [List.flatten_cons, List.flatten_cons, ← List.append_assoc, List.take_append_drop]
        · simp
    | done =>
      refine ⟨[.sendBody sid front false .done],front :: rest,false,[],?_,?_,rfl,le_rfl,by simp,?_,?_⟩
      · simp
      · simp
      · simp
      · simp
    | err =>
      refine ⟨[.sendBody sid front false .err],[],true,[],?_,?_,rfl,by simp,by simp,?_,?_⟩
      · simp
      · simp
      · simp
      · intro _
        exact ⟨⟨sid,front,false,by simp⟩,rfl,List.nil_prefix⟩

theorem sendFin_spec (env : Env) (sid : ℕ) (t : Trace) (st : StreamState) :
    sendFin env sid t st = (t,st) ∨
      st.pending = [] ∧ st.finPending ∧ st.finSent = false ∧ ∃ a,
        sendFin env sid t st =
          (.sendBody sid [] true a :: t,{ st with finSent := decide (a ≠ .done) }) ∧
        ∀ n, a = .ok n → n = 0 := by
  unfold sendFin
  split
  · rename_i h
    obtain ⟨hp,hf,hs⟩ := h
    refine Or.inr ⟨hp,hf,by simpa using hs,env.sendBody t sid [] true,?_,?_⟩
    · cases ha : env.sendBody t sid [] true with
      | ok n => simp
      | done =>
        have : st.finSent = false := by simpa using hs
        simp [← this]
      | err => simp
    · intro n ha
      exact Nat.le_zero.mp (env.sendBody_le ha)
  · exact Or.inl rfl

/-- What `pump_outbound` does to a stream: `send_body` calls, fewer messages pending, and a fin
flag that is set only when the write side has ended. -/
theorem pumpStream_spec (env : Env) (sid : ℕ) (t : Trace) (st : StreamState) :
    ∃ new : Trace, (pumpStream env sid t st).1 = new ++ t ∧ (∀ call ∈ new, call.Outbound sid) ∧
      (pumpStream env sid t st).2.closed = st.closed ∧
      (pumpStream env sid t st).2.pending.length ≤ st.pending.length ∧
      ((pumpStream env sid t st).2.finSent → st.finSent ∨ new.WriteEnded sid) := by
  obtain ⟨new,pending,failed,bs,he,hc,_,hl,_,_,hfail⟩ := drainPending_spec env sid st.pending t st
  have hcalls : ∀ call ∈ new, call.Outbound sid := by
    intro call hm
    obtain ⟨body,a,rfl⟩ := hc call hm
    rfl
  have hended : (st.finSent || failed) = true → st.finSent ∨ new.WriteEnded sid := by
    intro hf
    rcases Bool.or_eq_true_iff.mp hf with hf | hf
    · exact Or.inl hf
    · obtain ⟨⟨s,body,fin,hm⟩,_⟩ := hfail hf
      obtain ⟨_,_,he⟩ := hc _ hm
      cases he
      exact Or.inr ⟨_,hm,rfl,Or.inr rfl⟩
  rw [pumpStream, he]
  simp only
  obtain hs | ⟨_,_,_,a,hs,hn⟩ := sendFin_spec env sid (new ++ t)
    { st with pending := pending, finSent := st.finSent || failed }
  · rw [hs]
    exact ⟨new,rfl,hcalls,rfl,hl,hended⟩
  · rw [hs]
    refine ⟨.sendBody sid [] true a :: new,rfl,?_,rfl,hl,?_⟩
    · simpa [Call.Outbound] using hcalls
    · intro hf
      right
      cases a with
      | ok n =>
        rw [hn n rfl]
        exact ⟨_,List.mem_cons_self,rfl,Or.inl ⟨rfl,rfl⟩⟩
      | done => simp at hf
      | err => exact ⟨_,List.mem_cons_self,rfl,Or.inr rfl⟩

theorem pumpStream_inbound (env : Env) (sid : ℕ) (t : Trace) (st : StreamState) :
    (pumpStream env sid t st).2.inboundTx = st.inboundTx ∧
      (pumpStream env sid t st).2.readable = st.readable := by
  obtain ⟨new,pending,failed,_,he,_⟩ := drainPending_spec env sid st.pending t st
  rw [pumpStream, he]
  obtain hs | ⟨_,_,_,_,hs,_⟩ := sendFin_spec env sid (new ++ t)
    { st with pending := pending, finSent := st.finSent || failed }
  · simp only [hs, and_self]
  · simp only [hs, and_self]

/-- What `pump_outbound` does to a stream: nothing, or `send_body` calls and a new entry with the same
read side. -/
theorem pumpOutboundAt_spec (env : Env) (c : Conn) (sid : ℕ) :
    pumpOutboundAt env c sid = c ∨ ∃ st st' new, c.streams.lookup sid = some st ∧
      pumpOutboundAt env c sid = c.put sid (new ++ c.quic) st' ∧
      (∀ call ∈ new, call.Outbound sid) ∧ st'.closed = st.closed ∧
      st'.pending.length ≤ st.pending.length ∧ (st'.finSent → st.finSent ∨ Trace.WriteEnded new sid) ∧
      st'.inboundTx = st.inboundTx ∧ st'.readable = st.readable := by
  unfold pumpOutboundAt
  cases hl : c.streams.lookup sid with
  | none => exact Or.inl rfl
  | some st =>
    obtain ⟨new,he,hn,hc,hlen,hf⟩ := pumpStream_spec env sid c.quic st
    refine Or.inr ⟨st,(pumpStream env sid c.quic st).2,new,rfl,?_,hn,hc,hlen,hf,
      pumpStream_inbound env sid c.quic st⟩
    simp only [he]

/-- The passes of the loop add to what has happened. -/
theorem exchange_quic (env : Env) {handle : Conn → ℕ → H3Event → Conn}
    (hh : ∀ c sid e, c.quic <:+ (handle c sid e).quic) (c : Conn) :
    c.quic <:+ (exchange env handle c).quic := by
  apply exchange_induction env (P := fun c' => c.quic <:+ c'.quic) (C := fun _ _ => True)
    List.suffix_rfl (Run.Meets.of_forall (fun _ _ => trivial) _ _)
  case hevent =>
    rintro c' ⟨sid,e⟩ hc _
    exact (hc.trans (List.suffix_cons _ _)).trans (hh (c'.note (.poll sid e)) sid e)
  case hin =>
    intro c' sid hc
    obtain he | ⟨_,_,new,_,he,_⟩ := pumpInboundAt_spec env c' sid
    · rwa [he]
    · rw [he]
      exact hc.trans (List.suffix_append new _)
  case hout =>
    intro c' sid hc
    obtain he | ⟨_,_,new,_,he,_⟩ := pumpOutboundAt_spec env c' sid
    · rwa [he]
    · rw [he]
      exact hc.trans (List.suffix_append new _)
  case hreap =>
    intro c' sid hc
    obtain he | ⟨_,new,_,_,_,he,_⟩ := reapAt_spec env c' sid
    · rwa [he]
    · rw [he]
      exact hc.trans (List.suffix_append new _)

namespace Carrying
variable {u new : Trace} {st : StreamState} {taken : List StreamOut}

theorem drain (h : Carrying u st taken) {pending : List Bytes} {failed : Bool} {bs : Bytes}
    (hcalls : ∀ call ∈ new, ∃ body a, call = .sendBody sid body false a)
    (hacc : new.accepted = bs.map some) (hlen : pending.length ≤ st.pending.length)
    (hnil : st.pending = [] → new = [])
    (hok : failed = false → ¬ new.Failed ∧ bs ++ pending.flatten = st.pending.flatten)
    (hfail : failed = true → new.Failed ∧ pending = [] ∧ bs <+: st.pending.flatten) :
    Carrying (new ++ u) { st with pending := pending, finSent := st.finSent || failed } taken where
  closed := h.closed
  finPending := h.finPending
  unreset := by
    intro s hm
    rcases List.mem_append.mp hm with hm | hm
    · obtain ⟨body,a,he⟩ := hcalls _ hm
      cases he
    · exact h.unreset s hm
  healthy := by
    intro hnf
    rw [Trace.failed_append, not_or] at hnf
    have hff : failed = false := by
      by_contra hx
      exact hnf.1 (hfail (by simpa using hx)).1
    obtain ⟨bs₀,ha,hp,hs⟩ := h.healthy hnf.2
    cases hfs : st.finSent with
    | true =>
      obtain ⟨hpe,hfin⟩ := hs hfs
      have hpend : pending = [] := by
        rw [hpe] at hlen
        exact List.length_eq_zero_iff.mp (Nat.le_zero.mp hlen)
      rw [hfs] at ha
      refine ⟨bs₀,?_,?_,fun _ => ⟨hpend,hfin⟩⟩
      · simp [hnil hpe, ha]
      · rw [hpe] at hp
        simpa [hpend] using hp
    | false =>
      rw [hfs] at ha
      refine ⟨bs₀ ++ bs,?_,?_,by simp [hff]⟩
      · simp [ha, hacc, hff]
      · simp only [List.append_assoc, (hok hff).2, hp]
  failed := by
    intro hf
    by_cases hu : u.Failed
    · obtain ⟨hs,bs₀,ha,hp⟩ := h.failed hu
      refine ⟨by simp [hs],bs₀ ++ bs,by simp [ha, hacc],?_⟩
      intro hset
      have hq := hset.quiet hu
      rw [hacc, List.map_eq_nil_iff] at hq
      rw [hq, List.append_nil]
      exact hp hset.old
    · have hff : failed = true := by
        by_contra hx
        rcases (Trace.failed_append _ _).mp hf with hn | hn
        · exact (hok (by simpa using hx)).1 hn
        · exact hu hn
      obtain ⟨bs₀,ha,hp,hs⟩ := h.healthy hu
      have hfs : st.finSent = false := by
        by_contra hx
        have := hnil (hs (by simpa using hx)).1
        simp [this] at hfail
        exact absurd hff (by simpa using hfail)
      rw [hfs] at ha
      refine ⟨by simp [hff],bs₀ ++ bs,by simp [ha, hacc],fun _ => ?_⟩
      rw [← hp]
      exact (List.prefix_append_right_inj bs₀).mpr (hfail hff).2.2

/-- The fin goes out once nothing is pending. -/
theorem sendFin (h : Carrying u st taken) (env : Env) (sid : ℕ) (t : Trace) :
    ∃ new, (EchTunnel.sendFin env sid t st).1 = new ++ t ∧ (∀ call ∈ new, call.Outbound sid) ∧
      Carrying (new ++ u) (EchTunnel.sendFin env sid t st).2 taken := by
  obtain he | ⟨hpe,hfp,hfs,a,he,hn⟩ := sendFin_spec env sid t st
  · rw [he]
    exact ⟨[],rfl,by simp,h⟩
  · rw [he]
    refine ⟨[.sendBody sid [] true a],rfl,by simp [Call.Outbound],?_⟩
    have hu : ¬ u.Failed := fun hu => by simp [(h.failed hu).1] at hfs
    obtain ⟨bs,ha,hp,_⟩ := h.healthy hu
    simp only [hfs, hpe, List.flatten_nil, List.append_nil, Bool.false_eq_true, if_false] at ha hp
    have hfin : .fin ∈ taken := h.finPending.mp hfp
    have hres : ∀ s, .streamShutdown s .write ∉ [Call.sendBody sid [] true a] ++ u := by
      intro s hm
      exact h.unreset s (by simpa using hm)
    have hnu : Trace.Failed ([Call.sendBody sid [] true a] ++ u) ↔ a = .err := by
      rw [Trace.failed_append, Trace.failed_singleton]
      simp [hu]
    refine ⟨h.closed,h.finPending,hres,?_,?_⟩
    · intro hnf
      rw [hnu] at hnf
      refine ⟨bs,?_,by simp [hpe, hp],fun _ => ⟨hpe,hfin⟩⟩
      cases a with
      | ok n => simp [ha, Call.accepted, hn n rfl]
      | done => simp [ha, Call.accepted]
      | err => exact absurd rfl hnf
    · intro hf
      rw [hnu] at hf
      subst a
      exact ⟨by simp,bs,by simp [ha, Call.accepted],fun _ => hp ▸ List.prefix_refl _⟩

theorem pump (h : Carrying u st taken) (env : Env) (sid : ℕ) (t : Trace) :
    ∃ new, (pumpStream env sid t st).1 = new ++ t ∧ (∀ call ∈ new, call.Outbound sid) ∧
      Carrying (new ++ u) (pumpStream env sid t st).2 taken := by
  obtain ⟨new,pending,failed,bs,he,hc,hb,hl,hnil,hok,hfail⟩ := drainPending_spec env sid st.pending t st
  have hd := h.drain hc hb hl hnil hok hfail
  obtain ⟨new',he',hc',hd'⟩ := hd.sendFin env sid (new ++ t)
  refine ⟨new' ++ new,?_,?_,?_⟩
  · rw [pumpStream, he, List.append_assoc]
    exact he'
  · intro call hm
    rcases List.mem_append.mp hm with hm | hm
    · exact hc' call hm
    · obtain ⟨body,a,rfl⟩ := hc call hm
      rfl
  · rw [pumpStream, he, List.append_assoc]
    exact hd'

/-- A dequeued message is applied to the entry. No data follows the fin. -/
theorem queue (h : Carrying u st taken) {out : StreamOut}
    (hout : ∀ b, out = .data b → .fin ∉ taken) : Carrying u (st.queue out) (taken ++ [out]) := by
  cases out with
  | data b =>
    have hfin := hout b rfl
    refine ⟨by simp [StreamState.queue, h.closed],by simp [StreamState.queue, h.finPending],h.unreset,
      ?_,?_⟩
    · intro hu
      obtain ⟨bs,ha,hp,hs⟩ := h.healthy hu
      refine ⟨bs,ha,?_,fun hx => absurd (hs hx).2 hfin⟩
      simp only [StreamState.queue, List.flatten_append, payload_append, ← hp, List.append_assoc]
      simp [payload]
    · intro hu
      obtain ⟨hs,bs,ha,hp⟩ := h.failed hu
      refine ⟨hs,bs,ha,fun hset => ?_⟩
      rw [payload_append]
      exact (hp hset).trans (List.prefix_append _ _)
  | fin =>
    refine ⟨by simp [StreamState.queue, h.closed],by simp [StreamState.queue],h.unreset,?_,?_⟩
    · intro hu
      obtain ⟨bs,ha,hp,hs⟩ := h.healthy hu
      exact ⟨bs,ha,by simp [StreamState.queue, hp, payload],fun hx => ⟨(hs hx).1,by simp⟩⟩
    · intro hu
      obtain ⟨hs,bs,ha,hp⟩ := h.failed hu
      exact ⟨hs,bs,ha,fun hset => by simpa [payload] using hp hset⟩
  | closed =>
    refine ⟨by simp [StreamState.queue],by simp [StreamState.queue, h.finPending],h.unreset,?_,?_⟩
    · intro hu
      obtain ⟨bs,ha,hp,hs⟩ := h.healthy hu
      exact ⟨bs,ha,by simp [StreamState.queue, hp, payload],fun hx => ⟨(hs hx).1,by simp [(hs hx).2]⟩⟩
    · intro hu
      obtain ⟨hs,bs,ha,hp⟩ := h.failed hu
      exact ⟨hs,bs,ha,fun hset => by simpa [payload] using hp hset⟩

end Carrying

/-- What a tunnel that `reap_streams` dropped leaves behind. -/
structure Reaped (u : Trace) (b : Bridge) : Prop where
  done : b.phase = .done
  healthy : ¬ u.Failed → ∃ fin : Bool, u.accepted =
    b.written.flatten.map some ++ (if fin then [none] else []) ∧
    (fin = true ↔ b.stream.shutdownSent = true) ∧
    ((∃ sid, .streamShutdown sid .write ∈ u) ↔ fin = false)
  failed : u.Failed → ∃ bs, u.accepted = bs.map some ∧ (u.Settled → bs <+: b.written.flatten)

theorem Bridge.fin_mem_outs (b : Bridge) : .fin ∈ b.outs ↔ b.stream.shutdownSent = true := by
  unfold outs
  split_ifs <;> simp_all

theorem Bridge.closed_mem_outs (b : Bridge) : .closed ∈ b.outs ↔ b.phase = .done := by
  unfold outs
  split_ifs <;> simp_all

/-- The fin comes after all data, the close notice comes last. -/
theorem Bridge.outs_order (b : Bridge) {taken flight : List StreamOut}
    (h : b.outs = taken ++ flight) :
    (.closed ∈ taken → flight = []) ∧ (.fin ∈ taken → ∀ bytes, .data bytes ∉ flight) := by
  have hd : ∀ x ∈ b.written.map StreamOut.data, x ≠ .fin ∧ x ≠ .closed := by simp
  constructor
  · intro hc
    have hphase : b.phase = .done := b.closed_mem_outs.mp (by simp [h, hc])
    rw [outs, if_pos hphase, ← List.append_assoc] at h
    rcases List.eq_nil_or_concat flight with hf | ⟨fl,x,hf⟩
    · exact hf
    · rw [hf, List.concat_eq_append, ← List.append_assoc] at h
      have hl := (List.append_inj' h rfl).1
      have hm : StreamOut.closed ∈ taken ++ fl := List.mem_append_left _ hc
      rw [← hl] at hm
      rcases List.mem_append.mp hm with hm | hm
      · exact absurd rfl (hd _ hm).2
      · split at hm <;> simp at hm
  · intro hf bytes hb
    rw [outs] at h
    rcases List.append_eq_append_iff.mp h with ⟨x,ht,hr⟩ | ⟨x,hw,_⟩
    · have hm : StreamOut.data bytes ∈ x ++ flight := List.mem_append_right _ hb
      rw [← hr] at hm
      split_ifs at hm <;> simp at hm
    · have hm : StreamOut.fin ∈ taken ++ x := List.mem_append_left _ hf
      rw [← hw] at hm
      exact absurd rfl (hd _ hm).1

/-- One tunnel: its calls, its entry if it is in the map, and what is in the egress channel. -/
def Lane (u : Trace) (entry : Option StreamState) (flight : List StreamOut) (b : Bridge) : Prop :=
  match entry with
  | some st => ∃ taken, b.outs = taken ++ flight ∧ Carrying u st taken
  | none => flight = [] ∧ Reaped u b

theorem Lane.reap {u : Trace} {st : StreamState} {b : Bridge} {flight : List StreamOut}
    (h : Lane u (some st) flight b) (env : Env) (sid : ℕ) (t : Trace) (hc : st.closed = true)
    (hd : st.Drained) : ∃ new, reapCalls env sid t st = new ++ t ∧
      (∀ call ∈ new, call.Reaping sid) ∧ Lane (new ++ u) none flight b := by
  obtain ⟨new,he,hcalls,hw,_⟩ := reapCalls_spec env sid t st
  obtain ⟨taken,hout,hcar⟩ := h
  have hflight : flight = [] := (b.outs_order hout).1 (hcar.closed.mp hc)
  rw [hflight, List.append_nil] at hout
  have hacc : new.accepted = [] := by
    rw [Trace.accepted, List.flatMap_eq_nil_iff]
    intro call hm
    have := hcalls call (List.mem_reverse.mp hm)
    cases call <;> simp_all [Call.Reaping, Call.accepted]
  have hnf : ¬ new.Failed := by
    rintro ⟨s,body,fin,hm⟩
    exact hcalls _ hm
  refine ⟨new,he,hcalls,hflight,?_,?_,?_⟩
  · exact b.closed_mem_outs.mp (by rw [hout]; exact hcar.closed.mp hc)
  · intro hf
    rw [Trace.failed_append, not_or] at hf
    obtain ⟨bs,ha,hp,hs⟩ := hcar.healthy hf.2
    rw [hd.1, List.flatten_nil, List.append_nil, ← hout, b.payload_outs] at hp
    refine ⟨st.finSent,by rw [Trace.accepted_append, hacc, List.append_nil, ha, hp],?_,?_⟩
    · rw [← b.fin_mem_outs, hout]
      refine ⟨fun hx => (hs hx).2,fun hx => ?_⟩
      exact hd.2.resolve_left (by simp [hcar.finPending.mpr hx])
    · rw [← hw]
      constructor
      · rintro ⟨s,hm⟩
        rcases List.mem_append.mp hm with hm | hm
        · have hs : s = sid := hcalls _ hm
          rwa [← hs]
        · exact absurd hm (hcar.unreset s)
      · exact fun hm => ⟨sid,List.mem_append_left _ hm⟩
  · intro hf
    have hu := ((Trace.failed_append _ _).mp hf).resolve_left hnf
    obtain ⟨_,bs,ha,hp⟩ := hcar.failed hu
    refine ⟨bs,by rw [Trace.accepted_append, hacc, List.append_nil, ha],fun hset => ?_⟩
    rw [← b.payload_outs, hout]
    exact hp hset.old

end EchTunnel
