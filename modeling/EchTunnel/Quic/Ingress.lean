import EchTunnel.Library.Run
import EchTunnel.Quic.Pump

/-! The bytes a bridge reads from a tunnel stream are the bytes the peer sent on it. -/
namespace EchTunnel
open Wire

/-- The bytes of one stream that a call takes out of `quiche`. -/
def Call.taken (sid : ℕ) : Call → Bytes
  | .recvBody s (.ok b) => if s = sid then b else []
  | _ => []

/-- All bytes of a stream taken out of `quiche`, oldest first. -/
def Trace.taken (t : Trace) (sid : ℕ) : Bytes := t.reverse.flatMap (Call.taken sid)

theorem Trace.taken_mono {t u : Trace} (h : t <:+ u) (sid : ℕ) : t.taken sid <+: u.taken sid := by
  obtain ⟨new,rfl⟩ := h
  simp [taken]

@[simp] theorem Trace.taken_cons (call : Call) (t : Trace) (sid : ℕ) :
    Trace.taken (call :: t) sid = t.taken sid ++ call.taken sid := by simp [taken]

/-- What the peer sends on a stream, and how `quiche` hands it over: `recv_body` yields the next
bytes, and the stream is finished once the fin is there and everything has been taken. -/
structure Peer (env : Env) (sid : ℕ) where
  body : Bytes
  fin : Trace → Bool
  fin_mono : ∀ {call t}, fin t → fin (call :: t)
  recvBody_next : ∀ {t b}, env.recvBody t sid = .ok b → b ≠ [] ∧ t.taken sid ++ b <+: body
  finished_iff : ∀ {t}, env.streamFinished t sid ↔ fin t ∧ t.taken sid = body

/-- The receiving half of a tunnel. `got` is what its bridge has read; `disturbed` records that the
stream was reset, refused, errored or torn down. -/
structure Ingress where
  quic : Trace
  entry : Option StreamState
  pumping : Bool
  channel : List Bytes
  stream : QuicStream
  dropped : Bool
  got : Bytes
  disturbed : Bool

/-- A pass of `pump_inbound` is `pass` and then turns of its loop; the bridge may read in between. -/
inductive IngressAct
  | event (e : H3Event)
  | call (c : Call)
  | removed
  | pass
  | turn
  | read (n : ℕ)
  | drop

namespace Ingress

def new (sid : ℕ) : Ingress :=
  ⟨[],some (.tunnel 0),false,[],.new [] sid 0,false,[],false⟩

/-- The sender of the inbound channel is still held. -/
def senders (s : Ingress) : Bool := s.entry.any fun st => st.inboundTx.isSome

/-- The answer of `try_reserve`. -/
def slot (s : Ingress) : Slot :=
  if s.dropped then .closed else if INBOUND_CHANNEL_CAP ≤ s.channel.length then .full else .permit

/-- `poll_read` with room for `n` bytes. -/
def poll (s : Ingress) (n : ℕ) : Poll Bytes × QuicStream × List Bytes :=
  s.stream.pollRead s.senders n s.channel

variable (env : Env) (sid : ℕ)

def turn (s : Ingress) : Ingress :=
  match s.entry with
  | none => s
  | some st =>
    if s.pumping then
      let (t,st,sent) := pumpTurn env sid s.slot s.quic st
      { s with
        quic := t
        entry := some st
        pumping := sent.isSome
        channel := s.channel ++ sent.toList
        disturbed := s.disturbed || decide (s.slot = .permit ∧ env.recvBody s.quic sid = .err) }
    else s

def pass (s : Ingress) : Ingress :=
  match s.entry with
  | none => s
  | some st =>
    if ¬ st.readable then s
    else if st.inboundTx.isNone then { s with entry := some { st with readable := false } }
    else { s with pumping := true }

def event (s : Ingress) (e : H3Event) : Ingress :=
  let s := { s with quic := .poll sid e :: s.quic }
  match e with
  | .data | .finished => { s with entry := s.entry.map StreamState.markReadable }
  | .reset _ => { s with entry := none, disturbed := true }
  | _ => s

def read (s : Ingress) (n : ℕ) : Ingress :=
  match s.poll n with
  | (.ready bytes,stream,channel) => { s with stream, channel, got := s.got ++ bytes }
  | (.pending,stream,channel) => { s with stream, channel }

def step (s : Ingress) : IngressAct → Ingress
  | .event e => if s.pumping then s else s.event sid e
  | .call c => if s.pumping ∨ c.taken sid ≠ [] then s else { s with quic := c :: s.quic }
  | .removed => if s.pumping then s else { s with entry := none, disturbed := true }
  | .pass => if s.pumping then s else s.pass
  | .turn => s.turn env sid
  | .read n => if s.dropped then s else s.read n
  | .drop => { s with dropped := true }

end Ingress

namespace QuicStream
variable (s : QuicStream) (senders : Bool) (n : ℕ) (chunks : List Bytes)

theorem takeBuffered_some {bytes : Bytes} {s' : QuicStream}
    (h : s.takeBuffered n = some (bytes,s')) :
    bytes ++ s'.rxBuf = s.rxBuf ∧ s'.rxEof = s.rxEof ∧
      (s.rxBuf ≠ [] ∧ bytes = s.rxBuf.take n ∨ s.rxBuf = [] ∧ bytes = [] ∧ s.rxEof) := by
  unfold takeBuffered at h
  split_ifs at h with h₁ h₂
  · cases h
    exact ⟨List.take_append_drop n s.rxBuf,rfl,Or.inl ⟨h₁,rfl⟩⟩
  · cases h
    exact ⟨rfl,rfl,Or.inr ⟨by simpa using h₁,rfl,h₂⟩⟩

theorem takeBuffered_none (h : s.takeBuffered n = none) : s.rxBuf = [] ∧ s.rxEof = false := by
  unfold takeBuffered at h
  split_ifs at h with h₁ h₂
  exact ⟨by simpa using h₁,by simpa using h₂⟩

/-- A read hands out buffered bytes in order, or waits, or meets the end of the channel. -/
theorem pollRead_spec :
    (∃ bytes s' rest, s.pollRead senders n chunks = (.ready bytes,s',rest) ∧
      bytes ++ s'.rxBuf ++ rest.flatten = s.rxBuf ++ chunks.flatten ∧ rest.length ≤ chunks.length ∧
      s'.rxEof = s.rxEof ∧ (0 < n → bytes = [] → s.rxEof)) ∨
    (∃ s', s.pollRead senders n chunks = (.pending,s',[]) ∧ senders ∧
      s'.rxBuf = [] ∧ s'.rxEof = s.rxEof ∧ s.rxBuf ++ chunks.flatten = []) ∨
    (∃ s', s.pollRead senders n chunks = (.ready [],s',[]) ∧ senders = false ∧
      s'.rxBuf = [] ∧ s'.rxEof ∧ s.rxBuf ++ chunks.flatten = []) := by
  induction chunks generalizing s with
  | nil =>
    rw [pollRead]
    cases ht : s.takeBuffered n with
    | some p =>
      obtain ⟨bytes,s'⟩ := p
      obtain ⟨hb,he,hk⟩ := s.takeBuffered_some n ht
      refine Or.inl ⟨bytes,s',[],rfl,by simp [hb],le_rfl,he,fun hn hnil => ?_⟩
      obtain ⟨hne,hbt⟩ | ⟨_,_,heof⟩ := hk
      · rw [hnil, eq_comm, List.take_eq_nil_iff] at hbt
        exact absurd (hbt.resolve_left (by omega)) hne
      · exact heof
    | none =>
      obtain ⟨hb,he⟩ := s.takeBuffered_none n ht
      cases senders with
      | true => exact Or.inr (Or.inl ⟨s,rfl,rfl,hb,rfl,by simp [hb]⟩)
      | false => exact Or.inr (Or.inr ⟨{ s with rxEof := true },rfl,rfl,hb,rfl,by simp [hb]⟩)
  | cons b rest ih =>
    rw [pollRead]
    cases ht : s.takeBuffered n with
    | some p =>
      obtain ⟨bytes,s'⟩ := p
      obtain ⟨hb,he,hk⟩ := s.takeBuffered_some n ht
      refine Or.inl ⟨bytes,s',b :: rest,rfl,by rw [hb],le_rfl,he,fun hn hnil => ?_⟩
      obtain ⟨hne,hbt⟩ | ⟨_,_,heof⟩ := hk
      · rw [hnil, eq_comm, List.take_eq_nil_iff] at hbt
        exact absurd (hbt.resolve_left (by omega)) hne
      · exact heof
    | none =>
      obtain ⟨hb,_⟩ := s.takeBuffered_none n ht
      have hflat : s.rxBuf ++ (b :: rest).flatten = b ++ rest.flatten := by simp [hb]
      rw [hflat]
      obtain ⟨bytes,s',more,he,hby,hl,hx,hn⟩ | h | h := ih { s with rxBuf := b }
      · exact Or.inl ⟨bytes,s',more,he,hby,by simp only [List.length_cons]; omega,hx,hn⟩
      · exact Or.inr (Or.inl h)
      · exact Or.inr (Or.inr h)

end QuicStream

namespace Ingress
variable {env : Env} {sid : ℕ} (peer : Peer env sid)

/-- At some moment of the history the fin was there and everything had been taken. -/
def Finished (t : Trace) : Prop :=
  ∃ old : Trace, old <:+ t ∧ peer.fin old ∧ old.taken sid = peer.body

/-- Every byte taken out of `quiche` is read, buffered or in the channel, and the channel loses its
sender only at the end of the body. -/
structure Intact (s : Ingress) : Prop where
  conserved : s.quic.taken sid = s.got ++ s.stream.rxBuf ++ s.channel.flatten
  inOrder : s.quic.taken sid <+: peer.body
  bounded : s.channel.length ≤ INBOUND_CHANNEL_CAP
  pumped : s.pumping → s.senders
  eof : s.stream.rxEof → s.stream.rxBuf = [] ∧ s.channel = [] ∧ s.senders = false
  ended : s.senders = false → s.dropped = false → s.disturbed = false → Finished peer s.quic

variable {peer} {s : Ingress}

theorem Finished.mono {t u : Trace} (h : Finished peer t) (hu : t <:+ u) : Finished peer u := by
  obtain ⟨old,ho,hf⟩ := h
  exact ⟨old,ho.trans hu,hf⟩

/-- Nothing changes but calls that take no bytes of the stream, and marks on the entry. -/
theorem Intact.quiet (h : s.Intact peer) {t : Trace} {entry : Option StreamState}
    (ht : s.quic <:+ t) (htaken : t.taken sid = s.quic.taken sid)
    (he : (entry.any fun st => st.inboundTx.isSome) = s.senders) :
    Intact peer { s with quic := t, entry := entry } := by
  have hs : senders { s with quic := t, entry := entry } = s.senders := he
  refine ⟨htaken.trans h.conserved,htaken ▸ h.inOrder,h.bounded,?_,?_,?_⟩
  · rw [hs]
    exact h.pumped
  · rw [hs]
    exact h.eof
  · rw [hs]
    exact fun h₁ h₂ h₃ => (h.ended h₁ h₂ h₃).mono ht

theorem Intact.removed (h : s.Intact peer) {t : Trace} (htaken : t.taken sid = s.quic.taken sid)
    (hp : s.pumping = false) : Intact peer { s with quic := t, entry := none, disturbed := true } := by
  refine ⟨htaken.trans h.conserved,htaken ▸ h.inOrder,h.bounded,by simp [hp],?_,by simp⟩
  exact fun hx => ⟨(h.eof hx).1,(h.eof hx).2.1,rfl⟩

theorem Intact.read (h : s.Intact peer) (n : ℕ) : Intact peer (s.read n) := by
  unfold Ingress.read Ingress.poll
  obtain ⟨bytes,s',rest,he,hb,hl,hx,_⟩ | ⟨s',he,hsend,hb,hx,hflat⟩ | ⟨s',he,hsend,hb,hx,hflat⟩ :=
    s.stream.pollRead_spec s.senders n s.channel
  · simp only [he]
    refine ⟨?_,h.inOrder,hl.trans h.bounded,h.pumped,?_,h.ended⟩
    · rw [h.conserved, List.append_assoc, ← hb]
      simp only [List.append_assoc]
    · intro hx'
      obtain ⟨hr,hc,hs⟩ := h.eof (hx ▸ hx')
      rw [hr, hc] at hb
      simp only [List.flatten_nil, List.append_nil, List.append_eq_nil_iff] at hb
      rw [hc] at hl
      exact ⟨hb.1.2,List.length_eq_zero_iff.mp (Nat.le_zero.mp hl),hs⟩
  · simp only [he]
    refine ⟨?_,h.inOrder,Nat.zero_le _,h.pumped,?_,h.ended⟩
    · rw [h.conserved, List.append_assoc, hflat]
      simp [hb]
    · intro hx'
      have := (h.eof (hx ▸ hx')).2.2
      rw [hsend] at this
      contradiction
  · simp only [he]
    refine ⟨?_,h.inOrder,Nat.zero_le _,h.pumped,fun _ => ⟨hb,rfl,hsend⟩,h.ended⟩
    rw [h.conserved, List.append_assoc, hflat]
    simp [hb]

/-- A turn takes bytes out of `quiche` only into a free slot, and ends the channel only when the
stream is finished, has failed or has lost its reader. -/
theorem Intact.turn (h : s.Intact peer) : Intact peer (s.turn env sid) := by
  unfold Ingress.turn
  cases hentry : s.entry with
  | none => exact h
  | some st =>
    by_cases hp : s.pumping
    · simp only [hp, if_true]
      have hsend := h.pumped hp
      have htx : st.inboundTx.isSome := by simpa [senders, hentry] using hsend
      have hnoeof : s.stream.rxEof ≠ true := fun hx => by simp [(h.eof hx).2.2] at hsend
      cases hslot : s.slot with
      | permit =>
        have hfree : s.channel.length < INBOUND_CHANNEL_CAP := by
          unfold slot at hslot
          split_ifs at hslot
          omega
        simp only [pumpTurn]
        cases hr : env.recvBody s.quic sid with
        | ok b =>
          obtain ⟨_,hnext⟩ := peer.recvBody_next hr
          refine ⟨?_,by simpa [Call.taken] using hnext,by simp; omega,fun _ => by simpa [senders] using htx,
            fun hx => absurd hx hnoeof,fun hx => ?_⟩
          · simp [Call.taken, h.conserved]
          · simp [senders, htx] at hx
        | done =>
          refine ⟨by simp [Call.taken, h.conserved],by simpa [Call.taken] using h.inOrder,
            by simpa using h.bounded,by simp,fun hx => absurd hx hnoeof,fun hx _ _ => ?_⟩
          cases hf : env.streamFinished (.recvBody sid .done :: s.quic) sid with
          | true => exact ⟨_,List.suffix_cons _ _,peer.finished_iff.mp hf⟩
          | false => simp [senders, hf, htx] at hx
        | err =>
          exact ⟨by simp [Call.taken, h.conserved],by simpa [Call.taken] using h.inOrder,
            by simpa using h.bounded,by simp,fun hx => absurd hx hnoeof,by simp⟩
      | full =>
        refine ⟨by simpa [pumpTurn] using h.conserved,h.inOrder,by simpa [pumpTurn] using h.bounded,
          by simp [pumpTurn],fun hx => absurd hx hnoeof,fun hx => ?_⟩
        simp [pumpTurn, senders, htx] at hx
      | closed =>
        have hd : s.dropped := by
          unfold slot at hslot
          split_ifs at hslot
          assumption
        exact ⟨by simpa [pumpTurn, Call.taken] using h.conserved,
          by simpa [pumpTurn, Call.taken] using h.inOrder,by simpa [pumpTurn] using h.bounded,
          by simp [pumpTurn],fun hx => absurd hx hnoeof,fun _ hx => by simp [hd] at hx⟩
    · simpa [hp] using h

theorem Intact.step (h : s.Intact peer) (a : IngressAct) : Intact peer (step env sid s a) := by
  cases a with
  | event e =>
    rw [Ingress.step]
    split_ifs with hp
    · exact h
    · have hq : s.quic <:+ .poll sid e :: s.quic := List.suffix_cons _ _
      have ht : Trace.taken (.poll sid e :: s.quic) sid = s.quic.taken sid := by simp [Call.taken]
      have hmark : ((s.entry.map StreamState.markReadable).any fun st => st.inboundTx.isSome) =
          s.senders := by
        unfold senders
        cases s.entry <;> rfl
      cases e with
      | data => exact h.quiet hq ht hmark
      | finished => exact h.quiet hq ht hmark
      | reset code => exact h.removed ht (by simpa using hp)
      | headers list => exact h.quiet hq ht rfl
      | priorityUpdate => exact h.quiet hq ht rfl
      | goAway => exact h.quiet hq ht rfl
  | call c =>
    rw [Ingress.step]
    split_ifs with hp
    · exact h
    · have hc : c.taken sid = [] := by
        rw [not_or, not_not] at hp
        exact hp.2
      exact h.quiet (List.suffix_cons _ _) (by simp [hc]) rfl
  | removed =>
    rw [Ingress.step]
    split_ifs with hp
    · exact h
    · exact h.removed rfl (by simpa using hp)
  | pass =>
    rw [Ingress.step]
    split_ifs with hp
    · exact h
    · unfold pass
      cases he : s.entry with
      | none => exact h
      | some st =>
        by_cases hr : st.readable
        · cases ht : st.inboundTx with
          | none =>
            simp only [hr, ht, not_true, if_false, Option.isNone_none, if_true]
            exact h.quiet List.suffix_rfl rfl (by simp [senders, he, ht])
          | some rx =>
            simp only [hr, ht, not_true, if_false, Option.isNone_some, Bool.false_eq_true]
            have hs : s.senders = true := by simp [senders, he, ht]
            exact ⟨h.conserved,h.inOrder,h.bounded,fun _ => by simp [senders, ht],
              fun hx => absurd (h.eof hx).2.2 (by simp [hs]),fun hx => by simp [senders, ht] at hx⟩
        · simpa [hr] using h
  | turn => exact h.turn
  | read n =>
    rw [Ingress.step]
    split_ifs
    · exact h
    · exact h.read n
  | drop => exact ⟨h.conserved,h.inOrder,h.bounded,h.pumped,h.eof,fun _ hx => by cases hx⟩

theorem new_intact : Intact peer (new sid) :=
  ⟨rfl,List.nil_prefix,Nat.zero_le _,by simp [new],by simp [new, QuicStream.new],
    by simp [new, senders, StreamState.tunnel]⟩

/-- A read has met the end of the channel. -/
def AtEof (s : Ingress) : Prop := s.stream.rxEof ∧ s.stream.rxBuf = []

theorem AtEof.poll (h : s.AtEof) (n : ℕ) : s.poll n = (.ready [],s.stream,s.channel) := by
  have ht : s.stream.takeBuffered n = some ([],s.stream) := by simp [QuicStream.takeBuffered, h.1, h.2]
  unfold Ingress.poll
  cases s.channel <;> simp [QuicStream.pollRead, ht]

theorem AtEof.step (h : s.AtEof) (a : IngressAct) : (Ingress.step env sid s a).AtEof := by
  have hstream : (Ingress.step env sid s a).stream = s.stream := by
    cases a with
    | event e =>
      rw [Ingress.step]
      split_ifs
      · rfl
      · cases e <;> rfl
    | call c =>
      rw [Ingress.step]
      split_ifs <;> rfl
    | removed =>
      rw [Ingress.step]
      split_ifs <;> rfl
    | pass =>
      rw [Ingress.step]
      split_ifs
      · rfl
      · unfold pass
        split
        · rfl
        · split_ifs <;> rfl
    | turn =>
      rw [Ingress.step, Ingress.turn]
      split
      · rfl
      · split_ifs <;> rfl
    | read n =>
      rw [Ingress.step, Ingress.read, h.poll]
      split_ifs <;> rfl
    | drop => rfl
  rw [AtEof, hstream]
  exact h

/-- A read that completes with nothing, although there is room, has met the end of the channel. -/
theorem Intact.zero_read (h : s.Intact peer) {n : ℕ} (hn : 0 < n) (hz : (s.poll n).1 = .ready []) :
    s.got = s.quic.taken sid ∧ s.senders = false ∧ (s.read n).AtEof := by
  have hc := h.conserved
  rw [List.append_assoc] at hc
  unfold Ingress.read
  unfold Ingress.poll at hz ⊢
  obtain ⟨bytes,s',rest,he,hb,_,hx,hk⟩ | ⟨s',he,_⟩ | ⟨s',he,hsend,hb,hx,hflat⟩ :=
    s.stream.pollRead_spec s.senders n s.channel
  · rw [he] at hz
    cases hz
    have heof := hk hn rfl
    obtain ⟨hr,hch,hs⟩ := h.eof heof
    simp only [hr, hch, List.flatten_nil, List.append_nil, List.nil_append,
      List.append_eq_nil_iff] at hb hc
    simp only [he]
    exact ⟨hc.symm,hs,hx.trans heof,hb.1⟩
  · rw [he] at hz
    contradiction
  · simp only [he]
    exact ⟨by rw [hc, hflat, List.append_nil],hsend,hx,hb⟩

/-- A turn over a finished, fully read stream ends the channel, unless the channel is full. -/
theorem pumpTurn_finished {slot : Slot} {t : Trace} (st : StreamState) (hfin : peer.fin t)
    (hall : t.taken sid = peer.body) (hslot : slot ≠ .full) :
    (pumpTurn env sid slot t st).2.1.inboundTx = none ∧ (pumpTurn env sid slot t st).2.2 = none := by
  cases slot with
  | permit =>
    simp only [pumpTurn]
    cases hr : env.recvBody t sid with
    | ok b =>
      obtain ⟨hb,hnext⟩ := peer.recvBody_next hr
      have hl := hnext.length_le
      rw [hall, List.length_append] at hl
      exact absurd (List.length_eq_zero_iff.mp (by omega)) hb
    | done =>
      have hf : env.streamFinished (.recvBody sid .done :: t) sid = true :=
        peer.finished_iff.mpr ⟨peer.fin_mono hfin,by simpa [Call.taken] using hall⟩
      simp [hf]
    | err => simp
  | full => exact absurd rfl hslot
  | closed => simp [pumpTurn]

/-- An undisturbed stream that has ended has handed over the whole body. -/
theorem Intact.whole {s : Ingress} (h : s.Intact peer) (hs : s.senders = false)
    (hd : s.dropped = false) (hu : s.disturbed = false) (hgot : s.got = s.quic.taken sid) :
    s.got = peer.body ∧ Finished peer s.quic := by
  have hf := h.ended hs hd hu
  have ⟨old,hold,_,hbody⟩ := hf
  have hle := (Trace.taken_mono hold sid).length_le
  rw [hbody] at hle
  refine ⟨?_,hf⟩
  rw [hgot]
  exact h.inOrder.eq_of_length_le hle

/-- The first turn of a pass over a finished, fully read stream ends the channel. -/
theorem pass_signals {s : Ingress} {st : StreamState} (he : s.entry = some st)
    (hr : st.readable = true) (hp : s.pumping = false) (hfin : peer.fin s.quic)
    (hall : s.quic.taken sid = peer.body) (hslot : s.slot ≠ .full) :
    (s.pass.turn env sid).senders = false := by
  unfold pass
  rw [he]
  cases ht : st.inboundTx with
  | none => simp [hr, ht, Ingress.turn, hp, senders]
  | some rx =>
    have hs : slot { s with entry := some st, pumping := true } ≠ .full := hslot
    have hturn := pumpTurn_finished st hfin hall hs
    simp [hr, ht, Ingress.turn, senders, hturn.1]

/-- So does the pass of the loop, whatever the other streams do. -/
theorem pumpInboundAt_signals {c : Conn} {st : StreamState} {rx : ℕ} {slot : Slot} {slots : List Slot}
    (hl : c.streams.lookup sid = some st) (hr : st.readable = true) (ht : st.inboundTx = some rx)
    (hfin : peer.fin c.quic) (hall : c.quic.taken sid = peer.body)
    (hres : env.reserve c.quic rx = slot :: slots) (hslot : slot ≠ .full) :
    ∃ st', (pumpInboundAt env c sid).streams.lookup sid = some st' ∧ st'.inboundTx = none := by
  obtain ⟨htx,hnone⟩ := pumpTurn_finished st hfin hall hslot
  unfold pumpInboundAt
  simp only [hl, hr, ht, hres, not_true, if_false, pumpTurns]
  split
  · rename_i he
    rw [he] at hnone
    contradiction
  · rename_i t' st' he
    rw [he] at htx
    exact ⟨st',by simp,htx⟩

/-- Ingress integrity: what the bridge reads is a prefix of the body and nothing is lost on the way;
a read completes with nothing only at the end, for good; the end is the end of the body, unless the
stream was disturbed; and a pass over a finished stream signals it. -/
theorem ingress_integrity (env : Env) (sid : ℕ) (peer : Peer env sid) (acts : List IngressAct) :
    let s := Run.run (step env sid) (new sid) acts
    (s.quic.taken sid = s.got ++ s.stream.rxBuf ++ s.channel.flatten ∧ s.got <+: peer.body ∧
      s.channel.length ≤ INBOUND_CHANNEL_CAP) ∧
    (∀ n, 0 < n → (s.poll n).1 = .ready [] →
      s.got = s.quic.taken sid ∧ s.senders = false ∧
      (∀ more m, ((Run.run (step env sid) (s.read n) more).poll m).1 = .ready []) ∧
      (s.dropped = false → s.disturbed = false → s.got = peer.body ∧ Finished peer s.quic)) ∧
    (∀ st, s.entry = some st → st.readable → s.pumping = false → peer.fin s.quic →
      s.quic.taken sid = peer.body → s.slot ≠ .full → (s.pass.turn env sid).senders = false) ∧
    (∀ (c : Conn) st rx, c.streams.lookup sid = some st → st.readable → st.inboundTx = some rx →
      peer.fin c.quic → c.quic.taken sid = peer.body →
      (∃ slot slots, env.reserve c.quic rx = slot :: slots ∧ slot ≠ .full) →
      ∃ st', (pumpInboundAt env c sid).streams.lookup sid = some st' ∧ st'.inboundTx = none) := by
  intro s
  have h : s.Intact peer := Run.induction (fun s a hs => hs.step a) acts new_intact
  refine ⟨⟨h.conserved,?_,h.bounded⟩,?_,?_,?_⟩
  · have hp := h.inOrder
    rw [h.conserved, List.append_assoc] at hp
    exact (List.prefix_append _ _).trans hp
  · intro n hn hz
    obtain ⟨hgot,hs,heof⟩ := h.zero_read hn hz
    refine ⟨hgot,hs,?_,fun hd hu => h.whole hs hd hu hgot⟩
    intro more m
    have hmore : (Run.run (step env sid) (s.read n) more).AtEof :=
      Run.induction (fun s a hs => hs.step a) more heof
    rw [hmore.poll]
  · exact fun st he hr hp hfin hall hslot => pass_signals he hr hp hfin hall hslot
  · rintro c st rx hl hr ht hfin hall ⟨slot,slots,hres,hslot⟩
    exact pumpInboundAt_signals hl hr ht hfin hall hres hslot

/-- A peer that sends three bytes and its fin, which `quiche` hands over at once. -/
def greetingEnv : Env :=
  { Env.idle with
    recvBody := fun t sid => if t.taken sid = [] then .ok [1,2,3] else .done
    streamFinished := fun t sid => decide (t.taken sid = [1,2,3])
    recvBody_le := by
      intro t sid bytes h
      split at h
      · cases h
        decide
      · contradiction }

def greeting : Peer greetingEnv 0 where
  body := [1,2,3]
  fin _ := true
  fin_mono _ := rfl
  recvBody_next := by
    intro t b h
    simp only [greetingEnv] at h
    split at h
    · rename_i ht
      cases h
      simp [ht]
    · contradiction
  finished_iff := by simp [greetingEnv]

/-- The bridge reads everything, in pieces, and meets the end of the body. -/
def wholeBody : List IngressAct := [.event .data,.pass,.turn,.read 2,.turn,.read 8,.read 8]

theorem ingress_integrity_wholeBody :
    let s := Run.run (step greetingEnv 0) (new 0) wholeBody
    s.quic.taken 0 = s.got ++ s.stream.rxBuf ++ s.channel.flatten ∧ s.got <+: [1,2,3] ∧
      s.channel.length ≤ INBOUND_CHANNEL_CAP :=
  (ingress_integrity greetingEnv 0 greeting wholeBody).1

example : (Run.run (step greetingEnv 0) (new 0) wholeBody).got = [1,2,3] := by decide

end Ingress
end EchTunnel
