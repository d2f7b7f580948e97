import EchTunnel.Library.Run
import EchTunnel.Ws.Stream

/-! One direction of a WebSocket tunnel: what is written on one adapter is what the other one reads. -/
namespace EchTunnel
open Wire

/-- The reading adapter, what `poll_next` has answered it, and what it is going to answer. The lists
of calls are histories, oldest first. -/
structure WsPipe where
  rx : WsByteStream
  past : List Next
  inbox : List Next
  closed : Bool
  frames : List Message
  writes : List (Bytes × Poll (Except OtherError ℕ))
  reads : List (ℕ × Poll (Except OtherError Bytes))

/-- The calls on both adapters, and what else happens on the socket: a message that `poll_write` did
not send, a delay, an error, or its end. -/
inductive WsAct
  | write (buf : Bytes) (ready : Poll (Except String Unit)) (send : Except String Unit)
  | read (room : ℕ)
  | shutdown (answer : Poll (Except String Unit))
  | message (m : Message)
  | stall
  | fault (e : String)
  | hangup

/-- The buffers, or the parts of them, that the writing adapter reported as written. -/
def accepted (writes : List (Bytes × Poll (Except OtherError ℕ))) : List Bytes :=
  writes.filterMap fun w => match w.2 with
    | .ready (.ok n) => some (w.1.take n)
    | .ready (.error _) | .pending => none

/-- The bytes that the reading adapter delivered. -/
def received (reads : List (ℕ × Poll (Except OtherError Bytes))) : Bytes :=
  reads.flatMap fun r => readBytes r.2

namespace WsPipe

def new : WsPipe := ⟨.new,[],[],false,[],[],[]⟩

/-- Everything that has been put on the wire, in order. -/
def wire (p : WsPipe) : List Next := p.past ++ p.inbox

def put (p : WsPipe) (a : Next) : WsPipe := { p with inbox := p.inbox ++ [a], closed := p.closed || a.ends }

/-- The socket takes no message once a Close is on its way or the stream has ended. -/
def step (p : WsPipe) : WsAct → WsPipe
  | .write buf ready send =>
    match WsByteStream.pollWrite ready send buf with
    | (answer,none) => { p with writes := p.writes ++ [(buf,answer)] }
    | (answer,some m) =>
      if p.closed then p
      else { p.put (.item m) with
        writes := p.writes ++ [(buf,answer)]
        frames := p.frames ++ [m] }
  | .read room =>
    let (answer,rx,left) := p.rx.pollRead room p.inbox
    { p with
      rx
      past := p.past ++ p.inbox.take (p.inbox.length - left.length)
      inbox := left
      reads := p.reads ++ [(room,answer)] }
  | .shutdown answer =>
    match WsByteStream.pollShutdown p.closed answer with
    | (_,none) => p
    | (_,some m) => p.put (.item m)
  | .message m => if p.closed ∨ m = .close then p else p.put (.item m)
  | .stall => p.put .pending
  | .fault e => p.put (.error e)
  | .hangup => if p.closed then p else p.put .ended

/-- What holds between the histories, the buffer and the wire. -/
structure Faithful (p : WsPipe) : Prop where
  sent : p.frames = (accepted p.writes).map .binary
  onWire : (p.frames.map Next.item).Sublist p.wire
  kept : received p.reads ++ p.rx.readBuf = payloads p.past
  order : p.wire.Pairwise fun a b => a.ends = true → b.payload = []
  closed : p.closed = p.wire.any Next.ends
  eof : p.rx.eof = p.past.any Next.ends
  drained : p.rx.eof = true → p.rx.readBuf = []
  last : ∀ pre room post, p.reads = pre ++ (room,.ready (.ok [])) :: post → 0 < room →
    received pre = payloads p.past ∧ p.rx.eof = true ∧ ∀ r ∈ post, r.2 = .ready (.ok [])

variable {p : WsPipe}

theorem Faithful.new : Faithful .new where
  sent := rfl
  onWire := List.Sublist.slnil
  kept := rfl
  order := List.Pairwise.nil
  closed := rfl
  eof := rfl
  drained _ := rfl
  last pre room post h := by simp [WsPipe.new] at h

@[simp] theorem put_wire (p : WsPipe) (a : Next) : (p.put a).wire = p.wire ++ [a] :=
  (List.append_assoc ..).symm

/-- Something new on the wire. Behind the end of the stream it carries nothing. -/
theorem Faithful.put (h : p.Faithful) {a : Next} (ha : p.closed = true → a.payload = []) :
    (p.put a).Faithful where
  sent := h.sent
  onWire := by
    rw [put_wire]
    exact h.onWire.trans (List.sublist_append_left p.wire [a])
  kept := h.kept
  order := by
    rw [put_wire, List.pairwise_append]
    refine ⟨h.order,List.pairwise_singleton _ a,?_⟩
    intro b hb c hc hend
    rw [List.mem_singleton.mp hc]
    apply ha
    rw [h.closed]
    exact List.any_eq_true.mpr ⟨b,hb,hend⟩
  closed := by simp [WsPipe.put, h.closed, wire, Bool.or_assoc]
  eof := h.eof
  drained := h.drained
  last := h.last

/-- A call of `poll_write` that sends what it accepts. -/
theorem Faithful.write (h : p.Faithful) (buf : Bytes) (ready : Poll (Except String Unit))
    (send : Except String Unit) : (p.step (.write buf ready send)).Faithful := by
  have hquiet : ∀ answer, accepted [(buf,answer)] = [] →
      Faithful { p with writes := p.writes ++ [(buf,answer)] } := by
    intro answer ha
    refine { h with sent := ?_ }
    change p.frames = (accepted (p.writes ++ [(buf,answer)])).map .binary
    rw [accepted, List.filterMap_append, ← accepted, ← accepted, ha, List.append_nil]
    exact h.sent
  rw [step]
  match ready, send with
  | .pending, _ => exact hquiet .pending rfl
  | .ready (.error e), _ => exact hquiet (.ready (.error (ioErr e))) rfl
  | .ready (.ok ()), .error e => exact hquiet (.ready (.error (ioErr e))) rfl
  | .ready (.ok ()), .ok () =>
    simp only [WsByteStream.pollWrite]
    split_ifs with hc
    · exact h
    · have hp := h.put (a := .item (.binary buf)) (fun hcl => absurd hcl hc)
      refine { hp with sent := ?_, onWire := ?_ }
      · change p.frames ++ [.binary buf] =
          (accepted (p.writes ++ [(buf,.ready (.ok buf.length))])).map .binary
        rw [accepted, List.filterMap_append, ← accepted, List.map_append, ← h.sent]
        simp
      · change ((p.frames ++ [Message.binary buf]).map Next.item).Sublist (p.put (.item (.binary buf))).wire
        rw [put_wire, List.map_append]
        exact h.onWire.append (List.Sublist.refl _)

/-- A call of `poll_read`, whatever it finds. -/
theorem Faithful.read (h : p.Faithful) (room : ℕ) : (p.step (.read room)).Faithful := by
  obtain ⟨used,answer,rx,left,hp,hl,hbytes,heof,hdrained,hzero⟩ :=
    p.rx.pollRead_spec room p.inbox h.drained
  have hpast : p.inbox.take (p.inbox.length - left.length) = used := by
    rw [hl, List.length_append, Nat.add_sub_cancel, List.take_left']
    rfl
  have hwire : p.past ++ used ++ left = p.wire := by rw [wire, hl, List.append_assoc]
  have hpay : p.rx.eof = true → payloads used = [] := by
    intro he
    obtain ⟨b,hb,hend⟩ := List.any_eq_true.mp (h.eof ▸ he)
    refine payloads_eq_nil fun a ha => (List.pairwise_append.mp h.order).2.2 b hb a ?_ hend
    rw [hl]
    exact List.mem_append_left left ha
  simp only [step, hp, hpast]
  refine ⟨h.sent,?_,?_,?_,?_,?_,hdrained,?_⟩
  · change (p.frames.map Next.item).Sublist (p.past ++ used ++ left)
    rw [hwire]
    exact h.onWire
  · change received (p.reads ++ [(room,answer)]) ++ rx.readBuf = payloads (p.past ++ used)
    rw [payloads_append, ← h.kept, List.append_assoc, ← hbytes, received, List.flatMap_append,
      List.append_assoc]
    simp [received]
  · change (p.past ++ used ++ left).Pairwise _
    rw [hwire]
    exact h.order
  · change p.closed = (p.past ++ used ++ left).any Next.ends
    rw [hwire]
    exact h.closed
  · change rx.eof = (p.past ++ used).any Next.ends
    rw [heof, h.eof, List.any_append]
  · intro pre r post hreads hroom
    change received pre = payloads (p.past ++ used) ∧ rx.eof = true ∧ _
    obtain rfl | ⟨post,e,rfl⟩ := post.eq_nil_or_concat'
    · -- the read that has just been made
      obtain ⟨hpre,he⟩ := List.append_inj' hreads rfl
      obtain ⟨rfl,rfl⟩ : room = r ∧ answer = .ready (.ok []) := by simpa using he
      have hend := hzero rfl hroom
      refine ⟨?_,hend,by simp⟩
      rw [← hpre, payloads_append, ← h.kept, List.append_assoc, ← hbytes, hdrained hend]
      simp [readBytes]
    · -- an earlier one, since which the stream is at its end
      rw [← List.cons_append, ← List.append_assoc] at hreads
      obtain ⟨hpre,he⟩ := List.append_inj' hreads rfl
      obtain ⟨hrec,hend,hpost⟩ := h.last pre r post hpre hroom
      refine ⟨by rw [payloads_append, hpay hend, List.append_nil]; exact hrec,?_,?_⟩
      · rw [heof, hend, Bool.true_or]
      · rw [WsByteStream.pollRead_of_eof hend (h.drained hend)] at hp
        have hans : answer = .ready (.ok []) := (congrArg Prod.fst hp).symm
        intro x hx
        obtain hx | hx := List.mem_append.mp hx
        · exact hpost x hx
        · rw [List.mem_singleton.mp hx, ← List.singleton_inj.mp he]
          exact hans

theorem Faithful.step (h : p.Faithful) (a : WsAct) : (p.step a).Faithful := by
  cases a with
  | write buf ready send => exact h.write buf ready send
  | read room => exact h.read room
  | shutdown answer =>
    rw [WsPipe.step]
    cases hc : p.closed with
    | true => exact h
    | false => exact h.put (fun _ => rfl)
  | message m =>
    rw [WsPipe.step]
    split_ifs with hc
    · exact h
    · exact h.put (fun hcl => absurd (Or.inl hcl) hc)
  | stall => exact h.put (fun _ => rfl)
  | fault e => exact h.put (fun _ => rfl)
  | hangup =>
    rw [WsPipe.step]
    split_ifs with hc
    · exact h
    · exact h.put (fun _ => rfl)

theorem faithful (acts : List WsAct) : (Run.run step new acts).Faithful := by
  have hstep : ∀ p a, Faithful p → Faithful (step p a) := fun _ a h => h.step a
  exact Run.induction hstep acts .new

/-- Once the end has been answered, nothing on the wire is left to read. -/
theorem Faithful.payload_past (h : p.Faithful) (he : p.rx.eof = true) :
    payloads p.past = payloads p.wire := by
  obtain ⟨b,hb,hend⟩ := List.any_eq_true.mp (h.eof ▸ he)
  rw [wire, payloads_append, payloads_eq_nil (l := p.inbox), List.append_nil]
  exact fun a ha => (List.pairwise_append.mp h.order).2.2 b hb a ha hend

/-- Byte fidelity: the frames are the accepted buffers, what has been read is a prefix of what the
messages carry and all of it at the end of the stream, and nothing else looks like that end. -/
theorem byte_fidelity (acts : List WsAct) :
    let p := Run.run step new acts
    p.frames = (accepted p.writes).map .binary ∧ (p.frames.map Next.item).Sublist p.wire ∧
      received p.reads <+: payloads p.wire ∧
      (∀ pre room post, p.reads = pre ++ (room,.ready (.ok [])) :: post → 0 < room →
        received pre = payloads p.wire ∧ p.past.any Next.ends = true ∧
          ∀ r ∈ post, r.2 = .ready (.ok [])) ∧
      (p.past.any Next.ends = true → ∀ room,
        (p.step (.read room)).reads = p.reads ++ [(room,.ready (.ok []))]) := by
  intro p
  have h : p.Faithful := faithful acts
  refine ⟨h.sent,h.onWire,?_,?_,?_⟩
  · rw [wire, payloads_append, ← h.kept, List.append_assoc]
    exact List.prefix_append _ _
  · intro pre room post hreads hroom
    obtain ⟨hrec,hend,hpost⟩ := h.last pre room post hreads hroom
    exact ⟨hrec.trans (h.payload_past hend),h.eof ▸ hend,hpost⟩
  · intro hend room
    rw [← h.eof] at hend
    simp only [step, WsByteStream.pollRead_of_eof hend (h.drained hend)]

end WsPipe
end EchTunnel
