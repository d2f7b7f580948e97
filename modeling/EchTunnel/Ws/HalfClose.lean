import EchTunnel.Library.Run
import EchTunnel.Ws.Stream

/-! A tunnel over a WebSocket: `copy_bidirectional` between a local socket and a `WsByteStream`, at
both ends. -/
namespace EchTunnel
open Wire

/-- One direction of `copy_bidirectional`. -/
structure CopyBuffer where
  buf : Bytes
  readDone : Bool
  shut : Bool
  deriving Repr, DecidableEq

/-- An end of the tunnel: its WebSocket, its local socket and the copies between them. `sent` and
`delivered` collect what the local peer has sent and received. -/
structure WsEnd where
  ws : WsByteStream
  inbox : List Next
  closeSent : Bool
  socket : Bytes
  finished : Bool
  up : CopyBuffer
  down : CopyBuffer
  broken : Bool
  sent : Bytes
  delivered : Bytes
  deriving Repr, DecidableEq

/-- What the local peer, the copy or the WebSocket of an end does next. A read of the copy may bring any
number of bytes. -/
inductive WsEndAct
  | send (bytes : Bytes)
  | finish
  | fill (n : ℕ)
  | write (ready : Bool)
  | shutdown
  | read (room : ℕ)
  | deliver (n : ℕ)
  | shutdownLocal
  | reply
  | stall
  deriving Repr, DecidableEq

namespace WsEnd

def new : WsEnd := ⟨.new,[],false,[],false,⟨[],false,false⟩,⟨[],false,false⟩,false,[],[]⟩

/-- `poll_next` has handed over the Close of the other end. -/
def closeReceived (e : WsEnd) : Bool := e.ws.eof

/-- The answer of `start_send`: no data follows a Close, in either direction. -/
def startSend (e : WsEnd) : Except String Unit :=
  if e.closeSent ∨ e.closeReceived then .error "Sending after closing is not allowed" else .ok ()

/-- A step of an end, and the message it sends. A copy that fails ends the task. -/
def act (e : WsEnd) : WsEndAct → WsEnd × Option Message
  | .send bytes =>
    if e.finished then (e,none)
    else ({ e with socket := e.socket ++ bytes, sent := e.sent ++ bytes },none)
  | .finish => ({ e with finished := true },none)
  | .fill n =>
    if e.broken ∨ e.up.readDone then (e,none)
    else if e.socket = [] then ({ e with up := { e.up with readDone := e.finished } },none)
    else
      ({ e with
          up := { e.up with buf := e.up.buf ++ e.socket.take n }
          socket := e.socket.drop n },none)
  | .write ready =>
    if e.broken ∨ e.up.buf = [] then (e,none)
    else
      match WsByteStream.pollWrite (if ready then .ready (.ok ()) else .pending) e.startSend e.up.buf with
      | (.ready (.ok n),msg) => ({ e with up := { e.up with buf := e.up.buf.drop n } },msg)
      | (.ready (.error _),msg) => ({ e with broken := true },msg)
      | (.pending,msg) => (e,msg)
  | .shutdown =>
    if e.broken ∨ ¬ e.up.readDone ∨ e.up.buf ≠ [] ∨ e.up.shut then (e,none)
    else
      ({ e with up := { e.up with shut := true }, closeSent := true },
        (WsByteStream.pollShutdown e.closeSent (.ready (.ok ()))).2)
  | .read room =>
    if e.broken ∨ e.down.readDone ∨ room = 0 then (e,none)
    else
      let (answer,ws,left) := e.ws.pollRead room e.inbox
      let e := { e with ws, inbox := left }
      match answer with
      | .ready (.ok bytes) =>
        ({ e with down := { e.down with buf := e.down.buf ++ bytes, readDone := bytes.isEmpty } },none)
      | .ready (.error _) => ({ e with broken := true },none)
      | .pending => (e,none)
  | .deliver n =>
    if e.broken then (e,none)
    else
      ({ e with
          down := { e.down with buf := e.down.buf.drop n }
          delivered := e.delivered ++ e.down.buf.take n },none)
  | .shutdownLocal =>
    if e.broken ∨ ¬ e.down.readDone ∨ e.down.buf ≠ [] then (e,none)
    else ({ e with down := { e.down with shut := true } },none)
  -- `tungstenite` answers a Close with a Close
  | .reply =>
    if e.closeReceived ∧ ¬ e.closeSent then ({ e with closeSent := true },some .close) else (e,none)
  | .stall => ({ e with inbox := e.inbox ++ [.pending] },none)

/-- What the other end sends arrives. -/
def receive (e : WsEnd) : Option Message → WsEnd
  | none => e
  | some m => { e with inbox := e.inbox ++ [.item m] }

/-- No byte of the local peer waits to be accepted. -/
def Drained (e : WsEnd) : Prop := e.up.buf = [] ∧ e.socket = []

instance (e : WsEnd) : Decidable e.Drained := inferInstanceAs (Decidable (_ ∧ _))

end WsEnd

/-- Nothing but messages without data stands before a Close, or the end, in what comes next. -/
def endNext : List Next → Bool
  | [] => false
  | .item m :: rest => (Next.item m).ends || (decide (m.payload = []) && endNext rest)
  | a :: _ => a.ends

/-- The two ends of a tunnel. -/
inductive Side
  | client
  | server
  deriving Repr, DecidableEq

structure WsTunnel where
  client : WsEnd
  server : WsEnd
  deriving Repr, DecidableEq

namespace WsTunnel

def new : WsTunnel := ⟨.new,.new⟩

def step (t : WsTunnel) : Side × WsEndAct → WsTunnel
  | (.client,a) => ⟨(t.client.act a).1,t.server.receive (t.client.act a).2⟩
  | (.server,a) => ⟨t.client.receive (t.server.act a).2,(t.server.act a).1⟩

def side (t : WsTunnel) : Side → WsEnd
  | .client => t.client
  | .server => t.server

end WsTunnel

namespace WsEnd

/-- An end may go on as it likes while it has not seen a Close. It takes one off its WebSocket only
when nothing that its local peer sent still waits, and the local peer sends nothing after that. -/
def Orderly (e : WsEnd) : WsEndAct → Prop
  | .read _ => e.ws.readBuf = [] → endNext e.inbox = true → e.Drained
  | .send bytes => e.closeReceived = true → bytes = []
  | _ => True

instance (e : WsEnd) : (a : WsEndAct) → Decidable (e.Orderly a)
  | .read _ => inferInstanceAs (Decidable (_ → _ → _))
  | .send _ => inferInstanceAs (Decidable (_ → _))
  | .finish | .fill _ | .write _ | .shutdown | .deliver _ | .shutdownLocal | .reply | .stall =>
    isTrue trivial

/-- The direction from `x` to `y` works: no write is refused, and what arrives is what was sent, all
of it by the time the end of the stream is passed on. -/
def Intact (x y : WsEnd) : Prop :=
  x.broken = false ∧ y.delivered <+: x.sent ∧ (y.down.shut = true → y.delivered = x.sent)

instance (x y : WsEnd) : Decidable (x.Intact y) := inferInstanceAs (Decidable (_ ∧ _ ∧ (_ → _)))

end WsEnd

namespace WsByteStream
variable {s : WsByteStream}

/-- A read comes to the end of the stream only from an empty buffer and past empty messages. -/
theorem endNext_of_eof (room : ℕ) (l : List Next) (he : s.eof = false)
    (h : (s.pollRead room l).2.1.eof = true) : s.readBuf = [] ∧ endNext l = true := by
  induction l generalizing s with
  | nil =>
    cases ht : s.takeBuffered room with
    | some p =>
      rw [pollRead_of_some ht] at h
      exact absurd (takeBuffered_eof ht ▸ h) (by simp [he])
    | none =>
      simp only [pollRead, ht, he] at h
      contradiction
  | cons a rest ih =>
    cases ht : s.takeBuffered room with
    | some p =>
      rw [pollRead_of_some ht] at h
      exact absurd (takeBuffered_eof ht ▸ h) (by simp [he])
    | none =>
      obtain ⟨hb,-⟩ := takeBuffered_eq_none ht
      simp only [pollRead, ht] at h
      refine ⟨hb,?_⟩
      cases a with
      | pending => exact absurd h (by simp [he])
      | error e => exact absurd h (by simp [he])
      | ended => rfl
      | item m =>
        obtain ⟨hmb,hme,-⟩ := receive_spec hb he m
        cases hm : (Next.item m).ends with
        | true => rw [endNext, hm, Bool.true_or]
        | false =>
          obtain ⟨hp,hr⟩ := ih (hme.trans hm) h
          rw [endNext, hr, hmb.symm.trans hp]
          simp

/-- A read fails only with an error of the socket. -/
theorem pollRead_ne_error (room : ℕ) (l : List Next) (hl : ∀ a ∈ l, ∀ e, a ≠ .error e)
    (e : OtherError) : (s.pollRead room l).1 ≠ .ready (.error e) := by
  induction l generalizing s with
  | nil =>
    cases ht : s.takeBuffered room with
    | some p => simp [pollRead_of_some ht]
    | none => simp [pollRead, ht]
  | cons a rest ih =>
    cases ht : s.takeBuffered room with
    | some p => simp [pollRead_of_some ht]
    | none =>
      simp only [pollRead, ht]
      cases a with
      | pending => simp
      | error e => exact absurd rfl (hl _ List.mem_cons_self e)
      | ended => simp
      | item m => exact ih fun b hb => hl b (List.mem_cons_of_mem _ hb)

end WsByteStream

namespace WsEnd
variable {x y : WsEnd}

/-- What a read of the copy does: nothing, or bytes go from the WebSocket into the buffer. -/
theorem act_read (hl : ∀ a ∈ x.inbox, ∀ e, a ≠ .error e) (hs : x.ws.eof = true → x.ws.readBuf = [])
    (room : ℕ) : x.act (.read room) = (x,none) ∨ ∃ ws used left buf readDone,
      x.act (.read room) =
        ({ x with ws, inbox := left, down := { x.down with buf, readDone } },none) ∧
      x.down.readDone = false ∧ x.inbox = used ++ left ∧
      buf ++ ws.readBuf = x.down.buf ++ (x.ws.readBuf ++ payloads used) ∧
      ws.eof = (x.ws.eof || used.any Next.ends) ∧ (ws.eof = true → ws.readBuf = []) ∧
      (readDone = true → ws.eof = true) ∧
      (x.ws.eof = false → ws.eof = true → x.ws.readBuf = [] ∧ endNext x.inbox = true) := by
  by_cases hgo : x.broken ∨ x.down.readDone ∨ room = 0
  · left
    simp only [act, hgo, if_true]
  · right
    have hdone : x.down.readDone = false := by
      by_contra h
      exact hgo (Or.inr (Or.inl (Bool.eq_true_of_not_eq_false h)))
    have hroom : 0 < room := Nat.pos_of_ne_zero fun h => hgo (Or.inr (Or.inr h))
    obtain ⟨used,answer,ws,left,hp,hi,hbytes,heof,hdrained,hzero⟩ := x.ws.pollRead_spec room x.inbox hs
    have hend : x.ws.eof = false → ws.eof = true → x.ws.readBuf = [] ∧ endNext x.inbox = true := by
      intro he hw
      apply WsByteStream.endNext_of_eof room x.inbox he
      rwa [hp]
    cases answer with
    | pending =>
      refine ⟨ws,used,left,x.down.buf,false,?_,hdone,hi,?_,heof,hdrained,nofun,hend⟩
      · simp only [act, hgo, if_false, hp, ← hdone]
      · rw [← hbytes]
        rfl
    | ready r =>
      cases r with
      | error e => exact absurd (congrArg Prod.fst hp) (WsByteStream.pollRead_ne_error room x.inbox hl e)
      | ok bytes =>
        refine ⟨ws,used,left,x.down.buf ++ bytes,bytes.isEmpty,?_,hdone,hi,?_,heof,hdrained,?_,hend⟩
        · simp only [act, hgo, if_false, hp]
        · rw [← hbytes, List.append_assoc]
          rfl
        · intro hn
          exact hzero (by rw [List.isEmpty_iff.mp hn]) hroom

/-- The bytes on their way from the local peer of `x` to the local peer of `y`. -/
structure Flow (x y : WsEnd) : Prop where
  alive : x.broken = false
  up : x.up.readDone = true → x.finished = true ∧ x.socket = []
  kept : y.delivered ++ y.down.buf ++ y.ws.readBuf ++ payloads y.inbox ++ x.up.buf ++ x.socket = x.sent
  opened : x.closeSent = false → y.ws.eof = false ∧ ∀ a ∈ y.inbox, a.ends = false
  closed : x.closeSent = true → x.Drained ∧ (x.finished = true ∨ x.closeReceived = true)
  received : x.closeReceived = true → x.Drained
  order : y.inbox.Pairwise fun a b => a.ends = true → b.payload = []
  errors : ∀ a ∈ y.inbox, ∀ e, a ≠ .error e
  eof : y.ws.eof = true → y.ws.readBuf = [] ∧ payloads y.inbox = []
  down : y.down.readDone = true → y.ws.eof = true
  shut : y.down.shut = true → y.down.readDone = true ∧ y.down.buf = []

theorem Flow.new : Flow .new .new where
  alive := rfl
  up := nofun
  kept := rfl
  opened _ := ⟨rfl,by simp [WsEnd.new]⟩
  closed := nofun
  received := nofun
  order := List.Pairwise.nil
  errors := by simp [WsEnd.new]
  eof := nofun
  down := nofun
  shut := nofun

theorem Flow.intact (h : Flow x y) : x.Intact y := by
  refine ⟨h.alive,?_,?_⟩
  · rw [← h.kept]
    simp only [List.append_assoc]
    exact List.prefix_append _ _
  · intro hs
    obtain ⟨hd,hb⟩ := h.shut hs
    have he := h.down hd
    obtain ⟨hr,hi⟩ := h.eof he
    have hc : x.closeSent = true := by
      by_contra hn
      rw [(h.opened (Bool.eq_false_of_not_eq_true hn)).1] at he
      contradiction
    obtain ⟨hu,hso⟩ := (h.closed hc).1
    rw [← h.kept, hb, hr, hi, hu, hso]
    simp

/-- A message of an end that has sent no Close may follow what is on the way. -/
theorem Flow.receive (h : Flow x y) (hc : x.closeSent = false) (m : Message) :
    ((y.inbox ++ [Next.item m]).Pairwise fun a b => a.ends = true → b.payload = []) ∧
      (∀ a ∈ y.inbox ++ [Next.item m], ∀ e, a ≠ .error e) ∧ y.ws.eof = false := by
  obtain ⟨he,hi⟩ := h.opened hc
  refine ⟨?_,?_,he⟩
  · rw [List.pairwise_append]
    refine ⟨h.order,List.pairwise_singleton _ _,?_⟩
    intro a ha b _ hend
    rw [hi a ha] at hend
    contradiction
  · intro a ha e
    obtain ha | ha := List.mem_append.mp ha
    · exact h.errors a ha e
    · rw [List.mem_singleton.mp ha]
      nofun

/-- A Close goes out when all bytes have gone out. -/
theorem Flow.close (h : Flow x y) (hc : x.closeSent = false) (hd : x.Drained)
    (hw : x.finished = true ∨ x.closeReceived = true) (shut : Bool) :
    Flow { x with closeSent := true, up := { x.up with shut } } (y.receive (some .close)) := by
  obtain ⟨ho,he,hy⟩ := h.receive hc .close
  refine ⟨h.alive,h.up,?_,nofun,fun _ => ⟨hd,hw⟩,h.received,ho,he,?_,h.down,h.shut⟩
  · have := h.kept
    simpa [WsEnd.receive, Next.payload, Message.payload] using this
  · intro h
    exact absurd h (by simp [WsEnd.receive, hy])

theorem Flow.send (h : Flow x y) (bytes : Bytes) (ho : x.Orderly (.send bytes)) :
    Flow (x.act (.send bytes)).1 (y.receive (x.act (.send bytes)).2) := by
  rw [act]
  split_ifs with hf
  · exact h
  · change Flow { x with socket := x.socket ++ bytes, sent := x.sent ++ bytes } y
    have hdrained : x.closeReceived = true → x.socket ++ bytes = [] := by
      intro hr
      rw [(h.received hr).2, ho hr]
      rfl
    refine { h with up := ?_, kept := ?_, closed := ?_, received := ?_ }
    · intro hd
      exact absurd (h.up hd).1 hf
    · change _ ++ (x.socket ++ bytes) = x.sent ++ bytes
      rw [← h.kept, List.append_assoc _ x.socket bytes]
    · intro hc
      obtain ⟨⟨hu,-⟩,hr⟩ := h.closed hc
      have hr := hr.resolve_left hf
      exact ⟨⟨hu,hdrained hr⟩,Or.inr hr⟩
    · intro hr
      exact ⟨(h.received hr).1,hdrained hr⟩

theorem Flow.fill (h : Flow x y) (n : ℕ) : Flow (x.act (.fill n)).1 (y.receive (x.act (.fill n)).2) := by
  rw [act]
  split_ifs with hgo hso
  · exact h
  · change Flow { x with up := { x.up with readDone := x.finished } } y
    exact { h with up := fun hf => ⟨hf,hso⟩ }
  · change Flow { x with up := { x.up with buf := _ }, socket := _ } y
    have hdone : x.up.readDone = false := Bool.eq_false_of_not_eq_true fun hd => hgo (Or.inr hd)
    refine { h with up := ?_, kept := ?_, closed := ?_, received := ?_ }
    · intro hd
      rw [hdone] at hd
      contradiction
    · change _ ++ (x.up.buf ++ x.socket.take n) ++ x.socket.drop n = x.sent
      rw [← h.kept]
      simp
    · intro hc
      exact absurd (h.closed hc).1.2 hso
    · intro hr
      exact absurd (h.received hr).2 hso

/-- What is left in the buffer is accepted: no Close stands in its way. -/
theorem Flow.write (h : Flow x y) (ready : Bool) :
    Flow (x.act (.write ready)).1 (y.receive (x.act (.write ready)).2) := by
  rw [act]
  by_cases hgo : x.broken = true ∨ x.up.buf = []
  · rw [if_pos hgo]
    exact h
  · rw [if_neg hgo]
    have hbuf : x.up.buf ≠ [] := fun hb => hgo (Or.inr hb)
    have hc : x.closeSent = false :=
      Bool.eq_false_of_not_eq_true fun hc => hbuf (h.closed hc).1.1
    have hr : x.closeReceived = false :=
      Bool.eq_false_of_not_eq_true fun hr => hbuf (h.received hr).1
    have hsend : x.startSend = .ok () := by simp [startSend, hc, hr]
    cases ready with
    | false => exact h
    | true =>
      rw [hsend]
      change Flow { x with up := { x.up with buf := x.up.buf.drop x.up.buf.length } }
        (y.receive (some (.binary x.up.buf)))
      obtain ⟨hord,herr,hy⟩ := h.receive hc (.binary x.up.buf)
      rw [List.drop_length]
      refine ⟨h.alive,h.up,?_,fun _ => ⟨hy,?_⟩,fun hn => ?_,fun hn => ?_,hord,herr,fun hn => ?_,h.down,h.shut⟩
      · have hk := h.kept
        simpa [WsEnd.receive, Next.payload, Message.payload] using hk
      · intro a ha
        obtain ha | ha := List.mem_append.mp ha
        · exact (h.opened hc).2 a ha
        · rw [List.mem_singleton.mp ha]
          rfl
      · exact absurd hn (by simp [hc])
      · exact absurd hn (by simpa [closeReceived] using hr)
      · exact absurd hn (by simp [WsEnd.receive, hy])

/-- A step of the sending end. -/
theorem Flow.sender (h : Flow x y) (hl : ∀ a ∈ x.inbox, ∀ e, a ≠ .error e)
    (hs : x.ws.eof = true → x.ws.readBuf = []) (a : WsEndAct) (ho : x.Orderly a) :
    Flow (x.act a).1 (y.receive (x.act a).2) := by
  cases a with
  | send bytes => exact h.send bytes ho
  | finish =>
    change Flow { x with finished := true } y
    exact { h with up := fun hd => ⟨rfl,(h.up hd).2⟩, closed := fun hc => ⟨(h.closed hc).1,Or.inl rfl⟩ }
  | fill n => exact h.fill n
  | write ready => exact h.write ready
  | shutdown =>
    rw [act]
    split_ifs with hgo
    · exact h
    · simp only [not_or, not_not] at hgo
      obtain ⟨-,hd,hb,-⟩ := hgo
      cases hc : x.closeSent with
      | true =>
        change Flow { x with up := { x.up with shut := true }, closeSent := true } y
        rw [← hc]
        exact { h with }
      | false => exact h.close hc ⟨hb,(h.up hd).2⟩ (Or.inl (h.up hd).1) true
  | read room =>
    obtain he | ⟨ws,used,left,buf,readDone,he,-,-,-,heof,-,-,hend⟩ := act_read hl hs room
    · rw [he]
      exact h
    · rw [he]
      change Flow { x with ws, inbox := left, down := _ } y
      have hd : ws.eof = true → x.Drained := by
        intro hw
        cases hx : x.ws.eof with
        | true => exact h.received hx
        | false => exact (hend hx hw).elim ho
      refine { h with closed := ?_, received := hd }
      intro hc
      obtain ⟨hx,hw⟩ := h.closed hc
      refine ⟨hx,hw.imp id fun hw => ?_⟩
      exact heof.trans (by rw [show x.ws.eof = true from hw, Bool.true_or])
  | deliver n =>
    rw [act]
    split_ifs
    · exact h
    · exact { h with }
  | shutdownLocal =>
    rw [act]
    split_ifs
    · exact h
    · exact { h with }
  | reply =>
    rw [act]
    split_ifs with hgo
    · obtain ⟨hr,hc⟩ := hgo
      exact h.close (Bool.eq_false_of_not_eq_true hc) (h.received hr) (Or.inr hr) x.up.shut
    · exact h
  | stall => exact { h with }

/-- A step of the receiving end. -/
theorem Flow.receiver (h : Flow y x) (a : WsEndAct) :
    Flow (y.receive (x.act a).2) (x.act a).1 := by
  have hmsg : ∀ {x' msg}, Flow y x' → Flow (y.receive msg) x' := by
    rintro x' (- | m) h
    · exact h
    · exact { h with }
  apply hmsg
  cases a with
  | send bytes =>
    rw [act]
    split_ifs
    · exact h
    · exact { h with }
  | finish => exact { h with }
  | fill n =>
    rw [act]
    split_ifs
    · exact h
    · exact { h with }
    · exact { h with }
  | write ready =>
    rw [act]
    split
    · exact h
    · split
      · exact { h with }
      · exact { h with }
      · exact h
  | shutdown =>
    rw [act]
    split_ifs
    · exact h
    · exact { h with }
  | read room =>
    obtain he | ⟨ws,used,left,buf,readDone,he,hd,hi,hb,heof,hdrained,hdone,-⟩ :=
      act_read h.errors (fun he => (h.eof he).1) room
    · rw [he]
      exact h
    · rw [he]
      have hmem : ∀ a ∈ left, a ∈ x.inbox := fun a ha => hi ▸ List.mem_append_right used ha
      have hord := h.order
      rw [hi] at hord
      obtain ⟨-,hleft,hcross⟩ := List.pairwise_append.mp hord
      refine { h with
        kept := ?_, opened := ?_, order := hleft, errors := fun a ha => h.errors a (hmem a ha)
        eof := ?_, down := hdone, shut := ?_ }
      · have hk := h.kept
        rw [hi, payloads_append, ← List.append_assoc, List.append_assoc x.delivered] at hk
        change x.delivered ++ buf ++ ws.readBuf ++ payloads left ++ _ ++ _ = _
        rw [List.append_assoc x.delivered, hb, ← hk]
        simp only [List.append_assoc]
      · intro hc
        obtain ⟨he,hn⟩ := h.opened hc
        refine ⟨?_,fun a ha => hn a (hmem a ha)⟩
        rw [heof, he, Bool.false_or, List.any_eq_false]
        intro a ha
        rw [hn a (hi ▸ List.mem_append_left left ha)]
        exact Bool.false_ne_true
      · intro hw
        refine ⟨hdrained hw,?_⟩
        cases hx : x.ws.eof with
        | true =>
          have hp := (h.eof hx).2
          rw [hi, payloads_append] at hp
          exact (List.append_eq_nil_iff.mp hp).2
        | false =>
          rw [show ws.eof = true from hw, hx, Bool.false_or] at heof
          obtain ⟨b,hb,hend⟩ := List.any_eq_true.mp heof.symm
          exact payloads_eq_nil fun a ha => hcross b hb a ha hend
      · intro hs
        rw [(h.shut hs).1] at hd
        contradiction
  | deliver n =>
    rw [act]
    split_ifs
    · exact h
    · refine { h with kept := ?_, shut := ?_ }
      · have hk := h.kept
        change x.delivered ++ x.down.buf.take n ++ x.down.buf.drop n ++ _ ++ _ ++ _ ++ _ = _
        rwa [List.append_assoc x.delivered, List.take_append_drop]
      · intro hs
        obtain ⟨hr,hb⟩ := h.shut hs
        refine ⟨hr,?_⟩
        change x.down.buf.drop n = []
        rw [hb, List.drop_nil]
  | shutdownLocal =>
    rw [act]
    split_ifs with hgo
    · exact h
    · simp only [not_or, not_not] at hgo
      exact { h with shut := fun _ => hgo.2 }
  | reply =>
    rw [act]
    split_ifs
    · exact { h with }
    · exact h
  | stall =>
    have hstall : ∀ a ∈ x.inbox ++ [Next.pending], a ∈ x.inbox ∨ a = .pending := by
      intro a ha
      simpa using ha
    refine { h with kept := ?_, opened := ?_, order := ?_, errors := ?_, eof := ?_ }
    · have hk := h.kept
      simpa [act, Next.payload] using hk
    · intro hc
      refine ⟨(h.opened hc).1,fun a ha => ?_⟩
      obtain ha | rfl := hstall a ha
      · exact (h.opened hc).2 a ha
      · rfl
    · exact List.pairwise_append.mpr ⟨h.order,List.pairwise_singleton _ _,by simp [Next.payload]⟩
    · intro a ha
      obtain ha | rfl := hstall a ha
      · exact h.errors a ha
      · intro e he
        cases he
    · intro he
      refine ⟨(h.eof he).1,?_⟩
      change payloads (x.inbox ++ [.pending]) = []
      rw [payloads_append, (h.eof he).2]
      rfl

end WsEnd

namespace WsTunnel
open WsEnd

/-- Both directions of the tunnel. -/
structure Flows (t : WsTunnel) : Prop where
  up : Flow t.client t.server
  down : Flow t.server t.client

/-- The end that makes the step is orderly. -/
def Orderly (t : WsTunnel) (p : Side × WsEndAct) : Prop := (t.side p.1).Orderly p.2

instance (t : WsTunnel) (p : Side × WsEndAct) : Decidable (t.Orderly p) :=
  inferInstanceAs (Decidable ((t.side p.1).Orderly p.2))

theorem Flows.step {t : WsTunnel} (h : t.Flows) (p : Side × WsEndAct) (ho : t.Orderly p) :
    (t.step p).Flows := by
  obtain ⟨side,a⟩ := p
  cases side with
  | client => exact ⟨h.up.sender h.down.errors (fun he => (h.down.eof he).1) a ho,h.down.receiver a⟩
  | server => exact ⟨h.up.receiver a,h.down.sender h.up.errors (fun he => (h.up.eof he).1) a ho⟩

/-- Half-close: while every end takes a Close off its WebSocket only with nothing left to send, both
directions carry all their bytes before they end. -/
theorem half_close {acts : List (Side × WsEndAct)} (h : Run.Meets step Orderly new acts) :
    (Run.run step new acts).client.Intact (Run.run step new acts).server ∧
      (Run.run step new acts).server.Intact (Run.run step new acts).client := by
  have hstep : ∀ t p, Flows t → t.Orderly p → Flows (step t p) := fun _ p h ho => h.step p ho
  have hf : Flows (Run.run step new acts) := h.induction hstep ⟨.new,.new⟩
  exact ⟨hf.up.intact,hf.down.intact⟩

/-- Both peers send, the client's peer is done first, and the server's one answers. -/
theorem half_close_exchange :
    let acts : List (Side × WsEndAct) := [(.client,.send [1]),(.client,.finish),(.client,.fill 8),
      (.client,.write true),(.server,.read 8),(.server,.send [2]),(.server,.finish),(.server,.fill 8),
      (.server,.write true),(.client,.fill 8),(.client,.shutdown),(.server,.fill 8),(.server,.read 8),
      (.server,.shutdown),(.client,.read 8),(.client,.deliver 8),(.client,.read 8),
      (.client,.shutdownLocal)]
    (Run.run step new acts).client.Intact (Run.run step new acts).server ∧
      (Run.run step new acts).server.Intact (Run.run step new acts).client :=
  half_close (by decide)

/-- The client's peer is done, and what the server's peer sends after that is refused. -/
theorem not_half_close : ¬ ∀ acts : List (Side × WsEndAct),
    (Run.run step new acts).server.Intact (Run.run step new acts).client := by
  intro h
  have h := h [(.client,.finish),(.client,.fill 8),(.client,.shutdown),(.server,.read 8),
    (.server,.send [1]),(.server,.fill 8),(.server,.write true)]
  revert h
  decide

end WsTunnel
end EchTunnel
