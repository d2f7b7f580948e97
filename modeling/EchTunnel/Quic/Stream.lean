import EchTunnel.Library.Wire

/-! `QuicStream`, the byte-stream view a bridge has of one HTTP/3 request stream. -/
namespace EchTunnel
open Wire

inductive StreamOut
  | data (bytes : Bytes)
  | fin
  | closed
  deriving Repr, DecidableEq

/-- A message from a bridge to the event loop that owns the stream. -/
structure Egress where
  key : Bytes
  streamId : ℕ
  out : StreamOut
  deriving Repr, DecidableEq

inductive Poll (α : Type*)
  | ready (a : α)
  | pending
  deriving Repr, DecidableEq

inductive ErrorKind
  | brokenPipe
  deriving Repr, DecidableEq

structure IoError where
  kind : ErrorKind
  message : String
  deriving Repr, DecidableEq

def brokenPipe : IoError := ⟨.brokenPipe,"quic event loop gone"⟩

/-- The answer of `poll_reserve` on the egress channel. -/
inductive Reserve
  | ready
  | closed
  | pending
  deriving Repr, DecidableEq

/-- The adapter; `rx` names the inbound channel it reads from. -/
structure QuicStream where
  key : Bytes
  streamId : ℕ
  rx : ℕ
  rxBuf : Bytes
  rxEof : Bool
  shutdownSent : Bool
  deriving Repr, DecidableEq

namespace QuicStream

def new (key : Bytes) (streamId rx : ℕ) : QuicStream := ⟨key,streamId,rx,[],false,false⟩

def egress (s : QuicStream) (out : StreamOut) : Egress := ⟨s.key,s.streamId,out⟩

def closeNotice (s : QuicStream) : Egress := s.egress .closed

/-- The part of `rx_buf` that fits into `n` bytes, if anything is buffered. -/
def takeBuffered (s : QuicStream) (n : ℕ) : Option (Bytes × QuicStream) :=
  if s.rxBuf ≠ [] then some (s.rxBuf.take n,{ s with rxBuf := s.rxBuf.drop n })
  else if s.rxEof then some ([],s)
  else none

/-- `poll_read` into a buffer with room for `n` bytes. The list holds the chunks in the inbound
channel; `senders` says whether its sender is still there. -/
def pollRead (s : QuicStream) (senders : Bool) (n : ℕ) : List Bytes →
    Poll Bytes × QuicStream × List Bytes
  | [] =>
    match s.takeBuffered n with
    | some (bytes,s) => (.ready bytes,s,[])
    | none => if senders then (.pending,s,[]) else (.ready [],{ s with rxEof := true },[])
  | b :: rest =>
    match s.takeBuffered n with
    | some (bytes,s) => (.ready bytes,s,b :: rest)
    | none => pollRead { s with rxBuf := b } senders n rest

def pollWrite (s : QuicStream) (r : Reserve) (buf : Bytes) :
    Poll (Except IoError ℕ) × Option Egress :=
  if s.shutdownSent then (.ready (.error brokenPipe),none)
  else match r with
    | .ready => (.ready (.ok buf.length),some (s.egress (.data buf)))
    | .closed => (.ready (.error brokenPipe),none)
    | .pending => (.pending,none)

def pollShutdown (s : QuicStream) (r : Reserve) : Poll Unit × QuicStream × Option Egress :=
  if s.shutdownSent then (.ready (),s,none)
  else match r with
    | .ready => (.ready (),{ s with shutdownSent := true },some (s.egress .fin))
    | .closed => (.ready (),{ s with shutdownSent := true },none)
    | .pending => (.pending,s,none)

end QuicStream

/-- Where the task of a tunnel is: dialling its peer, copying, owing the close notice, or gone. -/
inductive Phase
  | dialing
  | copying
  | closing
  | done
  deriving Repr, DecidableEq

/-- The task of a tunnel. `written` collects the buffers for which `poll_write` returned `Ok`. -/
structure Bridge where
  stream : QuicStream
  phase : Phase
  written : List Bytes
  deriving Repr, DecidableEq

/-- What a task does next. `copy_bidirectional` writes and shuts down in any order until it ends. -/
inductive BridgeAct
  | dialed (ok : Bool)
  | write (buf : Bytes) (r : Reserve)
  | shutdown (r : Reserve)
  | finish
  | close (r : Reserve)
  deriving Repr, DecidableEq

namespace Bridge

/-- The task still holds its `QuicStream`. -/
def Live (b : Bridge) : Prop := b.phase = .dialing ∨ b.phase = .copying

instance (b : Bridge) : Decidable b.Live := inferInstanceAs (Decidable (_ ∨ _))

def act (b : Bridge) (a : BridgeAct) : Bridge × Option Egress :=
  match b.phase, a with
  | .dialing, .dialed ok => ({ b with phase := if ok then .copying else .closing },none)
  | .copying, .write buf r =>
    match b.stream.pollWrite r buf with
    | (.ready (.ok _),msg) => ({ b with written := b.written ++ [buf] },msg)
    | (_,msg) => (b,msg)
  | .copying, .shutdown r =>
    let (_,stream,msg) := b.stream.pollShutdown r
    ({ b with stream },msg)
  | .copying, .finish => ({ b with phase := .closing },none)
  | .closing, .close .ready => ({ b with phase := .done },some b.stream.closeNotice)
  | .closing, .close .closed => ({ b with phase := .done },none)
  | _, _ => (b,none)

/-- What a step of a task can be: nothing, a change of phase, a write, a shutdown, or the close
notice. The last two go through without a message when the channel is closed. -/
theorem act_cases (b : Bridge) (a : BridgeAct) :
    b.act a = (b,none) ∨
    (∃ phase, b.Live ∧ (phase = .copying ∨ phase = .closing) ∧ b.act a = ({ b with phase },none)) ∨
    (∃ buf, a = .write buf .ready ∧ b.phase = .copying ∧ b.stream.shutdownSent = false ∧
      b.act a = ({ b with written := b.written ++ [buf] },some (b.stream.egress (.data buf)))) ∨
    (∃ r, a = .shutdown r ∧ r ≠ .pending ∧ b.phase = .copying ∧ b.stream.shutdownSent = false ∧
      b.act a = ({ b with stream := { b.stream with shutdownSent := true } },
        if r = .ready then some (b.stream.egress .fin) else none)) ∨
    ∃ r, a = .close r ∧ r ≠ .pending ∧ b.phase = .closing ∧
      b.act a = ({ b with phase := .done },if r = .ready then some b.stream.closeNotice else none) := by
  cases hp : b.phase with
  | dialing =>
    cases a with
    | dialed ok =>
      refine Or.inr (Or.inl ⟨if ok then .copying else .closing,Or.inl hp,?_,by simp only [act, hp]⟩)
      cases ok
      · exact Or.inr rfl
      · exact Or.inl rfl
    | _ => exact Or.inl (by simp only [act, hp])
  | copying =>
    cases a with
    | write buf r =>
      by_cases hs : b.stream.shutdownSent
      · exact Or.inl (by simp [act, hp, QuicStream.pollWrite, hs])
      · cases r with
        | ready =>
          refine Or.inr (Or.inr (Or.inl ⟨buf,rfl,rfl,by simpa using hs,?_⟩))
          simp [act, hp, QuicStream.pollWrite, hs]
        | closed => exact Or.inl (by simp [act, hp, QuicStream.pollWrite, hs])
        | pending => exact Or.inl (by simp [act, hp, QuicStream.pollWrite, hs])
    | shutdown r =>
      by_cases hs : b.stream.shutdownSent
      · left
        simp only [act, hp, QuicStream.pollShutdown, hs, if_true]
        rw [← hp]
      · cases r with
        | ready =>
          refine Or.inr (Or.inr (Or.inr (Or.inl ⟨.ready,rfl,by decide,rfl,by simpa using hs,?_⟩)))
          simp [act, hp, QuicStream.pollShutdown, hs]
        | closed =>
          refine Or.inr (Or.inr (Or.inr (Or.inl ⟨.closed,rfl,by decide,rfl,by simpa using hs,?_⟩)))
          simp [act, hp, QuicStream.pollShutdown, hs]
        | pending =>
          left
          simp only [act, hp, QuicStream.pollShutdown, hs, Bool.false_eq_true, if_false]
          rw [← hp]
    | finish => exact Or.inr (Or.inl ⟨.closing,Or.inr hp,Or.inr rfl,by simp only [act, hp]⟩)
    | _ => exact Or.inl (by simp only [act, hp])
  | closing =>
    cases a with
    | close r =>
      cases r with
      | ready => exact Or.inr (Or.inr (Or.inr (Or.inr ⟨.ready,rfl,by decide,rfl,by simp [act, hp]⟩)))
      | closed => exact Or.inr (Or.inr (Or.inr (Or.inr ⟨.closed,rfl,by decide,rfl,by simp [act, hp]⟩)))
      | pending => exact Or.inl (by simp only [act, hp])
    | _ => exact Or.inl (by simp only [act, hp])
  | done => exact Or.inl (by simp only [act, hp])

end Bridge

def BridgeAct.reserve : BridgeAct → Option Reserve
  | .write _ r | .shutdown r | .close r => some r
  | _ => none

/-- The bridges and the bounded egress channel they share, oldest message first. -/
structure Hub where
  cap : ℕ
  egress : List Egress
  rxOpen : Bool
  bridges : List Bridge

namespace Hub

def new (cap : ℕ) : Hub := ⟨cap,[],true,[]⟩

/-- What the channel can answer to a sender that wants a slot. -/
def Answers (h : Hub) : Reserve → Prop
  | .ready => h.rxOpen ∧ h.egress.length < h.cap
  | .closed => ¬ h.rxOpen
  | .pending => h.rxOpen

instance (h : Hub) : (r : Reserve) → Decidable (h.Answers r)
  | .ready => inferInstanceAs (Decidable (_ ∧ _))
  | .closed => inferInstanceAs (Decidable (¬ _))
  | .pending => inferInstanceAs (Decidable (_ = true))

/-- The `i`-th task takes a step, if it can. -/
def act (h : Hub) (i : ℕ) (a : BridgeAct) : Hub :=
  match h.bridges[i]? with
  | none => h
  | some b =>
    if ∀ r ∈ a.reserve, h.Answers r then
      { h with
        bridges := h.bridges.set i (b.act a).1
        egress := h.egress ++ (b.act a).2.toList }
    else h

def spawn (h : Hub) (bs : List Bridge) : Hub := { h with bridges := h.bridges ++ bs }

end Hub
end EchTunnel
