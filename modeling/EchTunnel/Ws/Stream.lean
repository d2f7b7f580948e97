import EchTunnel.Quic.Stream

/-! `WsByteStream`, the byte stream of a tunnel over a WebSocket. -/
namespace EchTunnel
open Wire

/-- A message of a WebSocket, as `tungstenite` hands it over. -/
inductive Message
  | binary (data : Bytes)
  | text (s : String)
  | ping (data : Bytes)
  | pong (data : Bytes)
  | close
  | frame
  deriving Repr, DecidableEq

def Message.payload : Message → Bytes
  | .binary data => data
  | .text s => utf8 s
  | .ping _ | .pong _ | .close | .frame => []

/-- An answer of `poll_next`. -/
inductive Next
  | item (m : Message)
  | error (e : String)
  | ended
  | pending
  deriving Repr, DecidableEq

namespace Next

def payload : Next → Bytes
  | .item m => m.payload
  | .error _ | .ended | .pending => []

/-- The answers after which a WebSocket hands over no further data. -/
def ends : Next → Bool
  | .item .close | .ended => true
  | _ => false

end Next

/-- The bytes that a sequence of answers carries. -/
def payloads (l : List Next) : Bytes := l.flatMap Next.payload

/-- `io::Error::other`, with the text of the error it wraps. -/
structure OtherError where
  message : String
  deriving Repr, DecidableEq

def ioErr (e : String) : OtherError := ⟨e⟩

/-- The adapter without its socket, whose answers are arguments of the calls. -/
structure WsByteStream where
  readBuf : Bytes
  eof : Bool
  deriving Repr, DecidableEq

namespace WsByteStream

def new : WsByteStream := ⟨[],false⟩

/-- What is answered before the socket is asked. -/
def takeBuffered (s : WsByteStream) (room : ℕ) : Option (Bytes × WsByteStream) :=
  if s.readBuf ≠ [] then some (s.readBuf.take room,{ s with readBuf := s.readBuf.drop room })
  else if s.eof then some ([],s)
  else none

def receive (s : WsByteStream) : Message → WsByteStream
  | .binary data => { s with readBuf := data }
  | .text t => { s with readBuf := utf8 t }
  | .close => { s with eof := true }
  | .ping _ | .pong _ | .frame => s

/-- `poll_read` into a buffer with room for `room` bytes. The list holds what `poll_next` is going to
answer, and then it answers `Pending`; what it has not answered yet is returned. -/
def pollRead (s : WsByteStream) (room : ℕ) : List Next →
    Poll (Except OtherError Bytes) × WsByteStream × List Next
  | [] =>
    match s.takeBuffered room with
    | some (bytes,s) => (.ready (.ok bytes),s,[])
    | none => (.pending,s,[])
  | a :: rest =>
    match s.takeBuffered room with
    | some (bytes,s) => (.ready (.ok bytes),s,a :: rest)
    | none =>
      match a with
      | .pending => (.pending,s,rest)
      | .ended => (.ready (.ok []),{ s with eof := true },rest)
      | .item m => pollRead (s.receive m) room rest
      | .error e => (.ready (.error (ioErr e)),s,rest)

/-- `poll_write`, with the answers of `poll_ready` and `start_send`, and the message it sends. -/
def pollWrite (ready : Poll (Except String Unit)) (send : Except String Unit) (buf : Bytes) :
    Poll (Except OtherError ℕ) × Option Message :=
  match ready with
  | .pending => (.pending,none)
  | .ready (.error e) => (.ready (.error (ioErr e)),none)
  | .ready (.ok ()) =>
    match send with
    | .error e => (.ready (.error (ioErr e)),none)
    | .ok () => (.ready (.ok buf.length),some (.binary buf))

/-- `poll_shutdown`, with the answer of `poll_close`. The Close goes out with the first call. -/
def pollShutdown (closeSent : Bool) (answer : Poll (Except String Unit)) :
    Poll (Except OtherError Unit) × Option Message :=
  (match answer with
    | .pending => .pending
    | .ready (.error e) => .ready (.error (ioErr e))
    | .ready (.ok ()) => .ready (.ok ()),
  if closeSent then none else some .close)

end WsByteStream

/-- The bytes a `poll_read` puts into its buffer. -/
def readBytes : Poll (Except OtherError Bytes) → Bytes
  | .ready (.ok bytes) => bytes
  | .ready (.error _) | .pending => []

@[simp] theorem payloads_nil : payloads [] = [] := rfl

@[simp] theorem payloads_cons (a : Next) (l : List Next) : payloads (a :: l) = a.payload ++ payloads l :=
  List.flatMap_cons

@[simp] theorem payloads_append (l l' : List Next) : payloads (l ++ l') = payloads l ++ payloads l' :=
  List.flatMap_append

/-- Nothing is carried by answers that carry nothing. -/
theorem payloads_eq_nil {l : List Next} (h : ∀ a ∈ l, a.payload = []) : payloads l = [] :=
  List.flatMap_eq_nil_iff.mpr h

namespace WsByteStream
variable {s s' : WsByteStream} {room : ℕ} {bytes : Bytes}

/-- What a read delivers from the buffer leaves the rest there. -/
theorem buffered_spec (h : s.takeBuffered room = some (bytes,s')) (hs : s.eof = true → s.readBuf = []) :
    bytes ++ s'.readBuf = s.readBuf ++ payloads [] ∧ s'.eof = (s.eof || [].any Next.ends) ∧
      (s'.eof = true → s'.readBuf = []) ∧
      ((.ready (.ok bytes) : Poll (Except OtherError Bytes)) = .ready (.ok []) → 0 < room →
        s'.eof = true) := by
  unfold takeBuffered at h
  split_ifs at h with hb he
  · cases h
    refine ⟨by simp,by simp,fun he => absurd (hs he) hb,fun hn hr => ?_⟩
    have hn : s.readBuf.take room = [] := by simpa using hn
    obtain h | h := List.take_eq_nil_iff.mp hn
    · omega
    · exact absurd h hb
  · cases h
    exact ⟨by simp [not_not.mp hb],by simp,hs,fun _ _ => he⟩

theorem takeBuffered_eof {p : Bytes × WsByteStream} (h : s.takeBuffered room = some p) :
    p.2.eof = s.eof := by
  unfold takeBuffered at h
  split_ifs at h
  · cases h
    rfl
  · cases h
    rfl

theorem takeBuffered_eq_none (h : s.takeBuffered room = none) : s.readBuf = [] ∧ s.eof = false := by
  unfold takeBuffered at h
  split_ifs at h with hb he
  exact ⟨not_not.mp hb,Bool.eq_false_of_not_eq_true he⟩

theorem takeBuffered_of_eof (he : s.eof = true) (hb : s.readBuf = []) :
    s.takeBuffered room = some ([],s) := by
  rw [takeBuffered, if_neg (not_not.mpr hb), if_pos he]

/-- A message either fills the empty buffer or says that there will be no more. -/
theorem receive_spec (hb : s.readBuf = []) (he : s.eof = false) (m : Message) :
    (s.receive m).readBuf = m.payload ∧ (s.receive m).eof = (Next.item m).ends ∧
      ((s.receive m).eof = true → (s.receive m).readBuf = []) := by
  cases m <;> simp [receive, Message.payload, Next.ends, hb, he]

/-- What is buffered is delivered without asking the socket. -/
theorem pollRead_of_some (h : s.takeBuffered room = some (bytes,s')) (l : List Next) :
    s.pollRead room l = (.ready (.ok bytes),s',l) := by
  cases l with
  | nil => simp only [pollRead, h]
  | cons a rest => simp only [pollRead, h]

/-- At the end of the stream every read is empty. -/
theorem pollRead_of_eof (he : s.eof = true) (hb : s.readBuf = []) (l : List Next) :
    s.pollRead room l = (.ready (.ok []),s,l) :=
  pollRead_of_some (takeBuffered_of_eof he hb) l

/-- What a read does with the answers it gets: it takes some, none is lost between the bytes it
delivers and those it keeps, and without bytes it completes only at the end of the stream. -/
theorem pollRead_spec (s : WsByteStream) (room : ℕ) (l : List Next)
    (hs : s.eof = true → s.readBuf = []) :
    ∃ used answer s' left, s.pollRead room l = (answer,s',left) ∧ l = used ++ left ∧
      readBytes answer ++ s'.readBuf = s.readBuf ++ payloads used ∧
      s'.eof = (s.eof || used.any Next.ends) ∧ (s'.eof = true → s'.readBuf = []) ∧
      (answer = .ready (.ok []) → 0 < room → s'.eof = true) := by
  induction l generalizing s with
  | nil =>
    cases ht : s.takeBuffered room with
    | some p => exact ⟨[],_,_,_,pollRead_of_some ht _,rfl,buffered_spec ht hs⟩
    | none =>
      obtain ⟨hb,he⟩ := takeBuffered_eq_none ht
      refine ⟨[],.pending,s,[],by simp only [pollRead, ht],rfl,by simp [readBytes],by simp,hs,nofun⟩
  | cons a rest ih =>
    cases ht : s.takeBuffered room with
    | some p => exact ⟨[],_,_,_,pollRead_of_some ht _,rfl,buffered_spec ht hs⟩
    | none =>
      obtain ⟨hb,he⟩ := takeBuffered_eq_none ht
      cases a with
      | pending =>
        refine ⟨[.pending],.pending,s,rest,by simp only [pollRead, ht],rfl,?_,?_,hs,nofun⟩
        · simp [readBytes, Next.payload]
        · simp [Next.ends]
      | ended =>
        refine ⟨[.ended],.ready (.ok []),{ s with eof := true },rest,by simp only [pollRead, ht],rfl,?_,?_,
          fun _ => hb,fun _ _ => rfl⟩
        · simp [readBytes, Next.payload]
        · simp [Next.ends]
      | error e =>
        refine ⟨[.error e],.ready (.error (ioErr e)),s,rest,by simp only [pollRead, ht],rfl,?_,?_,hs,nofun⟩
        · simp [readBytes, Next.payload]
        · simp [Next.ends]
      | item m =>
        obtain ⟨hmb,hme,hms⟩ := receive_spec hb he m
        obtain ⟨used,answer,s',left,hp,hl,hbytes,heof,hdrained,hzero⟩ := ih (s.receive m) hms
        refine ⟨.item m :: used,answer,s',left,by simp only [pollRead, ht, hp],
          congrArg (.item m :: ·) hl,?_,?_,hdrained,hzero⟩
        · rw [hbytes, hmb, hb, payloads_cons]
          rfl
        · rw [heof, hme, he, List.any_cons, Bool.false_or]

end WsByteStream
end EchTunnel
