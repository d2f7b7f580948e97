import EchTunnel.Library.Wire

/-! A `quiche` connection as the history of the calls made on it, and the answers it gives. -/
namespace EchTunnel
open Wire

/-- The buffer of a single `recv_body`. -/
def RECV_CHUNK : ℕ := 16*1024

structure SocketAddr where
  ip : Bytes
  port : ℕ
  deriving Repr, DecidableEq

/-- A header field of an HTTP/3 request or response. -/
structure Header where
  name : Bytes
  value : Bytes
  deriving Repr, DecidableEq

inductive H3Event
  | headers (list : List Header)
  | data
  | finished
  | reset (code : ℕ)
  | priorityUpdate
  | goAway
  deriving Repr, DecidableEq

inductive Shutdown
  | read
  | write
  deriving Repr, DecidableEq

inductive SendBody
  | ok (n : ℕ)
  | done
  | err
  deriving Repr, DecidableEq

inductive RecvBody
  | ok (bytes : Bytes)
  | done
  | err
  deriving Repr, DecidableEq

inductive SendRequest
  | ok (sid : ℕ)
  | streamBlocked
  | streamLimit
  | err
  deriving Repr, DecidableEq

/-- An answer of `try_reserve` on an inbound channel. -/
inductive Slot
  | permit
  | full
  | closed
  deriving Repr, DecidableEq

abbrev OpenReq := ℕ

/-- A call on a connection and its answer. `tunnel` marks the moment a loop enters a tunnel into
its map. -/
inductive Call
  | connect (scid : Bytes)
  | accept (peer : SocketAddr) (odcid scid : Bytes)
  | recv (peer : SocketAddr) (pkt : Bytes)
  | onTimeout
  | close (app : Bool) (code : ℕ)
  | withTransport (ok : Bool)
  | poll (sid : ℕ) (event : H3Event)
  | sendRequest (headers : List Header) (fin : Bool) (answer : SendRequest)
  | sendResponse (sid : ℕ) (headers : List Header) (fin ok : Bool)
  | sendBody (sid : ℕ) (body : Bytes) (fin : Bool) (answer : SendBody)
  | recvBody (sid : ℕ) (answer : RecvBody)
  | streamFinished (sid : ℕ) (answer : Bool)
  | streamShutdown (sid : ℕ) (direction : Shutdown)
  | flushPackets (ok : Bool)
  | tunnel (sid : ℕ)
  deriving Repr, DecidableEq

/-- The stream a call is about. -/
def Call.stream : Call → Option ℕ
  | .poll sid _ | .sendResponse sid _ _ _ | .sendBody sid _ _ _ | .recvBody sid _
  | .streamFinished sid _ | .streamShutdown sid _ | .tunnel sid => some sid
  | .sendRequest _ _ (.ok sid) => some sid
  | _ => none

/-- The history of a connection, newest call first. -/
abbrev Trace := List Call

/-- The calls that concern one stream. -/
def Trace.on (t : Trace) (sid : ℕ) : Trace := t.filter fun call => call.stream = some sid

/-- Whether a call says where a connection comes from or what has reached it. -/
def Call.isArrival : Call → Bool
  | .accept .. | .recv .. => true
  | _ => false

def Trace.arrivals (t : Trace) : Trace := t.filter Call.isArrival

/-- What `quiche`, `tokio` and the hash maps answer, as functions of the history. -/
structure Env where
  isEstablished : Trace → Bool
  isInEarlyData : Trace → Bool
  isClosed : Trace → Bool
  echAccepted : Trace → Bool
  withTransport : Trace → Bool
  extendedConnectEnabledByPeer : Trace → Bool
  /-- The events `poll` yields before it answers `Done` or an error. -/
  polls : Trace → List (ℕ × H3Event)
  sendRequest : Trace → List Header → Bool → SendRequest
  sendResponse : Trace → ℕ → List Header → Bool → Bool
  sendBody : Trace → ℕ → Bytes → Bool → SendBody
  recvBody : Trace → ℕ → RecvBody
  streamFinished : Trace → ℕ → Bool
  flushPackets : Trace → Bool
  /-- The order in which a pass visits the streams. -/
  order : Trace → List ℕ → List ℕ
  /-- The answers of `try_reserve` to one pass over a stream; then the channel is full. -/
  reserve : Trace → ℕ → List Slot
  requesterGone : Trace → OpenReq → Bool
  sendBody_le : ∀ {t sid body fin n}, sendBody t sid body fin = .ok n → n ≤ body.length
  recvBody_le : ∀ {t sid bytes}, recvBody t sid = .ok bytes → bytes.length ≤ RECV_CHUNK
  order_perm : ∀ t sids, (order t sids).Perm sids
  sendRequest_fresh : ∀ {t headers fin sid}, sendRequest t headers fin = .ok sid →
    ∀ hs f, Call.sendRequest hs f (.ok sid) ∉ t
  /-- Only one initial response is allowed on a stream. -/
  sendResponse_once : ∀ {t sid hs f}, Call.sendResponse sid hs f true ∈ t →
    ∀ headers fin, sendResponse t sid headers fin = false

/-- Surroundings in which nothing happens: what is sent is accepted, nothing arrives. -/
def Env.idle : Env where
  isEstablished _ := true
  isInEarlyData _ := false
  isClosed _ := false
  echAccepted _ := true
  withTransport _ := true
  extendedConnectEnabledByPeer _ := true
  polls _ := []
  sendRequest _ _ _ := .streamBlocked
  sendResponse _ _ _ _ := false
  sendBody _ _ body _ := .ok body.length
  recvBody _ _ := .done
  streamFinished _ _ := false
  flushPackets _ := true
  order _ sids := sids
  reserve _ _ := []
  requesterGone _ _ := false
  sendBody_le := by
    rintro t sid body fin n ⟨⟩
    exact le_rfl
  recvBody_le := by simp
  order_perm _ _ := List.Perm.refl _
  sendRequest_fresh := by simp
  sendResponse_once := by simp

namespace Trace
variable (t u : Trace) (sid : ℕ)

@[simp] theorem on_append : on (t ++ u) sid = on t sid ++ on u sid := List.filter_append t u

theorem on_cons_of_eq {call : Call} (h : call.stream = some sid) : on (call :: t) sid = call :: on t sid := by
  simp [on, h]

theorem on_cons_of_ne {call : Call} (h : call.stream ≠ some sid) : on (call :: t) sid = on t sid := by
  simp [on, h]

@[simp] theorem mem_on {call : Call} : call ∈ on t sid ↔ call ∈ t ∧ call.stream = some sid := by
  simp [on]

theorem on_eq_self (h : ∀ call ∈ t, call.stream = some sid) : on t sid = t := by
  rw [on, List.filter_eq_self]
  simpa using h

theorem on_eq_nil {k : ℕ} (h : ∀ call ∈ t, call.stream = some sid) (hk : k ≠ sid) : on t k = [] := by
  rw [on, List.filter_eq_nil_iff]
  intro call hc
  simp [h call hc, Ne.symm hk]

theorem arrivals_append (h : ∀ call ∈ u, call.isArrival = false) :
    arrivals (u ++ t) = arrivals t := by
  rw [arrivals, List.filter_append, List.filter_eq_nil_iff.mpr (by simpa using h), List.nil_append,
    arrivals]

theorem mem_arrivals {call : Call} (h : call.isArrival = true) : call ∈ arrivals t ↔ call ∈ t := by
  simp [arrivals, h]

end Trace

theorem Call.isArrival_eq_false {call : Call} {sid : ℕ} (h : call.stream = some sid) :
    call.isArrival = false := by
  cases call <;> first | rfl | contradiction

end EchTunnel
