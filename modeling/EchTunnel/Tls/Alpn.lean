import EchTunnel.ClientHello.Format
import EchTunnel.Tls.ChallengeStore

/-! The ALPN-select callback of `tls_server.rs` and the protocol behind it. -/
namespace EchTunnel
open Wire

def H2 : Bytes := utf8 "h2"
def HTTP11 : Bytes := utf8 "http/1.1"

/-- Iterator over length-prefixed protocol names. -/
structure AlpnIter where
  remaining : Bytes

namespace AlpnIter

def next (it : AlpnIter) : Option (Bytes × AlpnIter) :=
  match it.remaining with
  | [] => none
  | b :: tail =>
    let len := b.toNat
    if len = 0 ∨ it.remaining.length < 1+len then none
    else some (tail.take len,⟨tail.drop len⟩)

theorem next_lt {it it' : AlpnIter} {p : Bytes} (h : it.next = some (p,it')) :
    it'.remaining.length < it.remaining.length := by
  unfold next at h
  split at h
  · contradiction
  · rename_i b tail he
    simp only at h
    split at h
    · contradiction
    · cases h
      simp only [he, List.length_drop, List.length_cons]
      omega

/-- Every name the iterator yields before it stops. -/
def protos (it : AlpnIter) : List Bytes :=
  match _h : it.next with
  | none => []
  | some (p,it') => p :: it'.protos
termination_by it.remaining.length
decreasing_by exact next_lt _h

theorem protos_none {it : AlpnIter} (h : it.next = none) : it.protos = [] := by
  rw [protos]
  split <;> simp_all

theorem protos_some {it it' : AlpnIter} {p : Bytes} (h : it.next = some (p,it')) :
    it.protos = p :: it'.protos := by
  rw [protos]
  split <;> simp_all

theorem next_block {n : Bytes} (h₀ : n ≠ []) (h : n.length < 256) (t : Bytes) :
    (AlpnIter.mk (block 1 n ++ t)).next = some (n,⟨t⟩) := by
  have hl : (UInt8.ofNat n.length).toNat = n.length := by
    rw [UInt8.toNat_ofNat']
    exact Nat.mod_eq_of_lt h
  have hb : block 1 n ++ t = UInt8.ofNat n.length :: (n ++ t) := rfl
  have hc : ¬ (n.length = 0 ∨ (UInt8.ofNat n.length :: (n ++ t)).length < 1 + n.length) := by
    rw [List.length_eq_zero_iff]
    simp [h₀]
    omega
  rw [hb, next]
  simp only [hl, if_neg hc]
  simp

/-- Complete non-empty names are all yielded, in order. -/
theorem protos_wire (names : List Bytes) (h₀ : ∀ n ∈ names, n ≠ [])
    (h : ∀ n ∈ names, n.length < 256) : (AlpnIter.mk (names.flatMap (block 1))).protos = names := by
  induction names with
  | nil => exact protos_none rfl
  | cons n ns ih =>
    rw [List.flatMap_cons, protos_some (next_block (h₀ n (by simp)) (h n (by simp)) _),
      ih (fun m hm => h₀ m (by simp [hm])) (fun m hm => h m (by simp [hm]))]

end AlpnIter

/-- What the callback remembers of the client's list. -/
structure AlpnOffer where
  offeredAcme : Bool
  firstH2 : Option Bytes
  firstH11 : Option Bytes

def AlpnOffer.see (o : AlpnOffer) (proto : Bytes) : AlpnOffer :=
  if proto = ACME_ALPN then { o with offeredAcme := true }
  else if proto = H2 ∧ o.firstH2.isNone then { o with firstH2 := some proto }
  else if proto = HTTP11 ∧ o.firstH11.isNone then { o with firstH11 := some proto }
  else o

def AlpnOffer.scan (protos : List Bytes) : AlpnOffer := protos.foldl AlpnOffer.see ⟨false,none,none⟩

inductive AlpnError
  | alertFatal
  | noAck
  deriving Repr, DecidableEq

/-- The protocol answered, and the context `set_ssl_context` put in place of the acceptor's own. -/
structure AlpnSelection (Ctx : Type*) where
  proto : Bytes
  context : Option Ctx

/-- The callback `install_alpn_callback` registers. `setContext` is the success of
`set_ssl_context`, `sni` the server name of the ClientHello. -/
def alpnSelect {Ctx : Type*} (challenges : ChallengeStore Ctx) (setContext : Ctx → Bool)
    (sni : Option String) (clientProtos : Bytes) : Except AlpnError (AlpnSelection Ctx) :=
  let o := AlpnOffer.scan (AlpnIter.mk clientProtos).protos
  if o.offeredAcme then
    match sni.bind challenges.get with
    | some ctx => if setContext ctx then .ok ⟨ACME_ALPN,some ctx⟩ else .error .alertFatal
    | none => .error .alertFatal
  else
    match o.firstH2, o.firstH11 with
    | some p, _ => .ok ⟨p,none⟩
    | none, some p => .ok ⟨p,none⟩
    | none, none => .error .noAck

/-- The protocols of `hyper::server::conn::http1::Builder`, which serves every TLS connection. -/
def servedProtocols : List Bytes := [HTTP11]

end EchTunnel
