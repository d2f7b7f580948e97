import EchTunnel.Tls.Alpn

/-! When the protocol negotiated by the callback is the protocol served behind it. -/
namespace EchTunnel
open Wire

namespace AlpnOffer

theorem foldl_offeredAcme (ps : List Bytes) (o : AlpnOffer) :
    (ps.foldl see o).offeredAcme = (o.offeredAcme || decide (ACME_ALPN ∈ ps)) := by
  induction ps generalizing o with
  | nil => simp
  | cons p ps ih =>
    rw [List.foldl_cons, ih]
    by_cases hp : p = ACME_ALPN
    · simp [see, hp]
    · have hs : (o.see p).offeredAcme = o.offeredAcme := by
        unfold see
        split_ifs <;> rfl
      simp [hs, Ne.symm hp]

theorem foldl_firstH2 (ps : List Bytes) (o : AlpnOffer) :
    (ps.foldl see o).firstH2 = o.firstH2.or (if H2 ∈ ps then some H2 else none) := by
  induction ps generalizing o with
  | nil => simp
  | cons p ps ih =>
    rw [List.foldl_cons, ih]
    by_cases hp : p = H2
    · subst hp
      cases ho : o.firstH2 <;> simp [see, ho, show H2 ≠ ACME_ALPN by decide, show H2 ≠ HTTP11 by decide]
    · have hs : (o.see p).firstH2 = o.firstH2 := by
        unfold see
        split_ifs <;> simp_all
      simp [hs, Ne.symm hp]

theorem foldl_firstH11 (ps : List Bytes) (o : AlpnOffer) :
    (ps.foldl see o).firstH11 = o.firstH11.or (if HTTP11 ∈ ps then some HTTP11 else none) := by
  induction ps generalizing o with
  | nil => simp
  | cons p ps ih =>
    rw [List.foldl_cons, ih]
    by_cases hp : p = HTTP11
    · subst hp
      cases ho : o.firstH11 <;>
        simp [see, ho, show HTTP11 ≠ ACME_ALPN by decide, show HTTP11 ≠ H2 by decide]
    · have hs : (o.see p).firstH11 = o.firstH11 := by
        unfold see
        split_ifs <;> simp_all
      simp [hs, Ne.symm hp]

@[simp] theorem scan_offeredAcme (ps : List Bytes) :
    (scan ps).offeredAcme = decide (ACME_ALPN ∈ ps) := by simp [scan, foldl_offeredAcme]

@[simp] theorem scan_firstH2 (ps : List Bytes) :
    (scan ps).firstH2 = if H2 ∈ ps then some H2 else none := by simp [scan, foldl_firstH2]

@[simp] theorem scan_firstH11 (ps : List Bytes) :
    (scan ps).firstH11 = if HTTP11 ∈ ps then some HTTP11 else none := by simp [scan, foldl_firstH11]

end AlpnOffer

/-- A protocol list a client can offer: every name is complete and non-empty. -/
structure ClientOffer extends NameList where
  name_ne : ∀ n ∈ names, n ≠ []

@[simp] theorem ClientOffer.protos_wire (l : ClientOffer) :
    (AlpnIter.mk l.wire).protos = l.names :=
  AlpnIter.protos_wire l.names l.name_ne l.name_lt

section Select
variable {Ctx : Type*} (challenges : ChallengeStore Ctx) (setContext : Ctx → Bool)
  (sni : Option String)

/-- Without `acme-tls/1` the challenge store is not consulted: `h2` wins over `http/1.1`. -/
theorem alpnSelect_ordinary (protos : Bytes) (h : ACME_ALPN ∉ (AlpnIter.mk protos).protos) :
    alpnSelect challenges setContext sni protos =
      if H2 ∈ (AlpnIter.mk protos).protos then .ok ⟨H2,none⟩
      else if HTTP11 ∈ (AlpnIter.mk protos).protos then .ok ⟨HTTP11,none⟩
      else .error .noAck := by
  simp only [alpnSelect, AlpnOffer.scan_offeredAcme, h, decide_false, Bool.false_eq_true, if_false,
    AlpnOffer.scan_firstH2, AlpnOffer.scan_firstH11]
  split_ifs <;> rfl

/-- With `acme-tls/1` the callback installs the challenge of the offered name or fails. -/
theorem alpnSelect_acme (protos : Bytes) (h : ACME_ALPN ∈ (AlpnIter.mk protos).protos) :
    alpnSelect challenges setContext sni protos = .error .alertFatal ∨
      ∃ name ctx, sni = some name ∧ challenges.get name = some ctx ∧
        alpnSelect challenges setContext sni protos = .ok ⟨ACME_ALPN,some ctx⟩ := by
  simp only [alpnSelect, AlpnOffer.scan_offeredAcme, h, decide_true, if_true]
  cases sni with
  | none => exact Or.inl rfl
  | some name =>
    rw [Option.bind_some]
    cases hg : challenges.get name with
    | none => exact Or.inl rfl
    | some ctx =>
      by_cases hc : setContext ctx
      · exact Or.inr ⟨name,ctx,rfl,hg,by simp [hc]⟩
      · exact Or.inl (by simp [hc])

/-- What the callback selects is served exactly when the client does not offer `h2`. -/
theorem selected_served_iff (l : ClientOffer) (h : ACME_ALPN ∉ l.names) :
    (∀ sel, alpnSelect challenges setContext sni l.wire = .ok sel → sel.proto ∈ servedProtocols) ↔
      H2 ∉ l.names := by
  rw [alpnSelect_ordinary challenges setContext sni l.wire (by simpa using h), l.protos_wire]
  constructor
  · intro hs h2
    have := hs ⟨H2,none⟩ (if_pos h2)
    exact absurd this (by simp only [servedProtocols]; decide)
  · intro h2 sel hsel
    rw [if_neg h2] at hsel
    split_ifs at hsel
    cases hsel
    simp [servedProtocols]

end Select

def browserOffer : ClientOffer where
  names := [H2,HTTP11]
  name_lt := by decide
  list_lt := by decide
  name_ne := by decide

def plainOffer : ClientOffer where
  names := [HTTP11]
  name_lt := by decide
  list_lt := by decide
  name_ne := by decide

theorem selected_served_iff_plain :
    (∀ sel, alpnSelect (ChallengeStore.new : ChallengeStore Unit) (fun _ => true) none
      plainOffer.wire = .ok sel → sel.proto ∈ servedProtocols) ↔ H2 ∉ plainOffer.names :=
  selected_served_iff _ _ _ plainOffer (by decide)

/-- An ordinary browser offer is answered with `h2`, which nothing behind the listener speaks. -/
theorem browser_gets_unserved_protocol :
    ACME_ALPN ∉ browserOffer.names ∧
    alpnSelect (ChallengeStore.new : ChallengeStore Unit) (fun _ => true) none browserOffer.wire =
      .ok ⟨H2,none⟩ ∧
    H2 ∉ servedProtocols := by
  refine ⟨by decide,?_,by decide⟩
  rw [alpnSelect_ordinary _ _ _ _ (by rw [browserOffer.protos_wire]; decide),
    browserOffer.protos_wire, if_pos (by decide)]

end EchTunnel
