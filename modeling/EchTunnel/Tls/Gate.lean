import EchTunnel.ClientHello.Peek
import EchTunnel.Config
import EchTunnel.Tls.Negotiation

/-! The probe gate in front of the TLS layer, and the agreement of its two ALPN parsers. -/
namespace EchTunnel
open Wire

/-- The certificate a handshake completes under. -/
inductive Certificate (Ctx : Type*)
  | production
  | challenge (ctx : Ctx)

inductive Handshake (Ctx : Type*)
  | alert
  | completed (under : Certificate Ctx)

/-- What becomes of an accepted connection: reset by the gate, or handed to the TLS layer. -/
inductive Accepted (Ctx : Type*)
  | reset
  | tls (h : Handshake Ctx)

/-- The handshake runs under the context the callback put in place. -/
def AlpnSelection.certificate {Ctx : Type*} (s : AlpnSelection Ctx) : Certificate Ctx :=
  match s.context with
  | none => .production
  | some ctx => .challenge ctx

/-- BoringSSL as the accept task uses it: the outcome of a handshake on the peer's bytes with an
ALPN-select callback, and the server name it reports for a ClientHello. -/
structure BoringSsl (Ctx : Type*) where
  servername : ClientHello → Option String
  accept : Bytes → (Option String → Bytes → Except AlpnError (AlpnSelection Ctx)) → Handshake Ctx

/-- The stream opens with handshake records, cut anywhere, that carry the message of `c`. -/
def Carries (s : Bytes) (c : ClientHello) : Prop :=
  ∃ (records : List (Bytes × Bytes)) (more extra : Bytes),
    (∀ r ∈ records, r.1.length = 2 ∧ r.2.length < 65536) ∧
    s = records.flatMap (fun r => handshakeRecord r.1 r.2) ++ more ∧
    (records.map Prod.snd).flatten = c.message ++ extra

/-- However the records are cut, a stream carries one ClientHello at most. -/
theorem Carries.unique {s : Bytes} {c d : ClientHello} (hc : Carries s c) (hd : Carries s d) :
    c.extensionList = d.extensionList := by
  obtain ⟨rs,more,extra,hrs,hs,hc⟩ := hc
  obtain ⟨qs,more',extra',hqs,hs',hd⟩ := hd
  have hp : ∃ t u, (rs.map Prod.snd).flatten ++ t = (qs.map Prod.snd).flatten ++ u := by
    clear hc hd
    induction rs generalizing qs s with
    | nil => exact ⟨(qs.map Prod.snd).flatten,[],by simp⟩
    | cons r rs ih =>
      cases qs with
      | nil => exact ⟨[],((r :: rs).map Prod.snd).flatten,by simp⟩
      | cons q qs =>
        have hr := hrs r (by simp)
        have hq := hqs q (by simp)
        rw [hs'] at hs
        simp only [List.flatMap_cons, handshakeRecord, List.append_assoc] at hs
        obtain ⟨_,hs⟩ := List.append_inj hs rfl
        obtain ⟨_,hs⟩ := List.append_inj hs (by omega)
        obtain ⟨he,hs⟩ := block_append_inj hq.2 hr.2 hs
        obtain ⟨t,u,htu⟩ := ih (fun x hx => hrs x (by simp [hx])) hs qs
          (fun x hx => hqs x (by simp [hx])) rfl
        exact ⟨t,u,by simp [he, htu]⟩
  obtain ⟨t,u,htu⟩ := hp
  rw [hc, hd, List.append_assoc, List.append_assoc] at htu
  exact ClientHello.message_append_inj htu

/-- A handshake completes only on a ClientHello without duplicate extensions. Its ALPN extension,
if present, is a well-formed list, and the callback that gets exactly this list has the last
word. -/
def BoringSsl.Documented {Ctx : Type*} (b : BoringSsl Ctx) : Prop :=
  ∀ s callback cert, b.accept s callback = .completed cert →
    ∃ c, Carries s c ∧ (c.extensionList.map Extension.extType).Nodup ∧
      ((∀ e ∈ c.extensionList, e.extType ≠ EXT_ALPN) ∧ cert = .production ∨
        ∃ e ∈ c.extensionList, e.extType = EXT_ALPN ∧ ∃ l : ClientOffer, e.data = l.extData ∧
          match callback (b.servername c) l.wire with
          | .ok sel => cert = sel.certificate
          | .error .noAck => cert = .production
          | .error .alertFatal => False)

/-- The accept task of `server.rs` up to the end of the handshake. -/
def acceptTask {Ctx : Type*} (b : BoringSsl Ctx) (cfg : ServerCfg) (challenges : ChallengeStore Ctx)
    (setContext : Ctx → Bool) (stream : Bytes) (peeks : List Peek) : Accepted Ctx :=
  if cfg.ech.isSome ∧ cfg.rejectNonEch ∧ ¬ isEchOrAcmeHandshake stream peeks then .reset
  else .tls (b.accept stream (alpnSelect challenges setContext))

/-- Like `classify` itself, the handshake layer never takes a verdict back. -/
theorem classifyHandshake_append (p t : Bytes) (h : classifyHandshake p ≠ .incomplete) :
    classifyHandshake (p ++ t) = classifyHandshake p := by
  have hx : Reader.new (p ++ t) = (Reader.new p).extend t := rfl
  unfold classifyHandshake at h ⊢
  rw [hx]
  cases e₁ : (Reader.new p).readU8 with
  | none => exact absurd (by simp only [e₁]; rfl) h
  | some x =>
    obtain ⟨ty,r₁⟩ := x
    simp only [e₁, Reader.readU8_extend e₁ t] at h ⊢
    split_ifs at h ⊢ with hty
    · rfl
    · cases e₂ : r₁.readU24 with
      | none => exact absurd (by simp only [e₂]; rfl) h
      | some x =>
        obtain ⟨n,r₂⟩ := x
        simp only [e₂, Reader.readU24_extend e₂ t] at h ⊢
        cases e₃ : r₂.readSlice n with
        | none => exact absurd (by simp only [e₃]; rfl) h
        | some x => simp only [Reader.readSlice_extend e₃ t]

/-- A stream the gate admits carries an admissible extension, however its records are cut. -/
theorem Carries.admits {s : Bytes} {c : ClientHello} (hc : Carries s c)
    (hs : classify s = .echOrAcmeAlpn) : c.extensionList.any Extension.admits := by
  obtain ⟨records,more,extra,hr,rfl,hm⟩ := hc
  cases records with
  | nil =>
    have hl := congrArg List.length hm
    simp [ClientHello.message] at hl
    omega
  | cons r rs =>
    obtain ⟨hv,hp⟩ := hr r (by simp)
    rw [List.flatMap_cons, List.append_assoc, classify_record hv hp] at hs
    have ha := classifyHandshake_append r.2 (rs.map Prod.snd).flatten (by simp [hs])
    rw [List.map_cons, List.flatten_cons] at hm
    rw [hm, c.classifyHandshake_message, c.classifyBody_eq, hs] at ha
    by_contra hx
    simp [hx] at ha

theorem AlpnIter.next_eq_some {it it' : AlpnIter} {p : Bytes} (h : it.next = some (p,it')) :
    p.length < 256 ∧ it.remaining = block 1 p ++ it'.remaining := by
  unfold next at h
  split at h
  · contradiction
  · rename_i b tail he
    simp only at h
    split_ifs at h with hc
    cases h
    have hb := b.toNat_lt
    have hl : (tail.take b.toNat).length = b.toNat := by
      simp only [he, List.length_cons] at hc
      rw [List.length_take]
      omega
    refine ⟨by omega,?_⟩
    rw [he, block, hl, toBe_one, List.append_assoc, List.take_append_drop]
    simp

/-- The gate's scan finds every name the iterator yields: they part only at an empty name, where
the iterator stops and the scan goes on. -/
theorem alpnNamesHaveAcme_of_protos (it : AlpnIter) (r : Reader) (hr : r.At it.remaining)
    (h : ACME_ALPN ∈ it.protos) : alpnNamesHaveAcme r = true := by
  induction it using AlpnIter.protos.induct generalizing r with
  | case1 it hn =>
    rw [AlpnIter.protos_none hn] at h
    contradiction
  | case2 it p it' hn ih =>
    obtain ⟨hp,he⟩ := AlpnIter.next_eq_some hn
    rw [he] at hr
    have hne : r.isEmpty = false := by simp [hr.isEmpty, block, toBe]
    obtain ⟨r₁,e₁,h₁⟩ := hr.block.readU8 hp
    obtain ⟨r₂,e₂,h₂⟩ := h₁.readSlice
    rw [alpnNamesHaveAcme_next hne e₁ e₂]
    rw [AlpnIter.protos_some hn] at h
    by_cases ha : p = ACME_ALPN
    · simp [ha]
    · rw [if_neg ha]
      exact ih r₂ h₂ ((List.mem_cons.mp h).resolve_left (Ne.symm ha))

/-- One direction holds for arbitrary bytes, the other for complete non-empty names. -/
theorem parsers_agree (t : Bytes) :
    (∀ l : Bytes, l.length < 65536 → ACME_ALPN ∈ (AlpnIter.mk l).protos →
      alpnHasAcme (block 2 l ++ t) = true) ∧
    (∀ l : ClientOffer, alpnHasAcme (block 2 l.wire ++ t) = true →
      ACME_ALPN ∈ (AlpnIter.mk l.wire).protos) := by
  constructor
  · intro l hl h
    rw [alpnHasAcme_block l t hl]
    exact alpnNamesHaveAcme_of_protos ⟨l⟩ _ (Reader.at_new rfl) h
  · intro l h
    have hl := alpnNamesHaveAcme_at l.names l.name_lt (Reader.new l.wire) (Reader.at_new rfl)
    rw [alpnHasAcme_block l.wire t l.list_lt, hl, decide_eq_true_iff] at h
    rwa [l.protos_wire]

section Gate
variable {Ctx : Type*} (b : BoringSsl Ctx) (challenges : ChallengeStore Ctx) (setContext : Ctx → Bool)

/-- Behind the gate a handshake without ECH fails or runs under the challenge of the offered name. -/
theorem admitted_handshake (hb : b.Documented) {s : Bytes} (hs : classify s = .echOrAcmeAlpn)
    (hech : ∀ c, Carries s c → ¬ c.hasEch) :
    b.accept s (alpnSelect challenges setContext) = .alert ∨
      ∃ c name ctx, Carries s c ∧ b.servername c = some name ∧ challenges.get name = some ctx ∧
        b.accept s (alpnSelect challenges setContext) = .completed (.challenge ctx) := by
  cases ha : b.accept s (alpnSelect challenges setContext) with
  | alert => exact Or.inl rfl
  | completed cert =>
    obtain ⟨c,hc,hnd,hcert⟩ := hb s _ cert ha
    obtain ⟨e,he,hadm⟩ := List.any_eq_true.mp (hc.admits hs)
    rw [Extension.admits, decide_eq_true_iff] at hadm
    obtain hx | ⟨halpn,hacme⟩ := hadm
    · exact absurd ⟨e,he,hx⟩ (hech c hc)
    · obtain ⟨hno,_⟩ | ⟨e',he',halpn',l,hl,hsel⟩ := hcert
      · exact absurd halpn (hno e he)
      · -- the extension the gate looked at is the one BoringSSL hands to the callback
        have heq : e = e' := List.inj_on_of_nodup_map hnd he he' (halpn.trans halpn'.symm)
        subst e'
        have hmem : ACME_ALPN ∈ (AlpnIter.mk l.wire).protos := by
          rw [hl, l.alpnHasAcme_extData, decide_eq_true_iff] at hacme
          rwa [l.protos_wire]
        obtain hf | ⟨name,ctx,hname,hget,hok⟩ :=
          alpnSelect_acme challenges setContext (b.servername c) l.wire hmem
        · rw [hf] at hsel
          exact absurd hsel id
        · rw [hok] at hsel
          refine Or.inr ⟨c,name,ctx,hc,hname,hget,?_⟩
          rw [hsel]
          rfl

end Gate

/-- The gate and the TLS layer agree: no stream without ECH sees the production certificate. -/
theorem gate_agrees_with_tls {Ctx : Type*} (b : BoringSsl Ctx) (hb : b.Documented) (cfg : ServerCfg)
    (hech : cfg.ech.isSome) (hrej : cfg.rejectNonEch) :
    (∀ (challenges : ChallengeStore Ctx) (setContext : Ctx → Bool) (s : Bytes) (peeks : List Peek),
      (∀ c, Carries s c → ¬ c.hasEch) →
      acceptTask b cfg challenges setContext s peeks = .reset ∨
      acceptTask b cfg challenges setContext s peeks = .tls .alert ∨
      ∃ c name ctx, Carries s c ∧ b.servername c = some name ∧ challenges.get name = some ctx ∧
        acceptTask b cfg challenges setContext s peeks = .tls (.completed (.challenge ctx))) ∧
    (∀ l t : Bytes, l.length ≤ 65535 → ACME_ALPN ∈ (AlpnIter.mk l).protos →
      alpnHasAcme (toBe 2 l.length ++ l ++ t) = true) ∧
    (∀ (l : ClientOffer) (t : Bytes), alpnHasAcme (toBe 2 l.wire.length ++ l.wire ++ t) = true →
      ACME_ALPN ∈ (AlpnIter.mk l.wire).protos) := by
  refine ⟨?_,fun l t hl => (parsers_agree t).1 l (by omega),fun l t => (parsers_agree t).2 l⟩
  intro challenges setContext s peeks hno
  by_cases hg : isEchOrAcmeHandshake s peeks = true
  · obtain ⟨n,_,_,hv⟩ := admitted_prefix hg
    have hs : classify s = .echOrAcmeAlpn := by
      rw [← List.take_append_drop n s, classify_append _ _ (by simp [hv]), hv]
    rw [acceptTask, if_neg (by simp [hg])]
    obtain ha | ⟨c,name,ctx,hc,hn,hget,ha⟩ := admitted_handshake b challenges setContext hb hs hno
    · exact Or.inr (Or.inl (by rw [ha]))
    · exact Or.inr (Or.inr ⟨c,name,ctx,hc,hn,hget,by rw [ha]⟩)
  · exact Or.inl (if_pos ⟨hech,hrej,hg⟩)

/-- What an ACME validator offers. -/
def validatorOffer : ClientOffer where
  names := [ACME_ALPN]
  name_lt := by decide
  list_lt := by decide
  name_ne := by decide

def validatorHello : ClientHello where
  version := [3,3]
  random := List.replicate 32 7
  sessionId := []
  cipherSuites := [0x13,0x01]
  compression := [0]
  extensions := some [⟨EXT_ALPN,validatorOffer.extData,by decide,by decide⟩]
  version_len := rfl
  random_len := rfl
  sessionId_lt := by decide
  cipherSuites_lt := by decide
  compression_lt := by decide
  extensions_lt := by simp only [Option.mem_some_iff]; rintro _ rfl; decide

def validatorStream : Bytes := handshakeRecord [3,1] validatorHello.message

/-- A handshake layer that knows this one ClientHello. -/
def validatorSsl : BoringSsl Unit where
  servername _ := some "example.org"
  accept s callback :=
    if s = validatorStream then
      match callback (some "example.org") validatorOffer.wire with
      | .ok sel => .completed sel.certificate
      | .error .noAck => .completed .production
      | .error .alertFatal => .alert
    else .alert

def guardedCfg : ServerCfg where
  domain := "example.org"
  wsPath := "/ws"
  fastOpen := false
  tls := .static "cert.pem" "key.pem"
  ech := some ⟨"cover.example","ech.key"⟩
  acmeCoverSan := false
  rejectNonEch := true
  serverName := "nginx"
  http3 := false

theorem validatorStream_carries : Carries validatorStream validatorHello :=
  ⟨[([3,1],validatorHello.message)],[],[],by decide,by simp [validatorStream],by simp⟩

theorem validatorSsl_documented : validatorSsl.Documented := by
  intro s callback cert h
  simp only [validatorSsl] at h
  split at h
  · rename_i hs
    subst s
    refine ⟨validatorHello,validatorStream_carries,by decide,Or.inr ⟨_,List.mem_singleton_self _,rfl,
      validatorOffer,rfl,?_⟩⟩
    simp only [validatorSsl]
    cases hcb : callback (some "example.org") validatorOffer.wire with
    | ok sel =>
      rw [hcb] at h
      cases h
      rfl
    | error e => cases e <;> simp_all
  · contradiction

theorem gate_agrees_with_tls_validator :
    acceptTask validatorSsl guardedCfg (ChallengeStore.new.install "example.org" ()) (fun _ => true)
        validatorStream [.read 64 false] = .reset ∨
      acceptTask validatorSsl guardedCfg (ChallengeStore.new.install "example.org" ())
        (fun _ => true) validatorStream [.read 64 false] = .tls .alert ∨
      ∃ c name ctx, Carries validatorStream c ∧ validatorSsl.servername c = some name ∧
        (ChallengeStore.new.install "example.org" ()).get name = some ctx ∧
        acceptTask validatorSsl guardedCfg (ChallengeStore.new.install "example.org" ())
          (fun _ => true) validatorStream [.read 64 false] = .tls (.completed (.challenge ctx)) :=
  (gate_agrees_with_tls validatorSsl validatorSsl_documented guardedCfg rfl rfl).1 _ _ _ _
    fun c hc ⟨e,he,hech⟩ => by
      rw [hc.unique validatorStream_carries] at he
      cases List.mem_singleton.mp he
      exact absurd hech (by decide)

end EchTunnel
