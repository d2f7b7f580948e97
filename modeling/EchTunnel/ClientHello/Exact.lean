import EchTunnel.ClientHello.Format

/-! `classify` reads exactly the signals of a well-formed ClientHello. -/
namespace EchTunnel
open Wire

/-- Below the record layer the verdict depends on the payload of the first record alone. -/
theorem classify_record {version : Bytes} (hv : version.length = 2) {payload : Bytes}
    (hp : payload.length < 65536) (t : Bytes) :
    classify (handshakeRecord version payload ++ t) = classifyHandshake payload := by
  have h₀ : (Reader.new (handshakeRecord version payload ++ t)).At
      (toBe 1 0x16 ++ (version ++ (block 2 payload ++ t))) :=
    Reader.at_new (by simp [handshakeRecord])
  obtain ⟨r₁,e₁,h₁⟩ := h₀.readU8 (by decide)
  obtain ⟨r₂,e₂,h₂⟩ := h₁.skip
  obtain ⟨r₃,e₃,h₃⟩ := h₂.block.readU16 hp
  obtain ⟨r₄,e₄,_⟩ := h₃.readSlice
  rw [hv] at e₂
  simp only [classify, e₁, e₂, e₃, e₄]
  rfl

namespace ClientHello

/-- Bytes after the message in the same record are ignored. -/
theorem classifyHandshake_message (c : ClientHello) (t : Bytes) :
    classifyHandshake (c.message ++ t) = classifyBody c.body := by
  have h₀ : (Reader.new (c.message ++ t)).At (toBe 1 0x01 ++ (block 3 c.body ++ t)) :=
    Reader.at_new (by simp [message])
  obtain ⟨r₁,e₁,h₁⟩ := h₀.readU8 (by decide)
  obtain ⟨r₂,e₂,h₂⟩ := h₁.block.readU24 c.body_lt
  obtain ⟨r₃,e₃,_⟩ := h₂.readSlice
  simp only [classifyHandshake, e₁, e₂, e₃]
  rfl

/-- The verdict on a body: the fields in front are skipped, whatever they hold. -/
theorem classifyBody_eq (c : ClientHello) :
    classifyBody c.body =
      if c.extensionList.any Extension.admits then .echOrAcmeAlpn else .other := by
  have h₀ : (Reader.new c.body).At _ := Reader.at_new rfl
  have hl : (c.version ++ c.random).length = 2+32 := by
    rw [List.length_append, c.version_len, c.random_len]
  obtain ⟨r₁,e₁,h₁⟩ := h₀.skip
  obtain ⟨r₂,e₂,h₂⟩ := h₁.block.readU8 c.sessionId_lt
  obtain ⟨r₃,e₃,h₃⟩ := h₂.skip
  obtain ⟨r₄,e₄,h₄⟩ := h₃.block.readU16 c.cipherSuites_lt
  obtain ⟨r₅,e₅,h₅⟩ := h₄.skip
  obtain ⟨r₆,e₆,h₆⟩ := h₅.block.readU8 c.compression_lt
  obtain ⟨r₇,e₇,h₇⟩ := h₆.skip
  rw [hl] at e₁
  simp only [classifyBody, e₁, e₂, e₃, e₄, e₅, e₆, e₇]
  rw [extensionBlock] at h₇
  cases he : c.extensions with
  | none =>
    -- the body ends where the length of the extension block would stand
    rw [he] at h₇
    simp only [h₇.readU16_nil, extensionList, he]
    rfl
  | some es =>
    have hx : r₇.At (block 2 (es.flatMap Extension.encode) ++ []) := by simpa [he] using h₇
    obtain ⟨r₈,e₈,h₈⟩ := hx.block.readU16 (c.extensions_lt es he)
    obtain ⟨r₉,e₉,_⟩ := h₈.readSlice
    simp only [e₈, e₉, extensionList, he, Option.getD_some]
    exact classifyExtensions_at es _ (Reader.at_new rfl)

/-- The whole path from the record to the extensions, for any extension contents. -/
theorem classify_eq (c : ClientHello) {version : Bytes} (hv : version.length = 2) (p t : Bytes)
    (hp : (c.message ++ p).length < 65536) :
    classify (handshakeRecord version (c.message ++ p) ++ t) =
      if c.extensionList.any Extension.admits then .echOrAcmeAlpn else .other := by
  rw [classify_record hv hp, classifyHandshake_message, classifyBody_eq]

theorem any_admits_iff (c : ClientHello) (h : c.AlpnWellFormed) :
    c.extensionList.any Extension.admits ↔ c.hasEch ∨ c.listsAcme := by
  rw [List.any_eq_true]
  constructor
  · rintro ⟨e,he,ha⟩
    rw [Extension.admits, decide_eq_true_iff] at ha
    obtain hech | ⟨halpn,hacme⟩ := ha
    · exact Or.inl ⟨e,he,hech⟩
    · obtain ⟨l,hl⟩ := h e he halpn
      rw [hl, l.alpnHasAcme_extData, decide_eq_true_iff] at hacme
      exact Or.inr ⟨e,he,halpn,l,hl,hacme⟩
  · rintro (⟨e,he,hech⟩ | ⟨e,he,halpn,l,hl,hacme⟩)
    · exact ⟨e,he,by simp [Extension.admits, hech]⟩
    · exact ⟨e,he,by simp [Extension.admits, halpn, hl, l.alpnHasAcme_extData, hacme]⟩

end ClientHello

/-- A well-formed ClientHello in one handshake record. -/
structure HelloRecord where
  hello : ClientHello
  version : Bytes
  alpn : hello.AlpnWellFormed
  version_len : version.length = 2
  record_lt : hello.message.length < 65536

def HelloRecord.wire (h : HelloRecord) : Bytes := handshakeRecord h.version h.hello.message

/-- The classification is exact on every well-formed ClientHello, whatever bytes follow it. -/
theorem classify_exact (h : HelloRecord) (t : Bytes) :
    (h.hello.hasEch ∨ h.hello.listsAcme → classify (h.wire ++ t) = .echOrAcmeAlpn) ∧
    (¬ (h.hello.hasEch ∨ h.hello.listsAcme) → classify (h.wire ++ t) = .other) := by
  have hc := h.hello.classify_eq h.version_len [] t (by simpa using h.record_lt)
  rw [List.append_nil, ← HelloRecord.wire] at hc
  have ha := h.hello.any_admits_iff h.alpn
  constructor
  · intro hs
    rw [hc, if_pos (ha.mpr hs)]
  · intro hs
    rw [hc, if_neg (fun hx => hs (ha.mp hx))]

end EchTunnel
