import EchTunnel.ClientHello.Classify

/-! Well-formed ClientHello messages, their wire form, and what `classify` makes of it. -/
namespace EchTunnel
open Wire

/-- One extension; type and length fit their 16-bit fields. -/
structure Extension where
  extType : ℕ
  data : Bytes
  type_lt : extType < 65536
  data_lt : data.length < 65536

namespace Extension

def encode (e : Extension) : Bytes := toBe 2 e.extType ++ block 2 e.data

/-- What makes `classify` stop at an extension. -/
def admits (e : Extension) : Bool :=
  e.extType = EXT_ECH ∨ e.extType = EXT_ALPN ∧ alpnHasAcme e.data

end Extension

/-- A list of protocol names, each of which fits its 8-bit length. -/
structure NameList where
  names : List Bytes
  name_lt : ∀ n ∈ names, n.length < 256
  list_lt : (names.flatMap (block 1)).length < 65536

namespace NameList

def wire (l : NameList) : Bytes := l.names.flatMap (block 1)

/-- The content of an ALPN extension that offers these names. -/
def extData (l : NameList) : Bytes := block 2 l.wire

end NameList

/-- The fields of a ClientHello. An absent extension block is `none`. -/
structure ClientHello where
  version : Bytes
  random : Bytes
  sessionId : Bytes
  cipherSuites : Bytes
  compression : Bytes
  extensions : Option (List Extension)
  version_len : version.length = 2
  random_len : random.length = 32
  sessionId_lt : sessionId.length < 256
  cipherSuites_lt : cipherSuites.length < 65536
  compression_lt : compression.length < 256
  extensions_lt : ∀ es ∈ extensions, (es.flatMap Extension.encode).length < 65536

namespace ClientHello

def extensionList (c : ClientHello) : List Extension := c.extensions.getD []

def extensionBlock (c : ClientHello) : Bytes :=
  match c.extensions with
  | none => []
  | some es => block 2 (es.flatMap Extension.encode)

def body (c : ClientHello) : Bytes :=
  (c.version ++ c.random) ++ (block 1 c.sessionId ++
    (block 2 c.cipherSuites ++ (block 1 c.compression ++ c.extensionBlock)))

/-- The handshake message: type, 24-bit length, body. -/
def message (c : ClientHello) : Bytes := toBe 1 0x01 ++ block 3 c.body

def hasEch (c : ClientHello) : Prop := ∃ e ∈ c.extensionList, e.extType = EXT_ECH

def listsAcme (c : ClientHello) : Prop :=
  ∃ e ∈ c.extensionList, e.extType = EXT_ALPN ∧
    ∃ l : NameList, e.data = l.extData ∧ ACME_ALPN ∈ l.names

/-- Every ALPN extension is a well-formed name list. -/
def AlpnWellFormed (c : ClientHello) : Prop :=
  ∀ e ∈ c.extensionList, e.extType = EXT_ALPN → ∃ l : NameList, e.data = l.extData

theorem extensionBlock_lt (c : ClientHello) : c.extensionBlock.length < 65538 := by
  have h := c.extensions_lt
  unfold extensionBlock
  split
  · simp
  · rename_i es he
    have := h es he
    simp only [block_length]
    omega

/-- The fields fit, so the 24-bit length of the message never overflows. -/
theorem body_lt (c : ClientHello) : c.body.length < 16777216 := by
  have := c.version_len
  have := c.random_len
  have := c.sessionId_lt
  have := c.cipherSuites_lt
  have := c.compression_lt
  have := c.extensionBlock_lt
  simp only [body, List.length_append, block_length]
  omega

end ClientHello

/-- A TLS handshake record. -/
def handshakeRecord (version payload : Bytes) : Bytes := toBe 1 0x16 ++ (version ++ block 2 payload)

theorem Extension.encode_inj {es fs : List Extension}
    (h : es.flatMap Extension.encode = fs.flatMap Extension.encode) : es = fs := by
  have hne : ∀ (e : Extension) (t : Bytes), e.encode ++ t ≠ [] := by
    intro e t he
    have := congrArg List.length he
    simp [encode] at this
  induction es generalizing fs with
  | nil =>
    cases fs with
    | nil => rfl
    | cons f fs => exact absurd h.symm (hne f _)
  | cons e es ih =>
    cases fs with
    | nil => exact absurd h (hne e _)
    | cons f fs =>
      simp only [List.flatMap_cons, encode, List.append_assoc] at h
      obtain ⟨ht,h⟩ := List.append_inj h (by simp)
      obtain ⟨hd,h⟩ := block_append_inj e.data_lt f.data_lt h
      have hty : e.extType = f.extType := by
        rw [← fromBe_toBe 2 e.extType e.type_lt, ht, fromBe_toBe 2 f.extType f.type_lt]
      rw [ih h]
      congr 1
      cases e
      cases f
      simp_all

/-- The wire form determines the extensions. -/
theorem ClientHello.message_append_inj {c d : ClientHello} {t u : Bytes}
    (h : c.message ++ t = d.message ++ u) : c.extensionList = d.extensionList := by
  simp only [message, List.append_assoc] at h
  obtain ⟨_,h⟩ := List.append_inj h rfl
  obtain ⟨h,_⟩ := block_append_inj c.body_lt d.body_lt h
  obtain ⟨_,h⟩ := List.append_inj h (by simp [c.version_len, d.version_len, c.random_len, d.random_len])
  obtain ⟨_,h⟩ := block_append_inj c.sessionId_lt d.sessionId_lt h
  obtain ⟨_,h⟩ := block_append_inj c.cipherSuites_lt d.cipherSuites_lt h
  obtain ⟨_,h⟩ := block_append_inj c.compression_lt d.compression_lt h
  have hc := c.extensions_lt
  have hd := d.extensions_lt
  unfold extensionBlock at h
  unfold extensionList
  cases hce : c.extensions with
  | none =>
    cases hde : d.extensions with
    | none => rfl
    | some fs =>
      rw [hce, hde] at h
      exact absurd (congrArg List.length h) (by simp; omega)
  | some es =>
    cases hde : d.extensions with
    | none =>
      rw [hce, hde] at h
      exact absurd (congrArg List.length h) (by simp)
    | some fs =>
      rw [hce, hde] at h
      have hb := block_append_inj (hc es hce) (hd fs hde) (congrArg (· ++ []) h)
      exact Extension.encode_inj hb.1

theorem alpnNamesHaveAcme_next {r r₁ r₂ : Reader} {n : ℕ} {name : Bytes}
    (h₀ : r.isEmpty = false) (h₁ : r.readU8 = some (n,r₁)) (h₂ : r₁.readSlice n = some (name,r₂)) :
    alpnNamesHaveAcme r = if name = ACME_ALPN then true else alpnNamesHaveAcme r₂ := by
  rw [alpnNamesHaveAcme, if_neg (by simp [h₀])]
  split
  · simp_all
  · split <;> simp_all

theorem classifyExtensions_next {r r₁ r₂ r₃ : Reader} {ty n : ℕ} {data : Bytes}
    (h₀ : r.isEmpty = false) (h₁ : r.readU16 = some (ty,r₁)) (h₂ : r₁.readU16 = some (n,r₂))
    (h₃ : r₂.readSlice n = some (data,r₃)) :
    classifyExtensions r = if ty = EXT_ECH then .echOrAcmeAlpn
      else if ty = EXT_ALPN ∧ alpnHasAcme data then .echOrAcmeAlpn else classifyExtensions r₃ := by
  rw [classifyExtensions, if_neg (by simp [h₀])]
  split
  · simp_all
  · split
    · simp_all
    · split <;> simp_all

theorem alpnNamesHaveAcme_at (names : List Bytes) (h : ∀ n ∈ names, n.length < 256) (r : Reader)
    (hr : r.At (names.flatMap (block 1))) :
    alpnNamesHaveAcme r = decide (ACME_ALPN ∈ names) := by
  induction names generalizing r with
  | nil =>
    rw [alpnNamesHaveAcme]
    simp [hr.isEmpty]
  | cons n ns ih =>
    rw [List.flatMap_cons] at hr
    have he : r.isEmpty = false := by simp [hr.isEmpty, block, toBe]
    obtain ⟨r₁,e₁,h₁⟩ := hr.block.readU8 (h n (by simp))
    obtain ⟨r₂,e₂,h₂⟩ := h₁.readSlice
    rw [alpnNamesHaveAcme_next he e₁ e₂]
    by_cases ha : n = ACME_ALPN
    · simp [ha]
    · rw [if_neg ha, ih (fun m hm => h m (by simp [hm])) _ h₂]
      simp [Ne.symm ha]

/-- `alpn_has_acme` looks at the list alone, whatever follows it. -/
theorem alpnHasAcme_block (l t : Bytes) (h : l.length < 65536) :
    alpnHasAcme (block 2 l ++ t) = alpnNamesHaveAcme (Reader.new l) := by
  obtain ⟨r₁,e₁,h₁⟩ := (Reader.at_new (rfl : block 2 l ++ t = _)).block.readU16 h
  obtain ⟨r₂,e₂,_⟩ := h₁.readSlice
  simp only [alpnHasAcme, e₁, e₂]

theorem NameList.alpnHasAcme_extData (l : NameList) :
    alpnHasAcme l.extData = decide (ACME_ALPN ∈ l.names) := by
  have h := alpnHasAcme_block l.wire [] l.list_lt
  rw [List.append_nil] at h
  rw [extData, h]
  exact alpnNamesHaveAcme_at l.names l.name_lt _ (Reader.at_new rfl)

theorem classifyExtensions_at (es : List Extension) (r : Reader)
    (hr : r.At (es.flatMap Extension.encode)) :
    classifyExtensions r = if es.any Extension.admits then .echOrAcmeAlpn else .other := by
  induction es generalizing r with
  | nil =>
    rw [classifyExtensions]
    simp [hr.isEmpty]
  | cons e es ih =>
    rw [List.flatMap_cons, Extension.encode, List.append_assoc] at hr
    have he : r.isEmpty = false := by simp [hr.isEmpty, toBe]
    obtain ⟨r₁,e₁,h₁⟩ := hr.readU16 e.type_lt
    obtain ⟨r₂,e₂,h₂⟩ := h₁.block.readU16 e.data_lt
    obtain ⟨r₃,e₃,h₃⟩ := h₂.readSlice
    rw [classifyExtensions_next he e₁ e₂ e₃, ih _ h₃, List.any_cons, Extension.admits]
    by_cases hech : e.extType = EXT_ECH
    · simp [hech]
    · by_cases hacme : e.extType = EXT_ALPN ∧ alpnHasAcme e.data
      · simp [hacme]
      · rw [if_neg hech, if_neg hacme]
        simp [hech, hacme]

end EchTunnel
