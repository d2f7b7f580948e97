import EchTunnel.ClientHello.Reader
import Mathlib.Tactic.Cases

/-! `classify` of `clienthello.rs`, layer by layer: record, handshake message, body, extensions. -/
namespace EchTunnel
open Wire

def EXT_ECH : ℕ := 0xfe0d
def EXT_ALPN : ℕ := 0x0010
def ACME_ALPN : Bytes := utf8 "acme-tls/1"

inductive ClientHelloKind
  | incomplete
  | notTls
  | echOrAcmeAlpn
  | other
  deriving Repr, DecidableEq

theorem Reader.readU8_lt {r r' : Reader} {n : ℕ} (h : r.readU8 = some (n,r')) :
    r'.buf = r.buf ∧ r.pos < r'.pos ∧ r.pos < r.buf.length := by
  obtain ⟨b,hb,he⟩ := Option.map_eq_some_iff.mp h
  cases he
  exact ⟨rfl,Nat.lt_succ_self _,(List.getElem?_eq_some_iff.mp hb).1⟩

theorem Reader.readU16_lt {r r' : Reader} {n : ℕ} (h : r.readU16 = some (n,r')) :
    r'.buf = r.buf ∧ r.pos < r'.pos ∧ r.pos < r.buf.length := by
  obtain ⟨s,hs,he⟩ := Option.map_eq_some_iff.mp h
  cases he
  have hb := (slice_eq_some.mp hs).2.1
  exact ⟨rfl,Nat.lt_add_of_pos_right Nat.two_pos,by omega⟩

theorem Reader.readSlice_le {r r' : Reader} {n : ℕ} {s : Bytes} (h : r.readSlice n = some (s,r')) :
    r'.buf = r.buf ∧ r.pos ≤ r'.pos := by
  obtain ⟨s,hs,he⟩ := Option.map_eq_some_iff.mp h
  cases he
  exact ⟨rfl,Nat.le_add_right _ _⟩

/-- The name loop of `alpn_has_acme`. -/
def alpnNamesHaveAcme (r : Reader) : Bool :=
  if r.isEmpty then false else
  match _h₁ : r.readU8 with
  | none => false
  | some (nameLen,r₁) =>
    match _h₂ : r₁.readSlice nameLen with
    | none => false
    | some (name,r₂) => if name = ACME_ALPN then true else alpnNamesHaveAcme r₂
termination_by r.buf.length - r.pos
decreasing_by
  obtain ⟨hb₁,hp₁,hl⟩ := Reader.readU8_lt _h₁
  obtain ⟨hb₂,hp₂⟩ := Reader.readSlice_le _h₂
  rw [hb₂, hb₁]
  omega

def alpnHasAcme (extData : Bytes) : Bool :=
  match (Reader.new extData).readU16 with
  | none => false
  | some (listLen,r) =>
    match r.readSlice listLen with
    | none => false
    | some (list,_) => alpnNamesHaveAcme (Reader.new list)

/-- The extension loop of `classify`. -/
def classifyExtensions (r : Reader) : ClientHelloKind :=
  if r.isEmpty then .other else
  match _h₁ : r.readU16 with
  | none => .other
  | some (extType,r₁) =>
    match _h₂ : r₁.readU16 with
    | none => .other
    | some (extDataLen,r₂) =>
      match _h₃ : r₂.readSlice extDataLen with
      | none => .other
      | some (extData,r₃) =>
        if extType = EXT_ECH then .echOrAcmeAlpn
        else if extType = EXT_ALPN ∧ alpnHasAcme extData then .echOrAcmeAlpn
        else classifyExtensions r₃
termination_by r.buf.length - r.pos
decreasing_by
  obtain ⟨hb₁,hp₁,hl⟩ := Reader.readU16_lt _h₁
  obtain ⟨hb₂,hp₂,_⟩ := Reader.readU16_lt _h₂
  obtain ⟨hb₃,hp₃⟩ := Reader.readSlice_le _h₃
  rw [hb₃, hb₂, hb₁]
  omega

/-- The ClientHello body: every field before the extensions is skipped. -/
def classifyBody (body : Bytes) : ClientHelloKind := Id.run do
  let some r := (Reader.new body).skip (2+32) | return .incomplete
  let some (sidLen,r) := r.readU8 | return .incomplete
  let some r := r.skip sidLen | return .incomplete
  let some (csLen,r) := r.readU16 | return .incomplete
  let some r := r.skip csLen | return .incomplete
  let some (compLen,r) := r.readU8 | return .incomplete
  let some r := r.skip compLen | return .incomplete
  let some (extLen,r) := r.readU16 | return .other
  let some (exts,_) := r.readSlice extLen | return .incomplete
  return classifyExtensions (Reader.new exts)

/-- The handshake header: type(1) length(3). -/
def classifyHandshake (record : Bytes) : ClientHelloKind := Id.run do
  let some (hsType,r) := (Reader.new record).readU8 | return .incomplete
  if hsType ≠ 0x01 then return .other
  let some (hsLen,r) := r.readU24 | return .incomplete
  let some (body,_) := r.readSlice hsLen | return .incomplete
  return classifyBody body

/-- The TLS record layer: type(1) version(2) length(2). -/
def classify (buf : Bytes) : ClientHelloKind := Id.run do
  let some (recordType,r) := (Reader.new buf).readU8 | return .incomplete
  if recordType ≠ 0x16 then return .notTls
  let some r := r.skip 2 | return .incomplete
  let some (recordLen,r) := r.readU16 | return .incomplete
  let some (record,_) := r.readSlice recordLen | return .incomplete
  return classifyHandshake record

example : classify [] = .incomplete := by decide

example : classify [0x17,0x03,0x03,0,1,0] = .notTls := by decide

end EchTunnel
