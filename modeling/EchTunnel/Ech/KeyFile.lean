import EchTunnel.Library.Files
import EchTunnel.Library.Wire

/-! The server's ECH key and the file it is kept in, of `ech.rs`. -/
namespace EchTunnel
open Wire

def X25519_PRIVATE_KEY_LEN : ℕ := 32

structure EchServerKey where
  configId : Byte
  publicName : String
  privateKey : Bytes
  privateKey_len : privateKey.length = X25519_PRIVATE_KEY_LEN
  deriving Repr, DecidableEq

/-- What goes wrong with a key, and what the text of the error quotes. -/
inductive EchError
  | emptyPublicName
  | generate
  | publicNameTooLong
  | writeFile (path : String)
  | readFile (path : String)
  | fileTooShort (got : ℕ)
  | lengthMismatch (got expected nlen : ℕ)
  | publicNameNotUtf8
  | keyInit
  | publicNameHasNul
  | marshal
  | configTooLarge
  | createDir
  deriving Repr, DecidableEq

namespace EchServerKey

/-- The content of the file: id, 16-bit length of the name, name, private key. -/
def buf (k : EchServerKey) : Except EchError Bytes :=
  let pn := utf8 k.publicName
  if pn.length < 65536 then .ok (k.configId :: (toBe 2 pn.length ++ pn ++ k.privateKey))
  else .error .publicNameTooLong

/-- `write_to`; `w` is what becomes of the write. -/
def writeTo (k : EchServerKey) (files : String → Option Bytes) (path : String) (w : Files.Write) :
    (String → Option Bytes) × Except EchError Unit :=
  match k.buf with
  | .error e => (files,.error e)
  | .ok buf =>
    match Files.write files path buf w with
    | (files,true) => (files,.ok ())
    | (files,false) => (files,.error (.writeFile path))

/-- `read_from` once the file is read; `none` is a panic, on a slice that is out of range. -/
def parse (buf : Bytes) : Option (Except EchError EchServerKey) :=
  if buf.length < 3 then some (.error (.fileTooShort buf.length)) else do
    let configId ← buf[0]?
    let hi ← buf[1]?
    let lo ← buf[2]?
    let nlen := fromBe [hi,lo]
    let expected := 1+2+nlen+X25519_PRIVATE_KEY_LEN
    if buf.length ≠ expected then return .error (.lengthMismatch buf.length expected nlen)
    let name ← slice buf 3 (3+nlen)
    match fromUtf8 name with
    | none => return .error .publicNameNotUtf8
    | some publicName =>
      let privateKey ← slice buf (3+nlen) buf.length
      -- `copy_from_slice` panics on another length
      if h : privateKey.length = X25519_PRIVATE_KEY_LEN then
        return .ok ⟨configId,publicName,privateKey,h⟩
      else none

def readFrom (files : String → Option Bytes) (path : String) : Option (Except EchError EchServerKey) :=
  match files path with
  | none => some (.error (.readFile path))
  | some buf => parse buf

/-- What is read from a file with at least three bytes. -/
theorem parse_cons (c hi lo : Byte) (rest : Bytes) :
    let nlen := fromBe [hi,lo]
    (∃ e, parse (c :: hi :: lo :: rest) = some (.error e) ∧
      (rest.length ≠ nlen + 32 ∨ fromUtf8 (rest.take nlen) = none)) ∨
    ∃ publicName h, rest.length = nlen + 32 ∧ fromUtf8 (rest.take nlen) = some publicName ∧
      parse (c :: hi :: lo :: rest) = some (.ok ⟨c,publicName,rest.drop nlen,h⟩) := by
  intro nlen
  have hlen : (c :: hi :: lo :: rest).length = 3 + rest.length := by
    simp only [List.length_cons]
    omega
  unfold parse
  rw [if_neg (by omega)]
  simp only [List.getElem?_cons_zero, List.getElem?_cons_succ, Option.bind_eq_bind, Option.bind_some]
  by_cases hl : rest.length = nlen + 32
  · have hname : slice (c :: hi :: lo :: rest) 3 (3 + nlen) = some (rest.take nlen) := by
      refine slice_eq_some.mpr ⟨by omega,by omega,?_⟩
      rw [Nat.add_sub_cancel_left]
      rfl
    have hkey : slice (c :: hi :: lo :: rest) (3 + nlen) (c :: hi :: lo :: rest).length =
        some (rest.drop nlen) := by
      refine slice_eq_some.mpr ⟨by omega,le_rfl,?_⟩
      rw [List.take_of_length_le (by simp), ← List.drop_drop]
      rfl
    rw [if_neg (by rw [hlen, X25519_PRIVATE_KEY_LEN]; omega)]
    simp only [show fromBe [hi,lo] = nlen from rfl, hname, hkey, Option.bind_some]
    have hk : (rest.drop nlen).length = X25519_PRIVATE_KEY_LEN := by
      rw [List.length_drop, hl, X25519_PRIVATE_KEY_LEN]
      omega
    cases hn : fromUtf8 (rest.take nlen) with
    | none => exact Or.inl ⟨_,rfl,Or.inr rfl⟩
    | some publicName => exact Or.inr ⟨publicName,hk,hl,rfl,dif_pos hk⟩
  · left
    rw [if_pos (by rw [hlen, X25519_PRIVATE_KEY_LEN]; omega)]
    exact ⟨_,rfl,Or.inl hl⟩

theorem short_or_cons (buf : Bytes) : (buf.length < 3 ∧ parse buf = some (.error (.fileTooShort buf.length))) ∨
    ∃ c hi lo rest, buf = c :: hi :: lo :: rest := by
  match buf with
  | [] => exact Or.inl ⟨by simp,rfl⟩
  | [_] => exact Or.inl ⟨by simp,rfl⟩
  | [_,_] => exact Or.inl ⟨by simp,rfl⟩
  | c :: hi :: lo :: rest => exact Or.inr ⟨c,hi,lo,rest,rfl⟩

/-- No slice is out of range. -/
theorem parse_cases (buf : Bytes) : (∃ e, parse buf = some (.error e)) ∨
    ∃ k, parse buf = some (.ok k) := by
  obtain ⟨-,h⟩ | ⟨c,hi,lo,rest,rfl⟩ := short_or_cons buf
  · exact Or.inl ⟨_,h⟩
  · obtain ⟨e,he,-⟩ | ⟨_,_,_,_,he⟩ := parse_cons c hi lo rest
    · exact Or.inl ⟨e,he⟩
    · exact Or.inr ⟨_,he⟩

/-- The bytes of a key, and no others, are read as that key. -/
theorem parse_eq_ok_iff {buf : Bytes} {k : EchServerKey} :
    parse buf = some (.ok k) ↔ k.buf = .ok buf := by
  constructor
  · intro h
    obtain ⟨-,he⟩ | ⟨c,hi,lo,rest,rfl⟩ := short_or_cons buf
    · simp [he] at h
    · obtain ⟨e,he,-⟩ | ⟨publicName,hk,hl,hn,he⟩ := parse_cons c hi lo rest
      · simp [he] at h
      · obtain rfl : _ = k := by simpa using he.symm.trans h
        have hlen : (rest.take (fromBe [hi,lo])).length = fromBe [hi,lo] := by
          rw [List.length_take, hl]
          omega
        have hlt : fromBe [hi,lo] < 65536 := (fromBe_lt [hi,lo]).trans_eq (by norm_num)
        have hbe : toBe 2 (fromBe [hi,lo]) = [hi,lo] := toBe_fromBe [hi,lo]
        rw [EchServerKey.buf]
        simp only [fromUtf8_eq_some.mp hn, hlen, if_pos hlt, hbe]
        simp
  · intro h
    unfold EchServerKey.buf at h
    simp only at h
    split_ifs at h with hlt
    obtain ⟨hi,lo,hbe⟩ : ∃ hi lo, toBe 2 (utf8 k.publicName).length = [hi,lo] := ⟨_,_,rfl⟩
    have hlen : fromBe [hi,lo] = (utf8 k.publicName).length := by
      rw [← hbe]
      exact fromBe_toBe 2 _ hlt
    obtain rfl : k.configId :: hi :: lo :: (utf8 k.publicName ++ k.privateKey) = buf := by
      simpa [hbe] using h
    have hk := k.privateKey_len
    have htake : (utf8 k.publicName ++ k.privateKey).take (fromBe [hi,lo]) = utf8 k.publicName := by
      rw [hlen, List.take_left]
    obtain ⟨e,-,hl | hn⟩ | ⟨publicName,_,-,hn,he⟩ :=
        parse_cons k.configId hi lo (utf8 k.publicName ++ k.privateKey)
    · rw [List.length_append, hlen, hk] at hl
      exact absurd rfl hl
    · rw [htake, fromUtf8_eq_some.mpr rfl] at hn
      contradiction
    · rw [htake, fromUtf8_eq_some.mpr rfl] at hn
      cases hn
      simp only [he, hlen, List.drop_left]

/-- The bytes that are read as a key have the length they announce, and a name in them. -/
theorem parse_isOk_iff {buf : Bytes} : (∃ k, parse buf = some (.ok k)) ↔
    buf.length = 35 + fromBe ((buf.drop 1).take 2) ∧
      ∃ name, utf8 name = (buf.drop 3).take (fromBe ((buf.drop 1).take 2)) := by
  obtain ⟨hlt,he⟩ | ⟨c,hi,lo,rest,rfl⟩ := short_or_cons buf
  · rw [he]
    refine iff_of_false (by simp) fun h => ?_
    have := h.1
    omega
  · have hdrop : (c :: hi :: lo :: rest).drop 3 = rest := rfl
    have htake : ((c :: hi :: lo :: rest).drop 1).take 2 = [hi,lo] := rfl
    rw [hdrop, htake]
    simp only [← fromUtf8_eq_some, List.length_cons]
    obtain ⟨e,he,hno⟩ | ⟨publicName,_,hl,hn,he⟩ := parse_cons c hi lo rest
    · refine iff_of_false (by simp [he]) ?_
      rintro ⟨hl,name,hn⟩
      obtain hl' | hn' := hno
      · omega
      · rw [hn] at hn'
        contradiction
    · exact iff_of_true ⟨_,he⟩ ⟨by omega,publicName,hn⟩

variable (k : EchServerKey) (files : String → Option Bytes) (path : String)

theorem readFrom_some {b : Bytes} (h : files path = some b) : readFrom files path = parse b := by
  rw [readFrom, h]

theorem writeTo_done {buf : Bytes} (h : k.buf = .ok buf) :
    k.writeTo files path .done = (Function.update files path (some buf),.ok ()) := by
  rw [writeTo, h]
  rfl

/-- A name that is too long is found before the file is touched. -/
theorem writeTo_tooLong (h : 65535 < (utf8 k.publicName).length) (w : Files.Write) :
    k.writeTo files path w = (files,.error .publicNameTooLong) := by
  have hbuf : k.buf = .error .publicNameTooLong := if_neg (by omega)
  rw [writeTo, hbuf]

end EchServerKey
open EchServerKey

/-- The file format is a bijection between the keys whose name fits and the byte strings that have the
length they announce and a name in them: what is written is read back, what is read is what would be
written, everything else is rejected, and nothing panics. -/
theorem ech_key_file (files : String → Option Bytes) (path : String) :
    (∀ k : EchServerKey, (utf8 k.publicName).length ≤ 65535 →
      (k.writeTo files path .done).2 = .ok () ∧
        readFrom (k.writeTo files path .done).1 path = some (.ok k)) ∧
    (∀ b, files path = some b →
      ((∃ e, readFrom files path = some (.error e)) ∨
        ∃ k, readFrom files path = some (.ok k) ∧ k.writeTo files path .done = (files,.ok ())) ∧
      ((∃ k, readFrom files path = some (.ok k)) ↔ b.length = 35 + fromBe ((b.drop 1).take 2) ∧
        ∃ name, utf8 name = (b.drop 3).take (fromBe ((b.drop 1).take 2)))) ∧
    ∀ k : EchServerKey, 65535 < (utf8 k.publicName).length → ∀ w,
      k.writeTo files path w = (files,.error .publicNameTooLong) := by
  refine ⟨fun k hk => ?_,fun b hb => ⟨?_,?_⟩,fun k hk w => writeTo_tooLong k files path hk w⟩
  · obtain ⟨buf,hbuf⟩ : ∃ buf, k.buf = .ok buf := ⟨_,if_pos (by omega)⟩
    rw [writeTo_done k files path hbuf]
    exact ⟨rfl,(readFrom_some _ _ (Function.update_self ..)).trans (parse_eq_ok_iff.mpr hbuf)⟩
  · rw [readFrom_some files path hb]
    refine (parse_cases b).imp_right fun ⟨k,hk⟩ => ⟨k,hk,?_⟩
    rw [writeTo_done k files path (parse_eq_ok_iff.mp hk), ← hb, Function.update_eq_self]
  · rw [readFrom_some files path hb]
    exact parse_isOk_iff

end EchTunnel
