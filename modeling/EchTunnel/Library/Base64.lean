import EchTunnel.Library.Wire

/-! Base64 in the standard alphabet, with padding, and its strict decoder. -/
namespace Base64
open Wire

/-- The character of a 6-bit value. -/
def digit (n : ℕ) : Char :=
  if n < 26 then Char.ofNat (65+n)
  else if n < 52 then Char.ofNat (71+n)
  else if n < 62 then Char.ofNat (n-4)
  else if n = 62 then '+' else '/'

def value (c : Char) : Option ℕ :=
  if c.isUpper then some (c.toNat-65)
  else if c.isLower then some (c.toNat-71)
  else if c.isDigit then some (c.toNat+4)
  else if c = '+' then some 62
  else if c = '/' then some 63
  else none

def encode : Bytes → List Char
  | [] => []
  | [a] => [digit (a.toNat/4),digit (a.toNat%4*16),'=','=']
  | [a,b] => [digit (a.toNat/4),digit (a.toNat%4*16 + b.toNat/16),digit (b.toNat%16*4),'=']
  | a :: b :: c :: rest => digit (a.toNat/4) :: digit (a.toNat%4*16 + b.toNat/16) ::
      digit (b.toNat%16*4 + c.toNat/64) :: digit (c.toNat%64) :: encode rest

/-- The decoder wants the padding, and zeros in the bits that a last group does not need. -/
def decode : List Char → Option Bytes
  | [] => some []
  | w :: x :: y :: z :: rest =>
    if rest = [] ∧ y = '=' ∧ z = '=' then do
      let w ← value w
      let x ← value x
      if x % 16 = 0 then return [UInt8.ofNat (w*4 + x/16)] else none
    else if rest = [] ∧ z = '=' then do
      let w ← value w
      let x ← value x
      let y ← value y
      if y % 4 = 0 then return [UInt8.ofNat (w*4 + x/16),UInt8.ofNat (x%16*16 + y/4)] else none
    else do
      let w ← value w
      let x ← value x
      let y ← value y
      let z ← value z
      return UInt8.ofNat (w*4 + x/16) :: UInt8.ofNat (x%16*16 + y/4) :: UInt8.ofNat (y%4*64 + z) ::
        (← decode rest)
  | _ => none

/-- The letters, the numerals and the three signs. -/
def alphabet : List Char :=
  "ABCDEFGHIJKLMNOPQRSTUVWXYZabcdefghijklmnopqrstuvwxyz0123456789+/=".toList

theorem digit_spec : ∀ n < 64, value (digit n) = some n ∧ digit n ≠ '=' ∧ digit n ∈ alphabet := by
  decide +kernel

theorem value_digit {n : ℕ} (h : n < 64) : value (digit n) = some n := (digit_spec n h).1

theorem digit_ne {n : ℕ} (h : n < 64) : digit n ≠ '=' := (digit_spec n h).2.1

theorem digit_mem {n : ℕ} (h : n < 64) : digit n ∈ alphabet := (digit_spec n h).2.2

theorem pad_mem : '=' ∈ alphabet := by decide

theorem ofNat_eq {n : ℕ} {b : Byte} (h : n = b.toNat) : UInt8.ofNat n = b := by
  rw [h, UInt8.ofNat_toNat]

/-- Decoding inverts encoding, for every length of the last group. -/
theorem decode_encode (bs : Bytes) : decode (encode bs) = some bs := by
  fun_induction encode bs with
  | case1 => rfl
  | case2 a =>
    have ha := a.toNat_lt
    have h₀ : UInt8.ofNat (a.toNat/4*4 + a.toNat%4*16/16) = a := ofNat_eq (by omega)
    simp only [decode, and_self, if_true]
    rw [value_digit (by omega), value_digit (by omega)]
    simp only [Option.bind_eq_bind, Option.bind_some]
    rw [if_pos (by omega), h₀]
    rfl
  | case3 a b =>
    have ha := a.toNat_lt
    have hb := b.toNat_lt
    have h₀ : UInt8.ofNat (a.toNat/4*4 + (a.toNat%4*16 + b.toNat/16)/16) = a := ofNat_eq (by omega)
    have h₁ : UInt8.ofNat ((a.toNat%4*16 + b.toNat/16)%16*16 + b.toNat%16*4/4) = b := ofNat_eq (by omega)
    have hy : digit (b.toNat%16*4) ≠ '=' := digit_ne (by omega)
    simp only [decode, hy, and_true, and_false, if_true, if_false]
    rw [value_digit (by omega), value_digit (by omega), value_digit (by omega)]
    simp only [Option.bind_eq_bind, Option.bind_some]
    rw [if_pos (by omega), h₀, h₁]
    rfl
  | case4 a b c rest ih =>
    have ha := a.toNat_lt
    have hb := b.toNat_lt
    have hc := c.toNat_lt
    have h₀ : UInt8.ofNat (a.toNat/4*4 + (a.toNat%4*16 + b.toNat/16)/16) = a := ofNat_eq (by omega)
    have h₁ : UInt8.ofNat ((a.toNat%4*16 + b.toNat/16)%16*16 + (b.toNat%16*4 + c.toNat/64)/4) = b :=
      ofNat_eq (by omega)
    have h₂ : UInt8.ofNat ((b.toNat%16*4 + c.toNat/64)%4*64 + c.toNat%64) = c := ofNat_eq (by omega)
    have hz : digit (c.toNat%64) ≠ '=' := digit_ne (by omega)
    simp only [decode, hz, and_false, if_false]
    rw [value_digit (by omega), value_digit (by omega), value_digit (by omega), value_digit (by omega), ih]
    simp only [Option.bind_eq_bind, Option.bind_some]
    rw [h₀, h₁, h₂]
    rfl

theorem encode_mem (bs : Bytes) : ∀ c ∈ encode bs, c ∈ alphabet := by
  fun_induction encode bs with
  | case1 => simp
  | case2 a =>
    have ha := a.toNat_lt
    simp only [List.forall_mem_cons]
    exact ⟨digit_mem (by omega),digit_mem (by omega),pad_mem,pad_mem,by simp⟩
  | case3 a b =>
    have ha := a.toNat_lt
    have hb := b.toNat_lt
    simp only [List.forall_mem_cons]
    exact ⟨digit_mem (by omega),digit_mem (by omega),digit_mem (by omega),pad_mem,by simp⟩
  | case4 a b c rest ih =>
    have ha := a.toNat_lt
    have hb := b.toNat_lt
    have hc := c.toNat_lt
    simp only [List.forall_mem_cons]
    exact ⟨digit_mem (by omega),digit_mem (by omega),digit_mem (by omega),digit_mem (by omega),ih⟩

end Base64
