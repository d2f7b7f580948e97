import Mathlib.Data.List.Basic
import Mathlib.Data.List.Induction
import Mathlib.Tactic.Ring
import Mathlib.Tactic.Linarith

/-! Bytes on the wire: big-endian integers, length-prefixed blocks and bounds-checked slices. -/
namespace Wire

abbrev Byte := UInt8
abbrev Bytes := List Byte

/-- The UTF-8 bytes of a string. -/
def utf8 (s : String) : Bytes := s.toList.flatMap String.utf8EncodeChar

theorem toByteArray_utf8 (s : String) : (utf8 s).toByteArray = s.toByteArray := by
  change s.toList.utf8Encode = s.toByteArray
  rw [String.utf8Encode_toList]

theorem utf8_injective : Function.Injective utf8 := by
  intro a b h
  rw [← String.toByteArray_inj, ← toByteArray_utf8, h, toByteArray_utf8]

/-- The string that bytes are the UTF-8 form of, if there is one. -/
def fromUtf8 (bs : Bytes) : Option String := String.fromUTF8? bs.toByteArray

theorem fromUtf8_eq_some {bs : Bytes} {s : String} : fromUtf8 bs = some s ↔ utf8 s = bs := by
  have hinj : utf8 s = bs ↔ (utf8 s).toByteArray = bs.toByteArray := by
    refine ⟨congrArg _,fun h => ?_⟩
    have hdata := congrArg (fun x : ByteArray => x.data.toList) h
    simpa using hdata
  rw [hinj, toByteArray_utf8, fromUtf8, String.fromUTF8?]
  split_ifs with h
  · rw [Option.some.injEq, ← String.toByteArray_inj]
    exact eq_comm
  · refine ⟨by simp,fun he => absurd ?_ h⟩
    rw [← he]
    exact s.isValidUTF8

/-- The value of a big-endian byte string. -/
def fromBe (bs : Bytes) : ℕ := bs.foldl (fun n b => 256*n + b.toNat) 0

/-- The `k` low bytes of `n`, most significant first. -/
def toBe : ℕ → ℕ → Bytes
  | 0, _ => []
  | k+1, n => toBe k (n/256) ++ [UInt8.ofNat n]

@[simp] theorem fromBe_nil : fromBe [] = 0 := rfl

@[simp] theorem fromBe_concat (bs : Bytes) (b : Byte) :
    fromBe (bs ++ [b]) = 256*fromBe bs + b.toNat := by simp [fromBe]

@[simp] theorem toBe_length (k n : ℕ) : (toBe k n).length = k := by
  induction k generalizing n with
  | zero => rfl
  | succ k ih => simp [toBe, ih]

theorem toBe_one (n : ℕ) : toBe 1 n = [UInt8.ofNat n] := rfl

/-- An integer that fits its field is read back unchanged. -/
theorem fromBe_toBe (k n : ℕ) (h : n < 256^k) : fromBe (toBe k n) = n := by
  induction k generalizing n with
  | zero => simp at h; simp [toBe, h]
  | succ k ih =>
    have hq : n/256 < 256^k := by
      rw [pow_succ] at h
      exact Nat.div_lt_of_lt_mul (by linarith)
    rw [toBe, fromBe_concat, ih _ hq, UInt8.toNat_ofNat']
    omega

theorem fromBe_lt (bs : Bytes) : fromBe bs < 256^bs.length := by
  induction bs using List.reverseRecOn with
  | nil => simp
  | append_singleton bs b ih =>
    have := b.toNat_lt
    rw [fromBe_concat, List.length_append, List.length_singleton, pow_succ]
    omega

/-- A field is written back as it was read. -/
theorem toBe_fromBe (bs : Bytes) : toBe bs.length (fromBe bs) = bs := by
  induction bs using List.reverseRecOn with
  | nil => rfl
  | append_singleton bs b ih =>
    have := b.toNat_lt
    have hq : fromBe (bs ++ [b])/256 = fromBe bs := by
      rw [fromBe_concat]
      omega
    have hr : UInt8.ofNat (fromBe (bs ++ [b])) = b := by
      rw [fromBe_concat, ← UInt8.toNat_inj, UInt8.toNat_ofNat']
      omega
    rw [List.length_append, List.length_singleton, toBe, hq, ih, hr]

theorem fromBe_append (a b : Bytes) : fromBe (a ++ b) = 256^b.length*fromBe a + fromBe b := by
  induction b using List.reverseRecOn with
  | nil => simp
  | append_singleton b x ih =>
    rw [← List.append_assoc, fromBe_concat, ih, fromBe_concat, List.length_append,
      List.length_singleton, pow_succ]
    ring

@[simp] theorem fromBe_zeros (n : ℕ) : fromBe (List.replicate n 0) = 0 := by
  induction n with
  | zero => rfl
  | succ n ih => rw [List.replicate_succ', fromBe_concat, ih]; rfl

/-- The least value of a field of `k` bytes that begins like `q`. -/
def leastBe (k : ℕ) (q : Bytes) : ℕ := fromBe ((q ++ List.replicate k 0).take k)

section LeastBe
variable {k : ℕ} {q p : Bytes}

@[simp] theorem leastBe_nil (k : ℕ) : leastBe k [] = 0 := by
  simp [leastBe]

theorem leastBe_of_le (h : k ≤ q.length) : leastBe k q = fromBe (q.take k) := by
  rw [leastBe, List.take_append_of_le_length h]

theorem leastBe_of_lt (h : q.length < k) : leastBe k q = 256^(k-q.length)*fromBe q := by
  rw [leastBe, List.take_append, List.take_of_length_le h.le, List.take_replicate, fromBe_append,
    fromBe_zeros, List.length_replicate, Nat.min_eq_left (Nat.sub_le ..), Nat.add_zero]

@[simp] theorem leastBe_append_zeros (k : ℕ) (q : Bytes) (j : ℕ) :
    leastBe k (q ++ List.replicate j 0) = leastBe k q := by
  rw [leastBe, leastBe, List.append_assoc, List.replicate_append_replicate, List.take_append,
    List.take_append, List.take_replicate, List.take_replicate]
  congr 3
  omega

/-- More bytes of a field only add to its value. -/
theorem leastBe_le_of_prefix (h : q <+: p) (k : ℕ) : leastBe k q ≤ leastBe k p := by
  obtain ⟨t,rfl⟩ := h
  obtain hk | hk := Nat.lt_or_ge q.length k
  · rw [leastBe_of_lt hk, leastBe, List.append_assoc, List.take_append, List.take_of_length_le hk.le,
      fromBe_append]
    have hl : ((t ++ List.replicate k (0 : Byte)).take (k - q.length)).length = k - q.length := by
      rw [List.length_take, List.length_append, List.length_replicate]
      omega
    rw [hl]
    exact Nat.le_add_right _ _
  · rw [leastBe_of_le hk, leastBe_of_le (by rw [List.length_append]; omega),
      List.take_append_of_le_length hk]

theorem leastBe_prefix_eq (h : q <+: p) (hk : k ≤ q.length) : leastBe k q = leastBe k p := by
  rw [leastBe_of_le hk, leastBe_of_le (hk.trans h.length_le)]
  obtain ⟨t,rfl⟩ := h
  rw [List.take_append_of_le_length hk]

end LeastBe

/-- A block preceded by its length in `k` bytes. -/
def block (k : ℕ) (bs : Bytes) : Bytes := toBe k bs.length ++ bs

@[simp] theorem block_length (k : ℕ) (bs : Bytes) : (block k bs).length = k + bs.length := by
  simp [block]

/-- Where a block ends is written in the block. -/
theorem block_append_inj {k : ℕ} {a b t u : Bytes} (ha : a.length < 256^k) (hb : b.length < 256^k)
    (h : block k a ++ t = block k b ++ u) : a = b ∧ t = u := by
  simp only [block, List.append_assoc] at h
  obtain ⟨hl,hr⟩ := List.append_inj h (by simp)
  apply List.append_inj hr
  rw [← fromBe_toBe k a.length ha, hl, fromBe_toBe k b.length hb]

/-- `buf[a..b]`, or `none` when the range leaves the buffer. -/
def slice {α : Type*} (buf : List α) (a b : ℕ) : Option (List α) :=
  if a ≤ b ∧ b ≤ buf.length then some ((buf.drop a).take (b-a)) else none

section Slice
variable {α : Type*} {buf s : List α} {a b : ℕ}

theorem slice_eq_some : slice buf a b = some s ↔
    a ≤ b ∧ b ≤ buf.length ∧ (buf.drop a).take (b-a) = s := by
  unfold slice
  split <;> simp_all

/-- What lies inside a buffer does not depend on what is appended to it. -/
theorem slice_append (h : slice buf a b = some s) (t : List α) :
    slice (buf ++ t) a b = some s := by
  obtain ⟨hab,hb,rfl⟩ := slice_eq_some.mp h
  refine slice_eq_some.mpr ⟨hab,by simp; omega,?_⟩
  rw [List.drop_append_of_le_length (by omega), List.take_append_of_le_length]
  rw [List.length_drop]
  omega

theorem slice_middle (p s t : List α) :
    slice (p ++ (s ++ t)) p.length (p.length + s.length) = some s := by
  refine slice_eq_some.mpr ⟨by omega,by simp,?_⟩
  simp

end Slice
end Wire
