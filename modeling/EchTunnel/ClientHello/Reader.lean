import EchTunnel.Library.Wire

/-! The bounds-checked cursor of `clienthello.rs`. -/
namespace EchTunnel
open Wire

structure Reader where
  buf : Bytes
  pos : ℕ
  deriving Repr, DecidableEq

namespace Reader

def new (buf : Bytes) : Reader := ⟨buf,0⟩

def isEmpty (r : Reader) : Bool := r.buf.length ≤ r.pos

def readU8 (r : Reader) : Option (ℕ × Reader) :=
  r.buf[r.pos]?.map fun b => (b.toNat,{ r with pos := r.pos+1 })

def readU16 (r : Reader) : Option (ℕ × Reader) :=
  (slice r.buf r.pos (r.pos+2)).map fun s => (fromBe s,{ r with pos := r.pos+2 })

def readU24 (r : Reader) : Option (ℕ × Reader) :=
  (slice r.buf r.pos (r.pos+3)).map fun s => (fromBe s,{ r with pos := r.pos+3 })

def skip (r : Reader) (n : ℕ) : Option Reader :=
  (slice r.buf r.pos (r.pos+n)).map fun _ => { r with pos := r.pos+n }

def readSlice (r : Reader) (n : ℕ) : Option (Bytes × Reader) :=
  (slice r.buf r.pos (r.pos+n)).map fun s => (s,{ r with pos := r.pos+n })

/-- The bytes the cursor has not passed yet. -/
def rest (r : Reader) : Bytes := r.buf.drop r.pos

/-- The cursor stands inside its buffer, in front of `s`. -/
def At (r : Reader) (s : Bytes) : Prop := r.pos ≤ r.buf.length ∧ r.rest = s

theorem at_new {buf s : Bytes} (h : buf = s) : (new buf).At s := ⟨Nat.zero_le _,h⟩

theorem At.slice {r : Reader} {s t : Bytes} (h : r.At (s ++ t)) :
    slice r.buf r.pos (r.pos + s.length) = some s := by
  obtain ⟨hp,hr⟩ := h
  have hb : r.buf = r.buf.take r.pos ++ (s ++ t) := by
    rw [← hr, rest, List.take_append_drop]
  have hl : (r.buf.take r.pos).length = r.pos := by simp [hp]
  have hs := slice_middle (r.buf.take r.pos) s t
  rwa [← hb, hl] at hs

theorem At.advance {r : Reader} {s t : Bytes} (h : r.At (s ++ t)) :
    At { r with pos := r.pos + s.length } t := by
  obtain ⟨hp,hr⟩ := h
  have hl : (s ++ t).length = r.buf.length - r.pos := by rw [← hr, rest, List.length_drop]
  simp only [List.length_append] at hl
  refine ⟨by simp only; omega,?_⟩
  rw [rest, ← List.drop_drop, ← rest, hr, List.drop_left]

theorem At.isEmpty {r : Reader} {s : Bytes} (h : r.At s) : r.isEmpty = s.isEmpty := by
  obtain ⟨hp,rfl⟩ := h
  rw [Reader.isEmpty, rest, Bool.eq_iff_iff, List.isEmpty_iff, List.drop_eq_nil_iff]
  simp

theorem At.readSlice {r : Reader} {s t : Bytes} (h : r.At (s ++ t)) :
    ∃ r', r.readSlice s.length = some (s,r') ∧ r'.At t :=
  ⟨_,by simp [Reader.readSlice, h.slice],h.advance⟩

theorem At.skip {r : Reader} {s t : Bytes} (h : r.At (s ++ t)) :
    ∃ r', r.skip s.length = some r' ∧ r'.At t :=
  ⟨_,by simp [Reader.skip, h.slice],h.advance⟩

theorem At.readU8 {r : Reader} {n : ℕ} {t : Bytes} (h : r.At (toBe 1 n ++ t)) (hn : n < 256) :
    ∃ r', r.readU8 = some (n,r') ∧ r'.At t := by
  have hg : r.buf[r.pos]? = some (UInt8.ofNat n) := by
    rw [← List.head?_drop, ← rest, h.2]
    rfl
  exact ⟨_,by simp [Reader.readU8, hg, Nat.mod_eq_of_lt hn],h.advance⟩

theorem At.readU16 {r : Reader} {n : ℕ} {t : Bytes} (h : r.At (toBe 2 n ++ t)) (hn : n < 65536) :
    ∃ r', r.readU16 = some (n,r') ∧ r'.At t := by
  have hs := h.slice
  have ha := h.advance
  rw [toBe_length] at hs ha
  exact ⟨_,by simp [Reader.readU16, hs, fromBe_toBe 2 n hn],ha⟩

theorem At.readU24 {r : Reader} {n : ℕ} {t : Bytes} (h : r.At (toBe 3 n ++ t))
    (hn : n < 16777216) : ∃ r', r.readU24 = some (n,r') ∧ r'.At t := by
  have hs := h.slice
  have ha := h.advance
  rw [toBe_length] at hs ha
  exact ⟨_,by simp [Reader.readU24, hs, fromBe_toBe 3 n hn],ha⟩

/-- A length-prefixed block is read as its length and then its content. -/
theorem At.block {r : Reader} {k : ℕ} {s t : Bytes} (h : r.At (block k s ++ t)) :
    r.At (toBe k s.length ++ (s ++ t)) := by
  rwa [Wire.block, List.append_assoc] at h

theorem At.readU16_nil {r : Reader} (h : r.At []) : r.readU16 = none := by
  obtain ⟨hp,hr⟩ := h
  have hl : r.buf.length ≤ r.pos := List.drop_eq_nil_iff.mp hr
  simp [Reader.readU16, Wire.slice, show ¬ r.pos+2 ≤ r.buf.length by omega]

section Fields
variable {r : Reader} {s : Bytes} {k n : ℕ}

/-- What the three integer reads have in common. -/
def readBe (k : ℕ) (r : Reader) : Option (ℕ × Reader) :=
  (slice r.buf r.pos (r.pos+k)).map fun s => (fromBe s,{ r with pos := r.pos+k })

theorem readU8_eq (r : Reader) : r.readU8 = r.readBe 1 := by
  unfold readU8 readBe
  by_cases h : r.pos < r.buf.length
  · have hs : Wire.slice r.buf r.pos (r.pos+1) = some [r.buf[r.pos]] := by
      refine slice_eq_some.mpr ⟨Nat.le_succ _,h,?_⟩
      rw [Nat.add_sub_cancel_left, List.drop_eq_getElem_cons h]
      rfl
    rw [hs, List.getElem?_eq_getElem h]
    simp [fromBe]
  · rw [List.getElem?_eq_none (by omega), Wire.slice, if_neg (by omega)]
    rfl

theorem readU16_eq (r : Reader) : r.readU16 = r.readBe 2 := rfl

theorem readU24_eq (r : Reader) : r.readU24 = r.readBe 3 := rfl

theorem At.slice_take (h : r.At s) (hn : n ≤ s.length) :
    Wire.slice r.buf r.pos (r.pos+n) = some (s.take n) := by
  rw [← List.take_append_drop n s] at h
  have hs := h.slice
  rwa [List.length_take, Nat.min_eq_left hn] at hs

theorem At.drop (h : r.At s) (hn : n ≤ s.length) : At { r with pos := r.pos+n } (s.drop n) := by
  rw [← List.take_append_drop n s] at h
  have hs := h.advance
  rwa [List.length_take, Nat.min_eq_left hn] at hs

theorem At.slice_none (h : r.At s) (hn : s.length < n) : Wire.slice r.buf r.pos (r.pos+n) = none := by
  obtain ⟨hp,rfl⟩ := h
  rw [rest, List.length_drop] at hn
  exact if_neg (by omega)

theorem At.readBe (h : r.At s) (hk : k ≤ s.length) :
    ∃ r', r.readBe k = some (leastBe k s,r') ∧ r'.At (s.drop k) :=
  ⟨_,by rw [Reader.readBe, h.slice_take hk, leastBe_of_le hk]; rfl,h.drop hk⟩

theorem At.readBe_none (h : r.At s) (hk : s.length < k) : r.readBe k = none := by
  rw [Reader.readBe, h.slice_none hk]
  rfl

theorem At.skip_drop (h : r.At s) (hn : n ≤ s.length) :
    ∃ r', r.skip n = some r' ∧ r'.At (s.drop n) :=
  ⟨_,by rw [Reader.skip, h.slice_take hn]; rfl,h.drop hn⟩

theorem At.skip_none (h : r.At s) (hn : s.length < n) : r.skip n = none := by
  rw [Reader.skip, h.slice_none hn]
  rfl

theorem At.readSlice_take (h : r.At s) (hn : n ≤ s.length) : ∃ r', r.readSlice n = some (s.take n,r') :=
  ⟨_,by rw [Reader.readSlice, h.slice_take hn]; rfl⟩

theorem At.readSlice_none (h : r.At s) (hn : s.length < n) : r.readSlice n = none := by
  rw [Reader.readSlice, h.slice_none hn]
  rfl

/-- A block is there to be skipped, or one of the two steps over it fails. -/
theorem At.skipBlock (h : r.At s) (k : ℕ) :
    (s.length < k + leastBe k s ∧
      (r.readBe k = none ∨ ∃ n r', r.readBe k = some (n,r') ∧ r'.skip n = none)) ∨
    k + leastBe k s ≤ s.length ∧ ∃ n r₁ r₂, r.readBe k = some (n,r₁) ∧ r₁.skip n = some r₂ ∧
      r₂.At (s.drop (k + leastBe k s)) := by
  obtain hk | hk := Nat.lt_or_ge s.length k
  · exact Or.inl ⟨by omega,Or.inl (h.readBe_none hk)⟩
  obtain ⟨r₁,e₁,h₁⟩ := h.readBe hk
  obtain hn | hn := Nat.lt_or_ge (s.drop k).length (leastBe k s)
  · refine Or.inl ⟨?_,Or.inr ⟨_,_,e₁,h₁.skip_none hn⟩⟩
    rw [List.length_drop] at hn
    omega
  · obtain ⟨r₂,e₂,h₂⟩ := h₁.skip_drop hn
    rw [List.drop_drop] at h₂
    rw [List.length_drop] at hn
    exact Or.inr ⟨by omega,_,r₁,r₂,e₁,e₂,h₂⟩

end Fields
end Reader
end EchTunnel
