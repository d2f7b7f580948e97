import EchTunnel.ClientHello.Peek
import Mathlib.Data.List.Infix

/-! When `Incomplete` means that more bytes can help: every length that is there leaves room in what
encloses it. -/
namespace EchTunnel
open Wire

/-- Of the `n` bytes of a list of blocks, with length fields of these sizes, `q` are there. The block at
the end may be missing. -/
def BlocksFit : List ℕ → Bytes → ℕ → Prop
  | [], q, n => n < 2 ∨ 2 + leastBe 2 q ≤ n
  | k::ks, q, n =>
    k + leastBe k q ≤ n ∧ BlocksFit ks (q.drop (k + leastBe k q)) (n - (k + leastBe k q))

/-- Of the `n` bytes of a body `q` are there. -/
def BodyFits (q : Bytes) (n : ℕ) : Prop := 34 ≤ n ∧ BlocksFit [1,2,1] (q.drop 34) (n-34)

/-- Of the `n` bytes of a record `q` are there. A length that is not all there still has to leave room
for the least body, of 38 bytes. -/
def HandshakeFits (q : Bytes) (n : ℕ) : Prop :=
  n ≠ 0 ∧ ∀ q', q = 1 :: q' →
    if 3 ≤ q'.length then
      4 + leastBe 3 q' ≤ n ∧ BodyFits ((q'.drop 3).take (leastBe 3 q')) (leastBe 3 q')
    else 4 + max 38 (leastBe 3 q') ≤ n

/-- The length that the header of a record announces. -/
def recordLen (buf : Bytes) : ℕ := fromBe ((buf.drop 3).take 2)

def RecordFits (buf : Bytes) : Prop :=
  buf.head? = some 0x16 → 5 ≤ buf.length →
    HandshakeFits ((buf.drop 5).take (recordLen buf)) (recordLen buf)

/-- The whole of the record that the buffer begins with is there. -/
def HoldsRecord (buf : Bytes) : Prop := 5 ≤ buf.length ∧ 5 + recordLen buf ≤ buf.length

/-- The peek loop with its deadline told apart: `none` when it is still waiting then. -/
def peekLoop (stream : Bytes) : List Peek → Option Bool
  | [] => none
  | .failed :: _ => some false
  | .read n late :: rest =>
    if n = 0 then some false else
    match classify (stream.take n) with
    | .echOrAcmeAlpn => some true
    | .notTls | .other => some false
    | .incomplete =>
      if n = PEEK_CAP then some false else if late then none else peekLoop stream rest

theorem isEchOrAcmeHandshake_eq (stream : Bytes) (peeks : List Peek) :
    isEchOrAcmeHandshake stream peeks = (peekLoop stream peeks).getD false := by
  induction peeks with
  | nil => rfl
  | cons p rest ih =>
    cases p with
    | failed => rfl
    | read n late =>
      rw [isEchOrAcmeHandshake, peekLoop]
      by_cases hn : n = 0
      · rw [if_pos hn, if_pos hn]
        rfl
      · rw [if_neg hn, if_neg hn]
        cases classify (stream.take n) with
        | incomplete => by_cases hc : n = PEEK_CAP <;> cases late <;> simp [hc, ih]
        | echOrAcmeAlpn => rfl
        | notTls => rfl
        | other => rfl

section Blocks
variable {ks : List ℕ} {q p : Bytes} {m n : ℕ}

/-- Missing bytes count as zeros. -/
theorem blocksFit_append_zeros (ks : List ℕ) (q : Bytes) (j n : ℕ) :
    BlocksFit ks (q ++ List.replicate j 0) n ↔ BlocksFit ks q n := by
  induction ks generalizing q j n with
  | nil => rw [BlocksFit, BlocksFit, leastBe_append_zeros]
  | cons k ks ih =>
    rw [BlocksFit, BlocksFit, leastBe_append_zeros, List.drop_append, List.drop_replicate, ih]

/-- Where blocks fit there is room for as many empty ones. -/
theorem blocksFit_nil (h : BlocksFit ks p m) (hm : m ≤ n) : BlocksFit ks [] n := by
  induction ks generalizing p m n with
  | nil =>
    rw [BlocksFit, leastBe_nil]
    omega
  | cons k ks ih =>
    obtain ⟨hk,h⟩ := h
    rw [BlocksFit, leastBe_nil, List.drop_nil]
    exact ⟨by omega,ih h (by omega)⟩

/-- What fits still fits when bytes are taken away at the end. -/
theorem blocksFit_of_prefix (hp : q <+: p) (h : BlocksFit ks p n) : BlocksFit ks q n := by
  induction ks generalizing q p n with
  | nil =>
    have := leastBe_le_of_prefix hp 2
    rw [BlocksFit] at h ⊢
    omega
  | cons k ks ih =>
    obtain ⟨hk,h⟩ := h
    have hle := leastBe_le_of_prefix hp k
    refine ⟨by omega,?_⟩
    obtain hq | hq := Nat.lt_or_ge q.length k
    · -- the field itself is cut: nothing of what follows is there
      rw [List.drop_eq_nil_of_le (by omega)]
      exact blocksFit_nil h (by omega)
    · rw [leastBe_prefix_eq hp hq]
      exact ih (hp.drop _) h

theorem bodyFits_of_prefix (hp : q <+: p) (h : BodyFits p n) : BodyFits q n :=
  ⟨h.1, blocksFit_of_prefix (hp.drop 34) h.2⟩

theorem bodyFits_append_zeros (q : Bytes) (j n : ℕ) :
    BodyFits (q ++ List.replicate j 0) n ↔ BodyFits q n := by
  rw [BodyFits, BodyFits, List.drop_append, List.drop_replicate, blocksFit_append_zeros]

theorem bodyFits_nil : BodyFits [] n ↔ 38 ≤ n := by
  simp only [BodyFits, List.drop_nil, BlocksFit, leastBe_nil]
  omega

end Blocks

theorem classifyExtensions_ne_incomplete (r : Reader) : classifyExtensions r ≠ .incomplete := by
  fun_induction classifyExtensions r <;> simp_all

/-- The body is read through exactly when its lengths fit. -/
theorem classifyBody_ne_incomplete (p : Bytes) :
    classifyBody p ≠ .incomplete ↔ BodyFits p p.length := by
  have h₀ : (Reader.new p).At p := Reader.at_new rfl
  unfold BodyFits classifyBody
  simp only [Reader.readU8_eq, Reader.readU16_eq]
  obtain hlt | hge := Nat.lt_or_ge p.length 34
  · simp [h₀.skip_none hlt, hlt]
  obtain ⟨r₁,e₁,h₁⟩ := h₀.skip_drop hge
  have hl₁ : (p.drop 34).length = p.length - 34 := List.length_drop
  rw [← hl₁]
  generalize p.drop 34 = s at h₁
  simp only [e₁, hge, true_and]
  obtain ⟨hlt,he⟩ | ⟨hge,_,r₂,r₃,e₂,e₃,h₃⟩ := h₁.skipBlock 1
  · refine iff_of_false ?_ fun h => absurd h.1 (by omega)
    obtain he | ⟨_,_,he,he'⟩ := he
    · simp [he]
    · simp [he, he']
  rw [BlocksFit, ← List.length_drop]
  generalize s.drop (1 + leastBe 1 s) = s₃ at h₃
  simp only [e₂, e₃, hge, true_and]
  obtain ⟨hlt,he⟩ | ⟨hge,_,r₄,r₅,e₄,e₅,h₅⟩ := h₃.skipBlock 2
  · refine iff_of_false ?_ fun h => absurd h.1 (by omega)
    obtain he | ⟨_,_,he,he'⟩ := he
    · simp [he]
    · simp [he, he']
  rw [BlocksFit, ← List.length_drop]
  generalize s₃.drop (2 + leastBe 2 s₃) = s₅ at h₅
  simp only [e₄, e₅, hge, true_and]
  obtain ⟨hlt,he⟩ | ⟨hge,_,r₆,r₇,e₆,e₇,h₇⟩ := h₅.skipBlock 1
  · refine iff_of_false ?_ fun h => absurd h.1 (by omega)
    obtain he | ⟨_,_,he,he'⟩ := he
    · simp [he]
    · simp [he, he']
  rw [BlocksFit, ← List.length_drop]
  generalize s₅.drop (1 + leastBe 1 s₅) = s₇ at h₇
  simp only [e₆, e₇, hge, true_and, BlocksFit]
  -- a body may end before the extension block, but not inside it
  obtain hlt | hle := Nat.lt_or_ge s₇.length 2
  · simp [h₇.readBe_none hlt, hlt]
  obtain ⟨r₈,e₈,h₈⟩ := h₇.readBe hle
  obtain hlt | hge := Nat.lt_or_ge (s₇.drop 2).length (leastBe 2 s₇)
  · simp only [e₈, h₈.readSlice_none hlt]
    rw [List.length_drop] at hlt
    refine iff_of_false (by simp) (by omega)
  · obtain ⟨r₉,e₉⟩ := h₈.readSlice_take hge
    simp only [e₈, e₉]
    rw [List.length_drop] at hge
    exact iff_of_true (classifyExtensions_ne_incomplete _) (by omega)

theorem leastBe_one (b : Byte) (q : Bytes) : leastBe 1 (b :: q) = b.toNat := by
  rw [leastBe_of_le (Nat.le_add_left ..), fromBe]
  simp

theorem classifyHandshake_of_ne {b : Byte} (hb : b ≠ 1) (q : Bytes) :
    classifyHandshake (b :: q) = .other := by
  obtain ⟨r₁,e₁,-⟩ := (Reader.at_new (rfl : b :: q = _)).readBe (k := 1) (Nat.le_add_left ..)
  have hb' : b.toNat ≠ 1 := fun h => hb (UInt8.toNat_inj.mp h)
  simp [classifyHandshake, Reader.readU8_eq, e₁, leastBe_one, hb']

theorem classifyHandshake_ne_incomplete (p : Bytes) :
    classifyHandshake p ≠ .incomplete ↔ HandshakeFits p p.length := by
  have h₀ : (Reader.new p).At p := Reader.at_new rfl
  cases p with
  | nil =>
    refine iff_of_false ?_ fun h => h.1 rfl
    simp [classifyHandshake, Reader.readU8_eq, h₀.readBe_none (k := 1) (Nat.one_pos)]
  | cons b q =>
    by_cases hb : b = 1
    · subst hb
      obtain ⟨r₁,e₁,h₁⟩ := h₀.readBe (k := 1) (Nat.le_add_left ..)
      rw [List.drop_one, List.tail_cons] at h₁
      simp only [HandshakeFits, classifyHandshake, Reader.readU8_eq, Reader.readU24_eq, e₁, leastBe_one,
        List.cons.injEq, true_and, forall_eq', List.length_cons]
      obtain hlt | hle := Nat.lt_or_ge q.length 3
      · simp [h₁.readBe_none hlt, show ¬ 3 ≤ q.length by omega]
        omega
      obtain ⟨r₂,e₂,h₂⟩ := h₁.readBe hle
      have hl : (q.drop 3).length = q.length - 3 := List.length_drop
      obtain hlt | hge := Nat.lt_or_ge (q.drop 3).length (leastBe 3 q)
      · simp only [e₂, h₂.readSlice_none hlt, if_pos hle]
        refine iff_of_false (by simp) ?_
        omega
      · obtain ⟨r₃,e₃⟩ := h₂.readSlice_take hge
        have hbody := classifyBody_ne_incomplete ((q.drop 3).take (leastBe 3 q))
        rw [List.length_take, Nat.min_eq_left hge] at hbody
        simp only [e₂, e₃, if_pos hle]
        simp [hbody, show 4 + leastBe 3 q ≤ q.length + 1 by omega]
    · rw [classifyHandshake_of_ne hb]
      refine iff_of_true (by simp) ⟨Nat.succ_ne_zero _,fun q' h => ?_⟩
      cases h
      exact absurd rfl hb

theorem handshakeFits_of_prefix {q p : Bytes} (hp : q <+: p) (h : HandshakeFits p p.length) :
    HandshakeFits q p.length := by
  refine ⟨h.1,?_⟩
  rintro q' rfl
  obtain ⟨t,rfl⟩ := hp
  have hq : q' <+: q' ++ t := List.prefix_append _ _
  have hfit := h.2 (q' ++ t) rfl
  have hle := leastBe_le_of_prefix hq 3
  simp only [List.cons_append, List.length_cons] at hfit ⊢
  split_ifs at hfit with hl
  · obtain ⟨hlen,hbody⟩ := hfit
    split_ifs with h3
    · rw [leastBe_prefix_eq hq h3]
      exact ⟨hlen, bodyFits_of_prefix ((hq.drop 3).take _) hbody⟩
    · -- the length is cut, and the whole of it leaves room for a body
      have hnil := bodyFits_of_prefix List.nil_prefix hbody
      have := bodyFits_nil.mp hnil
      omega
  · omega

/-- The bytes of a length that are there begin the least length that will do. -/
theorem prefix_toBe_leastBe {q : Bytes} (h : q.length < 3) : q <+: toBe 3 (max 38 (leastBe 3 q)) := by
  obtain hlt | hge := Nat.lt_or_ge (leastBe 3 q) 38
  · have hzero : fromBe q = 0 := by
      rw [leastBe_of_lt h] at hlt
      by_contra hne
      have hpow : 256^1 ≤ 256^(3 - q.length) := Nat.pow_le_pow_right (by norm_num) (by omega)
      have := Nat.le_mul_of_pos_right (256^(3 - q.length)) (Nat.pos_of_ne_zero hne)
      omega
    have hq := toBe_fromBe q
    rw [hzero] at hq
    rw [max_eq_left hlt.le, ← hq]
    generalize q.length = l at h
    obtain rfl | rfl | rfl : l = 0 ∨ l = 1 ∨ l = 2 := by omega
    · exact List.nil_prefix
    · exact ⟨[0,38],rfl⟩
    · exact ⟨[38],rfl⟩
  · have hq : q <+: (q ++ List.replicate 3 0).take 3 := by
      rw [List.take_append, List.take_of_length_le h.le]
      exact List.prefix_append _ _
    have hl : ((q ++ List.replicate 3 (0 : Byte)).take 3).length = 3 := by simp
    have hbe := toBe_fromBe ((q ++ List.replicate 3 (0 : Byte)).take 3)
    rw [hl] at hbe
    rwa [max_eq_right hge, leastBe, hbe]

/-- A payload that fits so far can be completed. -/
theorem exists_completion {q : Bytes} {n : ℕ} (hq : q.length ≤ n) (h : HandshakeFits q n) :
    ∃ p, q <+: p ∧ p.length = n ∧ HandshakeFits p n := by
  obtain ⟨hn,h⟩ := h
  by_cases hshort : ∃ q', q = 1 :: q' ∧ q'.length < 3
  · obtain ⟨q',rfl,hl⟩ := hshort
    have hroom := h q' rfl
    rw [if_neg (by omega)] at hroom
    have hlt : leastBe 3 q' < 256^3 := by
      refine (fromBe_lt _).trans_le (Nat.pow_le_pow_right (by norm_num) ?_)
      rw [List.length_take]
      exact min_le_left _ _
    have hval : leastBe 3 (toBe 3 (max 38 (leastBe 3 q'))) = max 38 (leastBe 3 q') := by
      rw [leastBe_of_le (by simp), List.take_of_length_le (by simp)]
      exact fromBe_toBe 3 _ (max_lt (by norm_num) hlt)
    refine ⟨1 :: (toBe 3 (max 38 (leastBe 3 q')) ++ List.replicate (n-4) 0),?_,?_,hn,?_⟩
    · exact List.cons_prefix_cons.mpr ⟨rfl,(prefix_toBe_leastBe hl).trans (List.prefix_append _ _)⟩
    · simp only [List.length_cons, List.length_append, toBe_length, List.length_replicate]
      omega
    · rintro p' hp
      cases hp
      rw [if_pos (by simp), leastBe_append_zeros, hval]
      refine ⟨hroom,?_⟩
      have hzeros := bodyFits_append_zeros [] (min (max 38 (leastBe 3 q')) (n-4)) (max 38 (leastBe 3 q'))
      rw [List.drop_left' (by simp), List.take_replicate]
      exact hzeros.mpr (bodyFits_nil.mpr (le_max_left _ _))
  · refine ⟨q ++ List.replicate (n - q.length) 0,List.prefix_append _ _,by simp; omega,hn,?_⟩
    intro p' hp
    cases q with
    | nil => cases n <;> simp [List.replicate_succ] at hp hn
    | cons b q' =>
      rw [List.cons_append, List.cons.injEq] at hp
      obtain ⟨rfl,rfl⟩ := hp
      have hl : 3 ≤ q'.length := by
        by_contra hlt
        exact hshort ⟨q',rfl,by omega⟩
      have hfit := h q' rfl
      rw [if_pos hl] at hfit
      rw [if_pos (by simp; omega), leastBe_append_zeros, List.drop_append, List.drop_replicate,
        List.take_append, List.take_replicate, bodyFits_append_zeros]
      exact hfit

/-- What has to be there for a verdict, layer by layer. -/
theorem classify_ne_incomplete (buf : Bytes) : classify buf ≠ .incomplete ↔ buf ≠ [] ∧
    (buf.head? = some 0x16 → HoldsRecord buf ∧
      HandshakeFits ((buf.drop 5).take (recordLen buf)) (recordLen buf)) := by
  have h₀ : (Reader.new buf).At buf := Reader.at_new rfl
  unfold classify
  simp only [Reader.readU8_eq, Reader.readU16_eq]
  cases buf with
  | nil => simp [h₀.readBe_none (k := 1) Nat.one_pos]
  | cons b s =>
    obtain ⟨r₁,e₁,h₁⟩ := h₀.readBe (k := 1) (Nat.le_add_left ..)
    rw [List.drop_one, List.tail_cons] at h₁
    simp only [e₁, leastBe_one, List.head?_cons, Option.some.injEq, ne_eq, reduceCtorEq,
      not_false_eq_true, true_and]
    by_cases hb : b = 0x16
    swap
    · have hb' : b.toNat ≠ 0x16 := fun h => hb (UInt8.toNat_inj.mp h)
      simp [hb, hb']
    subst hb
    simp only [forall_const, HoldsRecord, recordLen, List.length_cons, List.drop_succ_cons]
    obtain hlt | hle := Nat.lt_or_ge s.length 2
    · simp only [h₁.skip_none hlt]
      refine iff_of_false (by simp) ?_
      omega
    obtain ⟨r₂,e₂,h₂⟩ := h₁.skip_drop hle
    have hl : (s.drop 2).length = s.length - 2 := List.length_drop
    obtain hlt | hge := Nat.lt_or_ge (s.drop 2).length 2
    · simp only [e₂, h₂.readBe_none hlt]
      refine iff_of_false (by simp) ?_
      omega
    obtain ⟨r₃,e₃,h₃⟩ := h₂.readBe hge
    rw [leastBe_of_le hge] at e₃
    rw [List.drop_drop] at h₃
    generalize hn : fromBe ((s.drop 2).take 2) = n at e₃
    have hl₄ : (s.drop 4).length = s.length - 4 := List.length_drop
    obtain hlt | hge' := Nat.lt_or_ge (s.drop 4).length n
    · simp only [e₂, e₃, h₃.readSlice_none hlt]
      refine iff_of_false (by simp) ?_
      omega
    · obtain ⟨r₄,e₄⟩ := h₃.readSlice_take hge'
      have hhs := classifyHandshake_ne_incomplete ((s.drop 4).take n)
      rw [List.length_take, Nat.min_eq_left hge'] at hhs
      simp only [e₂, e₃, e₄]
      simp [hhs, show 5 ≤ s.length + 1 by omega, show 5 + n ≤ s.length + 1 by omega]

section Records
variable {buf : Bytes}

theorem recordLen_append (h : 5 ≤ buf.length) (t : Bytes) : recordLen (buf ++ t) = recordLen buf := by
  rw [recordLen, recordLen, List.drop_append_of_le_length (by omega), List.take_append_of_le_length]
  rw [List.length_drop]
  omega

/-- A header that announces a byte, all of it still to come. -/
theorem recordFits_concat_one {u : Bytes} (h : u.length = 4) : RecordFits (u ++ [1]) := by
  have hl : (u.drop 3 ++ [1]).length = 2 := by simp [h]
  have hlen : recordLen (u ++ [1]) = 256*fromBe (u.drop 3) + 1 := by
    rw [recordLen, List.drop_append_of_le_length (by omega), List.take_of_length_le hl.le, fromBe_concat]
    rfl
  intro _ _
  have hdrop : (u ++ [1]).drop 5 = [] := List.drop_of_length_le (by simp [h])
  rw [hlen, hdrop, List.take_nil]
  exact ⟨Nat.succ_ne_zero _,by simp⟩

theorem exists_verdict_of_header (hhead : buf.head? = some 0x16) (h5 : 5 ≤ buf.length)
    (h : RecordFits buf) : ∃ t, classify (buf ++ t) ≠ .incomplete := by
  have hfit := h hhead h5
  have hverdict : ∀ t, 5 + recordLen buf ≤ (buf ++ t).length →
      HandshakeFits (((buf ++ t).drop 5).take (recordLen buf)) (recordLen buf) →
      classify (buf ++ t) ≠ .incomplete := by
    intro t hlen ht
    refine (classify_ne_incomplete _).mpr ⟨fun he => ?_,fun _ => ?_⟩
    · rw [List.append_eq_nil_iff] at he
      rw [he.1] at h5
      contradiction
    · rw [HoldsRecord, recordLen_append h5]
      exact ⟨⟨by rw [List.length_append]; omega,hlen⟩,ht⟩
  obtain hlt | hge := Nat.lt_or_ge (buf.drop 5).length (recordLen buf)
  · rw [List.take_of_length_le hlt.le] at hfit
    obtain ⟨_,⟨t,rfl⟩,hl,hp⟩ := exists_completion hlt.le hfit
    refine ⟨t,hverdict t ?_ ?_⟩
    · rw [List.length_append, List.length_drop] at hl
      rw [List.length_append]
      omega
    · rwa [List.drop_append_of_le_length h5, List.take_of_length_le hl.le]
  · refine ⟨[],hverdict [] ?_ ?_⟩
    · rw [List.length_drop] at hge
      rw [List.append_nil]
      omega
    · rwa [List.append_nil]

/-- More bytes can help exactly when every length that is there leaves room. -/
theorem exists_verdict_iff (buf : Bytes) :
    (∃ t, classify (buf ++ t) ≠ .incomplete) ↔ RecordFits buf := by
  constructor
  · rintro ⟨t,ht⟩ hhead h5
    obtain ⟨-,ht⟩ := (classify_ne_incomplete _).mp ht
    obtain ⟨⟨-,hlen⟩,hfit⟩ := ht (by rw [List.head?_append, hhead]; rfl)
    rw [recordLen_append h5] at hlen hfit
    have hl : (((buf ++ t).drop 5).take (recordLen buf)).length = recordLen buf := by
      rw [List.length_take, List.length_drop]
      omega
    rw [← hl] at hfit
    have hp := (((List.prefix_append buf t).drop 5).take (recordLen buf))
    have hq := handshakeFits_of_prefix hp (by rwa [hl] at hfit ⊢)
    rwa [hl] at hq
  · intro h
    cases hhead : buf.head? with
    | none =>
      rw [List.head?_eq_none_iff] at hhead
      subst hhead
      exact ⟨[0x17],by decide⟩
    | some b =>
      obtain ⟨s,rfl⟩ := List.head?_eq_some_iff.mp hhead
      by_cases hb : b = 0x16
      swap
      · refine ⟨[],?_⟩
        rw [List.append_nil, classify_ne_incomplete]
        simp [hb]
      subst hb
      obtain h5 | h5 := Nat.lt_or_ge s.length 4
      swap
      · exact exists_verdict_of_header rfl (Nat.succ_le_succ h5) h
      have hu : ((0x16 :: s) ++ List.replicate (3 - s.length) 0).length = 4 := by
        simp
        omega
      obtain ⟨t,ht⟩ := exists_verdict_of_header rfl (by rw [List.length_append, hu]; rfl)
        (recordFits_concat_one hu)
      exact ⟨_,by rwa [List.append_assoc, List.append_assoc] at ht⟩

end Records

/-- `Incomplete` means that more bytes can help, so that the peek loop decides once a record is there,
exactly when no length in the record reaches beyond what encloses it. -/
theorem incomplete_more_can_help (buf : Bytes) :
    ((classify buf = .incomplete → ∃ t, classify (buf ++ t) ≠ .incomplete) ∧
      (HoldsRecord buf → classify buf ≠ .incomplete ∧ ∀ s n late rest, s.take n = buf →
        peekLoop s (.read n late :: rest) ≠ none)) ↔ RecordFits buf := by
  rw [← exists_verdict_iff]
  constructor
  · rintro ⟨h,-⟩
    by_cases hv : classify buf = .incomplete
    · exact h hv
    · exact ⟨[],by rwa [List.append_nil]⟩
  · refine fun h => ⟨fun _ => h,fun ⟨h5,hlen⟩ => ?_⟩
    have hv : classify buf ≠ .incomplete := by
      obtain ⟨t,ht⟩ := h
      obtain ⟨hne,ht⟩ := (classify_ne_incomplete _).mp ht
      refine (classify_ne_incomplete _).mpr ⟨fun he => by rw [he] at h5; contradiction,fun hhead => ?_⟩
      obtain ⟨-,hfit⟩ := ht (by rw [List.head?_append, hhead]; rfl)
      rw [recordLen_append h5, List.drop_append_of_le_length h5, List.take_append_of_le_length] at hfit
      · exact ⟨⟨h5,hlen⟩,hfit⟩
      · rw [List.length_drop]
        omega
    refine ⟨hv,?_⟩
    rintro s n late rest rfl
    rw [peekLoop]
    by_cases hn : n = 0
    · simp [hn]
    · rw [if_neg hn]
      cases hc : classify (s.take n) with
      | incomplete => exact absurd hc hv
      | echOrAcmeAlpn => simp
      | notTls => simp
      | other => simp

/-- A record of four bytes with a message of ten: no bytes after it change the verdict. -/
theorem incomplete_for_good : HoldsRecord [0x16,3,1,0,4,1,0,0,10] ∧
    ∀ t, classify ([0x16,3,1,0,4,1,0,0,10] ++ t) = .incomplete := by
  refine ⟨by unfold HoldsRecord; decide,fun t => ?_⟩
  have h := @classify_record [3,1] rfl [1,0,0,10] (by decide) t
  exact h.trans (by decide)

end EchTunnel
