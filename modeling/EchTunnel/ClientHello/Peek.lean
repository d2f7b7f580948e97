import EchTunnel.ClientHello.Exact

/-! The peek loop of `server.rs` and its independence of TCP segmentation. -/
namespace EchTunnel
open Wire

namespace Reader

/-- The same cursor over a buffer to which more bytes have arrived. -/
def extend (r : Reader) (t : Bytes) : Reader := { r with buf := r.buf ++ t }

theorem readU8_extend {r r' : Reader} {n : ℕ} (h : r.readU8 = some (n,r')) (t : Bytes) :
    (r.extend t).readU8 = some (n,r'.extend t) := by
  obtain ⟨b,hb,he⟩ := Option.map_eq_some_iff.mp h
  cases he
  have hl := (List.getElem?_eq_some_iff.mp hb).1
  simp [readU8, extend, List.getElem?_append_left hl, hb]

theorem readU16_extend {r r' : Reader} {n : ℕ} (h : r.readU16 = some (n,r')) (t : Bytes) :
    (r.extend t).readU16 = some (n,r'.extend t) := by
  obtain ⟨s,hs,he⟩ := Option.map_eq_some_iff.mp h
  cases he
  simp [readU16, extend, slice_append hs]

theorem readU24_extend {r r' : Reader} {n : ℕ} (h : r.readU24 = some (n,r')) (t : Bytes) :
    (r.extend t).readU24 = some (n,r'.extend t) := by
  obtain ⟨s,hs,he⟩ := Option.map_eq_some_iff.mp h
  cases he
  simp [readU24, extend, slice_append hs]

theorem skip_extend {r r' : Reader} {n : ℕ} (h : r.skip n = some r') (t : Bytes) :
    (r.extend t).skip n = some (r'.extend t) := by
  obtain ⟨s,hs,he⟩ := Option.map_eq_some_iff.mp h
  cases he
  simp [skip, extend, slice_append hs]

theorem readSlice_extend {r r' : Reader} {n : ℕ} {s : Bytes} (h : r.readSlice n = some (s,r'))
    (t : Bytes) : (r.extend t).readSlice n = some (s,r'.extend t) := by
  obtain ⟨s,hs,he⟩ := Option.map_eq_some_iff.mp h
  cases he
  simp [readSlice, extend, slice_append hs]

end Reader

/-- A verdict other than `incomplete` rests on bytes that are already there. -/
theorem classify_append (buf t : Bytes) (h : classify buf ≠ .incomplete) :
    classify (buf ++ t) = classify buf := by
  have hx : Reader.new (buf ++ t) = (Reader.new buf).extend t := rfl
  unfold classify at h ⊢
  rw [hx]
  cases e₁ : (Reader.new buf).readU8 with
  | none => exact absurd (by simp only [e₁]; rfl) h
  | some p =>
    obtain ⟨ty,r₁⟩ := p
    simp only [e₁, Reader.readU8_extend e₁ t] at h ⊢
    split_ifs at h ⊢ with hty
    · rfl
    · cases e₂ : r₁.skip 2 with
      | none => exact absurd (by simp only [e₂]; rfl) h
      | some r₂ =>
        simp only [e₂, Reader.skip_extend e₂ t] at h ⊢
        cases e₃ : r₂.readU16 with
        | none => exact absurd (by simp only [e₃]; rfl) h
        | some p =>
          obtain ⟨n,r₃⟩ := p
          simp only [e₃, Reader.readU16_extend e₃ t] at h ⊢
          cases e₄ : r₃.readSlice n with
          | none => exact absurd (by simp only [e₄]; rfl) h
          | some p => simp only [Reader.readSlice_extend e₄ t]

theorem classify_take (s : Bytes) {n m : ℕ} (hnm : n ≤ m)
    (h : classify (s.take n) ≠ .incomplete) : classify (s.take m) = classify (s.take n) := by
  have hm : s.take m = s.take n ++ (s.take m).drop n := by
    conv_lhs => rw [← List.take_append_drop n (s.take m)]
    rw [List.take_take, min_eq_left hnm]
  rw [hm]
  exact classify_append _ _ h

def PEEK_CAP : ℕ := 8*1024

/-- One turn of the peek loop: the number of bytes peeked, and whether the clock has reached the
deadline once they are classified; or an I/O error. -/
inductive Peek
  | read (n : ℕ) (late : Bool)
  | failed

/-- The peek loop over the bytes the peer sends. The turns are those before `timeout_at` expires,
so the end of the list is the deadline. `last_n` only chooses when to sleep. -/
def isEchOrAcmeHandshake (stream : Bytes) : List Peek → Bool
  | [] => false
  | .failed :: _ => false
  | .read n late :: rest =>
    if n = 0 then false else
    match classify (stream.take n) with
    | .echOrAcmeAlpn => true
    | .notTls | .other => false
    | .incomplete =>
      if n = PEEK_CAP ∨ late then false else isEchOrAcmeHandshake stream rest

/-- An accepted connection has shown an admissible prefix, on time or not. -/
theorem admitted_prefix {s : Bytes} {peeks : List Peek} (h : isEchOrAcmeHandshake s peeks = true) :
    ∃ n late, Peek.read n late ∈ peeks ∧ classify (s.take n) = .echOrAcmeAlpn := by
  induction peeks with
  | nil => simp [isEchOrAcmeHandshake] at h
  | cons p ps ih =>
    cases p with
    | failed => simp [isEchOrAcmeHandshake] at h
    | read n late =>
      rw [isEchOrAcmeHandshake] at h
      split at h
      · contradiction
      · cases hv : classify (s.take n) with
        | echOrAcmeAlpn => exact ⟨n,late,by simp,hv⟩
        | notTls => simp [hv] at h
        | other => simp [hv] at h
        | incomplete =>
          simp only [hv] at h
          split at h
          · contradiction
          · obtain ⟨m,l,hm,hv⟩ := ih h
            exact ⟨m,l,by simp [hm],hv⟩

/-- Peek lengths a stream can show to the loop. -/
structure Schedule (s : Bytes) where
  lengths : List ℕ
  bounds : ∀ n ∈ lengths, 1 ≤ n ∧ n ≤ min s.length PEEK_CAP
  sorted : lengths.Pairwise (· ≤ ·)

namespace Schedule
variable {s : Bytes}

/-- Everything is seen before the deadline. -/
def onTime (a : Schedule s) : List Peek := a.lengths.map fun n => .read n false

/-- The deadline ends the loop after `k` turns, or shows on the clock at one of them. -/
def withDeadline (a : Schedule s) (k : ℕ) (late : ℕ → Bool) : List Peek :=
  (a.lengths.take k).mapIdx fun i n => .read n (late i)

/-- The schedule eventually shows all the loop can see. -/
def ExposesAll (a : Schedule s) : Prop := min s.length PEEK_CAP ∈ a.lengths

end Schedule

/-- Without a deadline the loop accepts exactly when one of the prefixes is admissible. -/
theorem admits_iff (s : Bytes) (ns : List ℕ) (h : ∀ n ∈ ns, 1 ≤ n ∧ n ≤ min s.length PEEK_CAP) :
    isEchOrAcmeHandshake s (ns.map fun n => .read n false) = true ↔
      ∃ n ∈ ns, classify (s.take n) = .echOrAcmeAlpn := by
  induction ns with
  | nil => simp [isEchOrAcmeHandshake]
  | cons n ns ih =>
    have hn := h n (by simp)
    have hs := ih (fun m hm => h m (by simp [hm]))
    simp only [List.map_cons, isEchOrAcmeHandshake, if_neg (show n ≠ 0 by omega)]
    -- two prefixes with a verdict are comparable, so they agree
    have agree : ∀ m, classify (s.take m) = .echOrAcmeAlpn →
        classify (s.take n) ≠ .incomplete → classify (s.take n) = .echOrAcmeAlpn := by
      intro m hm hne
      rcases Nat.le_total n m with hnm | hmn
      · rw [← hm, classify_take s hnm hne]
      · rw [classify_take s hmn (by simp [hm]), hm]
    cases hv : classify (s.take n) with
    | echOrAcmeAlpn => simp [hv]
    | notTls =>
      refine ⟨by simp,?_⟩
      rintro ⟨m,_,hm⟩
      have := agree m hm (by simp [hv])
      simp [hv] at this
    | other =>
      refine ⟨by simp,?_⟩
      rintro ⟨m,_,hm⟩
      have := agree m hm (by simp [hv])
      simp [hv] at this
    | incomplete =>
      by_cases hc : n = PEEK_CAP
      · refine ⟨by simp [hc],?_⟩
        rintro ⟨m,hm,hmv⟩
        have hle := (h m hm).2
        have := classify_take s (show m ≤ n by omega) (by simp [hmv])
        rw [hv, hmv] at this
        contradiction
      · simp [hc, hs, hv]

/-- The verdict depends on the stream alone, not on how TCP cuts it. -/
theorem segmentation_independent (s : Bytes) :
    (∀ n m, n ≤ m → classify (s.take n) ≠ .incomplete →
      classify (s.take m) = classify (s.take n)) ∧
    (∀ a : Schedule s, a.ExposesAll → (isEchOrAcmeHandshake s a.onTime = true ↔
      classify (s.take (min s.length PEEK_CAP)) = .echOrAcmeAlpn)) ∧
    (∀ a b : Schedule s, a.ExposesAll → b.ExposesAll →
      isEchOrAcmeHandshake s a.onTime = isEchOrAcmeHandshake s b.onTime) ∧
    (∀ (a : Schedule s) (k : ℕ) (late : ℕ → Bool),
      isEchOrAcmeHandshake s (a.withDeadline k late) = true →
        isEchOrAcmeHandshake s a.onTime = true) := by
  have hall : ∀ a : Schedule s, a.ExposesAll → (isEchOrAcmeHandshake s a.onTime = true ↔
      classify (s.take (min s.length PEEK_CAP)) = .echOrAcmeAlpn) := by
    intro a ha
    rw [Schedule.onTime, admits_iff s a.lengths a.bounds]
    constructor
    · rintro ⟨n,hn,hv⟩
      rw [classify_take s (a.bounds n hn).2 (by simp [hv]), hv]
    · intro hv
      exact ⟨_,ha,hv⟩
  refine ⟨fun n m hnm h => classify_take s hnm h,hall,?_,?_⟩
  · intro a b ha hb
    rw [Bool.eq_iff_iff, hall a ha, hall b hb]
  · intro a k late h
    obtain ⟨n,l,hn,hv⟩ := admitted_prefix h
    rw [Schedule.onTime, admits_iff s a.lengths a.bounds]
    obtain ⟨i,hi,he⟩ := List.mem_mapIdx.mp hn
    cases he
    exact ⟨_,List.mem_of_mem_take (List.getElem_mem hi),hv⟩

end EchTunnel
