import EchTunnel.Sip003.Grammar
import Mathlib.Data.List.Perm.Subperm

/-! Options put behind others, and options written by someone who knows no escapes. -/
namespace EchTunnel
open Escape

/-- The string ends in a backslash that would escape what is put behind it. -/
def Dangling (s : String) : Prop := Odd (run '\\' s.toList)

instance (s : String) : Decidable (Dangling s) := inferInstanceAs (Decidable (Odd _))

def paste (base fragment : String) : String := if base = "" then fragment else base ++ ";" ++ fragment

def plainPair (p : String × String) : List Char := p.1.toList ++ '=' :: p.2.toList

/-- Options as they are written without escapes. -/
def plainOptions (pairs : List (String × String)) : String :=
  String.ofList ([';'].intercalate (pairs.map plainPair))

/-- A value that needs no escape. -/
def PlainValue (v : String) : Prop := ∀ c ∈ v.toList, c ≠ ';' ∧ c ≠ '\\'

instance (v : String) : Decidable (PlainValue v) := List.decidableBAll _ _

/-- A key that needs no escape. -/
def PlainKey (k : String) : Prop := k ≠ "" ∧ PlainValue k ∧ '=' ∉ k.toList

instance (k : String) : Decidable (PlainKey k) := inferInstanceAs (Decidable (_ ∧ _ ∧ _))

theorem plainValue_append {s t : String} : PlainValue (s ++ t) ↔ PlainValue s ∧ PlainValue t := by
  rw [PlainValue, String.toList_append, List.forall_mem_append, PlainValue, PlainValue]

namespace PluginOptions

theorem parse_eq_ok {s : String} {o : PluginOptions} : parse s = .ok o ↔
    (∀ m ∈ segments s, segmentKey m ≠ []) ∧ ofPairs ((segments s).map segmentPair) = o := by
  rw [parse_eq]
  split_ifs with h
  · obtain ⟨m,hm,hk⟩ := h
    simp only [false_iff, not_and]
    exact fun h => absurd hk (h m hm)
  · simp only [not_exists, not_and] at h
    simp only [Except.ok.injEq, iff_and_self]
    exact fun _ => h

theorem get_ofPairs_append (ps qs : List (String × String)) (k : String) :
    (ofPairs (ps ++ qs)).get k = ((ofPairs qs).get k).or ((ofPairs ps).get k) := by
  rw [get_ofPairs, get_ofPairs, get_ofPairs, List.reverse_append, List.lookup_append]

end PluginOptions
open PluginOptions

section Paste
variable {base : String}

theorem segments_paste (hd : ¬ Dangling base) (fragment : String) :
    segments (paste base fragment) = segments base ++ segments fragment := by
  have hafter : after '\\' false base.toList = false := by
    rw [after_eq, decide_eq_false_iff_not]
    exact hd
  unfold paste
  split_ifs with hb
  · rw [hb]
    rfl
  · unfold segments
    rw [mark_eq_scan, mark_eq_scan, mark_eq_scan, String.toList_append, String.toList_append,
      List.append_assoc, scan_append, hafter, show ";".toList = [';'] from rfl, List.singleton_append, scan]
    simp only [Char.reduceEq, decide_false, Bool.false_and]
    rw [pieces_append_delimiter, List.filter_append]

/-- What is put behind options is parsed on its own, and wins over them. -/
theorem parse_paste_iff {o : PluginOptions} (hb : parse base = .ok o) (hd : ¬ Dangling base)
    (fragment : String) (P : (String → Option String) → Prop) :
    (∃ o', parse (paste base fragment) = .ok o' ∧ P o'.get) ↔
      ∃ f, parse fragment = .ok f ∧ P fun k => (f.get k).or (o.get k) := by
  obtain ⟨hkeys,rfl⟩ := parse_eq_ok.mp hb
  have hget : (ofPairs ((segments base ++ segments fragment).map segmentPair)).get = fun k =>
      ((ofPairs ((segments fragment).map segmentPair)).get k).or
        ((ofPairs ((segments base).map segmentPair)).get k) := by
    funext k
    rw [List.map_append, get_ofPairs_append]
  simp only [parse_eq_ok, segments_paste hd fragment, and_assoc, exists_and_left, exists_eq_left', hget,
    List.mem_append]
  refine and_congr_left fun _ => ⟨fun h m hm => h m (Or.inr hm),fun h m hm => ?_⟩
  exact hm.elim (hkeys m) (h m)

end Paste
section Plain
variable {pairs : List (String × String)}

theorem writePair_eq {p : String × String} (hk : PlainKey p.1) (hv : PlainValue p.2) :
    writePair p = plainPair p := by
  rw [writePair, plainPair, escape_eq_self, escape_eq_self]
  · intro c hc
    simpa using hv c hc
  · intro c hc
    have he : c ≠ '=' := fun he => hk.2.2 (he ▸ hc)
    simpa [he] using hk.2.1 c hc

/-- Options that need no escapes are read back. -/
theorem parse_plainOptions (hk : ∀ p ∈ pairs, PlainKey p.1) (hv : ∀ p ∈ pairs, PlainValue p.2) :
    parse (plainOptions pairs) = .ok (ofPairs pairs) := by
  have hwrite : plainOptions pairs = writeOptions (pairs.map some) := by
    rw [plainOptions, writeOptions, List.map_map]
    congr 2
    exact List.map_congr_left fun p hp => (writePair_eq (hk p hp) (hv p hp)).symm
  have hall : (pairs.map some).reduceOption = pairs := by simp [List.reduceOption]
  rw [hwrite, parse_writeOptions, hall]
  rw [hall]
  exact fun p hp => (hk p hp).1

/-- The least length of a segment for its key and its value. -/
def pairWeight (p : String × String) : ℕ := p.1.toList.length+1+p.2.toList.length+1

/-- What a segment with a value consists of. -/
theorem segment_eq {m : List (Char × Bool)} (hv : (segmentPair m).2 ≠ "") :
    ∃ key value, m = key ++ ('=',false) :: value ∧ segmentKey m = resolve '\\' key ∧
      segmentValue m = resolve '\\' value := by
  generalize hp : (fun p : Char × Bool => decide (p ≠ ('=',false))) = p
  refine ⟨m.takeWhile p,(m.dropWhile p).tail,?_,by rw [segmentKey, hp],by rw [segmentValue, hp]⟩
  conv_lhs => rw [← List.takeWhile_append_dropWhile (p := p) (l := m)]
  congr 1
  cases hr : m.dropWhile p with
  | nil =>
    refine absurd ?_ hv
    rw [segmentPair, segmentValue, hp, hr]
    rfl
  | cons q rest =>
    have hq := List.head?_dropWhile_not p m
    rw [hr] at hq
    rw [List.tail_cons, List.cons.injEq]
    exact ⟨by simpa [← hp] using hq,rfl⟩

theorem pairWeight_le {m : List (Char × Bool)} (hv : (segmentPair m).2 ≠ "") :
    pairWeight (segmentPair m) ≤ m.length+1 := by
  obtain ⟨key,value,rfl,hk,hvalue⟩ := segment_eq hv
  have h₁ := length_resolve_le (e := '\\') key
  have h₂ := length_resolve_le (e := '\\') value
  rw [pairWeight, segmentPair, String.toList_ofList, String.toList_ofList, hk, hvalue, List.length_append,
    List.length_cons]
  omega

/-- A segment without a character to spare has no escapes. -/
theorem plainValue_of_pairWeight {m : List (Char × Bool)} (hm : m = scan '\\' false (text m))
    (hd : (';',false) ∉ m) (hv : (segmentPair m).2 ≠ "") (h : pairWeight (segmentPair m) = m.length+1) :
    PlainValue (segmentPair m).2 := by
  obtain ⟨key,value,he,hk,hvalue⟩ := segment_eq hv
  have h₁ := length_resolve_le (e := '\\') key
  have h₂ := length_resolve_le (e := '\\') value
  rw [pairWeight, segmentPair, String.toList_ofList, String.toList_ofList, hk, hvalue, he,
    List.length_append, List.length_cons] at h
  have hkey := notMem_of_length_resolve (e := '\\') (m := key) (by omega)
  have hval := notMem_of_length_resolve (e := '\\') (m := value) (by omega)
  have hback : ('\\',false) ∉ m := by
    rw [he, List.mem_append, List.mem_cons]
    simp [hkey, hval]
  rw [hm] at hback
  have hplain := scan_plain (notMem_scan_iff.mp hback)
  intro c hc
  rw [segmentPair, String.toList_ofList, hvalue] at hc
  have hmem : (c,false) ∈ m := by
    obtain ⟨⟨c',b⟩,hq,rfl⟩ := List.mem_map.mp hc
    have hqm : (c',b) ∈ m := by
      rw [he]
      exact List.mem_append_right _ (List.mem_cons_of_mem _ (List.mem_filter.mp hq).1)
    have hb : b = false := by
      rw [hm, hplain] at hqm
      obtain ⟨_,-,h⟩ := List.mem_map.mp hqm
      exact (Prod.mk.inj h).2.symm
    exact hb ▸ hqm
  refine ⟨?_,?_⟩
  · rintro rfl
    exact hd hmem
  · rintro rfl
    rw [hm] at hmem
    exact hback hmem

theorem sum_pairWeight (hne : pairs ≠ []) :
    (pairs.map pairWeight).sum = (plainOptions pairs).toList.length+1 := by
  rw [plainOptions, String.toList_ofList]
  induction pairs with
  | nil => contradiction
  | cons p pairs ih =>
    have hp : pairWeight p = (plainPair p).length+1 := by
      rw [pairWeight, plainPair, List.length_append, List.length_cons]
      omega
    cases pairs with
    | nil => simp [hp]
    | cons q pairs =>
      rw [List.map_cons, List.sum_cons, ih (by simp), hp]
      simp only [List.map_cons, List.intercalate_cons_cons, List.length_append, List.length_singleton]
      omega

theorem eq_of_sum_le {α : Type} {l : List α} {f g : α → ℕ} (h : ∀ a ∈ l, f a ≤ g a)
    (hs : (l.map g).sum ≤ (l.map f).sum) : ∀ a ∈ l, f a = g a := by
  induction l with
  | nil => simp
  | cons a l ih =>
    rw [List.forall_mem_cons] at h ⊢
    have hle : (l.map f).sum ≤ (l.map g).sum := List.sum_le_sum h.2
    simp only [List.map_cons, List.sum_cons] at hs
    have := h.1
    exact ⟨by omega,ih h.2 (by omega)⟩

/-- Options that are read back although they were written without escapes needed none: the segments
that give the values back are no shorter than what was written, so there is nothing else. -/
theorem plainValue_of_parse {f : PluginOptions} (hne : pairs ≠ []) (hnodup : (pairs.map Prod.fst).Nodup)
    (hv : ∀ p ∈ pairs, p.2 ≠ "") (hf : parse (plainOptions pairs) = .ok f)
    (hget : ∀ p ∈ pairs, f.get p.1 = some p.2) : ∀ p ∈ pairs, PlainValue p.2 := by
  obtain ⟨-,rfl⟩ := parse_eq_ok.mp hf
  have hsub : pairs ⊆ (segments (plainOptions pairs)).map segmentPair := by
    intro p hp
    have hl := hget p hp
    rw [get_ofPairs] at hl
    obtain ⟨l₁,l₂,he,-⟩ := List.lookup_eq_some_iff.mp hl
    exact List.mem_reverse.mp (he ▸ List.mem_append_right l₁ List.mem_cons_self)
  obtain ⟨ps,hperm,hps⟩ := hnodup.of_map.subperm hsub
  obtain ⟨ms,hms,rfl⟩ := List.sublist_map_iff.mp hps
  have hpieces : ms.Sublist (pieces ';' (mark '\\' (plainOptions pairs).toList)) :=
    hms.trans List.filter_sublist
  have hvalue : ∀ m ∈ ms, (segmentPair m).2 ≠ "" := fun m hm =>
    hv _ (hperm.mem_iff.mp (List.mem_map_of_mem hm))
  have hsum : (ms.map fun m => m.length+1).sum ≤ (ms.map fun m => pairWeight (segmentPair m)).sum := by
    calc (ms.map fun m => m.length+1).sum
        ≤ ((pieces ';' (mark '\\' (plainOptions pairs).toList)).map fun m => m.length+1).sum := by
          exact (hpieces.map _).sum_le_sum fun _ _ => Nat.zero_le _
      _ = (plainOptions pairs).toList.length+1 := by
          rw [sum_length_pieces, mark, List.length_map, List.length_zipIdx]
      _ = (pairs.map pairWeight).sum := (sum_pairWeight hne).symm
      _ = (ms.map fun m => pairWeight (segmentPair m)).sum := by
          rw [← (hperm.map pairWeight).sum_eq, List.map_map]
          rfl
  have heq := eq_of_sum_le (fun m hm => pairWeight_le (hvalue m hm)) hsum
  intro p hp
  obtain ⟨m,hm,rfl⟩ := List.mem_map.mp (hperm.mem_iff.mpr hp)
  have hpiece := hpieces.subset hm
  rw [mark_eq_scan] at hpiece
  exact plainValue_of_pairWeight (mem_pieces (by decide) hpiece) (notMem_of_mem_pieces hpiece)
    (hvalue m hm) (heq m hm)

/-- A segment that begins with a plain key and `=` has this key, whatever follows. -/
theorem segmentKey_plain {k : String} (hk : PlainKey k) (m : List (Char × Bool)) :
    segmentKey (k.toList.map (fun c => (c,false)) ++ [('=',false)] ++ m) = k.toList := by
  have hback : '\\' ∉ k.toList := fun hm => (hk.2.1 _ hm).2 rfl
  have hno : ∀ p ∈ k.toList.map (fun c => (c,false)), decide (p ≠ ('=',false)) = true := by
    intro p hp
    obtain ⟨c,hc,rfl⟩ := List.mem_map.mp hp
    exact decide_eq_true fun he => hk.2.2 ((Prod.mk.inj he).1 ▸ hc)
  rw [segmentKey, List.append_assoc, List.takeWhile_append_of_pos hno]
  simp [resolve_plain hback]

/-- The first key is there, whatever the values are. -/
theorem get_plainOptions_head {k v : String} {f : PluginOptions} (hk : PlainKey k)
    (hf : parse (plainOptions ((k,v) :: pairs)) = .ok f) : f.get k ≠ none := by
  obtain ⟨-,rfl⟩ := parse_eq_ok.mp hf
  obtain ⟨rest,hrest⟩ : ∃ rest, (plainOptions ((k,v) :: pairs)).toList = (k.toList ++ ['=']) ++ rest := by
    rw [plainOptions, String.toList_ofList]
    cases pairs with
    | nil => exact ⟨v.toList,by simp [plainPair]⟩
    | cons q pairs =>
      rw [List.map_cons, List.map_cons, List.intercalate_cons_cons]
      exact ⟨_,by rw [plainPair]; simp only [List.append_assoc, List.cons_append, List.nil_append]; rfl⟩
  have hback : '\\' ∉ k.toList := fun hm => (hk.2.1 _ hm).2 rfl
  have hmark : mark '\\' (plainOptions ((k,v) :: pairs)).toList =
      (k.toList.map (fun c => (c,false)) ++ [('=',false)]) ++ scan '\\' false rest := by
    rw [mark_eq_scan, hrest, scan_append, scan_append, scan_plain hback, after_append, after_plain hback]
    rfl
  have hdelim : (';',false) ∉ k.toList.map (fun c => (c,false)) ++ [('=',false)] := by
    rw [List.mem_append, not_or]
    refine ⟨fun hm => ?_,by simp⟩
    obtain ⟨c,hc,he⟩ := List.mem_map.mp hm
    exact (hk.2.1 c hc).1 (Prod.mk.inj he).1
  obtain ⟨q,qs,hpieces⟩ : ∃ q qs, pieces ';' (scan '\\' false rest) = q :: qs :=
    List.exists_cons_of_ne_nil (List.splitOn_ne_nil _ _)
  have hmem : k.toList.map (fun c => (c,false)) ++ [('=',false)] ++ q ∈
      segments (plainOptions ((k,v) :: pairs)) := by
    rw [segments, hmark, pieces_append hdelim, hpieces]
    exact List.mem_filter.mpr ⟨List.mem_cons_self,by simp⟩
  intro hnone
  rw [get_ofPairs, List.lookup_eq_none_iff] at hnone
  have h := hnone _ (List.mem_reverse.mpr (List.mem_map_of_mem hmem))
  rw [segmentPair, segmentKey_plain hk, String.ofList_toList] at h
  simp at h

end Plain
end EchTunnel
