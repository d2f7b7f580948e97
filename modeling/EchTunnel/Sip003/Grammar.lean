import EchTunnel.Sip003.Options
import Mathlib.Data.List.ReduceOption

/-! What a plugin-options string means, told by position, and how options are written as a string. -/
namespace EchTunnel
open Escape

/-- The segments of a string that are not empty, every character marked by its position in the string. -/
def segments (s : String) : List (List (Char × Bool)) :=
  (pieces ';' (mark '\\' s.toList)).filter fun m => m ≠ []

/-- The key of a segment: what stands before the first `=` that is not escaped. -/
def segmentKey (m : List (Char × Bool)) : List Char := resolve '\\' (m.takeWhile fun p => p ≠ ('=',false))

/-- The value of a segment: what stands after it, nothing if there is none. -/
def segmentValue (m : List (Char × Bool)) : List Char :=
  resolve '\\' (m.dropWhile fun p => p ≠ ('=',false)).tail

def segmentPair (m : List (Char × Bool)) : String × String :=
  (String.ofList (segmentKey m),String.ofList (segmentValue m))

/-- Options in which later pairs override earlier ones. -/
def PluginOptions.ofPairs (pairs : List (String × String)) : PluginOptions :=
  ⟨pairs.foldl (fun map p => map.insert p.1 p.2) ∅⟩

/-- A pair as it is written: `=` needs no escape in a value. -/
def writePair (p : String × String) : List Char :=
  escape '\\' [';','=','\\'] p.1.toList ++ '=' :: escape '\\' [';','\\'] p.2.toList

/-- Options as they are written, with empty segments where there is no pair. -/
def writeOptions (segs : List (Option (String × String))) : String :=
  String.ofList ([';'].intercalate (segs.map fun seg => (seg.map writePair).getD []))

namespace PluginOptions

theorem get_ofPairs (pairs : List (String × String)) (k : String) :
    (ofPairs pairs).get k = pairs.reverse.lookup k := by
  have hfold : ∀ map : AList fun _ : String => String,
      (pairs.foldl (fun map p => map.insert p.1 p.2) map).lookup k =
        (pairs.reverse.lookup k).or (map.lookup k) := by
    induction pairs with
    | nil => simp
    | cons p pairs ih =>
      intro map
      obtain ⟨key,value⟩ := p
      rw [List.foldl_cons, ih, Assoc.lookup_insert, List.reverse_cons, List.lookup_append]
      by_cases hk : k = key
      · simp [hk]
      · simp [hk, List.lookup_cons, beq_eq_false_iff_ne.mpr hk]
  rw [ofPairs, get, hfold]
  simp

variable {m : List (Char × Bool)} (hm : m = scan '\\' false (text m))
include hm

/-- Splitting a segment at `=` and resolving its escapes gives the key and the value. -/
theorem unescape_splitFirstUnescaped :
    unescape (splitFirstUnescaped (text m) '=').1 = segmentKey m ∧
      ((splitFirstUnescaped (text m) '=').2.map unescape).getD [] = segmentValue m := by
  rw [splitFirstUnescaped, splitFirstUnescapedLoop_eq (by decide), ← hm, segmentKey, segmentValue]
  generalize hp : (fun p : Char × Bool => decide (p ≠ ('=',false))) = p
  have happ : scan '\\' false (text m) = m.takeWhile p ++ m.dropWhile p := by
    rw [← hm, List.takeWhile_append_dropWhile]
  constructor
  · rw [List.nil_append, unescape_eq, ← (scan_eq_append happ).1]
  · cases hr : m.dropWhile p with
    | nil => rfl
    | cons q rest =>
      have hq : q = ('=',false) := by
        have hq := List.head?_dropWhile_not p m
        rw [hr] at hq
        simpa [← hp] using hq
      rw [hr, hq] at happ
      simp only [List.tail?_cons, Option.map_some, Option.getD_some, List.tail_cons]
      rw [unescape_eq, ← scan_after_delimiter (by decide) happ]

omit hm

/-- The loop of `parse`, over segments that may be empty. -/
theorem parseLoop_eq (s : String) (map : AList fun _ : String => String)
    (ms : List (List (Char × Bool))) (hms : ∀ m ∈ ms, m = scan '\\' false (text m)) :
    parseLoop s map (ms.map text) =
      if ∃ m ∈ ms.filter (· ≠ []), segmentKey m = [] then .error (.emptyKey s)
      else .ok ⟨((ms.filter (· ≠ [])).map segmentPair).foldl (fun map p => map.insert p.1 p.2) map⟩ := by
  induction ms generalizing map with
  | nil => rfl
  | cons m ms ih =>
    obtain ⟨hm,hms⟩ := List.forall_mem_cons.mp hms
    have htext : text m = [] ↔ m = [] := List.map_eq_nil_iff
    rw [List.map_cons, parseLoop]
    by_cases he : m = []
    · rw [if_pos (htext.mpr he), ih map hms, List.filter_cons_of_neg (by simpa using he)]
    · obtain ⟨hkey,hvalue⟩ := unescape_splitFirstUnescaped hm
      rw [if_neg (mt htext.mp he), List.filter_cons_of_pos (by simpa using he)]
      simp only [hkey, hvalue, List.exists_mem_cons_iff]
      by_cases hk : segmentKey m = []
      · rw [if_pos hk, if_pos (Or.inl hk)]
      · rw [if_neg hk, ih _ hms]
        simp only [hk, false_or]
        rfl

theorem parse_eq (s : String) :
    parse s = if ∃ m ∈ segments s, segmentKey m = [] then .error (.emptyKey s)
      else .ok (ofPairs ((segments s).map segmentPair)) := by
  rw [parse, splitUnescaped_eq (by decide), parseLoop_eq, segments, mark_eq_scan]
  · rfl
  · exact fun m hm => mem_pieces (by decide) hm

end PluginOptions

/-- `parse` follows the grammar on every string: it cuts at the `;` that are not escaped, and joining
what it cuts gives the string back; it fails if and only if a segment that is not empty has an empty
key; and else an option has the value that the last segment with its key gives it. -/
theorem options_grammar (s : String) :
    splitUnescaped s.toList ';' = (pieces ';' (mark '\\' s.toList)).map text ∧
      [';'].intercalate (splitUnescaped s.toList ';') = s.toList ∧
      PluginOptions.parse s = (if ∃ m ∈ segments s, segmentKey m = [] then .error (.emptyKey s)
        else .ok (.ofPairs ((segments s).map segmentPair))) ∧
      ∀ k, (PluginOptions.ofPairs ((segments s).map segmentPair)).get k =
        ((segments s).map segmentPair).reverse.lookup k := by
  have hsplit : splitUnescaped s.toList ';' = (pieces ';' (mark '\\' s.toList)).map text := by
    rw [splitUnescaped_eq (by decide), mark_eq_scan]
  refine ⟨hsplit,?_,PluginOptions.parse_eq s,PluginOptions.get_ofPairs _⟩
  rw [hsplit, mark_eq_scan, intercalate_pieces]

section Write

theorem after_writePair (p : String × String) : after '\\' false (writePair p) = false := by
  rw [writePair, after_append, after_escape (by decide), after_cons]
  exact after_escape (by decide) _

theorem scan_writePair (p : String × String) : scan '\\' false (writePair p) =
    scan '\\' false (escape '\\' [';','=','\\'] p.1.toList) ++
      ('=',false) :: scan '\\' false (escape '\\' [';','\\'] p.2.toList) := by
  rw [writePair, scan_append, after_escape (by decide), scan]
  rfl

/-- No `;` of a written pair cuts it. -/
theorem notMem_scan_writePair (p : String × String) : (';',false) ∉ scan '\\' false (writePair p) := by
  rw [scan_writePair, List.mem_append, List.mem_cons, not_or, not_or]
  exact ⟨notMem_scan_escape (by decide) (by decide) (by decide) _,by simp,
    notMem_scan_escape (by decide) (by decide) (by decide) _⟩

/-- A written pair is read as the pair. -/
theorem segmentPair_writePair (p : String × String) :
    segmentKey (scan '\\' false (writePair p)) = p.1.toList ∧
      segmentPair (scan '\\' false (writePair p)) = p := by
  have hno : ∀ q ∈ scan '\\' false (escape '\\' [';','=','\\'] p.1.toList),
      decide (q ≠ ('=',false)) = true := by
    intro q hq
    refine decide_eq_true ?_
    rintro rfl
    exact notMem_scan_escape (by decide) (by decide) (by decide) _ hq
  have hkey : segmentKey (scan '\\' false (writePair p)) = p.1.toList := by
    rw [segmentKey, scan_writePair, List.takeWhile_append_of_pos hno]
    simp [resolve_escape]
  have hvalue : segmentValue (scan '\\' false (writePair p)) = p.2.toList := by
    rw [segmentValue, scan_writePair, List.dropWhile_append_of_pos hno]
    simp [resolve_escape]
  refine ⟨hkey,?_⟩
  rw [segmentPair, hkey, hvalue, String.ofList_toList, String.ofList_toList]

/-- The segments of written options are the pairs. -/
theorem segments_writeOptions (segs : List (Option (String × String))) :
    segments (writeOptions segs) = segs.reduceOption.map fun p => scan '\\' false (writePair p) := by
  have hfilter : ((segs.map fun seg => (seg.map writePair).getD []).map (scan '\\' false)).filter
      (fun m => m ≠ []) = segs.reduceOption.map fun p => scan '\\' false (writePair p) := by
    induction segs with
    | nil => rfl
    | cons seg segs ih =>
      cases seg with
      | none => simpa [List.reduceOption_cons_of_none, scan] using ih
      | some p =>
        have hne : scan '\\' false (writePair p) ≠ [] := by simp [scan_writePair]
        rw [List.reduceOption_cons_of_some, List.map_cons, List.map_cons, List.map_cons, ← ih]
        exact List.filter_cons_of_pos (by simpa using hne)
  cases hsegs : segs with
  | nil => rfl
  | cons seg rest =>
    rw [← hsegs, segments, writeOptions, String.toList_ofList, mark_eq_scan, pieces,
      scan_intercalate (by decide), List.splitOn_intercalate, hfilter]
    · intro m hm
      obtain ⟨l,hl,rfl⟩ := List.mem_map.mp hm
      obtain ⟨seg,-,rfl⟩ := List.mem_map.mp hl
      cases seg with
      | none => simp [scan]
      | some p => exact notMem_scan_writePair p
    · simp [hsegs]
    · intro l hl
      obtain ⟨seg,-,rfl⟩ := List.mem_map.mp hl
      cases seg with
      | none => rfl
      | some p => exact after_writePair p

theorem parse_writeOptions (segs : List (Option (String × String)))
    (hne : ∀ p ∈ segs.reduceOption, p.1 ≠ "") :
    PluginOptions.parse (writeOptions segs) = .ok (.ofPairs segs.reduceOption) := by
  have hpairs : (segments (writeOptions segs)).map segmentPair = segs.reduceOption := by
    rw [segments_writeOptions, List.map_map]
    conv_rhs => rw [← List.map_id segs.reduceOption]
    exact List.map_congr_left fun p _ => (segmentPair_writePair p).2
  have hkeys : ¬ ∃ m ∈ segments (writeOptions segs), segmentKey m = [] := by
    rintro ⟨m,hm,hk⟩
    rw [segments_writeOptions] at hm
    obtain ⟨p,hp,rfl⟩ := List.mem_map.mp hm
    rw [(segmentPair_writePair p).1, String.toList_eq_nil_iff] at hk
    exact hne p hp hk
  rw [PluginOptions.parse_eq, if_neg hkeys, hpairs]

/-- Options that are written with escapes are read back, whatever empty segments stand between them:
each key has the value of its last pair, and no other key has one. -/
theorem options_round_trip (pairs : List (String × String)) (hne : ∀ p ∈ pairs, p.1 ≠ "")
    (segs : List (Option (String × String))) (hsegs : segs.reduceOption = pairs) :
    ∃ o, PluginOptions.parse (writeOptions segs) = .ok o ∧ ∀ k, o.get k = pairs.reverse.lookup k := by
  subst hsegs
  exact ⟨_,parse_writeOptions segs hne,PluginOptions.get_ofPairs _⟩

/-- A key and a value full of delimiters, a key that comes twice, and empty segments all around. -/
theorem options_round_trip_twice :
    ∃ o, PluginOptions.parse (writeOptions [none,some ("a;=\\","b;c="),none,none,some ("k",""),
        some ("a;=\\","\\"),none]) = .ok o ∧
      ∀ k, o.get k = [("a;=\\","b;c="),("k",""),("a;=\\","\\")].reverse.lookup k :=
  options_round_trip _ (by decide) _ rfl

end Write
end EchTunnel
