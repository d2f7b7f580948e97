import Mathlib.Data.List.Basic
import Mathlib.Data.List.Induction
import Mathlib.Algebra.Ring.Parity

/-! Text with an escape symbol: which symbols are escaped, by position and from left to right, and text
in which some symbols have been escaped. -/
namespace Escape
variable {α : Type*} [DecidableEq α] (e : α)

/-- The length of the run of escape symbols at the end of a text. -/
def run (l : List α) : ℕ := (l.reverse.takeWhile fun a => a = e).length

/-- What stands at position `i` is escaped: the run in front of it has odd length. -/
def Escaped (l : List α) (i : ℕ) : Prop := Odd (run e (l.take i))

instance (l : List α) (i : ℕ) : Decidable (Escaped e l i) := inferInstanceAs (Decidable (Odd _))

/-- Every symbol of a text, and whether it is escaped. -/
def mark (l : List α) : List (α × Bool) := l.zipIdx.map fun p => (p.1,decide (Escaped e l p.2))

/-- The same from left to right; `b` says whether the first symbol is escaped. -/
def scan : Bool → List α → List (α × Bool)
  | _, [] => []
  | b, a :: l => (a,b) :: scan (a = e && !b) l

/-- Whether the symbol after a text is escaped, `b` says whether the first one is. -/
def after (b : Bool) (l : List α) : Bool := l.foldl (fun b a => a = e && !b) b

/-- The symbols behind their marks. -/
def text {α : Type*} (m : List (α × Bool)) : List α := m.map Prod.fst

/-- The text without the escape symbols that are not escaped themselves. -/
def resolve (m : List (α × Bool)) : List α := text (m.filter fun p => p ≠ (e,false))

/-- The parts of a marked text between the delimiters that are not escaped. -/
def pieces (d : α) (m : List (α × Bool)) : List (List (α × Bool)) := m.splitOn (d,false)

/-- Put the escape symbol in front of every symbol in `S`. -/
def escape (S : List α) (l : List α) : List α := l.flatMap fun a => if a ∈ S then [e,a] else [a]

section Text
variable {e} {b : Bool} {l l' : List α}

@[simp] theorem run_concat (a : α) : run e (l ++ [a]) = if a = e then run e l + 1 else 0 := by
  rw [run, List.reverse_concat, List.takeWhile_cons]
  by_cases h : a = e
  · simp [h, run]
  · simp [h]

omit [DecidableEq α] in
@[simp] theorem text_nil : text ([] : List (α × Bool)) = [] := rfl

omit [DecidableEq α] in
@[simp] theorem text_cons (p : α × Bool) (m : List (α × Bool)) : text (p :: m) = p.1 :: text m := rfl

omit [DecidableEq α] in
@[simp] theorem text_append {m m' : List (α × Bool)} : text (m ++ m') = text m ++ text m' :=
  List.map_append

@[simp] theorem text_scan : text (scan e b l) = l := by
  induction l generalizing b with
  | nil => rfl
  | cons a l ih => rw [scan, text_cons, ih]

theorem after_cons (a : α) : after e b (a :: l) = after e (a = e && !b) l := rfl

theorem scan_append : scan e b (l ++ l') = scan e b l ++ scan e (after e b l) l' := by
  induction l generalizing b with
  | nil => rfl
  | cons a l ih => rw [List.cons_append, scan, ih, scan, List.cons_append, after_cons]

theorem after_append : after e b (l ++ l') = after e (after e b l) l' := List.foldl_append

theorem resolve_append {m m' : List (α × Bool)} : resolve e (m ++ m') = resolve e m ++ resolve e m' := by
  rw [resolve, List.filter_append, text_append, resolve, resolve]

/-- The marks of a text that goes on from `p`. -/
theorem scan_eq (p l : List α) : scan e (decide (Odd (run e p))) l =
    (l.zipIdx p.length).map fun q => (q.1,decide (Escaped e (p ++ l) q.2)) := by
  induction l generalizing p with
  | nil => rfl
  | cons a l ih =>
    have hrun : (a = e && !decide (Odd (run e p))) = decide (Odd (run e (p ++ [a]))) := by
      rw [run_concat]
      by_cases ha : a = e
      · simp only [ha, if_true, decide_true, Bool.true_and, Nat.odd_add_one, decide_not]
      · simp [ha]
    have hhead : decide (Escaped e (p ++ a :: l) p.length) = decide (Odd (run e p)) := by
      simp only [Escaped, List.take_left]
    have h := ih (p ++ [a])
    rw [List.length_append, List.length_singleton, List.append_assoc, List.singleton_append] at h
    rw [scan, hrun, h, List.zipIdx_cons, List.map_cons, hhead]

/-- The two ways to mark a text agree. -/
theorem mark_eq_scan (l : List α) : mark e l = scan e false l := (scan_eq [] l).symm

/-- The parts of a marked text are marked on their own, each from where the part before it ends. -/
theorem scan_eq_append {m m' : List (α × Bool)} (h : scan e b l = m ++ m') :
    m = scan e b (text m) ∧ m' = scan e (after e b (text m)) (text m') := by
  have hl : l = text m ++ text m' := by rw [← text_append, ← h, text_scan]
  rw [hl, scan_append] at h
  obtain ⟨hm,hm'⟩ := List.append_inj h (by
    have := congrArg List.length (text_scan (e := e) (b := b) (l := text m))
    simpa [text] using this)
  exact ⟨hm.symm,hm'.symm⟩

/-- Whether a text ends in an escape that waits for its symbol, by position. -/
theorem after_eq (l : List α) : after e false l = decide (Odd (run e l)) := by
  induction l using List.reverseRecOn with
  | nil => simp [after, run]
  | append_singleton l a ih =>
    rw [after_append, ih, run_concat]
    by_cases ha : a = e
    · simp only [after, List.foldl_cons, List.foldl_nil, ha, if_true, decide_true, Bool.true_and,
        Nat.odd_add_one, decide_not]
    · simp [after, ha]

/-- No escape symbol does its work exactly where there is none. -/
theorem notMem_scan_iff : (e,false) ∉ scan e false l ↔ e ∉ l := by
  induction l with
  | nil => simp [scan]
  | cons a l ih =>
    rw [scan, List.mem_cons, List.mem_cons, not_or, not_or]
    by_cases ha : a = e
    · simp [ha]
    · simpa [ha, Ne.symm ha] using ih

theorem after_plain (h : e ∉ l) : after e false l = false := by
  induction l with
  | nil => rfl
  | cons a l ih =>
    rw [List.mem_cons, not_or] at h
    rw [after_cons, decide_eq_false (Ne.symm h.1)]
    exact ih h.2

/-- In a text without escape symbols nothing is escaped. -/
theorem scan_plain (h : e ∉ l) : scan e false l = l.map fun a => (a,false) := by
  induction l with
  | nil => rfl
  | cons a l ih =>
    rw [List.mem_cons, not_or] at h
    simp [scan, Ne.symm h.1, ih h.2]

theorem resolve_plain (h : e ∉ l) : resolve e (l.map fun a => (a,false)) = l := by
  rw [resolve, List.filter_eq_self.mpr, text, List.map_map]
  · exact List.map_id l
  · intro p hp
    obtain ⟨a,ha,rfl⟩ := List.mem_map.mp hp
    refine decide_eq_true fun he => h ?_
    rwa [← (Prod.mk.inj he).1]

theorem length_resolve_le (m : List (α × Bool)) : (resolve e m).length ≤ m.length := by
  rw [resolve, text, List.length_map]
  exact List.length_filter_le _ _

/-- Resolving keeps the length only if it drops nothing. -/
theorem notMem_of_length_resolve {m : List (α × Bool)} (h : m.length ≤ (resolve e m).length) :
    (e,false) ∉ m := by
  have he := Nat.le_antisymm (length_resolve_le m) h
  rw [resolve, text, List.length_map, List.length_filter_eq_length_iff] at he
  intro hm
  simpa using he _ hm

/-- After a delimiter that is not escaped a text is marked as at its start. -/
theorem scan_after_delimiter {d : α} (hd : d ≠ e) {m m' : List (α × Bool)}
    (h : scan e b l = m ++ (d,false) :: m') : m' = scan e false (text m') := by
  obtain ⟨-,h'⟩ := scan_eq_append h
  rw [text_cons, scan, List.cons.injEq] at h'
  simpa [hd] using h'.2

end Text
section Pieces
variable {e} {b : Bool} {l : List α} {d : α}

theorem pieces_nil : pieces d ([] : List (α × Bool)) = [[]] := rfl

theorem pieces_cons (p : α × Bool) (m : List (α × Bool)) : pieces d (p :: m) =
    if p = (d,false) then [] :: pieces d m else (pieces d m).modifyHead (p :: ·) := by
  simp only [pieces, List.splitOn_cons_eq_if_modifyHead, beq_iff_eq]

/-- Every piece is marked as a text of its own, the first one from where the whole starts. -/
theorem pieces_scan (hd : d ≠ e) (b : Bool) (l : List α) : ∃ m ms, pieces d (scan e b l) = m :: ms ∧
    m = scan e b (text m) ∧ ∀ m' ∈ ms, m' = scan e false (text m') := by
  induction l generalizing b with
  | nil => exact ⟨[],[],rfl,rfl,by simp⟩
  | cons a l ih =>
    obtain ⟨m,ms,hp,hm,hms⟩ := ih (a = e && !b)
    rw [scan, pieces_cons]
    split_ifs with ha
    · obtain ⟨rfl,rfl⟩ := Prod.mk.inj ha
      refine ⟨[],_,rfl,rfl,?_⟩
      rw [hp]
      simp only [hd, decide_false, Bool.false_and] at hm
      exact List.forall_mem_cons.mpr ⟨hm,hms⟩
    · refine ⟨(a,b) :: m,ms,by rw [hp]; rfl,?_,hms⟩
      rw [text_cons, scan, ← hm]

theorem mem_pieces (hd : d ≠ e) {m : List (α × Bool)} (h : m ∈ pieces d (scan e false l)) :
    m = scan e false (text m) := by
  obtain ⟨m₀,ms,hp,hm₀,hms⟩ := pieces_scan hd false l
  rw [hp] at h
  obtain rfl | h := List.mem_cons.mp h
  · exact hm₀
  · exact hms m h

theorem notMem_of_mem_pieces {m m' : List (α × Bool)} (h : m' ∈ pieces d m) : (d,false) ∉ m' := by
  induction m generalizing m' with
  | nil =>
    rw [pieces_nil, List.mem_singleton] at h
    simp [h]
  | cons p m ih =>
    rw [pieces_cons] at h
    split_ifs at h with hp
    · obtain rfl | h := List.mem_cons.mp h
      · exact List.not_mem_nil
      · exact ih h
    · cases hm : pieces d m with
      | nil => simp [hm] at h
      | cons q qs =>
        rw [hm] at ih h
        obtain rfl | h := List.mem_cons.mp h
        · rw [List.mem_cons, not_or]
          exact ⟨Ne.symm hp,ih List.mem_cons_self⟩
        · exact ih (List.mem_cons_of_mem q h)

/-- Text without delimiters belongs to the first piece of what follows. -/
theorem pieces_append {m : List (α × Bool)} (h : (d,false) ∉ m) (m' : List (α × Bool)) :
    pieces d (m ++ m') = (pieces d m').modifyHead (m ++ ·) := by
  induction m with
  | nil =>
    rw [List.nil_append]
    cases pieces d m' <;> rfl
  | cons p m ih =>
    rw [List.mem_cons, not_or] at h
    rw [List.cons_append, pieces_cons, if_neg (Ne.symm h.1), ih h.2]
    cases pieces d m' <;> rfl

theorem pieces_append_delimiter (m m' : List (α × Bool)) :
    pieces d (m ++ (d,false) :: m') = pieces d m ++ pieces d m' := List.splitOn_append_cons_self ..

/-- The pieces share the length of the text, but for the delimiters between them. -/
theorem sum_length_pieces (m : List (α × Bool)) :
    ((pieces d m).map fun p => p.length+1).sum = m.length + 1 := by
  induction m with
  | nil => rfl
  | cons p m ih =>
    rw [pieces_cons]
    split_ifs
    · simp [ih]
      omega
    · cases hm : pieces d m with
      | nil => exact absurd hm (List.splitOn_ne_nil _ _)
      | cons q qs =>
        rw [hm] at ih
        simp only [List.modifyHead_cons, List.map_cons, List.sum_cons, List.length_cons] at ih ⊢
        omega

omit [DecidableEq α] in
theorem text_intercalate (d : α) (ms : List (List (α × Bool))) :
    text ([(d,false)].intercalate ms) = [d].intercalate (ms.map text) := by
  induction ms with
  | nil => rfl
  | cons m ms ih =>
    cases ms with
    | nil => simp
    | cons m' ms =>
      rw [List.intercalate_cons_cons, text_append, text_append, ih]
      simp [text]

/-- Joining the pieces gives the text back. -/
theorem intercalate_pieces (d : α) (l : List α) :
    [d].intercalate ((pieces d (scan e b l)).map text) = l := by
  rw [← text_intercalate, pieces, List.intercalate_splitOn, text_scan]

end Pieces
section Encoded
variable {e} {b : Bool} {S l : List α} {d : α}

/-- Texts that end outside an escape are marked one by one, also behind delimiters. -/
theorem scan_intercalate (hd : d ≠ e) {ls : List (List α)} (h : ∀ l ∈ ls, after e false l = false) :
    scan e false ([d].intercalate ls) = [(d,false)].intercalate (ls.map (scan e false)) := by
  induction ls with
  | nil => rfl
  | cons l ls ih =>
    cases ls with
    | nil => simp
    | cons l' ls =>
      have ih := ih fun k hk => h k (List.mem_cons_of_mem l hk)
      rw [List.intercalate_cons_cons, List.append_assoc, scan_append, h l List.mem_cons_self,
        List.singleton_append, scan]
      simp only [hd, decide_false, Bool.false_and]
      rw [ih]
      simp [List.intercalate_cons_cons]

theorem escape_cons (a : α) (l : List α) :
    escape e S (a :: l) = (if a ∈ S then [e,a] else [a]) ++ escape e S l := rfl

theorem escape_eq_self (h : ∀ a ∈ l, a ∉ S) : escape e S l = l := by
  induction l with
  | nil => rfl
  | cons a l ih =>
    rw [List.forall_mem_cons] at h
    rw [escape_cons, if_neg h.1, ih h.2, List.singleton_append]

/-- What an escaped text looks like when it is marked: the symbols in `S` are escaped, the others
stand alone. -/
theorem scan_escape_cons (he : e ∈ S) (a : α) (l : List α) : scan e false (escape e S (a :: l)) =
    (if a ∈ S then [(e,false),(a,true)] else [(a,false)]) ++ scan e false (escape e S l) := by
  rw [escape_cons]
  split_ifs with ha
  · simp [scan]
  · have hae : a ≠ e := fun h => ha (h ▸ he)
    simp [scan, hae]

theorem after_escape (he : e ∈ S) (l : List α) : after e false (escape e S l) = false := by
  induction l with
  | nil => rfl
  | cons a l ih =>
    rw [escape_cons]
    split_ifs with ha
    · simpa [after] using ih
    · have hae : a ≠ e := fun h => ha (h ▸ he)
      simpa [after, hae] using ih

/-- No symbol in `S` stands there without being escaped. -/
theorem notMem_scan_escape (he : e ∈ S) (hd : d ∈ S) (hde : d ≠ e) (l : List α) :
    (d,false) ∉ scan e false (escape e S l) := by
  induction l with
  | nil => simp [escape, scan]
  | cons a l ih =>
    rw [scan_escape_cons he, List.mem_append, not_or]
    refine ⟨?_,ih⟩
    split_ifs with ha
    · simp [hde]
    · have hda : d ≠ a := fun h => ha (h ▸ hd)
      simp [hda]

theorem resolve_escape (he : e ∈ S) (l : List α) : resolve e (scan e false (escape e S l)) = l := by
  induction l with
  | nil => rfl
  | cons a l ih =>
    rw [scan_escape_cons he, resolve_append, ih]
    split_ifs with ha
    · simp [resolve, text]
    · have hae : a ≠ e := fun h => ha (h ▸ he)
      simp [resolve, text, hae]

end Encoded
end Escape
