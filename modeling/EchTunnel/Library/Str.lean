import Mathlib.Data.List.DropRight

/-! String functions of Rust's `str` that Lean's own do not match. -/
namespace Str

/-- `char::is_whitespace`, the Unicode property `White_Space`. -/
def isWhitespace (c : Char) : Bool :=
  let n := c.toNat
  (9 ≤ n && n ≤ 13) || n == 0x20 || n == 0x85 || n == 0xa0 || n == 0x1680 ||
    (0x2000 ≤ n && n ≤ 0x200a) || n == 0x2028 || n == 0x2029 || n == 0x202f || n == 0x205f || n == 0x3000

def trim (s : String) : String :=
  String.ofList ((s.toList.dropWhile isWhitespace).rdropWhile isWhitespace)

def trimEndMatches (s : String) (c : Char) : String := String.ofList (s.toList.rdropWhile fun d => d = c)

/-- Only the letters from `A` to `Z` change. -/
def toAsciiLowercase (s : String) : String := String.ofList (s.toList.map Char.toLower)

def eqIgnoreAsciiCase (s t : String) : Bool := toAsciiLowercase s = toAsciiLowercase t

theorem trim_eq {s : String} (h : ∀ c ∈ s.toList, isWhitespace c = false) : trim s = s := by
  have hl : s.toList.dropWhile isWhitespace = s.toList := by
    cases hs : s.toList with
    | nil => rfl
    | cons c l => rw [List.dropWhile_cons_of_neg (by simp [h c (by simp [hs])])]
  have hr : s.toList.rdropWhile isWhitespace = s.toList := by
    rw [List.rdropWhile_eq_self_iff]
    intro hne
    simp [h _ (List.getLast_mem hne)]
  rw [trim, hl, hr, String.ofList_toList]

end Str
