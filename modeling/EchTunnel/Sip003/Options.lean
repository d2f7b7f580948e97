import EchTunnel.Library.Assoc
import EchTunnel.Library.Escape

/-! `PluginOptions` of `sip003.rs`. Its three passes over the characters keep track of escapes each on
its own, and all see the same marks. -/
namespace EchTunnel
open Escape

inductive PluginOptionsError
  | emptyKey (options : String)
  deriving Repr, DecidableEq

structure PluginOptions where
  map : AList fun _ : String => String

/-- The loop of `split_unescaped`: the pieces so far, and the one being read. -/
def splitUnescapedLoop (delim : Char) (out : List (List Char)) (current : List Char) :
    List Char → List (List Char)
  | [] => out ++ [current]
  | c :: chars =>
    if c = '\\' then
      match chars with
      | [] => out ++ [current ++ [c]]
      | next :: chars => splitUnescapedLoop delim out (current ++ [c,next]) chars
    else if c = delim then splitUnescapedLoop delim (out ++ [current]) [] chars
    else splitUnescapedLoop delim out (current ++ [c]) chars

def splitUnescaped (s : List Char) (delim : Char) : List (List Char) :=
  splitUnescapedLoop delim [] [] s

def splitFirstUnescapedLoop (delim : Char) (before : List Char) :
    List Char → List Char × Option (List Char)
  | [] => (before,none)
  | c :: chars =>
    if c = '\\' then
      match chars with
      | [] => (before ++ [c],none)
      | next :: chars => splitFirstUnescapedLoop delim (before ++ [c,next]) chars
    else if c = delim then (before,some chars)
    else splitFirstUnescapedLoop delim (before ++ [c]) chars

/-- What stands before the first unescaped delimiter and, if there is one, what stands after it. -/
def splitFirstUnescaped (s : List Char) (delim : Char) : List Char × Option (List Char) :=
  splitFirstUnescapedLoop delim [] s

def unescape : List Char → List Char
  | [] => []
  | c :: chars =>
    if c = '\\' then
      match chars with
      | [] => []
      | next :: chars => next :: unescape chars
    else c :: unescape chars

namespace PluginOptions

/-- The loop of `parse` over the segments of the options `s`. -/
def parseLoop (s : String) (map : AList fun _ : String => String) :
    List (List Char) → Except PluginOptionsError PluginOptions
  | [] => .ok ⟨map⟩
  | raw :: raws =>
    if raw = [] then parseLoop s map raws
    else
      let (rawKey,rawValue) := splitFirstUnescaped raw '='
      let key := unescape rawKey
      if key = [] then .error (.emptyKey s)
      else
        let value := (rawValue.map unescape).getD []
        parseLoop s (map.insert (String.ofList key) (String.ofList value)) raws

def parse (s : String) : Except PluginOptionsError PluginOptions :=
  parseLoop s ∅ (splitUnescaped s.toList ';')

def get (o : PluginOptions) (key : String) : Option String := o.map.lookup key

end PluginOptions

section Passes
variable {delim : Char}

theorem splitUnescapedLoop_eq (hd : delim ≠ '\\') (out : List (List Char)) (current chars : List Char) :
    splitUnescapedLoop delim out current chars =
      out ++ ((pieces delim (scan '\\' false chars)).map text).modifyHead (current ++ ·) := by
  fun_induction splitUnescapedLoop delim out current chars with
  | case1 out current => simp [scan, pieces, text]
  | case2 out current => simp [scan, pieces_cons, hd.symm, pieces_nil, text]
  | case3 out current next chars ih =>
    obtain ⟨m,ms,hp,-⟩ := pieces_scan hd false chars
    simp [ih, scan, pieces_cons, hd.symm, hp]
  | case4 out current chars hc ih =>
    obtain ⟨m,ms,hp,-⟩ := pieces_scan hd false chars
    simp [ih, scan, pieces_cons, hd, hp, text]
  | case5 out current c chars hc hcd ih =>
    obtain ⟨m,ms,hp,-⟩ := pieces_scan hd false chars
    simp [ih, scan, pieces_cons, hc, hcd, hp]

/-- `split_unescaped` cuts at the delimiters that are not escaped. -/
theorem splitUnescaped_eq (hd : delim ≠ '\\') (s : List Char) :
    splitUnescaped s delim = (pieces delim (scan '\\' false s)).map text := by
  obtain ⟨m,ms,hp,-⟩ := pieces_scan hd false s
  simp [splitUnescaped, splitUnescapedLoop_eq hd, hp]

theorem splitFirstUnescapedLoop_eq (hd : delim ≠ '\\') (before chars : List Char) :
    splitFirstUnescapedLoop delim before chars =
      (before ++ text ((scan '\\' false chars).takeWhile fun p => p ≠ (delim,false)),
        ((scan '\\' false chars).dropWhile fun p => p ≠ (delim,false)).tail?.map text) := by
  fun_induction splitFirstUnescapedLoop delim before chars with
  | case1 before => simp [scan, text]
  | case2 before => simp [scan, hd.symm, text]
  | case3 before next chars ih => simp [ih, scan, hd.symm]
  | case4 before chars hc => simp [scan, hd]
  | case5 before c chars hc hcd ih => simp [ih, scan, hc, hcd]

theorem unescape_eq (s : List Char) : unescape s = resolve '\\' (scan '\\' false s) := by
  fun_induction unescape s with
  | case1 => rfl
  | case2 => rfl
  | case3 next chars ih => simp [ih, scan, resolve]
  | case4 c chars hc ih => simp [ih, scan, resolve, hc]

end Passes
end EchTunnel
