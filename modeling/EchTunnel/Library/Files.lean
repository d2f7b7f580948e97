import Mathlib.Data.List.Infix

/-! Files that are written whole, and what a write that does not succeed leaves. -/
namespace Files
variable {π α : Type*} [DecidableEq π]

/-- What becomes of a write: the file cannot be opened; it breaks off, and of the content but for its
last element the first `n` elements are there; or it is done. -/
inductive Write
  | refused
  | torn (n : ℕ)
  | done
  deriving Repr, DecidableEq

/-- The files after a write of `content` to `path`, and whether it succeeded. `none` is no file. -/
def write (files : π → Option (List α)) (path : π) (content : List α) :
    Write → (π → Option (List α)) × Bool
  | .refused => (files,false)
  | .torn n => (Function.update files path (some (content.dropLast.take n)),false)
  | .done => (Function.update files path (some content),true)

variable {files : π → Option (List α)} {path : π} {content : List α}

/-- A write concerns one file. -/
theorem write_of_ne {other : π} (h : other ≠ path) (w : Write) :
    (write files path content w).1 other = files other := by
  cases w with
  | refused => rfl
  | torn n => exact Function.update_of_ne h _ _
  | done => exact Function.update_of_ne h _ _

@[simp] theorem write_done : (write files path content .done).1 path = some content :=
  Function.update_self path _ _

theorem write_torn (files : π → Option (List α)) (path : π) (content : List α) (n : ℕ) :
    ∃ part, (write files path content (.torn n)).1 path = some part ∧ part <+: content ∧
      (content ≠ [] → part.length < content.length) := by
  refine ⟨content.dropLast.take n,Function.update_self path _ _,?_,fun h => ?_⟩
  · exact (List.take_prefix n _).trans (List.dropLast_prefix content)
  · have := List.length_pos_of_ne_nil h
    rw [List.length_take, List.length_dropLast]
    omega

end Files
