import Mathlib.Data.List.ReduceOption

/-! Stages that pass a stream of items on, with a mark at its end. -/
variable {α : Type*}

/-- What has come out of a stage is a first part of what went in, and its end comes out only after the
end went in and all of the items came out. -/
structure Conveys (inp : List α) (ended : Prop) (out : List α) (passed : Prop) : Prop where
  inOrder : out <+: inp
  whole : passed → ended ∧ out = inp

namespace Conveys
variable {inp mid out : List α} {ended handed passed : Prop}

/-- Stages in a row are a stage. -/
theorem trans (h : Conveys inp ended mid handed) (h' : Conveys mid handed out passed) :
    Conveys inp ended out passed where
  inOrder := h'.inOrder.trans h.inOrder
  whole hp := by
    obtain ⟨ho,rfl⟩ := h'.whole hp
    exact h.whole ho

/-- A stage that holds back what has not come out, and passes the end on with nothing held back. -/
theorem of_append (rest : List α) (h : out ++ rest = inp) (hp : passed → ended ∧ rest = []) :
    Conveys inp ended out passed where
  inOrder := h ▸ List.prefix_append out rest
  whole hpass := by
    obtain ⟨he,rfl⟩ := hp hpass
    exact ⟨he,by rwa [List.append_nil] at h⟩

end Conveys

/-- A stream as a list of its items, with the mark at the end once it has been set. -/
def marked (l : List α) (fin : Bool) : List (Option α) := l.map some ++ if fin then [none] else []

section Marked
variable {l l' : List α} {fin fin' : Bool} {more : List (Option α)}

theorem reduceOption_marked : (marked l fin).reduceOption = l := by
  cases fin <;> simp [marked, List.reduceOption]

theorem map_some_prefix_marked : l.map some <+: marked l' fin ↔ l <+: l' := by
  constructor
  · rintro ⟨m,h⟩
    have hr := congrArg (List.filterMap id) h
    cases fin
    · exact ⟨m.filterMap id,by simpa [marked] using hr⟩
    · exact ⟨m.filterMap id,by simpa [marked] using hr⟩
  · intro h
    exact (h.map some).trans (List.prefix_append _ _)

theorem marked_inj : marked l fin = marked l' fin' ↔ l = l' ∧ fin = fin' := by
  constructor
  · intro h
    have hr := congrArg (List.filterMap id) h
    have hl : l = l' := by cases fin <;> cases fin' <;> simpa [marked] using hr
    subst l'
    have hf := List.append_cancel_left h
    exact ⟨rfl,by cases fin <;> cases fin' <;> simp_all⟩
  · rintro ⟨rfl,rfl⟩
    rfl

theorem none_notMem_dropLast_marked : none ∉ (marked l fin).dropLast := by
  cases fin with
  | true => simp [marked]
  | false =>
    intro h
    simpa [marked] using List.dropLast_subset _ h

/-- Nothing can follow the mark. -/
theorem marked_append_eq (h : marked l true ++ more = marked l' fin) : more = [] := by
  by_contra hne
  apply @none_notMem_dropLast_marked _ l' fin
  rw [← h, List.dropLast_append_of_ne_nil hne]
  simp [marked]

end Marked
