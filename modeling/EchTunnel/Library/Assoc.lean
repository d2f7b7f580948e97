import Mathlib.Data.List.AList
import Mathlib.Algebra.Order.BigOperators.Group.List
import Mathlib.Algebra.Order.Group.Nat
import Mathlib.Algebra.GroupWithZero.Nat

/-! Finite maps: lookup after an update, and the total weight of the values. -/
namespace Assoc
variable {κ β : Type*} [DecidableEq κ]

theorem lookup_insert (m : AList fun _ : κ => β) (a k : κ) (b : β) :
    (m.insert a b).lookup k = if k = a then some b else m.lookup k := by
  by_cases h : k = a
  · subst k
    rw [if_pos rfl, AList.lookup_insert]
  · rw [if_neg h, AList.lookup_insert_ne h]

theorem lookup_erase (m : AList fun _ : κ => β) (a k : κ) :
    (m.erase a).lookup k = if k = a then none else m.lookup k := by
  by_cases h : k = a
  · subst k
    rw [if_pos rfl, AList.lookup_erase]
  · rw [if_neg h, AList.lookup_erase_ne h]

/-- The entries whose values satisfy `p`. -/
def filter (p : β → Bool) (m : AList fun _ : κ => β) : AList fun _ : κ => β :=
  ⟨m.entries.filter fun e => p e.2,m.nodupKeys.sublist List.filter_sublist⟩

theorem lookup_filter (p : β → Bool) (m : AList fun _ : κ => β) (k : κ) :
    (filter p m).lookup k = (m.lookup k).filter p := by
  ext b
  rw [← Option.mem_def, ← Option.mem_def, AList.mem_lookup_iff, Option.mem_filter_iff,
    AList.mem_lookup_iff, filter, List.mem_filter]

/-- The sum of `f` over the values of the map. -/
def weight (f : β → ℕ) (m : AList fun _ : κ => β) : ℕ := (m.entries.map fun e => f e.2).sum

variable {f : β → ℕ} {m : AList fun _ : κ => β} {a : κ} {b : β}

omit [DecidableEq κ] in
@[simp] theorem weight_empty : weight f (∅ : AList fun _ : κ => β) = 0 := rfl

omit [DecidableEq κ] in
theorem weight_filter_le (p : β → Bool) (m : AList fun _ : κ => β) :
    weight f (filter p m) ≤ weight f m := by
  apply List.Sublist.sum_le_sum
  · exact List.filter_sublist.map _
  · simp

theorem weight_erase (h : m.lookup a = some b) : weight f (m.erase a) + f b = weight f m := by
  have ha : a ∈ m.entries.keys := AList.lookup_isSome.mp (by simp [h])
  obtain ⟨c,l₁,l₂,_,he,hk⟩ := List.exists_of_kerase ha
  have hc : m.lookup a = some c := AList.mem_lookup_iff.mpr (by simp [he])
  have hbc : b = c := Option.some.inj (h.symm.trans hc)
  have hw : weight f (m.erase a) = ((l₁ ++ l₂).map fun e => f e.2).sum := by rw [← hk]; rfl
  rw [hw, weight, he, hbc]
  simp only [List.map_append, List.map_cons, List.sum_append, List.sum_cons]
  omega

theorem weight_insert_none (h : m.lookup a = none) (b : β) :
    weight f (m.insert a b) = f b + weight f m := by
  rw [weight, AList.entries_insert_of_notMem (AList.lookup_eq_none.mp h)]
  simp [weight]

theorem weight_insert_some (h : m.lookup a = some b) (b' : β) :
    weight f (m.insert a b') + f b = f b' + weight f m := by
  have he : weight f (m.insert a b') = f b' + weight f (m.erase a) := by
    rw [weight, AList.entries_insert]
    rfl
  rw [he, ← weight_erase h, Nat.add_assoc]

theorem weight_insert_le (m : AList fun _ : κ => β) (a : κ) (b : β) :
    weight f (m.insert a b) ≤ f b + weight f m := by
  cases h : m.lookup a with
  | none => exact (weight_insert_none h b).le
  | some b' =>
    have := weight_insert_some (f := f) h b
    omega

theorem weight_erase_le (m : AList fun _ : κ => β) (a : κ) : weight f (m.erase a) ≤ weight f m := by
  apply List.Sublist.sum_le_sum
  · exact (List.kerase_sublist a m.entries).map _
  · simp

theorem le_weight (h : m.lookup a = some b) : f b ≤ weight f m := by
  rw [← weight_erase h]
  omega

end Assoc
