import Mathlib.Data.List.Basic

/-! Runs of a deterministic machine, and what holds along them. -/
namespace Run
variable {σ α : Type*} (step : σ → α → σ)

def run (s : σ) (acts : List α) : σ := acts.foldl step s

/-- Every step of the run meets `C`, a condition on the state before it and its action. -/
def Meets (C : σ → α → Prop) : σ → List α → Prop
  | _, [] => True
  | s, a :: as => C s a ∧ Meets C (step s a) as

instance {C : σ → α → Prop} [∀ s a, Decidable (C s a)] :
    (s : σ) → (acts : List α) → Decidable (Meets step C s acts)
  | _, [] => isTrue trivial
  | s, a :: as =>
    have : Decidable (Meets step C (step s a) as) := instDecidableMeets (step s a) as
    inferInstanceAs (Decidable (C s a ∧ Meets step C (step s a) as))

@[simp] theorem run_nil (s : σ) : run step s [] = s := rfl

@[simp] theorem run_cons (s : σ) (a : α) (as : List α) :
    run step s (a :: as) = run step (step s a) as := rfl

theorem run_append (s : σ) (as bs : List α) :
    run step s (as ++ bs) = run step (run step s as) bs := List.foldl_append

variable {step}

/-- What holds at first and survives every step that meets `C` holds after every run that does. -/
theorem Meets.induction {C : σ → α → Prop} {I : σ → Prop}
    (hstep : ∀ s a, I s → C s a → I (step s a)) {s : σ} {acts : List α} (h₀ : I s)
    (h : Meets step C s acts) : I (run step s acts) := by
  induction acts generalizing s with
  | nil => exact h₀
  | cons a as ih => exact ih (hstep s a h₀ h.1) h.2

/-- Conditions on steps are compared in the states that a run which meets one of them reaches. -/
theorem Meets.imp {C D : σ → α → Prop} {I : σ → Prop}
    (hstep : ∀ s a, I s → C s a → I (step s a)) (himp : ∀ s a, I s → C s a → D s a) {s : σ}
    {acts : List α} (h₀ : I s) (h : Meets step C s acts) : Meets step D s acts := by
  induction acts generalizing s with
  | nil => trivial
  | cons a as ih => exact ⟨himp s a h₀ h.1,ih (hstep s a h₀ h.1) h.2⟩

/-- Two machines in lockstep: `f` runs on images of the states of the other, as long as those satisfy
an invariant. -/
theorem Meets.simulates {τ : Type*} {f : τ → α → τ} (φ : σ → τ) {C : σ → α → Prop} {I : σ → Prop}
    (hstep : ∀ s a, I s → C s a → f (φ s) a = φ (step s a) ∧ I (step s a)) {s : σ} {acts : List α}
    (h₀ : I s) (h : Meets step C s acts) :
    run f (φ s) acts = φ (run step s acts) ∧ I (run step s acts) := by
  induction acts generalizing s with
  | nil => exact ⟨rfl,h₀⟩
  | cons a as ih =>
    obtain ⟨he,hi⟩ := hstep s a h₀ h.1
    rw [run_cons, run_cons, he]
    exact ih hi h.2

theorem Meets.and {C D : σ → α → Prop} {s : σ} {acts : List α} (hc : Meets step C s acts)
    (hd : Meets step D s acts) : Meets step (fun s a => C s a ∧ D s a) s acts := by
  induction acts generalizing s with
  | nil => trivial
  | cons a as ih => exact ⟨⟨hc.1,hd.1⟩,ih hc.2 hd.2⟩

theorem Meets.of_mem {C : σ → α → Prop} {acts : List α} (h : ∀ s, ∀ a ∈ acts, C s a) (s : σ) :
    Meets step C s acts := by
  induction acts generalizing s with
  | nil => trivial
  | cons a as ih =>
    exact ⟨h s a List.mem_cons_self,ih (fun s b hb => h s b (List.mem_cons_of_mem a hb)) (step s a)⟩

theorem Meets.of_forall {C : σ → α → Prop} (h : ∀ s a, C s a) (s : σ) (acts : List α) :
    Meets step C s acts := Meets.of_mem (fun s a _ => h s a) s

/-- Where a step preserves `I` exactly if it meets `C`, a run that keeps to `I` is one that meets `C`. -/
theorem forall_run_take_iff {C : σ → α → Prop} {I : σ → Prop}
    (hstep : ∀ s a, I s → (I (step s a) ↔ C s a)) (s : σ) (acts : List α) :
    (∀ n, I (run step s (acts.take n))) ↔ I s ∧ Meets step C s acts := by
  induction acts generalizing s with
  | nil => simp [Meets]
  | cons a as ih =>
    have hsplit : (∀ n, I (run step s ((a :: as).take n))) ↔
        I s ∧ ∀ n, I (run step (step s a) (as.take n)) := by
      constructor
      · exact fun h => ⟨h 0,fun n => h (n+1)⟩
      · rintro ⟨h₀,h⟩ (_ | n)
        · exact h₀
        · exact h n
    rw [hsplit, ih, Meets]
    exact and_congr_right fun h₀ => and_congr_left' (hstep s a h₀)

theorem induction {I : σ → Prop} (hstep : ∀ s a, I s → I (step s a)) {s : σ} (acts : List α)
    (h₀ : I s) : I (run step s acts) := by
  induction acts generalizing s with
  | nil => exact h₀
  | cons a as ih => exact ih (hstep s a h₀)

/-- What an observer sees of a run, if it sees a step as a list of actions of its own. -/
def history {β : Type*} (step : σ → α → σ) (seen : σ → α → List β) : σ → List α → List β
  | _, [] => []
  | s, a :: as => seen s a ++ history step seen (step s a) as

/-- A part of the state that a step changes as the actions do that are seen of it. -/
theorem project {τ β : Type*} {f : τ → β → τ} (φ : σ → τ) {seen : σ → α → List β} {I : σ → Prop}
    (hstep : ∀ s a, I s → φ (step s a) = run f (φ s) (seen s a) ∧ I (step s a)) {s : σ} (acts : List α)
    (h₀ : I s) : φ (run step s acts) = run f (φ s) (history step seen s acts) := by
  induction acts generalizing s with
  | nil => rfl
  | cons a as ih =>
    obtain ⟨he,hi⟩ := hstep s a h₀
    rw [run_cons, history, run_append, ← he]
    exact ih hi

end Run
