import Mathlib.Logic.Basic

/-! Runs of a machine whose every step has a result, and conditions on the steps of a run. -/
namespace Run

universe u v
variable {σ : Type u} {ι : Type v} {step : σ → ι → σ} {P : σ → ι → Prop} {I : σ → Prop}

/-- The state after the inputs. -/
def after (step : σ → ι → σ) (s : σ) (is : List ι) : σ := is.foldl step s

/-- Every input meets `P` in the state in which it comes. -/
def Along (step : σ → ι → σ) (P : σ → ι → Prop) : σ → List ι → Prop
  | _, [] => True
  | s, i :: is => P s i ∧ Along step P (step s i) is

@[simp] theorem after_nil (s : σ) : after step s [] = s := rfl

@[simp] theorem after_cons (s : σ) (i : ι) (is : List ι) :
    after step s (i :: is) = after step (step s i) is := rfl

theorem after_append (s : σ) (is js : List ι) :
    after step s (is ++ js) = after step (after step s is) js := List.foldl_append

theorem along_append (s : σ) (is js : List ι) :
    Along step P s (is ++ js) ↔ Along step P s is ∧ Along step P (after step s is) js := by
  induction is generalizing s with
  | nil => simp [Along]
  | cons i is ih => simp [Along, ih, and_assoc]

/-- A condition that each input meets in every state. -/
theorem along_of_forall {is : List ι} (h : ∀ i ∈ is, ∀ s, P s i) {s : σ} : Along step P s is := by
  induction is generalizing s with
  | nil => trivial
  | cons i is ih =>
    refine ⟨h i List.mem_cons_self s, ?_⟩
    exact ih fun j hj => h j (List.mem_cons_of_mem i hj)

/-- What every step that meets the condition preserves holds after a run of such steps. -/
theorem invariant (hstep : ∀ s i, I s → P s i → I (step s i)) {s : σ} (h : I s) {is : List ι}
    (hP : Along step P s is) : I (after step s is) := by
  induction is generalizing s with
  | nil => exact h
  | cons i is ih => exact ih (hstep s i h hP.1) hP.2

/-- What every step preserves holds after every run. -/
theorem always (hstep : ∀ s i, I s → I (step s i)) {s : σ} (h : I s) (is : List ι) :
    I (after step s is) := by
  induction is generalizing s with
  | nil => exact h
  | cons i is ih => exact ih (hstep s i h)

/-- A relation that every step of the first machine and its image in the second keep relates the
two after a run and its image. -/
theorem simulated {τ : Type u} {κ : Type v} {step' : τ → κ → τ} {R : σ → τ → Prop} {f : ι → κ}
    (hstep : ∀ s t i, R s t → P s i → R (step s i) (step' t (f i))) {s : σ} {t : τ} (h : R s t)
    {is : List ι} (hP : Along step P s is) :
    R (after step s is) (after step' t (is.map f)) := by
  induction is generalizing s t with
  | nil => exact h
  | cons i is ih => exact ih (hstep s t i h hP.1) hP.2

/-- Two conditions that agree on the steps of a run agree on the run. -/
theorem along_congr {Q R : σ → ι → Prop} (hstep : ∀ s i, I s → P s i → I (step s i))
    (hiff : ∀ s i, I s → P s i → (Q s i ↔ R s i)) {s : σ} (h : I s) {is : List ι}
    (hP : Along step P s is) : Along step Q s is ↔ Along step R s is := by
  induction is generalizing s with
  | nil => exact Iff.rfl
  | cons i is ih => exact and_congr (hiff s i h hP.1) (ih (hstep s i h hP.1) hP.2)

instance Along.decidable [∀ s i, Decidable (P s i)] :
    ∀ s is, Decidable (Along step P s is)
  | _, [] => inferInstanceAs (Decidable True)
  | s, i :: is =>
    have := Along.decidable (step s i) is
    inferInstanceAs (Decidable (P s i ∧ Along step P (step s i) is))

end Run
