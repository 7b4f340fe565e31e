import Mathlib

/-! Runs of a deterministic step function over a list of inputs. A condition may be
asked of every input together with the state it meets; an invariant that each step
keeps under that condition holds all along the run. -/
namespace DearSql.Runs

variable {σ τ ι κ : Type*}

def final (step : σ → ι → σ) (s : σ) (is : List ι) : σ := is.foldl step s

/-- `C` holds of every input of the run in the state that input meets. -/
def Along (step : σ → ι → σ) (C : σ → ι → Prop) : σ → List ι → Prop
  | _, [] => True
  | s, i :: is => C s i ∧ Along step C (step s i) is

variable {step : σ → ι → σ} {C P : σ → ι → Prop} {Inv : σ → Prop} {s : σ} {i : ι}
  {is js : List ι}

@[simp] theorem final_nil : final step s [] = s := rfl

@[simp] theorem final_cons : final step s (i :: is) = final step (step s i) is := rfl

@[simp] theorem along_nil : Along step C s [] := trivial

@[simp] theorem along_cons :
    Along step C s (i :: is) ↔ C s i ∧ Along step C (step s i) is := Iff.rfl

theorem final_append : final step s (is ++ js) = final step (final step s is) js :=
  List.foldl_append

theorem along_append : Along step C s (is ++ js) ↔
    Along step C s is ∧ Along step C (final step s is) js := by
  induction is generalizing s with
  | nil => simp
  | cons i is ih => simp only [List.cons_append, along_cons, final_cons, ih, and_assoc]

theorem Along.invariant (hstep : ∀ s i, Inv s → C s i → Inv (step s i)) (h0 : Inv s)
    (h : Along step C s is) : Inv (final step s is) := by
  induction is generalizing s with
  | nil => exact h0
  | cons i is ih => exact ih (hstep s i h0 h.1) h.2

/-- What follows from the invariant and the condition at each input holds at each input. -/
theorem Along.of_invariant (hstep : ∀ s i, Inv s → C s i → Inv (step s i))
    (hP : ∀ s i, Inv s → C s i → P s i) (h0 : Inv s) (h : Along step C s is) :
    Along step P s is := by
  induction is generalizing s with
  | nil => trivial
  | cons i is ih => exact ⟨hP s i h0 h.1, ih (hstep s i h0 h.1) h.2⟩

theorem along_of_forall {D : ι → Prop} (h : ∀ i ∈ is, D i) :
    Along step (fun _ i => D i) s is := by
  induction is generalizing s with
  | nil => trivial
  | cons i is ih => exact ⟨h i (by simp), ih fun j hj => h j (by simp [hj])⟩

theorem Along.mono {D : σ → ι → Prop} (hCD : ∀ s i, C s i → D s i) (h : Along step C s is) :
    Along step D s is := by
  induction is generalizing s with
  | nil => trivial
  | cons i is ih => exact ⟨hCD s i h.1, ih h.2⟩

end DearSql.Runs
