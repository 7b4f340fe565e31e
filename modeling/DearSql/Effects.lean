import Mathlib

/-! Computations over a state, seen from what they do to the state. A relation between
the state before and after that is reflexive and transitive holds of a computation as
soon as it holds of its parts. -/
namespace DearSql.Effects

variable {σ α β : Type} {R : σ → σ → Prop}

/-- The state a computation leaves. -/
def after (t : StateM σ α) (s : σ) : σ := (t.run s).2

/-- The value a computation returns. -/
def value (t : StateM σ α) (s : σ) : α := (t.run s).1

/-- From every state the computation leads to a related one. -/
def Leads (R : σ → σ → Prop) (t : StateM σ α) : Prop := ∀ s, R s (after t s)

@[simp] theorem after_pure (a : α) (s : σ) : after (pure a) s = s := rfl

@[simp] theorem value_pure (a : α) (s : σ) : value (pure a : StateM σ α) s = a := rfl

@[simp] theorem after_bind (t : StateM σ α) (f : α → StateM σ β) (s : σ) :
    after (t >>= f) s = after (f (value t s)) (after t s) := rfl

@[simp] theorem value_bind (t : StateM σ α) (f : α → StateM σ β) (s : σ) :
    value (t >>= f) s = value (f (value t s)) (after t s) := rfl

@[simp] theorem after_map (f : α → β) (t : StateM σ α) (s : σ) : after (f <$> t) s = after t s := rfl

@[simp] theorem value_map (f : α → β) (t : StateM σ α) (s : σ) :
    value (f <$> t) s = f (value t s) := rfl

@[simp] theorem after_get (s : σ) : after (get : StateM σ σ) s = s := rfl

@[simp] theorem value_get (s : σ) : value (get : StateM σ σ) s = s := rfl

@[simp] theorem after_modify (f : σ → σ) (s : σ) : after (modify f : StateM σ PUnit) s = f s := rfl

theorem after_bind_of {t : StateM σ α} {f : α → StateM σ β} {s s' : σ} {a : α}
    (hv : value t s = a) (hs : after t s = s') : after (t >>= f) s = after (f a) s' := by
  rw [after_bind, hv, hs]

section Rules
variable (hrefl : ∀ s, R s s) (htrans : ∀ a b c, R a b → R b c → R a c)

include hrefl in
theorem leads_pure (a : α) : Leads R (pure a : StateM σ α) := fun s => hrefl s

include htrans in
theorem Leads.bind {t : StateM σ α} {f : α → StateM σ β} (ht : Leads R t)
    (hf : ∀ a, Leads R (f a)) : Leads R (t >>= f) := fun s =>
  htrans _ _ _ (ht s) (hf _ _)

include hrefl htrans in
theorem leads_mapM (l : List α) {f : α → StateM σ β} (hf : ∀ a, Leads R (f a)) :
    Leads R (l.mapM f) := by
  induction l with
  | nil => exact leads_pure hrefl []
  | cons a l ih =>
    rw [List.mapM_cons]
    exact (hf a).bind htrans fun b => ih.bind htrans fun bs => leads_pure hrefl _

include hrefl htrans in
theorem leads_forM (l : List α) {f : α → StateM σ PUnit} (hf : ∀ a, Leads R (f a)) :
    Leads R (l.forM f) := by
  induction l with
  | nil => exact leads_pure hrefl _
  | cons a l ih => exact (hf a).bind htrans fun _ => ih

end Rules
end DearSql.Effects
