import Mathlib

/-! A setting under transactions. What is written is in force at once; an undo brings
back what was in force at the last keep. The value a history leaves is read off its end:
it is the last one written that no undo took back before a keep. -/
namespace DearSql.Transactions

inductive Event (κ : Type*)
  | set (k : κ)
  | keep
  | undo
  deriving DecidableEq

/-- The value in force, and the one an undo brings back. -/
structure Store (κ : Type*) where
  value : κ
  kept : κ

variable {κ : Type*} {s : Store κ} {es fs : List (Event κ)}

def Store.step (s : Store κ) : Event κ → Store κ
  | .set k => { s with value := k }
  | .keep => { s with kept := s.value }
  | .undo => { s with value := s.kept }

def Store.after (s : Store κ) (es : List (Event κ)) : Store κ := es.foldl Store.step s

/-- Of keeps and undos a keep comes first, or neither comes. -/
def stays : List (Event κ) → Bool
  | [] => true
  | .set _ :: es => stays es
  | .keep :: _ => true
  | .undo :: _ => false

/-- The last value written that is not taken back. -/
def lastStaying : List (Event κ) → Option κ
  | [] => none
  | .set k :: es => (lastStaying es).or (if stays es then some k else none)
  | .keep :: es | .undo :: es => lastStaying es

@[simp] theorem after_cons (e : Event κ) : s.after (e :: es) = (s.step e).after es := rfl

theorem after_append : s.after (es ++ fs) = (s.after es).after fs := List.foldl_append

/-- The value a history leaves. -/
theorem after_value (s : Store κ) (es : List (Event κ)) :
    (s.after es).value = (lastStaying es).getD (if stays es then s.value else s.kept) := by
  induction es generalizing s with
  | nil => rfl
  | cons e es ih =>
    rw [after_cons, ih]
    cases e with
    | set k =>
      cases hl : lastStaying es with
      | some v => simp [lastStaying, hl]
      | none => cases hs : stays es <;> simp [lastStaying, stays, Store.step, hl, hs]
    | keep => simp [lastStaying, stays, Store.step]
    | undo => simp [lastStaying, stays, Store.step]

/-- Begun with nothing to undo, a history leaves the last value that stays in it. -/
theorem after_settled (k : κ) (es : List (Event κ)) :
    ((Store.mk k k).after es).value = (lastStaying es).getD k := by
  rw [after_value, ite_self]

end DearSql.Transactions
