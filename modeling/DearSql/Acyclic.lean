import Mathlib

/-! Recursion along a relation with finitely many successors in all: it ends below a point
exactly when no cycle can be reached from there. -/
namespace DearSql.Acyclic
open Relation

variable {α : Type*} {E : α → α → Prop} {a b : α}

/-- No point that can be reached from `a` can be reached again from itself. -/
def NoCycleFrom (E : α → α → Prop) (a : α) : Prop :=
  ∀ b, ReflTransGen E a b → ¬TransGen E b b

theorem acc_step (h : Acc (fun y x => E x y) a) (hab : ReflTransGen E a b) :
    Acc (fun y x => E x y) b := by
  induction hab with
  | refl => exact h
  | tail _ hbc ih => exact ih.inv hbc

theorem acc_no_loop (h : Acc (fun y x => E x y) a) : ¬TransGen E a a := by
  induction h with
  | intro a _ ih =>
    intro hloop
    obtain ⟨b, hab, hba⟩ := TransGen.head'_iff.mp hloop
    exact ih b hab (TransGen.tail' hba hab)

/-- Where the points that have a predecessor are finitely many, the recursion is well founded
below every point from which no cycle can be reached. -/
theorem acc_of_noCycle {s : Set α} (hs : s.Finite) (hE : ∀ x y, E x y → y ∈ s)
    (h : NoCycleFrom E a) : Acc (fun y x => E x y) a := by
  let T := {x // x ∈ insert a s ∧ ReflTransGen E a x}
  have : Finite T := ((hs.insert a).subset fun x hx => hx.1).to_subtype
  let r : T → T → Prop := fun y x => TransGen E x.1 y.1
  have : IsTrans T r := ⟨fun _ _ _ hxy hyz => hyz.trans hxy⟩
  have : Std.Irrefl r := ⟨fun x hx => h x.1 x.2.2 hx⟩
  have below (t : T) : Acc (fun y x => E x y) t.1 := by
    induction t using (Finite.wellFounded_of_trans_of_irrefl r).induction with
    | _ t ih =>
      refine Acc.intro _ fun y hy => ?_
      exact ih ⟨y, Set.mem_insert_of_mem _ (hE _ _ hy), t.2.2.tail hy⟩ (.single hy)
  exact below ⟨a, Set.mem_insert _ _, .refl⟩

theorem acc_iff {s : Set α} (hs : s.Finite) (hE : ∀ x y, E x y → y ∈ s) :
    Acc (fun y x => E x y) a ↔ NoCycleFrom E a :=
  ⟨fun h _ hab => acc_no_loop (acc_step h hab), acc_of_noCycle hs hE⟩

end DearSql.Acyclic
