import Mathlib

/-! Trees with any number of children at a node, and the order in which a walk from the root down
meets the labels. -/
namespace DearSql.Trees
open Relation

inductive Rose (α : Type*)
  | node (label : α) (children : List (Rose α))

variable {α β : Type*} {succ : α → List α} {a b : α} {t : Rose α} {ts : List (Rose α)}

namespace Rose

def label : Rose α → α
  | .node a _ => a

theorem induction {P : Rose α → Prop}
    (node : ∀ a ts, (∀ t ∈ ts, P t) → P (.node a ts)) (t : Rose α) : P t := by
  refine Rose.rec (motive_1 := P) (motive_2 := fun ts => ∀ t ∈ ts, P t) node (by simp) ?_ t
  exact fun t ts ht hts => List.forall_mem_cons.mpr ⟨ht, hts⟩

end Rose

section Walks

mutual

/-- The labels, a node before its children and these from left to right. -/
def preorder : Rose α → List α
  | .node a ts => a :: preorders ts

def preorders : List (Rose α) → List α
  | [] => []
  | t :: ts => preorder t ++ preorders ts

end

mutual

/-- The labels in the same order, each with the label of its parent. -/
def parented (parent : Option α) : Rose α → List (α × Option α)
  | .node a ts => (a, parent) :: parenteds (some a) ts

def parenteds (parent : Option α) : List (Rose α) → List (α × Option α)
  | [] => []
  | t :: ts => parented parent t ++ parenteds parent ts

end

theorem preorders_eq (ts : List (Rose α)) : preorders ts = ts.flatMap preorder := by
  induction ts with
  | nil => rfl
  | cons t ts ih => rw [preorders, ih, List.flatMap_cons]

end Walks

section Grown

/-- The children of every node are labelled with what follows its label. -/
inductive Grown (succ : α → List α) : Rose α → Prop
  | node (a : α) (ts : List (Rose α)) (labels : ts.map Rose.label = succ a)
    (below : ∀ t ∈ ts, Grown succ t) : Grown succ (.node a ts)

theorem Grown.label_mem (labels : ts.map Rose.label = succ a) (ht : t ∈ ts) :
    t.label ∈ succ a := by
  rw [← labels]
  exact List.mem_map_of_mem ht

/-- The labels of a tree are what can be reached from its root. -/
theorem Grown.mem_preorder (h : Grown succ t) :
    b ∈ preorder t ↔ ReflTransGen (fun x y => y ∈ succ x) t.label b := by
  induction h with
  | node a ts labels below ih =>
    rw [preorder, List.mem_cons, preorders_eq, List.mem_flatMap]
    constructor
    · rintro (rfl | ⟨t, ht, hb⟩)
      · exact .refl
      · exact .head (Grown.label_mem labels ht) ((ih t ht).mp hb)
    · intro hreach
      rcases hreach.cases_head with rfl | ⟨c, hc, hreach⟩
      · exact .inl rfl
      · have hmem : c ∈ succ a := hc
        rw [← labels] at hmem
        obtain ⟨t, ht, rfl⟩ := List.mem_map.mp hmem
        exact .inr ⟨t, ht, (ih t ht).mpr hreach⟩

variable (rank : α → ℕ) (hrank : ∀ a, ∀ b ∈ succ a, rank a < rank b)
  (hpred : ∀ a a' b, b ∈ succ a → b ∈ succ a' → a = a') (hnodup : ∀ a, (succ a).Nodup)

include hrank in
theorem rank_le_of_reach (h : ReflTransGen (fun x y => y ∈ succ x) a b) : rank a ≤ rank b := by
  induction h with
  | refl => exact le_rfl
  | tail _ hbc ih => exact ih.trans (hrank _ _ hbc).le

include hrank hpred in
/-- Different successors of a label lead to different labels. -/
theorem no_common_reach {c c' : α} (hc : c ∈ succ a) (hc' : c' ∈ succ a) (hne : c ≠ c')
    (h : ReflTransGen (fun x y => y ∈ succ x) c b) :
    ¬ReflTransGen (fun x y => y ∈ succ x) c' b := by
  have hstep {c c' : α} (hc : c ∈ succ a) (hc' : c' ∈ succ a) (hne : c ≠ c') :
      ¬ReflTransGen (fun x y => y ∈ succ x) c c' := by
    intro h
    rcases h.cases_tail with rfl | ⟨d, hd, hdc⟩
    · exact hne rfl
    · obtain rfl := hpred _ _ _ hdc hc'
      have hle := rank_le_of_reach rank hrank hd
      have hlt := hrank _ _ hc
      omega
  intro h'
  have hback {c : α} (h : ReflTransGen (fun x y => y ∈ succ x) c b) :
      ReflTransGen (fun x y => x ∈ succ y) b c := reflTransGen_swap.mp h
  have hunique : Relator.RightUnique fun x y : α => x ∈ succ y := fun _ _ _ hx hy =>
    hpred _ _ _ hx hy
  rcases ReflTransGen.total_of_right_unique hunique (hback h) (hback h') with hcc | hcc
  · exact hstep hc' hc hne.symm (reflTransGen_swap.mp hcc)
  · exact hstep hc hc' hne (reflTransGen_swap.mp hcc)

include hrank hpred hnodup in
/-- Where every label follows one other at most, a tree has no label twice. -/
theorem Grown.nodup_preorder (h : Grown succ t) : (preorder t).Nodup := by
  induction h with
  | node a ts labels below ih =>
    rw [preorder, preorders_eq]
    refine List.nodup_cons.mpr ⟨fun hmem => ?_, ?_⟩
    · obtain ⟨t, ht, hmem⟩ := List.mem_flatMap.mp hmem
      have hle := rank_le_of_reach rank hrank ((below t ht).mem_preorder.mp hmem)
      have hlt := hrank _ _ (Grown.label_mem labels ht)
      omega
    · refine List.nodup_flatMap.mpr ⟨ih, ?_⟩
      have hlabels : (ts.map Rose.label).Nodup := labels ▸ hnodup a
      rw [List.Nodup, List.pairwise_map] at hlabels
      refine hlabels.imp_of_mem fun {t t'} ht ht' hne b hb hb' => ?_
      exact no_common_reach rank hrank hpred (Grown.label_mem labels ht)
        (Grown.label_mem labels ht') hne ((below t ht).mem_preorder.mp hb)
        ((below t' ht').mem_preorder.mp hb')

/-- Where every label of `l` is the root of such a tree, these stand side by side. -/
theorem exists_forest {l : List α} (h : ∀ b ∈ l, ∃ t : Rose α, t.label = b ∧ Grown succ t) :
    ∃ ts : List (Rose α), ts.map Rose.label = l ∧ ∀ t ∈ ts, Grown succ t := by
  induction l with
  | nil => exact ⟨[], rfl, by simp⟩
  | cons b l ih =>
    obtain ⟨⟨t, rfl, ht⟩, hl⟩ := List.forall_mem_cons.mp h
    obtain ⟨ts, rfl, hts⟩ := ih hl
    exact ⟨t :: ts, rfl, List.forall_mem_cons.mpr ⟨ht, hts⟩⟩

/-- Below every label from which the successors come to an end there is a tree. -/
theorem exists_grown (h : Acc (fun b a => b ∈ succ a) a) :
    ∃ t : Rose α, t.label = a ∧ Grown succ t := by
  induction h with
  | intro a _ ih =>
    obtain ⟨ts, labels, below⟩ := exists_forest ih
    exact ⟨.node a ts, rfl, .node a ts labels below⟩

end Grown

section Relabelled

variable (f : α → β)

mutual

def Rose.map : Rose α → Rose β
  | .node a ts => .node (f a) (Rose.mapAll ts)

def Rose.mapAll : List (Rose α) → List (Rose β)
  | [] => []
  | t :: ts => Rose.map t :: Rose.mapAll ts

end

theorem Rose.mapAll_eq (ts : List (Rose α)) : Rose.mapAll f ts = ts.map (Rose.map f) := by
  induction ts with
  | nil => rfl
  | cons t ts ih => rw [Rose.mapAll, ih, List.map_cons]

@[simp] theorem Rose.label_map (t : Rose α) : (t.map f).label = f t.label := by
  cases t
  rw [Rose.map, Rose.label, Rose.label]

theorem preorder_map (t : Rose α) : preorder (t.map f) = (preorder t).map f := by
  induction t using Rose.induction with
  | node a ts ih =>
    rw [Rose.map, Rose.mapAll_eq, preorder, preorder, preorders_eq, preorders_eq, List.map_cons,
      List.map_flatMap, List.flatMap_map]
    exact congrArg _ (List.flatMap_congr ih)

/-- A tree stays grown under new labels that have the same successors. -/
theorem Grown.map {succ' : β → List β} (hf : ∀ a, (succ a).map f = succ' (f a))
    (h : Grown succ t) : Grown succ' (t.map f) := by
  induction h with
  | node a ts labels below ih =>
    rw [Rose.map, Rose.mapAll_eq]
    refine .node _ _ ?_ fun t' ht' => ?_
    · rw [← hf, ← labels, List.map_map, List.map_map]
      exact List.map_congr_left fun t _ => Rose.label_map f t
    · obtain ⟨t, ht, rfl⟩ := List.mem_map.mp ht'
      exact ih t ht

end Relabelled
end DearSql.Trees
