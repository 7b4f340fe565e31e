import DearSql.Explain
import DearSql.Trees

/-! Plan trees as trees of labels. -/
namespace DearSql.Explain
open Trees

variable {D : Type} {α : Type*}

theorem PlanNode.induction {P : PlanNode D → Prop}
    (node : ∀ n : PlanNode D, (∀ c ∈ n.children, P c) → P n) (n : PlanNode D) : P n := by
  refine PlanNode.rec (motive_1 := P) (motive_2 := fun ns => ∀ c ∈ ns, P c) ?_ (by simp) ?_ n
  · intro operation detail estimatedRows cost actualRows loops total self properties children h
    exact node ⟨operation, detail, estimatedRows, cost, actualRows, loops, total, self, properties,
      children⟩ h
  · exact fun c cs hc hcs => List.forall_mem_cons.mpr ⟨hc, hcs⟩

mutual

/-- The nodes of a tree in preorder, each with what is below it. -/
def PlanNode.nodes : PlanNode D → List (PlanNode D)
  | ⟨operation, detail, estimatedRows, cost, actualRows, loops, total, self, properties, children⟩ =>
    ⟨operation, detail, estimatedRows, cost, actualRows, loops, total, self, properties, children⟩ ::
      nodesOf children

def nodesOf : List (PlanNode D) → List (PlanNode D)
  | [] => []
  | child :: rest => child.nodes ++ nodesOf rest

end

theorem PlanNode.nodes_eq (n : PlanNode D) : n.nodes = n :: nodesOf n.children := by
  cases n
  rw [PlanNode.nodes]

theorem nodesOf_eq (ns : List (PlanNode D)) : nodesOf ns = ns.flatMap PlanNode.nodes := by
  induction ns with
  | nil => rfl
  | cons n ns ih => rw [nodesOf, ih, List.flatMap_cons]

theorem mem_nodes {n x : PlanNode D} :
    x ∈ n.nodes ↔ x = n ∨ ∃ c ∈ n.children, x ∈ c.nodes := by
  rw [n.nodes_eq, List.mem_cons, nodesOf_eq, List.mem_flatMap]

mutual

/-- The plan tree of a tree of labels, when `f` says what the node of a label holds. -/
def toPlan (f : α → PlanNode D) : Rose α → PlanNode D
  | .node a ts => { f a with children := toPlans f ts }

def toPlans (f : α → PlanNode D) : List (Rose α) → List (PlanNode D)
  | [] => []
  | t :: ts => toPlan f t :: toPlans f ts

end

theorem toPlans_eq (f : α → PlanNode D) (ts : List (Rose α)) : toPlans f ts = ts.map (toPlan f) := by
  induction ts with
  | nil => rfl
  | cons t ts ih => rw [toPlans, ih, List.map_cons]

theorem with_children_inj {n m : PlanNode D} (hn : n.children = []) (hm : m.children = [])
    {cs cs' : List (PlanNode D)}
    (h : { n with children := cs } = { m with children := cs' }) : n = m ∧ cs = cs' := by
  cases n
  cases m
  simp_all

/-- A plan tree holds what `f` says of every label. -/
theorem eq_of_toPlan_eq {f g : α → PlanNode D} (hf : ∀ a, (f a).children = [])
    (hg : ∀ a, (g a).children = []) {t : Rose α} (h : toPlan f t = toPlan g t) :
    ∀ a ∈ preorder t, f a = g a := by
  induction t using Rose.induction with
  | node a ts ih =>
    rw [toPlan, toPlan] at h
    obtain ⟨ha, hts⟩ := with_children_inj (hf a) (hg a) h
    rw [toPlans_eq, toPlans_eq, List.map_inj_left] at hts
    rw [preorder, List.forall_mem_cons, preorders_eq, List.forall_mem_flatMap]
    exact ⟨ha, fun t ht => ih t ht (hts t ht)⟩

theorem eq_of_toPlans_eq {f g : α → PlanNode D} (hf : ∀ a, (f a).children = [])
    (hg : ∀ a, (g a).children = []) {ts : List (Rose α)} (h : toPlans f ts = toPlans g ts) :
    ∀ a ∈ preorders ts, f a = g a := by
  rw [toPlans_eq, toPlans_eq, List.map_inj_left] at h
  rw [preorders_eq, List.forall_mem_flatMap]
  exact fun t ht => eq_of_toPlan_eq hf hg (h t ht)

end DearSql.Explain
