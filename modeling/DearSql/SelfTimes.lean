import DearSql.PlanTrees

/-! `fillSelfTimes` in exact arithmetic: how much of the time of a plan its nodes share out. -/
namespace DearSql.Explain

section Definitions

mutual

/-- The times of the timed nodes that are nearest below, or of the node itself. -/
def nearestTotal : PlanNode ℚ → ℚ
  | ⟨_, _, _, _, _, _, total, _, _, children⟩ =>
    match total with
    | some t => t
    | none => nearestTotals children

def nearestTotals : List (PlanNode ℚ) → ℚ
  | [] => 0
  | child :: rest => nearestTotal child + nearestTotals rest

end

/-- Every timed node takes at least as long as the nearest timed nodes below it. -/
def Covers (root : PlanNode ℚ) : Prop :=
  ∀ x ∈ root.nodes, ∀ t, x.totalTimeMs = some t → nearestTotals x.children ≤ t

def selfSum (root : PlanNode ℚ) : ℚ :=
  ((root.nodes.filter fun x => x.totalTimeMs.isSome).map fun x => x.selfTimeMs.getD 0).sum

/-- The self times share out the time of the root, and no node has more than its total. -/
def AddsUp (root : PlanNode ℚ) : Prop :=
  some (selfSum (fillSelfTimes root)) = root.totalTimeMs ∧
    ∀ x ∈ (fillSelfTimes root).nodes, ∀ s t,
      x.totalTimeMs = some t → x.selfTimeMs = some s → s ≤ t

/-- No node without a time stands right above one that took time. -/
def TimedBelowTimed (root : PlanNode ℚ) : Prop :=
  ∀ x ∈ root.nodes, x.totalTimeMs = none → ∀ c ∈ x.children, ∀ t, c.totalTimeMs = some t → t = 0

end Definitions

section Fields

variable {n : PlanNode ℚ} {ns : List (PlanNode ℚ)}

theorem nearestTotal_eq (n : PlanNode ℚ) :
    nearestTotal n = n.totalTimeMs.getD (nearestTotals n.children) := by
  cases n with
  | mk operation detail estimatedRows cost actualRows loops total self properties children =>
    cases total <;> simp [nearestTotal]

theorem nearestTotals_eq (ns : List (PlanNode ℚ)) : nearestTotals ns = (ns.map nearestTotal).sum := by
  induction ns with
  | nil => rfl
  | cons n ns ih => rw [nearestTotals, ih, List.map_cons, List.sum_cons]

theorem childTotal_eq (ns : List (PlanNode ℚ)) :
    childTotal ns = (ns.map fun c => c.totalTimeMs.getD 0).sum := by
  rw [childTotal, List.sum_eq_foldl, List.foldl_map]

theorem fillAll_eq (ns : List (PlanNode ℚ)) : fillAll ns = ns.map fillSelfTimes := by
  induction ns with
  | nil => rfl
  | cons n ns ih => rw [fillAll, ih, List.map_cons]

@[simp] theorem fillSelfTimes_total (n : PlanNode ℚ) :
    (fillSelfTimes n).totalTimeMs = n.totalTimeMs := by
  cases n
  rfl

@[simp] theorem fillSelfTimes_children (n : PlanNode ℚ) :
    (fillSelfTimes n).children = n.children.map fillSelfTimes := by
  rw [← fillAll_eq]
  cases n
  rfl

theorem childTotal_filled (ns : List (PlanNode ℚ)) :
    childTotal (ns.map fillSelfTimes) = childTotal ns := by
  simp only [childTotal_eq, List.map_map, Function.comp_def, fillSelfTimes_total]

theorem fillSelfTimes_self {t : ℚ} (ht : n.totalTimeMs = some t) :
    (fillSelfTimes n).selfTimeMs = some (max 0 (t - childTotal n.children)) := by
  rw [← childTotal_filled, ← fillSelfTimes_children]
  cases n
  subst ht
  rfl

theorem Covers.children (h : Covers n) {c : PlanNode ℚ} (hc : c ∈ n.children) : Covers c :=
  fun x hx => h x (mem_nodes.mpr (.inr ⟨c, hc, hx⟩))

theorem Covers.self (h : Covers n) {t : ℚ} (ht : n.totalTimeMs = some t) :
    nearestTotals n.children ≤ t := h n (mem_nodes.mpr (.inl rfl)) t ht

theorem sum_nonneg {f : PlanNode ℚ → ℚ} (h : ∀ c ∈ ns, 0 ≤ f c) : 0 ≤ (ns.map f).sum := by
  refine List.sum_nonneg fun q hq => ?_
  obtain ⟨c, hc, rfl⟩ := List.mem_map.mp hq
  exact h c hc

/-- Covered times are not negative, for a leaf covers nothing. -/
theorem Covers.nearest_nonneg (h : Covers n) : 0 ≤ nearestTotal n := by
  induction n using PlanNode.induction with
  | node n ih =>
    have hchildren : 0 ≤ nearestTotals n.children := by
      rw [nearestTotals_eq]
      exact sum_nonneg fun c hc => ih c hc (h.children hc)
    rw [nearestTotal_eq]
    cases ht : n.totalTimeMs with
    | none => exact hchildren
    | some t => exact hchildren.trans (h.self ht)

theorem Covers.total_le_nearest (h : Covers n) : n.totalTimeMs.getD 0 ≤ nearestTotal n := by
  rw [nearestTotal_eq]
  cases ht : n.totalTimeMs with
  | none =>
    rw [Option.getD_none, Option.getD_none, nearestTotals_eq]
    exact sum_nonneg fun c hc => (h.children hc).nearest_nonneg
  | some t => exact le_rfl

theorem Covers.total_nonneg (h : Covers n) : 0 ≤ n.totalTimeMs.getD 0 := by
  cases ht : n.totalTimeMs with
  | none => exact le_rfl
  | some t =>
    have := h.nearest_nonneg
    rwa [nearestTotal_eq, ht] at this

theorem Covers.childTotal_nonneg (h : Covers n) : 0 ≤ childTotal n.children := by
  rw [childTotal_eq]
  exact sum_nonneg fun c hc => (h.children hc).total_nonneg

/-- The difference of `fillSelfTimes` is not negative. -/
theorem Covers.childTotal_le (h : Covers n) {t : ℚ} (ht : n.totalTimeMs = some t) :
    childTotal n.children ≤ t := by
  refine le_trans ?_ (h.self ht)
  rw [childTotal_eq, nearestTotals_eq]
  exact List.sum_le_sum fun c hc => (h.children hc).total_le_nearest

end Fields

section Sums

variable {n : PlanNode ℚ}

theorem selfSum_eq (n : PlanNode ℚ) : selfSum n =
    (if n.totalTimeMs.isSome then n.selfTimeMs.getD 0 else 0) + (n.children.map selfSum).sum := by
  have hbelow : ∀ ns : List (PlanNode ℚ), (((nodesOf ns).filter fun x => x.totalTimeMs.isSome).map
      fun x => x.selfTimeMs.getD 0).sum = (ns.map selfSum).sum := by
    intro ns
    induction ns with
    | nil => rfl
    | cons n ns ih =>
      rw [nodesOf, List.filter_append, List.map_append, List.sum_append, ih, List.map_cons,
        List.sum_cons]
      rfl
  rw [selfSum, n.nodes_eq, ← hbelow]
  by_cases ht : n.totalTimeMs.isSome = true
  · simp only [List.filter_cons, ht, if_true, List.map_cons, List.sum_cons]
  · simp only [List.filter_cons, ht, Bool.false_eq_true, if_false, zero_add]

mutual

/-- The times that are counted twice: those of timed nodes right below a node without a time. -/
def doubled : PlanNode ℚ → ℚ
  | ⟨_, _, _, _, _, _, total, _, _, children⟩ =>
    (match total with
      | some _ => 0
      | none => childTotal children) + doubledAll children

def doubledAll : List (PlanNode ℚ) → ℚ
  | [] => 0
  | child :: rest => doubled child + doubledAll rest

end

theorem doubled_eq (n : PlanNode ℚ) : doubled n =
    (if n.totalTimeMs.isSome then 0 else childTotal n.children) + (n.children.map doubled).sum := by
  have hall : ∀ ns, doubledAll ns = (ns.map doubled).sum := by
    intro ns
    induction ns with
    | nil => rfl
    | cons n ns ih => rw [doubledAll, ih, List.map_cons, List.sum_cons]
  cases n with
  | mk operation detail estimatedRows cost actualRows loops total self properties children =>
    rw [← hall]
    cases total <;> rfl

/-- What the self times of a covered tree sum to. -/
theorem selfSum_filled (h : Covers n) :
    selfSum (fillSelfTimes n) = n.totalTimeMs.getD 0 + doubled n := by
  induction n using PlanNode.induction with
  | node n ih =>
    have hbelow : ((fillSelfTimes n).children.map selfSum).sum =
        childTotal n.children + (n.children.map doubled).sum := by
      rw [fillSelfTimes_children, List.map_map, childTotal_eq, ← List.sum_map_add]
      exact congrArg List.sum (List.map_congr_left fun c hc => ih c hc (h.children hc))
    rw [selfSum_eq, hbelow, fillSelfTimes_total, doubled_eq]
    cases ht : n.totalTimeMs with
    | none => simp
    | some t =>
      have hle := h.childTotal_le ht
      rw [fillSelfTimes_self ht, Option.isSome_some, if_pos rfl, if_pos rfl, Option.getD_some,
        Option.getD_some, max_eq_right (by linarith)]
      ring

theorem sum_eq_zero_iff {f : PlanNode ℚ → ℚ} {ns : List (PlanNode ℚ)} (h : ∀ c ∈ ns, 0 ≤ f c) :
    (ns.map f).sum = 0 ↔ ∀ c ∈ ns, f c = 0 := by
  induction ns with
  | nil => simp
  | cons n ns ih =>
    obtain ⟨hn, hns⟩ := List.forall_mem_cons.mp h
    rw [List.map_cons, List.sum_cons, List.forall_mem_cons, ← ih hns]
    exact add_eq_zero_iff_of_nonneg hn (sum_nonneg hns)

theorem Covers.doubled_nonneg (h : Covers n) : 0 ≤ doubled n := by
  induction n using PlanNode.induction with
  | node n ih =>
    rw [doubled_eq]
    have hown := h.childTotal_nonneg
    have hbelow := sum_nonneg fun c hc => ih c hc (h.children hc)
    split_ifs
    · rwa [zero_add]
    · exact add_nonneg hown hbelow

theorem Covers.doubled_eq_zero_iff (h : Covers n) : doubled n = 0 ↔ TimedBelowTimed n := by
  induction n using PlanNode.induction with
  | node n ih =>
    have hbelow : (n.children.map doubled).sum = 0 ↔ ∀ c ∈ n.children, TimedBelowTimed c := by
      rw [sum_eq_zero_iff fun c hc => (h.children hc).doubled_nonneg]
      exact forall₂_congr fun c hc => ih c hc (h.children hc)
    have hown : (if n.totalTimeMs.isSome then 0 else childTotal n.children) = 0 ↔
        (n.totalTimeMs = none → ∀ c ∈ n.children, ∀ t, c.totalTimeMs = some t → t = 0) := by
      cases ht : n.totalTimeMs with
      | some t => simp
      | none =>
        rw [if_neg (by simp), forall_prop_of_true rfl, childTotal_eq,
          sum_eq_zero_iff fun c hc => (h.children hc).total_nonneg]
        refine forall₂_congr fun c _ => ?_
        cases c.totalTimeMs <;> simp
    have hnonneg : 0 ≤ if n.totalTimeMs.isSome then 0 else childTotal n.children := by
      split_ifs
      · exact le_rfl
      · exact h.childTotal_nonneg
    rw [doubled_eq, add_eq_zero_iff_of_nonneg hnonneg
      (sum_nonneg fun c hc => (h.children hc).doubled_nonneg), hown, hbelow]
    constructor
    · rintro ⟨hself, hrest⟩ x hx
      rcases mem_nodes.mp hx with rfl | ⟨c, hc, hx⟩
      · exact hself
      · exact hrest c hc x hx
    · intro hall
      exact ⟨hall n (mem_nodes.mpr (.inl rfl)),
        fun c hc x hx => hall x (mem_nodes.mpr (.inr ⟨c, hc, hx⟩))⟩

theorem mem_nodes_filled {n x : PlanNode ℚ} (hx : x ∈ (fillSelfTimes n).nodes) :
    ∃ y ∈ n.nodes, x = fillSelfTimes y := by
  induction n using PlanNode.induction with
  | node n ih =>
    rcases mem_nodes.mp hx with rfl | ⟨c, hc, hx⟩
    · exact ⟨n, mem_nodes.mpr (.inl rfl), rfl⟩
    · rw [fillSelfTimes_children] at hc
      obtain ⟨d, hd, rfl⟩ := List.mem_map.mp hc
      obtain ⟨y, hy, rfl⟩ := ih d hd hx
      exact ⟨y, mem_nodes.mpr (.inr ⟨d, hd, hy⟩), rfl⟩

theorem covers_of_mem {n x : PlanNode ℚ} (h : Covers n) (hx : x ∈ n.nodes) : Covers x := by
  induction n using PlanNode.induction with
  | node n ih =>
    rcases mem_nodes.mp hx with rfl | ⟨c, hc, hx⟩
    · exact h
    · exact ih c hc (h.children hc) hx

/-- The self times of a plan with a timed root add up to its time exactly where no time stands
right below a node without one. -/
theorem self_times_add_up_iff {root : PlanNode ℚ} {t : ℚ} (hroot : root.totalTimeMs = some t)
    (h : Covers root) : AddsUp root ↔ TimedBelowTimed root := by
  rw [← h.doubled_eq_zero_iff, AddsUp, selfSum_filled h, hroot, Option.getD_some]
  constructor
  · rintro ⟨hsum, -⟩
    have := Option.some_inj.mp hsum
    linarith
  · intro hzero
    refine ⟨by rw [hzero, add_zero], fun x hx s t ht hs => ?_⟩
    obtain ⟨y, hy, rfl⟩ := mem_nodes_filled hx
    rw [fillSelfTimes_total] at ht
    have hy := covers_of_mem h hy
    rw [fillSelfTimes_self ht] at hs
    obtain rfl := Option.some_inj.mp hs
    have hchild := hy.childTotal_nonneg
    have hle := hy.childTotal_le ht
    exact max_le (by linarith) (by linarith)

def scanOnly : PlanNode ℚ where
  operation := ['j']
  totalTimeMs := some 10
  children := [{ operation := ['s'], totalTimeMs := some 4 }]

theorem scan_adds_up : AddsUp scanOnly := by
  refine (self_times_add_up_iff (t := 10) rfl fun x hx t ht => ?_).mpr fun x hx ht => ?_
  · simp only [scanOnly, PlanNode.nodes, nodesOf, List.append_nil, List.mem_cons, List.not_mem_nil,
      or_false] at hx
    rcases hx with rfl | rfl
    · obtain rfl := Option.some_inj.mp ht
      norm_num [nearestTotals, nearestTotal]
    · obtain rfl := Option.some_inj.mp ht
      norm_num [nearestTotals]
  · simp only [scanOnly, PlanNode.nodes, nodesOf, List.append_nil, List.mem_cons, List.not_mem_nil,
      or_false] at hx
    rcases hx with rfl | rfl <;> cases ht

/-- The node without a time takes the scan out of the reach of the subtraction. -/
def hashJoin : PlanNode ℚ where
  operation := ['j']
  totalTimeMs := some 10
  children := [{ operation := ['h'], children := [{ operation := ['s'], totalTimeMs := some 4 }] }]

theorem hash_counted_twice : hashJoin.totalTimeMs = some 10 ∧ Covers hashJoin ∧
    selfSum (fillSelfTimes hashJoin) = 14 ∧ ¬AddsUp hashJoin := by
  have hsum : selfSum (fillSelfTimes hashJoin) = 14 := by
    simp [hashJoin, selfSum, fillSelfTimes, fillAll, PlanNode.nodes, nodesOf, childTotal]
    norm_num
  refine ⟨rfl, fun x hx t ht => ?_, hsum, fun h => ?_⟩
  · simp only [hashJoin, PlanNode.nodes, nodesOf, List.append_nil, List.mem_cons, List.not_mem_nil,
      or_false] at hx
    rcases hx with rfl | rfl | rfl
    · obtain rfl := Option.some_inj.mp ht
      norm_num [nearestTotals, nearestTotal]
    · cases ht
    · obtain rfl := Option.some_inj.mp ht
      norm_num [nearestTotals]
  · have := h.1
    rw [hsum, hashJoin] at this
    norm_num at this

end Sums
end DearSql.Explain
