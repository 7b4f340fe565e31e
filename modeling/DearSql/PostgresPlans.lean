import DearSql.ExplainReturns

/-! The plan tree of PostgreSQL against the JSON it is read from: the plan objects and the nodes by
their addresses, which times are multiplied and which keys are reported. -/
namespace DearSql.Explain

variable {D : Type}

section Addresses

/-- The plan objects right below one. -/
def Json.plans (j : Json D) : List (Json D) :=
  match j.find "Plans".toList with
  | some (.array items) => items
  | _ => []

/-- The plan object at an address, which says which child to take at each level. -/
def Json.planAt (j : Json D) : List ℕ → Option (Json D)
  | [] => some j
  | i :: path => (j.plans[i]?).bind fun child => child.planAt path

def PlanNode.nodeAt (n : PlanNode D) : List ℕ → Option (PlanNode D)
  | [] => some n
  | i :: path => (n.children[i]?).bind fun child => child.nodeAt path

def Json.keys : Json D → List Text
  | .object fields => fields.map Prod.fst
  | _ => []

def Json.isGather (j : Json D) : Bool := "Gather".toList.isPrefixOf (textOr j "Node Type".toList [])

/-- Some plan object above the one at the address is a Gather. -/
def BelowGather (j : Json D) (path : List ℕ) : Prop :=
  ∃ above o, above <+: path ∧ above ≠ path ∧ j.planAt above = some o ∧ o.isGather = true

variable {j : Json D} {i : ℕ} {path : List ℕ}

theorem not_belowGather_nil : ¬BelowGather j [] := by
  rintro ⟨above, o, hpre, hne, -⟩
  exact hne (List.prefix_nil.mp hpre)

theorem belowGather_cons : BelowGather j (i :: path) ↔
    j.isGather = true ∨ ∃ child, j.plans[i]? = some child ∧ BelowGather child path := by
  constructor
  · rintro ⟨above, o, hpre, hne, hat, hgather⟩
    cases above with
    | nil =>
      obtain rfl := Option.some_inj.mp hat
      exact .inl hgather
    | cons k above =>
      obtain ⟨rfl, hbelow⟩ := List.cons_prefix_cons.mp hpre
      obtain ⟨child, hchild, hat⟩ := Option.bind_eq_some_iff.mp hat
      exact .inr ⟨child, hchild, above, o, hbelow, fun he => hne (he ▸ rfl), hat, hgather⟩
  · rintro (hgather | ⟨child, hchild, above, o, hpre, hne, hat, hgather⟩)
    · exact ⟨[], j, List.nil_prefix, List.cons_ne_nil i path |>.symm, rfl, hgather⟩
    · refine ⟨i :: above, o, List.cons_prefix_cons.mpr ⟨rfl, hpre⟩, fun he => hne (List.cons.inj he).2,
        ?_, hgather⟩
      rw [Json.planAt, hchild]
      exact hat

end Addresses

section Nodes

variable [One D] [Mul D] {lib : Lib D} {j : Json D} {n : PlanNode D} {parallel : Bool}

/-- What `postgresNode` makes of a plan object, whose time is wall time where `wall` holds. -/
structure NodeOf (o : Json D) (wall : Prop) (n : PlanNode D) : Prop where
  wallTime : wall → n.totalTimeMs = number o "Actual Total Time".toList
  loopTime : ¬wall → n.totalTimeMs = (number o "Actual Total Time".toList).map fun perLoop =>
    perLoop * (number o "Actual Loops".toList).getD 1
  properties : n.properties.map Prod.fst = o.keys.filter fun key => !shown.contains key

theorem NodeOf.congr {o : Json D} {wall wall' : Prop} (h : NodeOf o wall n) (hiff : wall ↔ wall') :
    NodeOf o wall' n :=
  ⟨fun hw => h.wallTime (hiff.mpr hw), fun hw => h.loopTime fun hw' => hw (hiff.mp hw'), h.properties⟩

omit [One D] [Mul D] in
theorem keys_propertiesOf (lib : Lib D) (j : Json D) :
    (propertiesOf lib j).map Prod.fst = j.keys.filter fun key => !shown.contains key := by
  cases j with
  | object fields =>
    rw [propertiesOf, Json.keys, List.map_map, List.filter_map]
    rfl
  | null | boolean _ | number _ _ | string _ | array _ => rfl

theorem nodeOf_ownNode (h : ownNode lib j parallel = .ok n) : NodeOf j (parallel = true) n := by
  obtain ⟨operation, -, h⟩ := bind_eq_ok h
  obtain ⟨detail, -, h⟩ := bind_eq_ok h
  obtain rfl := Except.ok.inj h
  refine ⟨fun hw => ?_, fun hw => ?_, keys_propertiesOf lib j⟩
  · simp [hw]
  · simp [hw]

omit [One D] [Mul D] in
theorem below_of_gathers {below : Bool} (h : gathers j parallel = .ok below) :
    below = (parallel || j.isGather) := by
  unfold gathers at h
  split_ifs at h with hparallel
  · rw [hparallel, Bool.true_or]
    exact (Except.ok.inj h).symm
  · have htype : ∀ t, valueText j "Node Type".toList [] = .ok t → t = textOr j "Node Type".toList [] := by
      intro t ht
      unfold valueText at ht
      unfold textOr
      cases j with
      | object fields =>
        simp only at ht
        split at ht
        · obtain rfl := Except.ok.inj ht
          simp_all
        · obtain rfl := Except.ok.inj ht
          simp_all
        · cases ht
      | null | boolean _ | number _ _ | string _ | array _ => cases ht
    cases hvalue : valueText j "Node Type".toList [] with
    | error e =>
      rw [hvalue] at h
      cases h
    | ok t =>
      rw [hvalue] at h
      obtain rfl := Except.ok.inj h
      rw [Bool.eq_false_iff.mpr hparallel, Bool.false_or, Json.isGather, htype t hvalue]

theorem plansOf_eq (lib : Lib D) (fields : List (Text × Json D)) (below : Bool) :
    plansOf lib fields below = postgresNodes lib (Json.object fields).plans below := by
  induction fields with
  | nil => rfl
  | cons f fields ih =>
    obtain ⟨key, v⟩ := f
    unfold plansOf
    by_cases hkey : key = "Plans".toList
    · have hfind : (Json.object ((key, v) :: fields)).find "Plans".toList = some v := by
        simp [Json.find, hkey]
      rw [if_pos hkey, Json.plans, hfind]
      cases v <;> rfl
    · have hfind : (Json.object ((key, v) :: fields)).find "Plans".toList =
          (Json.object fields).find "Plans".toList := by
        simp only [Json.find, List.find?_cons, hkey, decide_false]
      rw [if_neg hkey, ih, Json.plans, Json.plans, hfind]

/-- A node has the fields of its object, and the nodes of the objects below it. -/
theorem of_postgresNode (h : postgresNode lib j parallel = .ok n) :
    NodeOf j (parallel = true) n ∧
      postgresNodes lib j.plans (parallel || j.isGather) = .ok n.children := by
  cases j with
  | object fields =>
    rw [postgresNode] at h
    obtain ⟨own, hown, h⟩ := bind_eq_ok h
    obtain ⟨below, hbelow, h⟩ := bind_eq_ok h
    obtain ⟨children, hchildren, h⟩ := bind_eq_ok h
    obtain rfl := Except.ok.inj h
    rw [plansOf_eq, below_of_gathers hbelow] at hchildren
    obtain ⟨hwall, hloop, hproperties⟩ := nodeOf_ownNode hown
    exact ⟨⟨hwall, hloop, hproperties⟩, hchildren⟩
  | null | boolean _ | number _ _ | string _ | array _ =>
    exact absurd ⟨n, h⟩ (ok_ownNode_of_not_object lib rfl).mp

theorem of_postgresNodes {items : List (Json D)} {nodes : List (PlanNode D)} {below : Bool}
    (h : postgresNodes lib items below = .ok nodes) :
    List.Forall₂ (fun child node => postgresNode lib child below = .ok node) items nodes := by
  induction items generalizing nodes with
  | nil =>
    obtain rfl := Except.ok.inj h
    exact .nil
  | cons child items ih =>
    obtain ⟨node, hnode, h⟩ := bind_eq_ok h
    obtain ⟨rest, hrest, h⟩ := bind_eq_ok h
    obtain rfl := Except.ok.inj h
    exact .cons hnode (ih hrest)

/-- Below each address the tree goes on as the document does. -/
theorem nodeAt_postgresNode (path : List ℕ) (h : postgresNode lib j parallel = .ok n) :
    (n.nodeAt path).isSome = (j.planAt path).isSome ∧
      ∀ o m, j.planAt path = some o → n.nodeAt path = some m →
        NodeOf o (parallel = true ∨ BelowGather j path) m := by
  induction path generalizing j n parallel with
  | nil =>
    refine ⟨rfl, fun o m ho hm => ?_⟩
    obtain rfl := Option.some_inj.mp ho
    obtain rfl := Option.some_inj.mp hm
    exact (of_postgresNode h).1.congr (or_iff_left not_belowGather_nil).symm
  | cons i path ih =>
    have hchildren := of_postgresNodes (of_postgresNode h).2
    have hlen := hchildren.length_eq
    cases hplan : j.plans[i]? with
    | none =>
      have hnone : n.children[i]? = none := by
        rw [List.getElem?_eq_none_iff] at hplan ⊢
        omega
      simp [Json.planAt, PlanNode.nodeAt, hplan, hnone]
    | some child =>
      obtain ⟨hi, hchild⟩ := List.getElem?_eq_some_iff.mp hplan
      have hi' : i < n.children.length := by omega
      have hnode := hchildren.get hi hi'
      simp only [List.get_eq_getElem, hchild] at hnode
      obtain ⟨hsome, hnodes⟩ := ih hnode
      have hget : n.children[i]? = some n.children[i] := List.getElem?_eq_getElem hi'
      rw [Json.planAt, PlanNode.nodeAt, hplan, hget, Option.bind_some, Option.bind_some]
      refine ⟨hsome, fun o m ho hm => (hnodes o m ho hm).congr ?_⟩
      rw [Bool.or_eq_true, belowGather_cons, or_assoc]
      refine or_congr_right (or_congr_right ?_)
      rw [hplan]
      simp

/-- One node for every plan object, at the same address: its time is multiplied by the loops unless
it is below a Gather, and its properties are the keys that are not `shown`. -/
theorem postgresNode_mirrors (lib : Lib D) (hj : Readable j) :
    ∃ n, postgresNode lib j false = .ok n ∧ ∀ path,
      (n.nodeAt path).isSome = (j.planAt path).isSome ∧
      ∀ o m, j.planAt path = some o → n.nodeAt path = some m →
        NodeOf o (BelowGather j path) m ∧
          (o.keys.Nodup → (m.properties.map Prod.fst).Nodup) := by
  obtain ⟨n, hn⟩ := (ok_postgresNode lib j false).mpr hj
  refine ⟨n, hn, fun path => ?_⟩
  obtain ⟨hsome, hnodes⟩ := nodeAt_postgresNode path hn
  refine ⟨hsome, fun o m ho hm => ?_⟩
  have hnode : NodeOf o (BelowGather j path) m := (hnodes o m ho hm).congr (by simp)
  refine ⟨hnode, fun hnodup => ?_⟩
  rw [hnode.properties]
  exact hnodup.filter _

end Nodes

section Plans

/-- A library that writes nothing; numbers are exact. -/
def bareLib : Lib ℚ := ⟨fun _ => none, fun _ => [], fun _ => [], fun _ => [], some⟩

def seqScan : Json ℚ := .object [("Actual Loops".toList, .number false 3),
  ("Actual Total Time".toList, .number true 10), ("Node Type".toList, .string "Seq Scan".toList)]

def gatherPlan : Json ℚ := .object [("Actual Loops".toList, .number false 1),
  ("Actual Total Time".toList, .number true 12), ("Node Type".toList, .string "Gather".toList),
  ("Plans".toList, .array [seqScan])]

theorem readable_gatherPlan : Readable gatherPlan := by
  have hreads (scan : Json ℚ) (hs : scan = gatherPlan ∨ scan = seqScan) :
      readsOperation scan ∧ readsDetail scan := by
    rcases hs with rfl | rfl <;> exact ⟨⟨rfl, rfl, fun _ => rfl, rfl⟩, rfl, ⟨rfl, fun _ => rfl⟩, rfl⟩
  exact ⟨(hreads _ (.inl rfl)).1, (hreads _ (.inl rfl)).2, ⟨(hreads _ (.inr rfl)).1, (hreads _ (.inr rfl)).2,
    trivial⟩, trivial⟩

/-- The time of a scan below a Gather. -/
theorem postgresNode_mirrors_gather : ∃ n m, postgresNode bareLib gatherPlan false = .ok n ∧
    n.nodeAt [0] = some m ∧ m.totalTimeMs = some 10 := by
  obtain ⟨n, hn, hnodes⟩ := postgresNode_mirrors bareLib readable_gatherPlan
  obtain ⟨hsome, hnode⟩ := hnodes [0]
  have hplan : gatherPlan.planAt [0] = some seqScan := rfl
  rw [hplan] at hsome
  obtain ⟨m, hm⟩ := Option.isSome_iff_exists.mp hsome
  have hbelow : BelowGather gatherPlan [0] :=
    ⟨[], gatherPlan, List.nil_prefix, List.cons_ne_nil 0 [] |>.symm, rfl, rfl⟩
  exact ⟨n, m, hn, hm, (hnode seqScan m hplan hm).1.wallTime hbelow⟩

/-- With a start-up cost and without one the node is the same. -/
theorem startup_cost_unseen : ∃ n, n.properties = [] ∧
    postgresNode bareLib (.object [("Node Type".toList, .string "Result".toList)]) false = .ok n ∧
    postgresNode bareLib (.object [("Node Type".toList, .string "Result".toList),
      ("Startup Cost".toList, .number true 1)]) false = .ok n :=
  ⟨{ operation := "Result".toList }, rfl, rfl, rfl⟩

end Plans
end DearSql.Explain
