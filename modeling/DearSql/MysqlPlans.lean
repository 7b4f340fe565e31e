import DearSql.ExplainReturns
import DearSql.Outlines
import DearSql.PlanTrees

/-! The tree that `parseMysqlTree` builds from the indentation, with its stack of pointers. -/
namespace DearSql.Explain
open Trees

variable {D : Type}

section Pointers

/-- A pointer into a plan tree: the places among the children, from the root down. -/
abbrev Pointer := List ℕ

/-- `push_back` on the children of the node at `p`, and the place of the new child. -/
def pushBack (new : PlanNode D) : Pointer → PlanNode D → Option (PlanNode D × ℕ)
  | [], node => some ({ node with children := node.children ++ [new] }, node.children.length)
  | i :: p, node => (node.children[i]?).bind fun child =>
      (pushBack new p child).map fun r =>
        ({ node with children := node.children.set i r.1 }, r.2)

/-- The tree so far and the stack of `parseMysqlTree`, its top first. -/
structure Growing (D : Type) where
  root : PlanNode D
  stack : List (ℤ × Pointer)

def Growing.start (root : PlanNode D) : Growing D := ⟨root, [(-1, [])]⟩

/-- One turn of the loop over the lines. -/
def growTurn (s : Growing D) (entry : ℕ × PlanNode D) : Option (Growing D) :=
  let stack := s.stack.dropWhile fun top => (entry.1 : ℤ) ≤ top.1
  match stack with
  | [] => none
  | (_, parent) :: _ => (pushBack entry.2 parent s.root).map fun r =>
      ⟨r.1, (entry.1, parent ++ [r.2]) :: stack⟩

def grow (flat : List (ℕ × PlanNode D)) (root : PlanNode D) : Option (Growing D) :=
  flat.foldlM growTurn (.start root)

/-- The nodes that a `push_back` on the children of the node at `parent` may move. -/
def Moves (parent p : Pointer) : Prop := ∃ i, p = parent ++ [i]

/-- At every turn the new node goes below the node that `parent` points to, and no other pointer
that is kept points to a node that the `push_back` moves. -/
def PointersKept (flat : List (ℕ × PlanNode D)) (root : PlanNode D) : Prop :=
  ∀ pre entry post, flat = pre ++ entry :: post → ∃ s s' parent i, grow pre root = some s ∧
    growTurn s entry = some s' ∧ s'.stack.head? = some ((entry.1 : ℤ), parent ++ [i]) ∧
    pushBack entry.2 parent s.root = some (s'.root, i) ∧
    ∀ kept ∈ s'.stack.tail, ¬Moves parent kept.2

end Pointers

section Stack

variable {root new n : PlanNode D} {z : List (ℕ × PlanNode D)} {e : ℕ × PlanNode D} {depth d : ℕ}

/-- Closing the node `n` of a stack: it goes to the node below it, or to the root. -/
def attach (n : PlanNode D) : List (ℕ × PlanNode D) → PlanNode D → List (ℕ × PlanNode D) × PlanNode D
  | [], root => ([], { root with children := root.children ++ [n] })
  | (d, parent) :: z, root =>
    ((d, { parent with children := parent.children ++ [n] }) :: z, root)

theorem popTo_nil (depth : ℕ) (root : PlanNode D) : popTo depth [] root = ([], root) := by
  rw [popTo]

theorem popTo_cons (depth d : ℕ) (n : PlanNode D) (z : List (ℕ × PlanNode D)) (root : PlanNode D) :
    popTo depth ((d, n) :: z) root =
      if depth ≤ d then popTo depth (attach n z root).1 (attach n z root).2
      else ((d, n) :: z, root) := by
  cases z with
  | nil =>
    rw [popTo]
    split_ifs
    · rw [attach, popTo_nil]
    · rfl
  | cons e z =>
    rw [popTo]
    rfl

/-- The tree when every node of the stack is closed. -/
def closed (z : List (ℕ × PlanNode D)) (root : PlanNode D) : PlanNode D := (popTo 0 z root).2

theorem closed_nil (root : PlanNode D) : closed [] root = root := by
  rw [closed, popTo_nil]

theorem closed_cons (d : ℕ) (n : PlanNode D) (z : List (ℕ × PlanNode D)) (root : PlanNode D) :
    closed ((d, n) :: z) root = closed (attach n z root).1 (attach n z root).2 := by
  rw [closed, popTo_cons, if_pos (Nat.zero_le d), closed]

/-- The children of the innermost open node. -/
def kids : List (ℕ × PlanNode D) → PlanNode D → ℕ
  | [], root => root.children.length
  | (_, n) :: _, _ => n.children.length

/-- Where the innermost open node stands in the tree. -/
def place : List (ℕ × PlanNode D) → PlanNode D → Pointer
  | [], _ => []
  | _ :: z, root => place z root ++ [kids z root]

def pointers : List (ℕ × PlanNode D) → PlanNode D → List (ℤ × Pointer)
  | [], _ => [(-1, [])]
  | (d, n) :: z, root => ((d : ℤ), place ((d, n) :: z) root) :: pointers z root

theorem pointers_attach (n : PlanNode D) (z : List (ℕ × PlanNode D)) (root : PlanNode D) :
    pointers (attach n z root).1 (attach n z root).2 = pointers z root := by
  cases z <;> rfl

theorem pointers_head (z : List (ℕ × PlanNode D)) (root : PlanNode D) :
    ∃ d rest, pointers z root = (d, place z root) :: rest := by
  cases z with
  | nil => exact ⟨-1, [], rfl⟩
  | cons e z => exact ⟨e.1, pointers z root, rfl⟩

/-- The node of the innermost open place is the one on top of the stack. -/
theorem pushBack_at (new n : PlanNode D) (rest : Pointer) (d : ℕ) (z : List (ℕ × PlanNode D))
    (root : PlanNode D) :
    pushBack new (place ((d, n) :: z) root ++ rest) (closed ((d, n) :: z) root) =
      (pushBack new rest n).map fun r => (closed ((d, r.1) :: z) root, r.2) := by
  induction z generalizing d n rest with
  | nil =>
    have hlast : (root.children ++ [n])[root.children.length]? = some n := by simp
    have hset : ∀ n', (root.children ++ [n]).set root.children.length n' = root.children ++ [n'] := by
      simp
    simp only [place, kids, List.nil_append, List.singleton_append, closed_cons, attach, closed_nil,
      pushBack, hlast, Option.bind_some, hset]
  | cons e z ih =>
    obtain ⟨d', parent⟩ := e
    have hlast : (parent.children ++ [n])[parent.children.length]? = some n := by simp
    have hset : ∀ n', (parent.children ++ [n]).set parent.children.length n' =
        parent.children ++ [n'] := by
      simp
    have hplace : place ((d, n) :: (d', parent) :: z) root ++ rest =
        place ((d', { parent with children := parent.children ++ [n] }) :: z) root ++
          (parent.children.length :: rest) := by
      simp [place, kids]
    rw [hplace, closed_cons, attach, ih, pushBack, hlast, Option.bind_some, Option.map_map]
    congr 1
    funext r
    rw [Function.comp, hset]
    simp only [closed_cons, attach]

/-- Below the innermost open node a new one is open. -/
theorem pushBack_place (new : PlanNode D) (d : ℕ) (z : List (ℕ × PlanNode D)) (root : PlanNode D) :
    pushBack new (place z root) (closed z root) =
      some (closed ((d, new) :: z) root, kids z root) := by
  cases z with
  | nil => rw [place, pushBack, closed_nil, closed_cons, attach, closed_nil]; rfl
  | cons e z =>
    obtain ⟨d', n⟩ := e
    have h := pushBack_at new n [] d' z root
    rw [List.append_nil] at h
    rw [h, pushBack, Option.map_some, closed_cons d, attach]
    rfl

theorem length_place (z : List (ℕ × PlanNode D)) (root : PlanNode D) :
    (place z root).length = z.length := by
  induction z with
  | nil => rfl
  | cons e z ih => simp [place, ih]

theorem length_le_of_mem_pointers {p : ℤ × Pointer} (h : p ∈ pointers z root) :
    p.2.length ≤ z.length := by
  induction z with
  | nil => simp [pointers] at h; simp [h]
  | cons e z ih =>
    rcases List.mem_cons.mp h with rfl | h
    · simp [length_place]
    · exact (ih h).trans (by simp)

/-- Popping closes nodes: the tree stays, and so do the pointers below them. -/
theorem popTo_spec (depth : ℕ) (z : List (ℕ × PlanNode D)) (root : PlanNode D) :
    closed (popTo depth z root).1 (popTo depth z root).2 = closed z root ∧
      pointers (popTo depth z root).1 (popTo depth z root).2 =
        (pointers z root).dropWhile fun top => (depth : ℤ) ≤ top.1 := by
  induction hlen : z.length generalizing z root with
  | zero =>
    obtain rfl := List.length_eq_zero_iff.mp hlen
    rw [popTo_nil]
    exact ⟨rfl, by simp [pointers, List.dropWhile_cons]; omega⟩
  | succ k ih =>
    obtain ⟨⟨d, n⟩, z, rfl⟩ := List.exists_cons_of_length_eq_add_one hlen
    have hattach : (attach n z root).1.length = k := by
      rw [List.length_cons] at hlen
      cases z <;> simp only [attach, List.length_nil, List.length_cons] at hlen ⊢ <;> omega
    obtain ⟨hclosed, hpointers⟩ := ih _ (attach n z root).2 hattach
    rw [popTo_cons, pointers, List.dropWhile_cons]
    split_ifs with hd hd' hd'
    · rw [hclosed, hpointers, pointers_attach, closed_cons]
      exact ⟨rfl, rfl⟩
    · simp at hd'
      omega
    · simp at hd'
      omega
    · exact ⟨rfl, rfl⟩

end Stack

section Growth

variable {root : PlanNode D} {z : List (ℕ × PlanNode D)} {e : ℕ × PlanNode D}

/-- The state with pointers that a stack of open nodes stands for. -/
def pointed (z : List (ℕ × PlanNode D)) (root : PlanNode D) : Growing D :=
  ⟨closed z root, pointers z root⟩

/-- One turn of the loop over a stack of open nodes. -/
def enter (st : List (ℕ × PlanNode D) × PlanNode D) (entry : ℕ × PlanNode D) :
    List (ℕ × PlanNode D) × PlanNode D :=
  (entry :: (popTo entry.1 st.1 st.2).1, (popTo entry.1 st.1 st.2).2)

theorem treeOf_eq (flat : List (ℕ × PlanNode D)) (root : PlanNode D) : treeOf flat root =
    closed (flat.foldl enter ([], root)).1 (flat.foldl enter ([], root)).2 := rfl

theorem growTurn_pointed (st : List (ℕ × PlanNode D) × PlanNode D) (e : ℕ × PlanNode D) :
    growTurn (pointed st.1 st.2) e =
      some (pointed (enter st e).1 (enter st e).2) := by
  obtain ⟨hclosed, hpointers⟩ := popTo_spec e.1 st.1 st.2
  obtain ⟨d, rest, hhead⟩ := pointers_head (popTo e.1 st.1 st.2).1 (popTo e.1 st.1 st.2).2
  have hpush := pushBack_place e.2 e.1 (popTo e.1 st.1 st.2).1 (popTo e.1 st.1 st.2).2
  rw [hclosed] at hpush
  rw [growTurn, pointed, ← hpointers, hhead]
  simp only [hpush, Option.map_some, enter, pointed, pointers, hhead, place]

theorem grow_eq (flat : List (ℕ × PlanNode D)) (root : PlanNode D) : grow flat root =
    some (pointed (flat.foldl enter ([], root)).1 (flat.foldl enter ([], root)).2) := by
  have hrun : ∀ st : List (ℕ × PlanNode D) × PlanNode D,
      flat.foldlM growTurn (pointed st.1 st.2) =
        some (pointed (flat.foldl enter st).1 (flat.foldl enter st).2) := by
    induction flat with
    | nil => exact fun st => rfl
    | cons e flat ih =>
      intro st
      rw [List.foldlM_cons, growTurn_pointed]
      exact ih (enter st e)
  have hstart : Growing.start root = pointed [] root := by
    rw [Growing.start, pointed, closed_nil, pointers]
  rw [grow, hstart]
  exact hrun ([], root)

/-- The loop with pointers builds the tree. -/
theorem grow_treeOf (flat : List (ℕ × PlanNode D)) (root : PlanNode D) :
    (grow flat root).map Growing.root = some (treeOf flat root) := by
  rw [grow_eq, treeOf_eq]
  rfl

theorem pointersKept (flat : List (ℕ × PlanNode D)) (root : PlanNode D) :
    PointersKept flat root := by
  intro pre e post _
  let st := pre.foldl enter ([], root)
  obtain ⟨hclosed, -⟩ := popTo_spec e.1 st.1 st.2
  have hpush := pushBack_place e.2 e.1 (popTo e.1 st.1 st.2).1 (popTo e.1 st.1 st.2).2
  rw [hclosed] at hpush
  refine ⟨_, _, place (popTo e.1 st.1 st.2).1 (popTo e.1 st.1 st.2).2, _, grow_eq pre root,
    growTurn_pointed st e, rfl, hpush, ?_⟩
  -- a pointer that is kept is no longer than the one to the parent
  rintro kept hkept ⟨i, hi⟩
  have hlen := length_le_of_mem_pointers hkept
  rw [hi, List.length_append, length_place, List.length_singleton] at hlen
  omega

end Growth

section Outline

variable {α : Type*} {d : α → ℕ} {f : α → PlanNode D}

def PlanNode.add (n : PlanNode D) (below : List (PlanNode D)) : PlanNode D :=
  { n with children := n.children ++ below }

theorem PlanNode.add_nil (n : PlanNode D) : n.add [] = n := by
  cases n
  rw [add, List.append_nil]

theorem PlanNode.add_add (n : PlanNode D) (cs cs' : List (PlanNode D)) :
    (n.add cs).add cs' = n.add (cs ++ cs') := by
  rw [add, add, add, List.append_assoc]

/-- The tree once the entries `as` have been read from a stack of open nodes. -/
def finish (d : α → ℕ) (f : α → PlanNode D) (st : List (ℕ × PlanNode D) × PlanNode D) (as : List α) :
    PlanNode D :=
  closed ((as.map fun a => (d a, f a)).foldl enter st).1
    ((as.map fun a => (d a, f a)).foldl enter st).2

theorem finish_cons (st : List (ℕ × PlanNode D) × PlanNode D) (a : α) (as : List α) :
    finish d f st (a :: as) = finish d f (enter st (d a, f a)) as := rfl

/-- Closing the innermost node first makes no difference to an entry that is not deeper. -/
theorem enter_attach {depth k : ℕ} (h : depth ≤ k) (n new : PlanNode D)
    (z : List (ℕ × PlanNode D)) (root : PlanNode D) :
    enter ((k, n) :: z, root) (depth, new) = enter (attach n z root) (depth, new) := by
  rw [enter, popTo_cons, if_pos h]
  rfl

theorem enter_deeper {depth k : ℕ} (h : k < depth) (n new : PlanNode D)
    (z : List (ℕ × PlanNode D)) (root : PlanNode D) :
    enter ((k, n) :: z, root) (depth, new) = ((depth, new) :: (k, n) :: z, root) := by
  rw [enter, popTo_cons, if_neg (by simp only; omega)]

theorem toPlans_outline_cons (hf : ∀ a, (f a).children = []) (a : α) (as : List α) :
    toPlans f (outline d (a :: as)) =
      (f a).add (toPlans f (outline d (as.takeWhile fun x => d a < d x))) ::
        toPlans f (outline d (as.dropWhile fun x => d a < d x)) := by
  rw [outline_cons, toPlans, toPlan, PlanNode.add, hf, List.nil_append]

/-- The entries that are deeper than the innermost node go below it, and then it is closed. -/
theorem finish_open (hf : ∀ a, (f a).children = []) {b : α} (n : PlanNode D)
    (z : List (ℕ × PlanNode D)) (root : PlanNode D) (as : List α) :
    finish d f ((d b, n) :: z, root) as =
      finish d f (attach (n.add (toPlans f (outline d (as.takeWhile fun x => d b < d x)))) z root)
        (as.dropWhile fun x => d b < d x) := by
  induction hlen : as.length using Nat.strong_induction_on generalizing as b n z root with
  | _ k ih =>
    subst hlen
    cases as with
    | nil =>
      rw [List.takeWhile_nil, List.dropWhile_nil, outline, toPlans, PlanNode.add_nil]
      simp only [finish, List.map_nil, List.foldl_nil, closed_cons]
    | cons a as =>
      by_cases hab : d b < d a
      · rw [finish_cons, enter_deeper hab, ih _ (Nat.lt_succ_self _) _ _ _ _ rfl, attach,
          ← PlanNode.add, ih _ (Nat.lt_succ_of_le (List.dropWhile_sublist _).length_le) _ _ _ _ rfl,
          dropWhile_deeper hab.le, PlanNode.add_add, ← takeWhile_dropWhile_deeper hab.le]
        simp only [List.takeWhile_cons, List.dropWhile_cons, hab, decide_true, if_true]
        rw [toPlans_outline_cons hf, takeWhile_deeper hab.le]
        rfl
      · simp only [List.takeWhile_cons, List.dropWhile_cons, hab, decide_false,
          Bool.false_eq_true, if_false]
        rw [outline, toPlans, PlanNode.add_nil, finish_cons, finish_cons,
          enter_attach (not_lt.mp hab)]

theorem finish_root (hf : ∀ a, (f a).children = []) (root : PlanNode D) (as : List α) :
    finish d f ([], root) as = root.add (toPlans f (outline d as)) := by
  induction hlen : as.length using Nat.strong_induction_on generalizing as root with
  | _ k ih =>
    subst hlen
    cases as with
    | nil =>
      rw [outline, toPlans, PlanNode.add_nil]
      simp only [finish, List.map_nil, List.foldl_nil, closed_nil]
    | cons a as =>
      have henter : enter ([], root) (d a, f a) = ([(d a, f a)], root) := by
        rw [enter, popTo_nil]
      rw [finish_cons, henter, finish_open hf, attach, ← PlanNode.add,
        ih _ (Nat.lt_succ_of_le (List.dropWhile_sublist _).length_le) _ _ rfl, PlanNode.add_add,
        toPlans_outline_cons hf]
      rfl

/-- The tree is the forest of the indented list. -/
theorem treeOf_outline (hf : ∀ a, (f a).children = []) (root : PlanNode D) (as : List α) :
    treeOf (as.map fun a => (d a, f a)) root = root.add (toPlans f (outline d as)) := by
  rw [treeOf_eq, ← finish_root hf]
  rfl

end Outline

section Lines

def queryRoot : PlanNode D := { operation := "Query".toList }

def columnAt (entries : List (ℕ × PlanNode D)) (i : ℕ) : ℕ := (entries.map Prod.fst).getD i 0

def nodeAt (entries : List (ℕ × PlanNode D)) (i : ℕ) : PlanNode D :=
  (entries.map Prod.snd).getD i queryRoot

/-- The last line before line `i` whose arrow stands further left. -/
def lineAbove (column : ℕ → ℕ) (i : ℕ) : Option ℕ :=
  (List.range i).reverse.find? fun j => column j < column i

/-- The only child of the synthetic root, or the root. -/
def dropRoot : List (PlanNode D) → PlanNode D
  | [child] => child
  | children => { queryRoot with children }

variable {entries : List (ℕ × PlanNode D)}

theorem entries_eq (entries : List (ℕ × PlanNode D)) :
    (List.range entries.length).map (fun i => (columnAt entries i, nodeAt entries i)) = entries := by
  apply List.ext_getElem (by simp)
  intro i hi hi'
  simp [columnAt, nodeAt, hi']

theorem dropRoot_eq (children : List (PlanNode D)) :
    (match (queryRoot.add children).children with
      | [child] => child
      | _ => queryRoot.add children) = dropRoot children := by
  rcases children with _ | ⟨c, _ | ⟨c', cs⟩⟩ <;> rfl

theorem nodeAt_children (h : ∀ e ∈ entries, e.2.children = []) (i : ℕ) :
    (nodeAt entries i).children = [] := by
  rw [nodeAt, List.getD_eq_getElem?_getD, List.getElem?_map]
  cases hi : entries[i]? with
  | none => rfl
  | some e => exact h e (List.mem_of_getElem? hi)

/-- The tree of the entries by the columns of their arrows. -/
theorem treeOf_entries (h : ∀ e ∈ entries, e.2.children = []) :
    treeOf entries queryRoot =
      queryRoot.add (toPlans (nodeAt entries) (outline (columnAt entries) (List.range entries.length))) := by
  rw [← treeOf_outline (nodeAt_children h), entries_eq]

theorem withNearest_range (d : ℕ → ℕ) (n : ℕ) : withNearest d [] (List.range n) =
    (List.range n).map fun i => (i, lineAbove d i) := by
  induction n with
  | zero => rfl
  | succ n ih =>
    rw [List.range_succ, withNearest_append, ih, List.map_append, List.append_nil]
    rfl

variable [Zero D] [Mul D] (lib : Lib D)

/-- The column of the arrow and the node of every line. -/
def ReadAs (lines : List Text) (entries : List (ℕ × PlanNode D)) : Prop :=
  List.Forall₂ (fun line e => find "-> ".toList line = some e.1 ∧
    mysqlNode lib (line.drop (e.1 + 3)) = .ok e.2) lines entries

/-- Read in preorder, the plan has the lines in order, each below the nearest line before it that
is less deep, and the pointers of the loop are kept. -/
def FollowsIndentation (lines : List Text) (plan : Plan D) : Prop :=
  ∃ entries, ReadAs lib lines entries ∧ PointersKept entries queryRoot ∧
    (grow entries queryRoot).map Growing.root = some (treeOf entries queryRoot) ∧
    ∃ forest : List (Rose ℕ), parenteds none forest =
        (List.range lines.length).map (fun i => (i, lineAbove (columnAt entries) i)) ∧
      plan.root = dropRoot (toPlans (nodeAt entries) forest)

variable {lib} {lines : List Text} {flat flat' : List (ℕ × PlanNode D)} {text : Text}
  {n : PlanNode D}

theorem mysqlNode_children (h : mysqlNode lib text = .ok n) : n.children = [] := by
  rw [mysqlNode] at h
  obtain ⟨c, -, h⟩ := bind_eq_ok h
  obtain ⟨a, -, h⟩ := bind_eq_ok h
  cases h
  rfl

theorem ReadAs.children (h : ReadAs lib lines entries) : ∀ e ∈ entries, e.2.children = [] := by
  induction h with
  | nil => simp
  | cons hline _ ih => exact List.forall_mem_cons.mpr ⟨mysqlNode_children hline.2, ih⟩

theorem mysqlLine_arrow {line : Text} {arrow : ℕ} (h : find "-> ".toList line = some arrow)
    (flat : List (ℕ × PlanNode D)) : mysqlLine lib flat line =
      (mysqlNode lib (line.drop (arrow + 3))).bind fun n => .ok (flat ++ [(arrow, n)]) := by
  rw [mysqlLine, h]
  rfl

/-- The loop over lines that have an arrow ends only where they read as nodes. -/
theorem readAs_of_foldlM (harrow : ∀ line ∈ lines, (find "-> ".toList line).isSome = true)
    (h : lines.foldlM (mysqlLine lib) flat = .ok flat') :
    ∃ entries, ReadAs lib lines entries ∧ flat' = flat ++ entries := by
  induction lines generalizing flat with
  | nil =>
    cases h
    exact ⟨[], .nil, by simp⟩
  | cons line lines ih =>
    rw [List.forall_mem_cons] at harrow
    obtain ⟨arrow, hfind⟩ := Option.isSome_iff_exists.mp harrow.1
    rw [List.foldlM_cons] at h
    obtain ⟨next, hline, h⟩ := bind_eq_ok h
    rw [mysqlLine_arrow hfind] at hline
    obtain ⟨n, hnode, hnext⟩ := bind_eq_ok hline
    obtain rfl := Except.ok.inj hnext
    obtain ⟨entries, hread, rfl⟩ := ih harrow.2 h
    exact ⟨(arrow, n) :: entries, .cons ⟨hfind, hnode⟩ hread, by simp⟩

theorem ReadAs.follows (h : ReadAs lib lines entries) {plan : Plan D}
    (hplan : plan.root = match (treeOf entries queryRoot).children with
      | [child] => child
      | _ => treeOf entries queryRoot) : FollowsIndentation lib lines plan := by
  let forest := outline (columnAt entries) (List.range lines.length)
  have hlength : lines.length = entries.length := h.length_eq
  have htree : treeOf entries queryRoot = queryRoot.add (toPlans (nodeAt entries) forest) := by
    rw [treeOf_entries h.children, ← hlength]
  refine ⟨entries, h, pointersKept entries queryRoot, grow_treeOf entries queryRoot, forest, ?_, ?_⟩
  · rw [parenteds_outline, withNearest_range]
  · rw [hplan, htree, dropRoot_eq]

/-- Where every line has an arrow, the plan follows the indentation; there is none where there is
no line, and the parser throws where a numeral does not convert. -/
theorem plan_follows_indentation {r : StatementResult} (analyzed : Bool)
    (harrow : ∀ line ∈ getlines (firstColumn r), (find "-> ".toList line).isSome = true) :
    match parseMysqlTree lib r analyzed with
    | .error _ => ¬MysqlReadable lib r
    | .ok none => getlines (firstColumn r) = []
    | .ok (some plan) => FollowsIndentation lib (getlines (firstColumn r)) plan := by
  cases hparse : parseMysqlTree lib r analyzed with
  | error e =>
    intro hread
    obtain ⟨plan, hplan⟩ := (ok_parseMysqlTree lib r analyzed).mpr hread
    rw [hparse] at hplan
    cases hplan
  | ok plan =>
    cases hfold : (getlines (firstColumn r)).foldlM (mysqlLine lib) [] with
    | error e => simp [parseMysqlTree, hfold, Bind.bind, Except.bind] at hparse
    | ok flat =>
      obtain ⟨entries, hread, hflat⟩ := readAs_of_foldlM harrow hfold
      obtain rfl : flat = entries := hflat
      simp only [parseMysqlTree, hfold, Bind.bind, Except.bind] at hparse
      cases flat with
      | nil =>
        obtain rfl := Except.ok.inj hparse
        exact List.forall₂_nil_right_iff.mp hread
      | cons e flat =>
        obtain rfl := Except.ok.inj hparse
        exact hread.follows rfl

def exactLib : Lib ℚ := ⟨fun _ => none, fun _ => [], fun _ => [], fun _ => [], some⟩

/-- A column between two that are there. -/
def joinResult : StatementResult where
  columnNames := [['E']]
  tableData := [["-> j\n    -> a\n  -> b".toList]]

theorem join_follows_indentation : ∃ plan, parseMysqlTree exactLib joinResult false =
    .ok (some plan) ∧ FollowsIndentation exactLib (getlines (firstColumn joinResult)) plan := by
  have hlines : ∀ line ∈ getlines (firstColumn joinResult),
      (find "-> ".toList line).isSome = true := by decide
  exact ⟨_, rfl, plan_follows_indentation false hlines⟩

end Lines
end DearSql.Explain
