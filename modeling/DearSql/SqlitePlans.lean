import DearSql.ExplainReturns
import DearSql.PlanTrees

/-! The tree that `parseSqlite` builds from the links of the rows to their parents. -/
namespace DearSql.Explain
open Trees Acyclic Relation

variable {D : Type} {rows : List PlanRow} {p : ℤ}

section Ends

/-- The recursion of `parseSqlite` comes to an end exactly where the rows form no cycle below the
parent 0; a row that is its own parent is none. -/
theorem build_returns_iff (D : Type) (rows : List PlanRow) :
    (∃ fuel, (build rows fuel 0 0 : Option (List (PlanNode D) × Text)).isSome = true) ↔
      NoCycleFrom (Under rows) 0 := by
  have finite : ({q | q ∈ rows.map (·.id)} : Set ℤ).Finite := List.finite_toSet _
  rw [build_ends_iff D 0, acc_iff finite]
  rintro p q ⟨row, hrow, rfl⟩
  exact List.mem_map_of_mem (List.mem_filter.mp hrow).1

/-- Row 5 stands below 0, and row 0 below 5. -/
def cyclicResult : StatementResult where
  columnNames := ["id", "parent", "notused", "detail"].map String.toList
  tableData := [["5", "0", "0", "SCAN a"], ["0", "5", "0", "SCAN b"]].map (·.map String.toList)

def cyclicRows : List PlanRow := [⟨5, 0, "SCAN a".toList⟩, ⟨0, 5, "SCAN b".toList⟩]

theorem cycle_never_returns : planRows cyclicResult.tableData = some cyclicRows ∧
    ¬∃ fuel, (build cyclicRows fuel 0 0 : Option (List (PlanNode ℚ) × Text)).isSome = true := by
  refine ⟨by decide, fun h => ?_⟩
  have hdown : Under cyclicRows 0 5 := ⟨⟨5, 0, "SCAN a".toList⟩, by decide, rfl⟩
  have hup : Under cyclicRows 5 0 := ⟨⟨0, 5, "SCAN b".toList⟩, by decide, rfl⟩
  exact acc_no_loop ((build_ends_iff ℚ 0).mp h) (.tail (.single hdown) hup)

end Ends

section Listings

def rowNode (row : PlanRow) : PlanNode D := { operation := row.detail }

mutual

/-- The details in preorder, a line each, with two spaces of indent for a level. -/
def listing (depth : ℕ) : Rose PlanRow → Text
  | .node row ts =>
    List.replicate (2 * depth) ' ' ++ row.detail ++ '\n' :: listings (depth + 1) ts

def listings (depth : ℕ) : List (Rose PlanRow) → Text
  | [] => []
  | t :: ts => listing depth t ++ listings depth ts

end

/-- A single top-level row is the root, several stand under one more node. -/
def rootOf : List (PlanNode D) → PlanNode D
  | [root] => root
  | children => { operation := "QUERY PLAN".toList, children }

def planOf (forest : List (Rose PlanRow)) : Plan D where
  root := rootOf (toPlans rowNode forest)
  raw := listings 0 forest

theorem listings_eq (depth : ℕ) (ts : List (Rose PlanRow)) :
    listings depth ts = ts.flatMap (listing depth) := by
  induction ts with
  | nil => rfl
  | cons t ts ih => rw [listings, ih, List.flatMap_cons]

theorem mapM_labels {α β : Type} {f : α → Option β} {g : Rose α → β} {ts : List (Rose α)}
    (h : ∀ t ∈ ts, f t.label = some (g t)) : (ts.map Rose.label).mapM f = some (ts.map g) := by
  induction ts with
  | nil => rfl
  | cons t ts ih =>
    obtain ⟨ht, hts⟩ := List.forall_mem_cons.mp h
    rw [List.map_cons, List.mapM_cons, ht, ih hts]
    rfl

/-- With a call for every row of it, `build` returns the forest whose nodes have their children
under them, and its listing. -/
theorem build_forest (fuel depth : ℕ) {forest : List (Rose PlanRow)}
    (labels : forest.map Rose.label = childrenOf rows p)
    (grown : ∀ t ∈ forest, Grown (fun row => childrenOf rows row.id) t)
    (hfuel : (preorders forest).length < fuel) :
    (build rows fuel p depth : Option (List (PlanNode D) × Text)) =
      some (toPlans rowNode forest, listings depth forest) := by
  induction fuel generalizing p depth forest with
  | zero => omega
  | succ fuel ih =>
    rw [build, ← labels, @mapM_labels _ _ _ (fun t => (toPlan rowNode t, listing depth t)), toPlans_eq,
      listings_eq]
    · simp [List.flatMap_map, Function.comp_def]
    · intro t ht
      have hlen : (preorder t).length ≤ (preorders forest).length := by
        rw [preorders_eq]
        exact (List.sublist_flatten_of_mem (List.mem_map_of_mem ht)).length_le
      cases grown t ht with
      | node row ts labels below =>
        rw [preorder, List.length_cons] at hlen
        rw [Rose.label, ih (depth + 1) labels below (by omega), toPlan, listing, mul_comm]
        rfl

end Listings

section Links

def rowsUnder (rows : List PlanRow) (p : ℤ) : List PlanRow := rows.filter fun row => row.parent = p

/-- Distinct ids other than 0, and every parent is 0 or the id of an earlier row. -/
structure Linked (rows : List PlanRow) : Prop where
  nodup : (rows.map (·.id)).Nodup
  nonzero : ∀ row ∈ rows, row.id ≠ 0
  parents : ∀ pre row post, rows = pre ++ row :: post →
    row.parent = 0 ∨ ∃ earlier ∈ pre, earlier.id = row.parent

theorem mem_rowsUnder {row : PlanRow} : row ∈ rowsUnder rows p ↔ row ∈ rows ∧ row.parent = p := by
  simp [rowsUnder]

/-- How far down the list an id stands, 0 above all. -/
def rank (rows : List PlanRow) (p : ℤ) : ℕ := if p = 0 then 0 else (rows.map (·.id)).idxOf p + 1

variable (h : Linked rows)

include h

theorem Linked.id_inj {row row' : PlanRow} (hrow : row ∈ rows) (hrow' : row' ∈ rows)
    (hid : row.id = row'.id) : row = row' := List.inj_on_of_nodup_map h.nodup hrow hrow' hid

theorem Linked.rank_parent_lt {row : PlanRow} (hrow : row ∈ rows) :
    rank rows row.parent < rank rows row.id := by
  obtain ⟨pre, post, rfl⟩ := List.append_of_mem hrow
  rw [rank, rank, if_neg (h.nonzero _ hrow)]
  split_ifs with hzero
  · exact Nat.succ_pos _
  · obtain ⟨earlier, hearlier, hid⟩ := (h.parents pre row post rfl).resolve_left hzero
    have hparent : row.parent ∈ pre.map (·.id) := hid ▸ List.mem_map_of_mem hearlier
    have hnodup := h.nodup
    rw [List.map_append, List.map_cons] at hnodup ⊢
    have hout : row.id ∉ pre.map (·.id) := fun hin =>
      (List.nodup_append.mp hnodup).2.2 _ hin _ List.mem_cons_self rfl
    rw [List.idxOf_append_of_mem hparent, List.idxOf_append_of_notMem hout, List.idxOf_cons_self]
    have := List.idxOf_lt_length_of_mem hparent
    omega

theorem Linked.rank_le {row : PlanRow} (hrow : row ∈ rows) : rank rows row.id ≤ rows.length := by
  rw [rank, if_neg (h.nonzero _ hrow)]
  have hmem : row.id ∈ rows.map (·.id) := List.mem_map_of_mem hrow
  have := List.idxOf_lt_length_of_mem hmem
  rw [List.length_map] at this
  omega

/-- No row is its own parent. -/
theorem Linked.childrenOf_eq (p : ℤ) : childrenOf rows p = rowsUnder rows p := by
  refine List.filter_congr fun row hrow => ?_
  have hlt := h.rank_parent_lt hrow
  by_cases hp : row.parent = p
  · have hne : row.id ≠ p := by
      rintro hid
      rw [hp, hid] at hlt
      exact lt_irrefl _ hlt
    simp [hp, hne]
  · simp [hp]

theorem Linked.acc (row : PlanRow) :
    Acc (fun b a : PlanRow => b ∈ rowsUnder rows a.id) row := by
  have hsub : Subrelation (fun b a : PlanRow => b ∈ rowsUnder rows a.id)
      (measure fun row => rows.length - rank rows row.id).rel := by
    intro b a hb
    obtain ⟨hmem, hparent⟩ := mem_rowsUnder.mp hb
    have hlt := h.rank_parent_lt hmem
    have hle := h.rank_le hmem
    rw [hparent] at hlt
    change rows.length - rank rows b.id < rows.length - rank rows a.id
    omega
  exact hsub.accessible ((measure _).wf.apply row)

/-- A forest of all the links has every row. -/
theorem Linked.mem_forest {forest : List (Rose PlanRow)}
    (labels : forest.map Rose.label = rowsUnder rows 0)
    (grown : ∀ t ∈ forest, Grown (fun row => rowsUnder rows row.id) t) {row : PlanRow} :
    row ∈ preorders forest ↔ row ∈ rows := by
  rw [preorders_eq, List.mem_flatMap]
  constructor
  · rintro ⟨t, ht, hrow⟩
    rcases ((grown t ht).mem_preorder.mp hrow).cases_tail with rfl | ⟨_, _, hin⟩
    · exact (mem_rowsUnder.mp (labels ▸ List.mem_map_of_mem ht)).1
    · exact (mem_rowsUnder.mp hin).1
  · intro hrow
    induction hr : rank rows row.id using Nat.strong_induction_on generalizing row with
    | _ r ih =>
      obtain ⟨pre, post, hsplit⟩ := List.append_of_mem hrow
      rcases h.parents pre row post hsplit with hzero | ⟨earlier, hearlier, hid⟩
      · have hlabel : row ∈ forest.map Rose.label := labels ▸ mem_rowsUnder.mpr ⟨hrow, hzero⟩
        obtain ⟨t, ht, rfl⟩ := List.mem_map.mp hlabel
        exact ⟨t, ht, (grown t ht).mem_preorder.mpr .refl⟩
      · have hmem : earlier ∈ rows := hsplit ▸ List.mem_append_left _ hearlier
        have hlt := h.rank_parent_lt hrow
        rw [← hid, hr] at hlt
        obtain ⟨t, ht, hin⟩ := ih _ hlt hmem rfl
        have hreach := (grown t ht).mem_preorder.mp hin
        exact ⟨t, ht, (grown t ht).mem_preorder.mpr
          (hreach.tail (mem_rowsUnder.mpr ⟨hrow, hid.symm⟩))⟩

/-- The ids of the links, as successors of one another, keep the rows of a forest apart. -/
theorem Linked.nodup_forest {forest : List (Rose PlanRow)}
    (labels : forest.map Rose.label = rowsUnder rows 0)
    (grown : ∀ t ∈ forest, Grown (fun row => rowsUnder rows row.id) t) :
    (preorders forest).Nodup := by
  let succ (p : ℤ) : List ℤ := (rowsUnder rows p).map (·.id)
  have hsucc {p q : ℤ} (hq : q ∈ succ p) : ∃ row ∈ rows, row.parent = p ∧ row.id = q := by
    obtain ⟨row, hrow, rfl⟩ := List.mem_map.mp hq
    obtain ⟨hmem, hparent⟩ := mem_rowsUnder.mp hrow
    exact ⟨row, hmem, hparent, rfl⟩
  -- the row above all stands for the parent 0
  have htop : Grown (fun row => rowsUnder rows row.id) (.node ⟨0, 0, []⟩ forest) :=
    .node _ _ labels grown
  have hgrown : Grown succ ((Rose.node ⟨0, 0, []⟩ forest).map PlanRow.id) := by
    refine Grown.map PlanRow.id ?_ htop
    exact fun _ => rfl
  have hids : (preorder ((Rose.node ⟨0, 0, []⟩ forest).map PlanRow.id)).Nodup := by
    refine hgrown.nodup_preorder (rank rows) ?_ ?_ ?_
    · intro p q hq
      obtain ⟨row, hrow, rfl, rfl⟩ := hsucc hq
      exact h.rank_parent_lt hrow
    · intro p p' q hq hq'
      obtain ⟨row, hrow, rfl, rfl⟩ := hsucc hq
      obtain ⟨row', hrow', rfl, hid⟩ := hsucc hq'
      rw [h.id_inj hrow hrow' hid.symm]
    · intro p
      exact (List.filter_sublist.map _).nodup h.nodup
  rw [preorder_map, preorder] at hids
  exact (List.nodup_cons.mp (.of_map _ hids)).2

end Links

section Plans

/-- The plan of linked rows has every row once, below its parent and beside its siblings in the
order of the rows. -/
theorem sqlite_plan_keeps_rows {r : StatementResult} (hcols : 4 ≤ r.columnNames.length)
    (hrows : planRows r.tableData = some rows) (hne : rows ≠ []) (h : Linked rows) :
    ∃ forest : List (Rose PlanRow), forest.map Rose.label = rowsUnder rows 0 ∧
      (∀ t ∈ forest, Grown (fun row => rowsUnder rows row.id) t) ∧
      (preorders forest).Perm rows ∧
      ∀ fuel > rows.length, parseSqlite r fuel = some (some (planOf forest : Plan D)) := by
  obtain ⟨forest, labels, grown⟩ := exists_forest (l := rowsUnder rows 0)
    fun row _ => exists_grown (h.acc row)
  have hperm : (preorders forest).Perm rows :=
    (List.perm_ext_iff_of_nodup (h.nodup_forest labels grown) (.of_map _ h.nodup)).mpr
      fun row => h.mem_forest labels grown
  refine ⟨forest, labels, grown, hperm, fun fuel hfuel => ?_⟩
  have hchildren : childrenOf rows = rowsUnder rows := funext h.childrenOf_eq
  rw [← hchildren] at labels grown
  have hbuild := build_forest (D := D) fuel 0 labels grown (hperm.length_eq ▸ hfuel)
  cases rows with
  | nil => exact absurd rfl hne
  | cons row rest =>
    cases forest with
    | nil => exact absurd hperm.nil_eq (List.cons_ne_nil row rest).symm
    | cons t ts =>
      simp only [parseSqlite, if_neg (not_lt.mpr hcols), hrows, hbuild]
      cases ts <;> rfl

def testResult : StatementResult where
  columnNames := ["id", "parent", "notused", "detail"].map String.toList
  tableData := [["2", "0", "0", "SCAN a"], ["9", "0", "0", "USE TEMP B-TREE FOR ORDER BY"],
    ["12", "9", "0", "child of temp"]].map (·.map String.toList)

def testRows : List PlanRow :=
  [⟨2, 0, "SCAN a".toList⟩, ⟨9, 0, "USE TEMP B-TREE FOR ORDER BY".toList⟩,
    ⟨12, 9, "child of temp".toList⟩]

theorem testResult_keeps_rows : ∃ forest : List (Rose PlanRow),
    forest.map Rose.label = rowsUnder testRows 0 ∧
      (∀ t ∈ forest, Grown (fun row => rowsUnder testRows row.id) t) ∧
      (preorders forest).Perm testRows ∧
      ∀ fuel > testRows.length, parseSqlite testResult fuel = some (some (planOf forest : Plan ℚ)) := by
  refine sqlite_plan_keeps_rows (by decide) (by decide) (by decide)
    ⟨by decide, by decide, fun pre row post hsplit => ?_⟩
  rcases pre with _ | ⟨a, _ | ⟨b, _ | ⟨c, pre⟩⟩⟩
  · obtain ⟨rfl, -⟩ := List.cons.inj hsplit
    exact .inl rfl
  · obtain ⟨rfl, -⟩ := List.cons.inj (List.cons.inj hsplit).2
    exact .inl rfl
  · obtain ⟨rfl, hrest⟩ := List.cons.inj (List.cons.inj hsplit).2
    obtain ⟨rfl, -⟩ := List.cons.inj hrest
    exact .inr ⟨_, List.mem_cons_of_mem _ List.mem_cons_self, rfl⟩
  · simp [testRows] at hsplit

end Plans
end DearSql.Explain
