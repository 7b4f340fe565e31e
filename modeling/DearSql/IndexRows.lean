import DearSql.KeyClauses
import DearSql.MssqlCatalog
import DearSql.PgTables

/-! Indexes out of rows of one column each. PostgreSQL's reader looks for the index of the row's
name, MSSQL's looks at the last index only: the two agree on rows that stand together by name. -/
namespace DearSql
open Joins

structure IndexRow where
  name : Text
  column : Text
  unique : Bool

/-- The columns of the index `n`, as the rows come. -/
def columnsOf (rows : List IndexRow) (n : Text) : List Text :=
  (rows.filter fun r => r.name = n).map IndexRow.column

def IndexRow.addTo (indexes : List Index) (r : IndexRow) : List Index :=
  if indexes.any (fun i => i.name = r.name) then
    indexes.map fun i => if i.name = r.name then { i with columns := i.columns ++ [r.column] } else i
  else indexes ++ [{ name := r.name, columns := [r.column], isUnique := r.unique }]

section Collected

variable {rows : List IndexRow} {indexes : List Index} {r : IndexRow} {n : Text}

theorem columnsOf_append (rows : List IndexRow) (r : IndexRow) (n : Text) :
    columnsOf (rows ++ [r]) n = columnsOf rows n ++ if r.name = n then [r.column] else [] := by
  rw [columnsOf, List.filter_append, List.map_append, columnsOf]
  split_ifs with h <;> simp [h]

/-- One index a name, with the columns of the rows of that name. -/
structure Collected (rows : List IndexRow) (indexes : List Index) : Prop where
  nodup : (indexes.map Index.name).Nodup
  all : ∀ r ∈ rows, r.name ∈ indexes.map Index.name
  only : ∀ i ∈ indexes, ∃ r ∈ rows, i =
    { name := r.name, columns := columnsOf rows r.name, isUnique := r.unique }

theorem collected_nil : Collected [] [] := ⟨List.nodup_nil, by simp, by simp⟩

theorem Collected.named (h : Collected rows indexes) :
    n ∈ indexes.map Index.name ↔ ∃ r ∈ rows, r.name = n := by
  constructor
  · intro hn
    obtain ⟨i, hi, rfl⟩ := List.mem_map.mp hn
    obtain ⟨r, hr, rfl⟩ := h.only i hi
    exact ⟨r, hr, rfl⟩
  · rintro ⟨r, hr, rfl⟩
    exact h.all r hr

theorem Collected.known (h : Collected rows indexes) (hn : r.name ∈ indexes.map Index.name) :
    Collected (rows ++ [r]) (indexes.map fun i =>
      if i.name = r.name then { i with columns := i.columns ++ [r.column] } else i) := by
  have hnames : (indexes.map fun i : Index =>
      if i.name = r.name then { i with columns := i.columns ++ [r.column] } else i).map Index.name =
        indexes.map Index.name := by
    rw [List.map_map]
    refine List.map_congr_left fun i _ => ?_
    simp only [Function.comp]
    split_ifs <;> rfl
  constructor
  · rw [hnames]
    exact h.nodup
  · rw [hnames]
    intro q hq
    rcases List.mem_append.mp hq with hq | hq
    · exact h.all q hq
    · rw [List.mem_singleton.mp hq]
      exact hn
  · intro i hi
    obtain ⟨j, hj, rfl⟩ := List.mem_map.mp hi
    obtain ⟨q, hq, rfl⟩ := h.only j hj
    refine ⟨q, List.mem_append_left _ hq, ?_⟩
    simp only [columnsOf_append, eq_comm (a := r.name)]
    split_ifs <;> simp

theorem Collected.new (h : Collected rows indexes) (hn : r.name ∉ indexes.map Index.name) :
    Collected (rows ++ [r])
      (indexes ++ [{ name := r.name, columns := [r.column], isUnique := r.unique }]) := by
  have hnone : ∀ q ∈ rows, q.name ≠ r.name := fun q hq he => hn (he ▸ h.all q hq)
  constructor
  · rw [List.map_append, List.nodup_append]
    refine ⟨h.nodup, by simp, ?_⟩
    intro n hin m hm he
    rw [List.map_singleton, List.mem_singleton] at hm
    rw [he, hm] at hin
    exact hn hin
  · intro q hq
    rw [List.map_append, List.mem_append]
    rcases List.mem_append.mp hq with hq | hq
    · exact .inl (h.all q hq)
    · exact .inr (by simp [List.mem_singleton.mp hq])
  · intro i hi
    rcases List.mem_append.mp hi with hi | hi
    · obtain ⟨q, hq, rfl⟩ := h.only i hi
      refine ⟨q, List.mem_append_left _ hq, ?_⟩
      rw [columnsOf_append, if_neg (hnone q hq).symm, List.append_nil]
    · refine ⟨r, List.mem_append_right _ (by simp), ?_⟩
      have hcols : columnsOf rows r.name = [] := by
        rw [columnsOf, List.filter_eq_nil_iff.mpr fun q hq => by simpa using hnone q hq]
        rfl
      rw [List.mem_singleton.mp hi, columnsOf_append, hcols]
      simp

theorem Collected.addTo (h : Collected rows indexes) (r : IndexRow) :
    Collected (rows ++ [r]) (r.addTo indexes) := by
  rw [IndexRow.addTo]
  split_ifs with hn
  · exact h.known (by simpa using hn)
  · exact h.new (by simpa using hn)

theorem collected_foldl (rows : List IndexRow) :
    Collected rows (rows.foldl IndexRow.addTo []) := by
  induction rows using List.reverseRecOn with
  | nil => exact collected_nil
  | append_singleton rows r ih =>
    rw [List.foldl_append]
    exact ih.addTo r

theorem Collected.filter_eq (h : Collected rows indexes) (hr : r ∈ rows)
    (hu : ∀ q ∈ rows, q.name = r.name → q.unique = r.unique) :
    indexes.filter (fun i => i.name = r.name) =
      [{ name := r.name, columns := columnsOf rows r.name, isUnique := r.unique }] := by
  obtain ⟨i, hi, hn⟩ := List.mem_map.mp (h.all r hr)
  obtain ⟨q, hq, rfl⟩ := h.only i hi
  have hone := having_eq h.nodup hi hn
  rw [having] at hone
  rw [hone, hu q hq hn, show q.name = r.name from hn]

end Collected

section Readers

def Pg.indexCells (r : IndexRow) : Pg.Row :=
  [r.name, r.column, if r.unique then BOOL_TRUE_SENTINEL else BOOL_FALSE_SENTINEL]

def Mssql.indexCells (r : IndexRow) : List Text := [r.name, [if r.unique then '1' else '0'], r.column]

theorem Pg.addIndexRow_cells (indexes : List Index) (r : IndexRow) :
    Pg.addIndexRow indexes (Pg.indexCells r) = r.addTo indexes := by
  rw [Pg.indexCells, Pg.addIndexRow, IndexRow.addTo]
  cases r.unique <;> rfl

theorem Pg.foldl_addIndexRow (rows : List IndexRow) :
    (rows.map Pg.indexCells).foldl Pg.addIndexRow [] = rows.foldl IndexRow.addTo [] := by
  rw [List.foldl_map]
  simp only [Pg.addIndexRow_cells]

variable {lt : Text → Text → Prop} {rows : List IndexRow} {indexes : List Index} {r : IndexRow}

/-- The last index is that of the row, or none is. -/
theorem Mssql.addIndexRow_cells (hnd : (indexes.map Index.name).Nodup)
    (h : r.name ∈ indexes.map Index.name → indexes.getLast?.map Index.name = some r.name) :
    Mssql.addIndexRow indexes (Mssql.indexCells r) = r.addTo indexes ∧
      (r.addTo indexes).getLast?.map Index.name = some r.name := by
  have hflag : decide ([if r.unique then '1' else '0'] = ['1']) = r.unique := by
    cases r.unique <;> rfl
  rw [Mssql.indexCells, Mssql.addIndexRow, IndexRow.addTo, hflag]
  induction indexes using List.reverseRecOn with
  | nil => simp
  | append_singleton pre i _ =>
    rw [List.map_append, List.map_singleton, List.nodup_append] at hnd
    simp only [List.getLast?_concat]
    by_cases hi : i.name = r.name
    · have hpre : ∀ j ∈ pre, j.name ≠ r.name := fun j hj =>
        hi ▸ hnd.2.2 j.name (List.mem_map_of_mem hj) i.name (List.mem_singleton_self _)
      have hkeep : (pre.map fun j => if j.name = r.name then
          { j with columns := j.columns ++ [r.column] } else j) = pre := by
        conv_rhs => rw [← List.map_id pre]
        exact List.map_congr_left fun j hj => if_neg (hpre j hj)
      simp [hi, hkeep]
    · have hnone : ¬(pre ++ [i]).any fun j => j.name = r.name := by
        intro hany
        obtain ⟨j, hj, hjr⟩ := List.any_eq_true.mp hany
        have hlast := h (List.mem_map.mpr ⟨j, hj, of_decide_eq_true hjr⟩)
        rw [List.getLast?_concat] at hlast
        exact hi (Option.some_inj.mp hlast)
      rw [if_neg hi, if_neg hnone]
      simp

/-- Rows in the order of their names, where different names are in some order. -/
def NameOrdered (lt : Text → Text → Prop) (rows : List IndexRow) : Prop :=
  (rows.Pairwise fun x y => ¬lt y.name x.name) ∧
    ∀ x ∈ rows, ∀ y ∈ rows, x.name ≠ y.name → lt x.name y.name ∨ lt y.name x.name

theorem Mssql.foldl_addIndexRow (h : NameOrdered lt rows) :
    (rows.map Mssql.indexCells).foldl Mssql.addIndexRow [] = rows.foldl IndexRow.addTo [] ∧
      (rows.foldl IndexRow.addTo []).getLast?.map Index.name =
        rows.getLast?.map IndexRow.name := by
  induction rows using List.reverseRecOn with
  | nil => exact ⟨rfl, rfl⟩
  | append_singleton rows r ih =>
    obtain ⟨hp, htri⟩ := h
    rw [List.pairwise_append] at hp
    obtain ⟨hfold, hlast⟩ := ih ⟨hp.1, fun x hx y hy =>
      htri x (List.mem_append_left _ hx) y (List.mem_append_left _ hy)⟩
    have hcol := collected_foldl rows
    have hstep : r.name ∈ (rows.foldl IndexRow.addTo []).map Index.name →
        (rows.foldl IndexRow.addTo []).getLast?.map Index.name = some r.name := by
      intro hr
      obtain ⟨q, hq, hqr⟩ := hcol.named.mp hr
      rw [hlast]
      -- a row of another name behind `q` would stand on both sides of `r.name`
      obtain ⟨pre, p, rfl⟩ := List.eq_nil_or_concat' rows |>.resolve_left (List.ne_nil_of_mem hq)
      rw [List.getLast?_concat, Option.map_some]
      by_contra hne
      have hne' : p.name ≠ r.name := fun he => hne (by rw [he])
      have hpre : q ∈ pre := by
        rcases List.mem_append.mp hq with hq | hq
        · exact hq
        · exact absurd (List.mem_singleton.mp hq ▸ hqr) hne'
      have hqp := (List.pairwise_append.mp hp.1).2.2 q hpre p (List.mem_singleton_self _)
      have hpr := hp.2.2 p (List.mem_append_right _ (List.mem_singleton_self _)) r
        (List.mem_singleton_self _)
      rw [hqr] at hqp
      rcases htri p (by simp) r (by simp) hne' with h | h
      · exact hqp h
      · exact hpr h
    obtain ⟨h₁, h₂⟩ := Mssql.addIndexRow_cells hcol.nodup hstep
    rw [List.map_append, List.foldl_append, List.foldl_append, hfold, List.getLast?_concat]
    exact ⟨h₁, h₂⟩

end Readers

end DearSql
