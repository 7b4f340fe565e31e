import DearSql.Types

/-! `CassandraDatabase` over the rows of `system_schema`. -/
namespace DearSql.Cassandra

/-- A row of `system_schema.columns`; a null cell is `none`. -/
structure SchemaRow where
  columnName : Option Text
  type : Option Text
  kind : Option Text
  position : Option ℤ
  deriving DecidableEq

def getStringCol (cell : Option Text) : Text := cell.getD []

def partitionKey : Text := "partition_key".toList

def clusteringKey : Text := "clustering".toList

structure Pending where
  col : Column
  kind : Text
  position : ℤ := 0
  deriving DecidableEq

def pendingOf (row : SchemaRow) : Pending :=
  let kind := getStringCol row.kind
  let key := kind = partitionKey || kind = clusteringKey
  { col := { name := getStringCol row.columnName, type := getStringCol row.type
             isPrimaryKey := key, isNotNull := key }
    kind := kind
    position := row.position.getD 0 }

namespace Pending
variable (a b c : Pending)

def rank : ℕ := if a.kind = partitionKey then 0 else if a.kind = clusteringKey then 1 else 2

def before : Bool :=
  if a.rank ≠ b.rank then a.rank < b.rank
  else if a.rank < 2 then a.position < b.position
  else a.col.name < b.col.name

/-- `before` compares these, first the rank. -/
def place : ℕ ×ₗ ℤ ×ₗ Text :=
  toLex (a.rank, toLex (if a.rank < 2 then (a.position, []) else (0, a.col.name)))

theorem before_iff : a.before b = true ↔ a.place < b.place := by
  unfold before place
  simp only [Prod.Lex.toLex_lt_toLex]
  by_cases hr : a.rank = b.rank
  · rw [if_neg (by simpa using hr), hr]
    split_ifs with h
    · simp
    · simp
  · rw [if_pos hr]
    simp [hr]

end Pending

/-- `std::stable_sort` by `before`. -/
def sortPending (pending : List Pending) : List Pending :=
  pending.mergeSort fun a b => !b.before a

/-- `loadColumns` over the answer of the server, `none` where the query failed. -/
def loadColumns (answer : Option (List SchemaRow)) : List Column :=
  match answer with
  | none => []
  | some rows => (sortPending (rows.map pendingOf)).map (·.col)

def describeTable (keyspace tableName : Text) (answer : Option (List SchemaRow)) : Table :=
  { name := tableName, schema := keyspace, fullName := keyspace ++ '.' :: tableName
    columns := loadColumns answer }

theorem sortPending_perm (ps : List Pending) : (sortPending ps).Perm ps :=
  List.mergeSort_perm _ _

theorem sortPending_sorted (ps : List Pending) :
    (sortPending ps).Pairwise fun a b => a.place ≤ b.place := by
  have le_iff (a b : Pending) : (!b.before a) = true ↔ a.place ≤ b.place := by
    rw [Bool.not_eq_true', ← Bool.not_eq_true, Pending.before_iff, not_lt]
  have sorted : (sortPending ps).Pairwise fun a b => !b.before a :=
    List.pairwise_mergeSort
      (fun a b c hab hbc => (le_iff a c).mpr (((le_iff a b).mp hab).trans ((le_iff b c).mp hbc)))
      (fun a b => by
        rcases le_total a.place b.place with h | h
        · simp [(le_iff a b).mpr h]
        · simp [(le_iff b a).mpr h]) ps
  exact sorted.imp fun {a b} h => (le_iff a b).mp h

/-- A table of the server: its columns with their types, the others with their kind. -/
structure ServerTable where
  partition : List (Text × Text)
  clustering : List (Text × Text)
  others : List (Text × Text × Text)
  partition_ne_nil : partition ≠ []
  others_kind : ∀ o ∈ others, o.2.2 ≠ partitionKey ∧ o.2.2 ≠ clusteringKey

namespace ServerTable
variable (t : ServerTable)

def keyRow (kind : Text) (i : ℕ) (c : Text × Text) : SchemaRow :=
  ⟨some c.1, some c.2, some kind, some i⟩

def schemaRows : List SchemaRow :=
  t.partition.mapIdx (keyRow partitionKey) ++ t.clustering.mapIdx (keyRow clusteringKey) ++
    t.others.map fun o => ⟨some o.1, some o.2.1, some o.2.2, some (-1)⟩

def keyNames : List Text := t.partition.map (·.1) ++ t.clustering.map (·.1)

/-- The key columns as they stand in `pending`, in key order. -/
def keyPending : List Pending :=
  (t.partition.mapIdx (keyRow partitionKey) ++ t.clustering.mapIdx (keyRow clusteringKey)).map
    pendingOf

theorem partitionKey_ne : clusteringKey ≠ partitionKey := by decide

@[simp] theorem place_partition (i : ℕ) (c : Text × Text) :
    (pendingOf (keyRow partitionKey i c)).place = toLex (0, toLex ((i : ℤ), [])) := by
  simp [Pending.place, Pending.rank, pendingOf, keyRow, getStringCol]

@[simp] theorem place_clustering (i : ℕ) (c : Text × Text) :
    (pendingOf (keyRow clusteringKey i c)).place = toLex (1, toLex ((i : ℤ), [])) := by
  simp [Pending.place, Pending.rank, pendingOf, keyRow, getStringCol, partitionKey_ne]

theorem keyPending_sorted : t.keyPending.Pairwise fun a b => a.place < b.place := by
  have run {kind : Text} {r : ℕ} (cs : List (Text × Text))
      (h : ∀ i c, (pendingOf (keyRow kind i c)).place = toLex (r, toLex ((i : ℤ), []))) :
      (cs.mapIdx (keyRow kind)).Pairwise
        fun a b => (pendingOf a).place < (pendingOf b).place := by
    rw [List.pairwise_iff_getElem]
    intro i j hi hj hij
    simp [h, Prod.Lex.toLex_lt_toLex, hij]
  rw [keyPending, List.pairwise_map, List.pairwise_append]
  refine ⟨run _ place_partition, run _ place_clustering, fun a ha b hb => ?_⟩
  obtain ⟨i, hi, rfl⟩ := List.mem_mapIdx.mp ha
  obtain ⟨j, hj, rfl⟩ := List.mem_mapIdx.mp hb
  simp [Prod.Lex.toLex_lt_toLex]

theorem keyPending_names : t.keyPending.map (·.col.name) = t.keyNames := by
  have run (kind : Text) (cs : List (Text × Text)) :
      (cs.mapIdx (keyRow kind)).map (fun r => (pendingOf r).col.name) = cs.map (·.1) := by
    apply List.ext_getElem
    · simp
    · simp [pendingOf, keyRow, getStringCol]
  rw [keyPending, List.map_map, List.map_append]
  exact congrArg₂ _ (run _ _) (run _ _)

theorem filter_schemaRows :
    (t.schemaRows.map pendingOf).filter (·.col.isPrimaryKey) = t.keyPending := by
  rw [schemaRows, List.map_append, List.filter_append, ← keyPending]
  have keys : ∀ p ∈ t.keyPending, p.col.isPrimaryKey = true := by
    intro p hp
    obtain ⟨row, hrow, rfl⟩ := List.mem_map.mp hp
    rcases List.mem_append.mp hrow with h | h
    · obtain ⟨i, hi, rfl⟩ := List.mem_mapIdx.mp h
      simp [pendingOf, keyRow, getStringCol]
    · obtain ⟨i, hi, rfl⟩ := List.mem_mapIdx.mp h
      simp [pendingOf, keyRow, getStringCol]
  have others : ∀ p ∈ (t.others.map fun o => SchemaRow.mk (some o.1) (some o.2.1) (some o.2.2)
      (some (-1))).map pendingOf, ¬p.col.isPrimaryKey = true := by
    intro p hp
    obtain ⟨row, hrow, rfl⟩ := List.mem_map.mp hp
    obtain ⟨o, ho, rfl⟩ := List.mem_map.mp hrow
    have := t.others_kind o ho
    simp [pendingOf, getStringCol, this]
  rw [List.filter_eq_self.mpr keys, List.filter_eq_nil_iff.mpr others, List.append_nil]

/-- In whatever order the server returns the rows, the key columns come first and in key
order. -/
theorem loadColumns_keys {rows : List SchemaRow} (h : rows.Perm t.schemaRows) :
    ((loadColumns (some rows)).filter (·.isPrimaryKey)).map (·.name) = t.keyNames := by
  have perm : ((sortPending (rows.map pendingOf)).filter (·.col.isPrimaryKey)).Perm
      t.keyPending := by
    rw [← t.filter_schemaRows]
    exact ((sortPending_perm _).trans (h.map _)).filter _
  have inj : ∀ a ∈ t.keyPending, ∀ b ∈ t.keyPending, a.place = b.place → a = b := by
    have nodup : (t.keyPending.map (·.place)).Nodup := by
      rw [List.nodup_iff_pairwise_ne, List.pairwise_map]
      exact t.keyPending_sorted.imp fun hlt => ne_of_lt hlt
    exact fun a ha b hb => List.inj_on_of_nodup_map nodup ha hb
  have eq : (sortPending (rows.map pendingOf)).filter (·.col.isPrimaryKey) = t.keyPending :=
    List.Perm.eq_of_pairwise
      (fun a b ha hb hab hba => inj a (perm.subset ha) b hb (le_antisymm hab hba))
      ((sortPending_sorted _).filter _)
      (t.keyPending_sorted.imp le_of_lt) perm
  rw [loadColumns, List.filter_map, List.map_map, ← t.keyPending_names, ← eq]
  rfl

end ServerTable

end DearSql.Cassandra
