import DearSql.Types

/-! `describeTableInSchema` of the MSSQL backend over the rows its four queries return. -/
namespace DearSql.Mssql

def trimEnd (s : Text) : Text := (s.reverse.dropWhile (· = ' ')).reverse

def columnOf : List Text → Option Column
  | name :: type :: nullable :: default :: identity :: _ =>
    some { name := name, type := type, isNotNull := nullable = "NO".toList
           defaultValue := trimEnd default, isAutoIncrement := identity = "1".toList }
  | _ => none

def markKey (columns : List Column) : List Text → List Column
  | [] => columns
  | name :: _ => columns.map fun c => if c.name = name then { c with isPrimaryKey := true } else c

def foreignKeyOf : List Text → Option ForeignKey
  | name :: source :: table :: target :: _ =>
    some { name := name, sourceColumn := source, targetTable := table, targetColumn := target }
  | _ => none

/-- A row of the index query opens an index or adds a column to the one before. -/
def addIndexRow (indexes : List Index) : List Text → List Index
  | name :: unique :: column :: _ =>
    match indexes.getLast? with
    | some idx =>
      if idx.name = name then
        indexes.dropLast ++ [{ idx with columns := idx.columns ++ [column] }]
      else indexes ++ [{ name := name, isUnique := unique = ['1'], columns := [column] }]
    | none => [{ name := name, isUnique := unique = ['1'], columns := [column] }]
  | _ => indexes

def describeTableInSchema (schema tableName : Text)
    (columnRows keyRows foreignKeyRows indexRows : List (List Text)) : Table :=
  { name := tableName, schema := schema, fullName := schema ++ '.' :: tableName
    columns := keyRows.foldl markKey (columnRows.filterMap columnOf)
    foreignKeys := foreignKeyRows.filterMap foreignKeyOf
    indexes := indexRows.foldl addIndexRow [] }

/-- A table of the server: its columns in ordinal order with the other four cells of their
rows, and the names of its key columns in key order. -/
structure ServerTable where
  columns : List (Text × Text × Text × Text × Text)
  key : List Text
  nodup : (columns.map (·.1)).Nodup
  key_nodup : key.Nodup
  key_subset : key ⊆ columns.map (·.1)

namespace ServerTable
variable (t : ServerTable)

def columnRows : List (List Text) :=
  t.columns.map fun c => [c.1, c.2.1, c.2.2.1, c.2.2.2.1, c.2.2.2.2]

/-- The key query has no `ORDER BY`: its rows come in any order. -/
def IsKeyRows (rows : List (List Text)) : Prop :=
  ∃ names : List Text, names.Perm t.key ∧ rows = names.map fun n => [n]

end ServerTable

def keyed (columns : List Column) (names : List Text) : List Column :=
  columns.map fun c => { c with isPrimaryKey := c.isPrimaryKey || names.contains c.name }

theorem foldl_markKey (columns : List Column) (names : List Text) :
    (names.map fun n => [n]).foldl markKey columns = keyed columns names := by
  induction names generalizing columns with
  | nil => simp [keyed]
  | cons n ns ih =>
    rw [List.map_cons, List.foldl_cons, ih]
    simp only [markKey, keyed, List.map_map]
    refine List.map_congr_left fun c _ => ?_
    by_cases h : c.name = n
    · simp [h]
    · simp [h]

/-- Whatever order the key rows come in, the flagged columns stand in column order. -/
theorem ServerTable.flagged_names (t : ServerTable) {schema tableName : Text}
    {keyRows foreignKeyRows indexRows : List (List Text)} (h : t.IsKeyRows keyRows) :
    ((describeTableInSchema schema tableName t.columnRows keyRows foreignKeyRows
        indexRows).columns.filter (·.isPrimaryKey)).map (·.name) =
      (t.columns.map (·.1)).filter (t.key.contains ·) := by
  obtain ⟨names, hperm, rfl⟩ := h
  have columns : t.columnRows.filterMap columnOf = t.columns.map fun c =>
      { name := c.1, type := c.2.1, isNotNull := c.2.2.1 = "NO".toList
        defaultValue := trimEnd c.2.2.2.1, isAutoIncrement := c.2.2.2.2 = "1".toList } := by
    rw [ServerTable.columnRows, List.filterMap_map]
    exact List.filterMap_eq_map ▸ rfl
  have contains (n : Text) : names.contains n = t.key.contains n := by
    rw [Bool.eq_iff_iff, List.contains_iff_mem, List.contains_iff_mem, hperm.mem_iff]
  rw [describeTableInSchema, columns, foldl_markKey, keyed]
  simp only [List.map_map, List.filter_map, Function.comp_def, Bool.false_or, contains]

end DearSql.Mssql
