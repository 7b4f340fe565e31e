import DearSql.PgCatalog
import DearSql.PgExecute

/-! `PostgresDatabase::tablesIn` and `describeIn`: what they make of the rows they get. -/
namespace DearSql.Pg
open Joins

/-- What `rows` makes of the result of `run`. -/
def rowsOf (r : QueryResult) : Except Text (List Row) :=
  if !r.success then
    .error (if r.errorMessage = [] then "query failed".toList else r.errorMessage)
  else .ok ((r.statements.head?.map StatementResult.tableData).getD [])

/-- What an `unordered_map` of vectors holds under `name` once the entries are pushed. -/
def pushed {α : Type} (entries : List (Text × α)) (name : Text) : List α :=
  (entries.filter fun e => e.1 = name).map Prod.snd

def stoll (s : Text) : Option ℤ := (leadingInt s).filter fun n => -2 ^ 63 ≤ n ∧ n < 2 ^ 63

/-- The foreign keys that refer to `name`, each under the name of the table that has it. -/
def incomingTo (tables : List Table) (name : Text) : List ForeignKey :=
  tables.flatMap fun src =>
    (src.foreignKeys.filter fun fk => fk.targetTable = name).map fun fk =>
      { fk with targetTable := src.name }

/-- `populateIncomingForeignKeys`: of several tables with one name the last is the target. -/
def populateIncomingForeignKeys (tables : List Table) : List Table :=
  tables.mapIdx fun i t =>
    let isLast := (tables.drop (i + 1)).all fun u => u.name ≠ t.name
    { t with incomingForeignKeys := if isLast then incomingTo tables t.name else [] }

theorem populate_keeps {γ : Type} (tables : List Table) (g : Table → γ)
    (hg : ∀ t fks, g { t with incomingForeignKeys := fks } = g t) :
    (populateIncomingForeignKeys tables).map g = tables.map g := by
  apply List.ext_getElem (by simp [populateIncomingForeignKeys])
  intro i _ _
  simp [populateIncomingForeignKeys, hg]

theorem rowsOf_gives {r : QueryResult} {res : List Row} (h : Gives r res) : rowsOf r = .ok res := by
  simp [rowsOf, h.1, h.2]

section Readers
variable (ask : CatalogQuery → QueryResult) (schema : Text)

def readTableColumn : Row → Option (Text × Column)
  | table :: name :: type :: nullable :: pk :: auto :: dflt :: _ =>
    some (table, { name := name, type := type, isNotNull := nullable = "NO".toList
                   isPrimaryKey := pk = "true".toList, isAutoIncrement := auto = "true".toList
                   defaultValue := dflt })
  | _ => none

def readTableForeignKey : Row → Option (Text × ForeignKey)
  | table :: source :: target :: targetColumn :: name :: _ =>
    some (table, { name := name, sourceColumn := source, targetTable := target
                   targetColumn := targetColumn })
  | _ => none

def readSize : Row → Option (Text × ℤ)
  | table :: size :: _ => some (table, (stoll size).getD (-1))
  | _ => none

/-- `fkRows`: the fallback is asked where the first query fails. -/
def foreignKeyRows (names : List Text) : Except Text (List Row) :=
  match ask (.tableForeignKeys schema names) with
  | r => if r.success && !r.statements.isEmpty then
      .ok ((r.statements.head?.map StatementResult.tableData).getD [])
    else rowsOf (ask (.tableForeignKeysByName schema names))

def sizeRows (names : List Text) : List Row :=
  match ask (.tableSizes schema names) with
  | r => if r.success && !r.statements.isEmpty then
      (r.statements.head?.map StatementResult.tableData).getD []
    else []

/-- The table `tn` with what was pushed under its name; of two sizes the later one counts. -/
def tableEntry (cols : List (Text × Column)) (fks : List (Text × ForeignKey))
    (sizes : List (Text × ℤ)) (tn : Text) : Table :=
  { name := tn, schema := schema, fullName := schema ++ '.' :: tn
    columns := pushed cols tn, foreignKeys := pushed fks tn
    sizeBytes := (pushed sizes tn).getLast?.getD (-1) }

def tablesIn : Except Text (List Table) := do
  let names := (← rowsOf (ask (.tableNames schema))).filterMap List.head?
  if names.isEmpty then return []
  let cols := (← rowsOf (ask (.tableColumns schema names))).filterMap readTableColumn
  let fks := (← foreignKeyRows ask schema names).filterMap readTableForeignKey
  let sizes := (sizeRows ask schema names).filterMap readSize
  return populateIncomingForeignKeys (names.map (tableEntry schema cols fks sizes))

def readColumn : Row → Option Column
  | name :: type :: nullable :: dflt :: auto :: _ =>
    some { name := name, type := type, isNotNull := nullable = "NO".toList
           defaultValue := dflt, isAutoIncrement := auto = "true".toList }
  | _ => none

/-- One row of the index query: its column joins the index of that name. -/
def addIndexRow (indexes : List Index) : Row → List Index
  | name :: column :: unique :: _ =>
    if indexes.any (fun i => i.name = name) then
      indexes.map fun i => if i.name = name then { i with columns := i.columns ++ [column] } else i
    else indexes ++ [{ name := name, columns := [column], isUnique := unique = BOOL_TRUE_SENTINEL }]
  | _ => indexes

def readForeignKey : Row → Option ForeignKey
  | source :: target :: targetColumn :: name :: _ =>
    some { name := name, sourceColumn := source, targetTable := target
           targetColumn := targetColumn }
  | _ => none

def tableSize (table : Text) : ℤ :=
  match ask (.size schema table) with
  | r => if r.success then
      match r.statements.head?.map StatementResult.tableData with
      | some ((size :: _) :: _) => if size = NULL_SENTINEL then -1 else (stoll size).getD (-1)
      | _ => -1
    else -1

def describeIn (table : Text) : Except Text Table := do
  let t : Table := { name := table, schema := schema, fullName := schema ++ '.' :: table }
  let columns := (← rowsOf (ask (.columns schema table))).filterMap readColumn
  if columns.isEmpty then return t
  let pkCols := (← rowsOf (ask (.primaryKey schema table))).filterMap List.head?
  let indexes := (← rowsOf (ask (.indexes schema table))).foldl addIndexRow []
  let fks := (← rowsOf (ask (.foreignKeys schema table))).filterMap readForeignKey
  return { t with
    columns := columns.map fun c => { c with isPrimaryKey := decide (c.name ∈ pkCols) }
    indexes := indexes, foreignKeys := fks, sizeBytes := tableSize ask schema table }

end Readers

section Spec
variable {cat : PgCatalog} {role : Role} {lt : Text → Text → Prop}
  {ask : CatalogQuery → QueryResult}

theorem Gives.foreignKeyRows {schema : Text} {names : List Text} {res : List Row}
    (h : Gives (ask (.tableForeignKeys schema names)) res) :
    foreignKeyRows ask schema names = .ok res := by
  have hne : (ask (.tableForeignKeys schema names)).statements ≠ [] :=
    ((QueryResult.success_iff _).mp h.1).1
  simp [Pg.foreignKeyRows, h.1, h.2, hne]

/-- What `tablesIn` returns: the tables of the schema, each with the columns and foreign
keys that were pushed under its name. -/
theorem tablesIn_spec (h : ServesRole cat role lt ask) (schema : Text) :
    ∃ tables colRes fkRes, tablesIn ask schema = .ok tables ∧
      (tables.map Table.name).Perm
        ((cat.tables.filter fun t => t.2 = schema).map fun t => t.1.relname) ∧
      Answers (Prod.Lex lt (· < ·)) (cat.tableColumnRows role schema (tables.map Table.name)) colRes ∧
      Answers (Prod.Lex lt (Prod.Lex lt (· < ·)))
        (cat.tableForeignKeyRows schema (tables.map Table.name)) fkRes ∧
      ∀ u ∈ tables, u.columns = pushed (colRes.filterMap readTableColumn) u.name ∧
        u.foreignKeys = pushed (fkRes.filterMap readTableForeignKey) u.name := by
  obtain ⟨nameRes, hn, hna⟩ := h.tableNames schema
  set names := nameRes.filterMap List.head? with hnames
  obtain ⟨colRes, hc, hca⟩ := h.tableColumns schema names
  obtain ⟨fkRes, hf, hfa⟩ := h.tableForeignKeys schema names
  have hperm : names.Perm
      ((cat.tables.filter fun t => t.2 = schema).map fun t => t.1.relname) := by
    have := hna.perm.filterMap List.head?
    simpa [PgCatalog.tableNameRows, hnames, Function.comp_def] using this
  by_cases hempty : names = []
  · refine ⟨[], colRes, fkRes, ?_, ?_, ?_, ?_, by simp⟩
    · simp [tablesIn, rowsOf_gives hn, ← hnames, hempty, bind, Except.bind, pure, Except.pure]
    · simpa [hempty] using hperm
    · simpa [hempty] using hca
    · simpa [hempty] using hfa
  · have hkeep := populate_keeps (names.map (tableEntry schema
      (colRes.filterMap readTableColumn) (fkRes.filterMap readTableForeignKey)
      ((sizeRows ask schema names).filterMap readSize))) (fun t => (t.name, t.columns, t.foreignKeys)) fun _ _ => rfl
    rw [List.map_map] at hkeep
    set tables := populateIncomingForeignKeys (names.map (tableEntry schema
      (colRes.filterMap readTableColumn) (fkRes.filterMap readTableForeignKey)
      ((sizeRows ask schema names).filterMap readSize))) with htables
    have hname : tables.map Table.name = names := by
      have := congrArg (List.map Prod.fst) hkeep
      simpa [Function.comp_def, tableEntry] using this
    refine ⟨tables, colRes, fkRes, ?_, by rwa [hname], by rwa [hname], by rwa [hname], ?_⟩
    · simp [tablesIn, rowsOf_gives hn, rowsOf_gives hc, hf.foreignKeyRows, ← hnames, hempty, htables,
        bind, Except.bind, pure, Except.pure]
    · intro u hu
      have hmem := List.mem_map_of_mem (f := fun t : Table => (t.name, t.columns, t.foreignKeys)) hu
      rw [hkeep] at hmem
      obtain ⟨tn, -, he⟩ := List.mem_map.mp hmem
      simp only [Function.comp_apply, Prod.mk.injEq] at he
      obtain ⟨rfl, hcols, hfks⟩ := he
      exact ⟨hcols.symm, hfks.symm⟩

/-- The answer to the column query is empty where the role sees no column of the table. -/
theorem readColumns_eq_nil_iff {t : PgClass × Text} {colRes : List Row} (ht : t ∈ cat.tables)
    (hca : Answers (· < ·) (cat.columnRows role t.2 t.1.relname) colRes) :
    colRes.filterMap readColumn = [] ↔ ∀ a ∈ cat.attributes, a.attrelid = t.1.oid →
      role.seesColumn t.2 t.1.relname a.attname = false := by
  have hcols := hca.perm.filterMap readColumn
  have hshown : (cat.shownColumns role).filter (fun c =>
      c.tableSchema = t.2 ∧ c.tableName = t.1.relname) =
      ((cat.attributes.filter fun a => a.attrelid = t.1.oid).map fun a =>
        (⟨t.2, t.1.relname, a⟩ : ColumnsRow)).filter fun c =>
          role.seesColumn c.tableSchema c.tableName c.column.attname := by
    rw [PgCatalog.shownColumns, List.filter_comm, PgCatalog.columnsView_table ht]
  rw [PgCatalog.columnRows, hshown, List.filter_map] at hcols
  have hlen := hcols.length_eq
  simp only [List.filterMap_map, List.map_map, Function.comp_def, readColumn,
    List.filterMap_eq_map', List.length_map] at hlen
  rw [← List.length_eq_zero_iff, hlen, List.length_eq_zero_iff, List.filter_eq_nil_iff]
  simp

end Spec
end DearSql.Pg
