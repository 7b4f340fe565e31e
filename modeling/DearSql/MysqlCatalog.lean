import DearSql.PgTables
import DearSql.ServerCalls
import DearSql.SqlBuilder

/-! The catalog and data calls of `MySQLDatabase` over a connection any of whose calls may
fail: connecting, `mysql_query` and `mysql_store_result`. Each query is one statement. -/
namespace DearSql.Mysql
open Effects ServerCalls
open Pg (pushed populateIncomingForeignKeys)

abbrev Row := List (Option Text)

/-- What the server holds: the whole answer to a query, the fields of `SELECT *` that are
`TINYINT(1)`, and the number a `SELECT COUNT(*)` counts. -/
structure Server where
  rows : Text → List Row
  booleans : Text → List Bool
  count : Text → ℕ
  error : Text := []

structure MySQLDatabase where
  connectionName : Text
  name : Text
  connected : Bool

/-- A cell as the C string it is read as, empty where it is null. -/
def cell (row : Row) (i : ℕ) : Text := ((row[i]?).join.map cstr).getD []

def column (row : Row) : Column :=
  { name := cell row 0, type := cell row 1, isNotNull := cell row 2 = "NO".toList
    isPrimaryKey := cell row 3 = "PRI".toList, defaultValue := cell row 4
    isAutoIncrement := contains "auto_increment".toList (cell row 5) }

def viewColumn (row : Row) : Column :=
  { name := cell row 0, type := cell row 1, isNotNull := cell row 2 = "NO".toList }

def foreignKey (row : Row) : ForeignKey :=
  { name := cell row 3, sourceColumn := cell row 0, targetTable := cell row 1
    targetColumn := cell row 2 }

def firstCells (rows : List Row) : List Text := rows.filterMap fun row => row.head?.join.map cstr

/-- `uniqueIndexCols`: index name and column, in row order. -/
def uniqueEntries (rows : List Row) : List (Text × Text) :=
  (rows.map fun row => (cell row 2, cell row 4)).filter fun e => e.1 ≠ [] && e.2 ≠ []

def markUnique (entries : List (Text × Text)) (col : Column) : Column :=
  { col with isUnique :=
      entries.any fun e => e.1 ≠ "PRIMARY".toList && pushed entries e.1 = [col.name] }

/-- `indexMap`: one index a name, in name order. -/
def indexesOf (rows : List Row) : List Index :=
  let entries := rows.map fun row => (cell row 2, row)
  ((entries.map (·.1)).dedup.mergeSort (· ≤ ·)).map fun n =>
    let own := pushed entries n
    let nonUnique : ℤ := match own.head? with
      | some row => if ((row[1]?).join).isSome then atoi (cell row 1) else 1
      | none => 1
    { name := n, isUnique := nonUnique = 0, columns := own.map fun row => cell row 4 }

/-- A cell of `getTableData`; the length of a cell is known, so it is not cut at a NUL. -/
def dataCell (boolean : Bool) : Option Text → Text
  | none => NULL_SENTINEL
  | some t =>
    if boolean then (if t.head? = some '1' then BOOL_TRUE_SENTINEL else BOOL_FALSE_SENTINEL)
    else t

/-- `int`, 32 bits wide. -/
def toInt (n : ℤ) : ℤ := n.bmod (2 ^ 32)

def escapeLiteral (s : Text) : Text := doubling '\\' (doubling '\'' s)

namespace MySQLDatabase
variable (db : MySQLDatabase)

def quoteIdent (s : Text) : Text := Builder.MySQL.quoteIdentifier s

def tablesQuery : Text := "SHOW FULL TABLES WHERE Table_type = 'BASE TABLE'".toList

def viewsQuery : Text := "SHOW FULL TABLES WHERE Table_type = 'VIEW'".toList

def columnsQuery (table : Text) : Text := "DESCRIBE ".toList ++ quoteIdent table

def uniqQuery (table : Text) : Text :=
  "SHOW INDEX FROM ".toList ++ quoteIdent table ++ " WHERE Non_unique = 0".toList

def indexQuery (table : Text) : Text :=
  "SHOW INDEX FROM ".toList ++ quoteIdent table ++ " WHERE Key_name != 'PRIMARY'".toList

def fkQuery (table : Text) : Text :=
  ("SELECT COLUMN_NAME, REFERENCED_TABLE_NAME, REFERENCED_COLUMN_NAME, CONSTRAINT_NAME " ++
    "FROM INFORMATION_SCHEMA.KEY_COLUMN_USAGE WHERE TABLE_SCHEMA = '").toList ++
    escapeLiteral db.name ++ "' AND TABLE_NAME = '".toList ++ escapeLiteral table ++
    "' AND REFERENCED_TABLE_NAME IS NOT NULL".toList

def whereClause (clause : Text) : Text :=
  if clause = [] then [] else " WHERE ".toList ++ clause

def dataQuery (table : Text) (limit offset : ℤ) (where_ orderBy : Text) : Text :=
  "SELECT * FROM ".toList ++ quoteIdent table ++ whereClause where_ ++
    (if orderBy = [] then [] else " ORDER BY ".toList ++ orderBy) ++
    " LIMIT ".toList ++ itoa limit ++ " OFFSET ".toList ++ itoa offset

def countQuery (table where_ : Text) : Text :=
  "SELECT COUNT(*) FROM ".toList ++ quoteIdent table ++ whereClause where_

variable (srv : Server)

def ensureConn : M (Except Text Unit) := do
  if db.connected then return .ok ()
  match ← call () with
  | some _ => return .ok ()
  | none => return .error ("MySQL connection failed: ".toList ++ srv.error)

/-- `mysql_query` and, where it succeeds, `mysql_store_result`. -/
def query {α : Type} (answer : α) : M (Option α) := do
  match ← call () with
  | some _ => call answer
  | none => return none

/-- The rows of a query as the loops read them; none where it fails. -/
def fetch (sql : Text) : M (List Row) := (·.getD []) <$> query (srv.rows sql)

/-- `try { ensureConn(); } catch (...) { return empty; }`, then the body. -/
def connectedOr {α : Type} (empty : α) (body : M α) : M (Except Text α) := do
  match ← db.ensureConn srv with
  | .error _ => return .ok empty
  | .ok _ => return .ok (← body)

def shell (table : Text) : Table :=
  { name := table, schema := db.name
    fullName := db.connectionName ++ '.' :: db.name ++ '.' :: table }

def tableEntry (table : Text) : M Table := do
  let columns ← fetch srv (columnsQuery table)
  let keys ← fetch srv (db.fkQuery table)
  return { db.shell table with columns := columns.map column, foreignKeys := keys.map foreignKey }

def tables : M (Except Text (List Table)) := db.connectedOr srv [] do
  let tableNames := firstCells (← fetch srv tablesQuery)
  return populateIncomingForeignKeys (← tableNames.mapM (db.tableEntry srv))

def viewEntry (view : Text) : M Table := do
  return { db.shell view with columns := (← fetch srv (columnsQuery view)).map viewColumn }

def views : M (Except Text (List Table)) := db.connectedOr srv [] do
  let viewNames := firstCells (← fetch srv viewsQuery)
  viewNames.mapM (db.viewEntry srv)

def describeTable (table : Text) : M (Except Text Table) := db.connectedOr srv (db.shell table) do
  let columns ← fetch srv (columnsQuery table)
  let unique ← fetch srv (uniqQuery table)
  let indexes ← fetch srv (indexQuery table)
  let keys ← fetch srv (db.fkQuery table)
  return { db.shell table with
    columns := (columns.map column).map (markUnique (uniqueEntries unique))
    indexes := indexesOf indexes
    foreignKeys := keys.map foreignKey }

def getTableData (table : Text) (limit offset : ℤ) (where_ orderBy : Text) :
    M (Except Text (List (List Text))) := db.connectedOr srv [] do
  let sql := dataQuery table limit offset where_ orderBy
  return (← fetch srv sql).map (List.zipWith dataCell (srv.booleans sql))

def getColumnNames (table : Text) : M (Except Text (List Text)) := db.connectedOr srv [] do
  return firstCells (← fetch srv (columnsQuery table))

def getRowCount (table where_ : Text) : M (Except Text ℤ) := db.connectedOr srv 0 do
  match ← query (itoa (srv.count (countQuery table where_))) with
  | some text => return toInt (atoi text)
  | none => return 0

/-- The catalog and data calls of a `MySQLDatabase`. -/
inductive Op
  | tables
  | views
  | describeTable (table : Text)
  | getTableData (table : Text) (limit offset : ℤ) (where_ orderBy : Text)
  | getColumnNames (table : Text)
  | getRowCount (table where_ : Text)

namespace Op

def Answer : Op → Type
  | tables | views => List Table
  | describeTable _ => Table
  | getTableData .. => List (List Text)
  | getColumnNames _ => List Text
  | getRowCount .. => ℤ

def run : (op : Op) → M (Except Text op.Answer)
  | tables => db.tables srv
  | views => db.views srv
  | describeTable table => db.describeTable srv table
  | getTableData table limit offset where_ orderBy =>
    db.getTableData srv table limit offset where_ orderBy
  | getColumnNames table => db.getColumnNames srv table
  | getRowCount table where_ => db.getRowCount srv table where_

/-- What the server would have it return. -/
def truth : (op : Op) → op.Answer
  | tables => populateIncomingForeignKeys ((firstCells (srv.rows tablesQuery)).map fun t =>
    { db.shell t with
      columns := (srv.rows (columnsQuery t)).map column
      foreignKeys := (srv.rows (db.fkQuery t)).map foreignKey })
  | views => (firstCells (srv.rows viewsQuery)).map fun v =>
    { db.shell v with columns := (srv.rows (columnsQuery v)).map viewColumn }
  | describeTable t =>
    { db.shell t with
      columns := ((srv.rows (columnsQuery t)).map column).map
        (markUnique (uniqueEntries (srv.rows (uniqQuery t))))
      indexes := indexesOf (srv.rows (indexQuery t))
      foreignKeys := (srv.rows (db.fkQuery t)).map foreignKey }
  | getTableData t limit offset where_ orderBy =>
    (srv.rows (dataQuery t limit offset where_ orderBy)).map
      (List.zipWith dataCell (srv.booleans (dataQuery t limit offset where_ orderBy)))
  | getColumnNames t => firstCells (srv.rows (columnsQuery t))
  | getRowCount t where_ => (srv.count (countQuery t where_) : ℤ)

/-- The server calls of a run without failures: one to connect if need be, two a query. -/
def calls (op : Op) : ℕ :=
  (if db.connected then 0 else 1) + match op with
    | tables => 2 + (firstCells (srv.rows tablesQuery)).length * 4
    | views => 2 + (firstCells (srv.rows viewsQuery)).length * 2
    | describeTable _ => 8
    | getTableData .. | getColumnNames _ | getRowCount .. => 2

/-- A count that `int` holds. -/
def Fits : Op → Prop
  | getRowCount t where_ => srv.count (countQuery t where_) < 2 ^ 31
  | _ => True

end Op

section Rules
variable {srv} {db} {α β : Type} {body : M α} {n : ℕ} {a empty : α}

theorem stays_query (a : α) : Leads Stays (query a) := by
  refine stays_bind (stays_call ()) fun o => ?_
  cases o with
  | none => exact stays_pure none
  | some _ => exact stays_call a

theorem follows_query (a : α) : Follows (query a) 2 (some a) := by
  refine Follows.bind (n := 1) (k := 1) (follows_call ()) (fun o => ?_) (follows_call a)
  cases o with
  | none => exact stays_pure none
  | some _ => exact stays_call a

theorem follows_fetch (sql : Text) : Follows (fetch srv sql) 2 (srv.rows sql) :=
  (follows_query _).map _

theorem stays_fetch (sql : Text) : Leads Stays (fetch srv sql) := stays_map (stays_query _) _

theorem follows_fetch_map (sql : Text) (f : List Row → α) :
    Follows (do return f (← fetch srv sql)) 2 (f (srv.rows sql)) :=
  (follows_fetch sql).map f

theorem stays_fetch_map (sql : Text) (f : List Row → α) :
    Leads Stays (do return f (← fetch srv sql) : M α) :=
  stays_map (stays_fetch sql) f

theorem follows_ensureConn :
    Follows (db.ensureConn srv) (if db.connected then 0 else 1) (.ok ()) := by
  unfold MySQLDatabase.ensureConn
  cases db.connected with
  | true => exact follows_pure _
  | false =>
    refine Follows.bind (n := 1) (k := 0) (follows_call ()) (fun o => ?_) (follows_pure _)
    cases o with
    | none => exact stays_pure _
    | some _ => exact stays_pure _

theorem follows_connectedOr (h : Follows body n a) (stays : Leads Stays body) :
    Follows (db.connectedOr srv empty body) ((if db.connected then 0 else 1) + n) (.ok a) := by
  refine Follows.bind follows_ensureConn (fun r => ?_) (h.map Except.ok)
  cases r with
  | error _ => exact stays_pure _
  | ok _ => exact stays_map stays Except.ok

/-- The `catch` of `ensureConn` leaves nothing that could throw. -/
theorem connectedOr_ok (s : Network) : ∃ v, value (db.connectedOr srv empty body) s = .ok v := by
  unfold MySQLDatabase.connectedOr
  rw [value_bind]
  cases value (db.ensureConn srv) s with
  | error _ => exact ⟨empty, rfl⟩
  | ok _ => exact ⟨_, rfl⟩

theorem follows_tableEntry (t : Text) : Follows (db.tableEntry srv t) 4
    { db.shell t with
      columns := (srv.rows (columnsQuery t)).map column
      foreignKeys := (srv.rows (db.fkQuery t)).map foreignKey } :=
  (follows_fetch _).bind (fun _ => stays_fetch_map _ _) (follows_fetch_map _ _)

theorem stays_tableEntry (t : Text) : Leads Stays (db.tableEntry srv t) :=
  stays_bind (stays_fetch _) fun _ => stays_fetch_map _ _

theorem toInt_eq_iff (k : ℕ) : toInt k = k ↔ k < 2 ^ 31 := by
  rw [toInt, Int.bmod_def]
  split_ifs <;> omega

theorem follows_describeTable (t : Text) :
    Follows (db.describeTable srv t) ((if db.connected then 0 else 1) + 8)
      (.ok (Op.truth db srv (.describeTable t))) := by
  refine follows_connectedOr ?_ ?_
  · refine Follows.bind (n := 2) (k := 6) (follows_fetch _) (fun _ => ?_) ?_
    · exact stays_bind (stays_fetch _) fun _ => stays_bind (stays_fetch _) fun _ =>
        stays_fetch_map _ _
    refine Follows.bind (n := 2) (k := 4) (follows_fetch _) (fun _ => ?_) ?_
    · exact stays_bind (stays_fetch _) fun _ => stays_fetch_map _ _
    refine Follows.bind (n := 2) (k := 2) (follows_fetch _) (fun _ => ?_) ?_
    · exact stays_fetch_map _ _
    exact follows_fetch_map _ _
  · exact stays_bind (stays_fetch _) fun _ => stays_bind (stays_fetch _) fun _ =>
      stays_bind (stays_fetch _) fun _ => stays_fetch_map _ _

theorem follows_getRowCount (t where_ : Text) :
    Follows (db.getRowCount srv t where_) ((if db.connected then 0 else 1) + 2)
      (.ok (toInt (srv.count (countQuery t where_)))) := by
  have stays : ∀ o : Option Text, Leads Stays (match o with
      | some text => pure (toInt (atoi text))
      | none => pure 0 : M ℤ) := by
    intro o
    cases o with
    | none => exact stays_pure _
    | some _ => exact stays_pure _
  have hcount : atoi (itoa (srv.count (countQuery t where_))) = srv.count (countQuery t where_) := by
    rw [atoi, leadingInt_itoa]
    rfl
  refine follows_connectedOr (Follows.bind (k := 0) (follows_query _) stays ?_)
    (stays_bind (stays_query _) stays)
  simpa only [hcount] using follows_pure (toInt (srv.count (countQuery t where_) : ℤ))

/-- What a run without failures returns: a count goes through `int`. -/
def Op.shown : (op : Op) → op.Answer
  | .getRowCount t where_ => toInt (Op.truth db srv (.getRowCount t where_))
  | op => op.truth db srv

theorem follows_run (op : Op) :
    Follows (op.run db srv) (op.calls db srv) (.ok (@Op.shown db srv op)) := by
  cases op with
  | tables =>
    refine follows_connectedOr ((follows_fetch _).bind (fun _ => ?_) ?_) ?_
    · exact stays_map (stays_mapM stays_tableEntry) _
    · exact (follows_mapM _ stays_tableEntry follows_tableEntry).map _
    · exact stays_bind (stays_fetch _) fun _ => stays_map (stays_mapM stays_tableEntry) _
  | views =>
    refine follows_connectedOr ((follows_fetch _).bind (fun _ => ?_) ?_) ?_
    · exact stays_mapM fun v => stays_fetch_map _ _
    · exact follows_mapM _ (fun v => stays_fetch_map _ _) fun v => follows_fetch_map _ _
    · exact stays_bind (stays_fetch _) fun _ => stays_mapM fun v => stays_fetch_map _ _
  | describeTable t =>
    exact follows_describeTable t
  | getTableData t limit offset where_ orderBy =>
    exact follows_connectedOr (follows_fetch_map _ _) (stays_fetch_map _ _)
  | getColumnNames t => exact follows_connectedOr (follows_fetch_map _ _) (stays_fetch_map _ _)
  | getRowCount t where_ =>
    exact follows_getRowCount t where_

theorem run_ok (op : Op) (s : Network) : ∃ v, value (op.run db srv) s = .ok v := by
  cases op with
  | tables | views => exact connectedOr_ok s
  | describeTable _ => exact connectedOr_ok s
  | getTableData _ _ _ _ _ => exact connectedOr_ok s
  | getColumnNames _ => exact connectedOr_ok s
  | getRowCount _ _ => exact connectedOr_ok s

theorem reports_run_iff (op : Op) (pending : List Bool) :
    Reports (op.run db srv) (op.truth db srv) pending ↔
      Through (op.calls db srv) pending ∧ op.Fits srv := by
  rw [reports_iff (follows_run op) (run_ok op)]
  refine and_congr_right fun _ => ?_
  cases op with
  | getRowCount t where_ => exact toInt_eq_iff _
  | tables | views => exact iff_of_true rfl trivial
  | describeTable _ => exact iff_of_true rfl trivial
  | getTableData _ _ _ _ _ => exact iff_of_true rfl trivial
  | getColumnNames _ => exact iff_of_true rfl trivial

end Rules

end MySQLDatabase
end DearSql.Mysql
