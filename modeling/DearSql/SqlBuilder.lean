import DearSql.Tokenizer
import DearSql.Types

/-! The SQL builders: one per dialect, each with its own quoting and statement forms. -/
namespace DearSql

def isPostgresFamily : DatabaseType → Bool
  | .POSTGRESQL | .REDSHIFT | .COCKROACHDB => true
  | _ => false

def isMySQLFamily : DatabaseType → Bool
  | .MYSQL | .MARIADB | .TIDB => true
  | _ => false

def autoIncrementClause : DatabaseType → Text
  | .MYSQL | .MARIADB | .TIDB => " AUTO_INCREMENT".toList
  | .SQLITE => " AUTOINCREMENT".toList
  | .MSSQL => " IDENTITY(1,1)".toList
  | .ORACLE => " GENERATED ALWAYS AS IDENTITY".toList
  | _ => []

def normalizeTypeName (type : Text) : Text :=
  let lowered := ((lower type).takeWhile (· ≠ '(')).takeWhile (· ≠ ' ')
  let blank := fun c : Char => c = ' ' || c = '\t'
  (((lowered.dropWhile blank).reverse).dropWhile blank).reverse

def serialTypeForColumn (type : Text) : Text :=
  if normalizeTypeName type = "bigint".toList then "BIGSERIAL".toList
  else if normalizeTypeName type = "smallint".toList then "SMALLSERIAL".toList
  else "SERIAL".toList

/-- Every `q` written twice. -/
def doubling (q : Char) : Text → Text
  | [] => []
  | c :: cs => if c = q then q :: q :: doubling q cs else c :: doubling q cs

def escapeSingleQuotes (value : Text) : Text := doubling '\'' value

inductive Builder
  | PostgreSQL | MySQL | MSSQL | Oracle | SQLite | DuckDB | Cassandra
  deriving DecidableEq, Repr

def createSQLBuilder : DatabaseType → Builder
  | .REDSHIFT | .COCKROACHDB | .POSTGRESQL => .PostgreSQL
  | .MYSQL | .MARIADB | .TIDB => .MySQL
  | .MSSQL => .MSSQL
  | .ORACLE => .Oracle
  | .CASSANDRA => .Cassandra
  | .DUCKDB => .DuckDB
  | .SQLITE | .REDIS | .MONGODB | .S3 => .SQLite

namespace Builder

def databaseType : Builder → DatabaseType
  | PostgreSQL => .POSTGRESQL
  | MySQL => .MYSQL
  | MSSQL => .MSSQL
  | Oracle => .ORACLE
  | SQLite => .SQLITE
  | DuckDB => .DUCKDB
  | Cassandra => .CASSANDRA

/-- The quotes of an identifier. -/
def openQuote : Builder → Char
  | MySQL => '`'
  | MSSQL => '['
  | _ => '"'

def closeQuote : Builder → Char
  | MySQL => '`'
  | MSSQL => ']'
  | _ => '"'

variable (b : Builder)

def quoteIdentifier (identifier : Text) : Text :=
  b.openQuote :: doubling b.closeQuote identifier ++ [b.closeQuote]

/-- `schema.table`, each quoted, or the quoted table alone. -/
def qualifiedRef (schema tableName : Text) : Text :=
  if schema = [] then b.quoteIdentifier tableName
  else b.quoteIdentifier schema ++ ".".toList ++ b.quoteIdentifier tableName

/-- Quoted names with commas between them. -/
def quoteList (names : List Text) : Text := ", ".toList.intercalate (names.map b.quoteIdentifier)

def commentLiteral (comment : Text) : Text := '\'' :: escapeSingleQuotes comment ++ ['\'']

/-- A column comment of PostgreSQL as a statement of its own. -/
def commentOn (qualifiedTable name comment : Text) : Text :=
  "COMMENT ON COLUMN ".toList ++ (qualifiedTable ++ ".".toList ++ b.quoteIdentifier name) ++
    " IS ".toList ++ commentLiteral comment

section CreateTable

/-- What the loop of `createTable` carries from column to column. -/
structure CreateLoop where
  sql : Text := []
  trailingPkColumns : List Text := []
  hasInlineSQLitePrimaryKey : Bool := false
  deriving DecidableEq, Repr

def createColumnType (col : Column) : Text :=
  if col.isAutoIncrement && b.databaseType = .POSTGRESQL then serialTypeForColumn col.type
  else col.type

def inlinePk (col : Column) : Bool :=
  col.isPrimaryKey && col.isAutoIncrement && b.databaseType = .SQLITE

/-- The text of one column of `createTable`. -/
def createColumn (col : Column) : Text :=
  b.quoteIdentifier col.name ++ " ".toList ++ b.createColumnType col ++
    (if b.inlinePk col then " PRIMARY KEY AUTOINCREMENT".toList else []) ++
    (if col.isNotNull && !col.isPrimaryKey && b.databaseType ≠ .CASSANDRA then
      " NOT NULL".toList else []) ++
    (if col.isAutoIncrement && b.databaseType ≠ .SQLITE && b.databaseType ≠ .POSTGRESQL then
      autoIncrementClause b.databaseType else []) ++
    (if isMySQLFamily b.databaseType && col.comment ≠ [] then
      " COMMENT ".toList ++ commentLiteral col.comment else [])

def createStep (st : CreateLoop) (i : ℕ) (col : Column) : CreateLoop :=
  let sql := st.sql ++ (if i > 0 then ", ".toList else []) ++ b.createColumn col
  let st := if b.inlinePk col then ⟨sql, [], true⟩ else { st with sql := sql }
  if col.isPrimaryKey && !b.inlinePk col &&
      !(b.databaseType = .SQLITE && st.hasInlineSQLitePrimaryKey) then
    { st with trailingPkColumns := st.trailingPkColumns ++ [col.name] }
  else st

def createLoop : CreateLoop → ℕ → List Column → CreateLoop
  | st, _, [] => st
  | st, i, col :: cols => createLoop (b.createStep st i col) (i + 1) cols

/-- The column comments of PostgreSQL, as statements after the table. -/
def commentStatements (qualifiedName : Text) : List Column → Text
  | [] => []
  | col :: cols =>
    (if col.comment ≠ [] then ";\n".toList ++ b.commentOn qualifiedName col.name col.comment
      else []) ++ commentStatements qualifiedName cols

def createTable (table : Table) (schemaPrefix : Text) : Text :=
  let qualifiedName := b.qualifiedRef schemaPrefix table.name
  let st := b.createLoop { sql := "CREATE TABLE ".toList ++ qualifiedName ++ " (".toList } 0
    table.columns
  st.sql ++
    (if st.trailingPkColumns ≠ [] then
      ", PRIMARY KEY (".toList ++ b.quoteList st.trailingPkColumns ++ ")".toList else []) ++
    ")".toList ++
    (if isMySQLFamily b.databaseType then
      " ENGINE=InnoDB DEFAULT CHARSET=utf8mb4".toList ++
        (if table.comment ≠ [] then " COMMENT=".toList ++ commentLiteral table.comment else [])
      else []) ++
    (if b.databaseType = .POSTGRESQL then b.commentStatements qualifiedName table.columns else [])

end CreateTable

section TableDdl

def ddlColumnLine (col : Column) : Text :=
  b.quoteIdentifier col.name ++ " ".toList ++ col.type ++
    (if col.defaultValue ≠ [] && !"nextval(".toList.isPrefixOf col.defaultValue then
      " DEFAULT ".toList ++ col.defaultValue else []) ++
    (if col.isAutoIncrement && !isPostgresFamily b.databaseType then
      autoIncrementClause b.databaseType else []) ++
    (if col.isNotNull && !col.isPrimaryKey && b.databaseType ≠ .CASSANDRA then
      " NOT NULL".toList else [])

/-- A unique index that becomes a constraint line. -/
def ddlIndexLine (idx : Index) : Text :=
  "CONSTRAINT ".toList ++ b.quoteIdentifier idx.name ++ " UNIQUE (".toList ++
    b.quoteList idx.columns ++ ")".toList

def ddlIndexAfter (qualified : Text) (idx : Index) : Text :=
  "CREATE INDEX ".toList ++ b.quoteIdentifier idx.name ++ " ON ".toList ++ qualified ++
    " (".toList ++ b.quoteList idx.columns ++ ");".toList

def ddlIndexKept (idx : Index) : Bool := !(idx.isPrimary || idx.columns.isEmpty)

def ddlIndexInline (idx : Index) : Bool := idx.isUnique && b.databaseType ≠ .CASSANDRA

/-- The first group of that name gets the key; an unnamed key is a group of its own. -/
def addForeignKey (fk : ForeignKey) : List (Text × List ForeignKey) → List (Text × List ForeignKey)
  | [] => [(fk.name, [fk])]
  | g :: gs => if fk.name ≠ [] ∧ g.1 = fk.name then (g.1, g.2 ++ [fk]) :: gs
    else g :: addForeignKey fk gs

def groupForeignKeys (fks : List ForeignKey) : List (Text × List ForeignKey) :=
  fks.foldl (fun groups fk => addForeignKey fk groups) []

def ddlAction (clause action : Text) : Text :=
  if action ≠ [] && action ≠ "NO ACTION".toList then clause ++ action else []

def ddlForeignKeyLine (g : Text × List ForeignKey) : Text :=
  (if g.1 = [] then [] else "CONSTRAINT ".toList ++ b.quoteIdentifier g.1 ++ " ".toList) ++
    "FOREIGN KEY (".toList ++ b.quoteList (g.2.map (·.sourceColumn)) ++ ") REFERENCES ".toList ++
    b.quoteIdentifier ((g.2.head?.map (·.targetTable)).getD []) ++ " (".toList ++
    b.quoteList (g.2.map (·.targetColumn)) ++ ")".toList ++
    ddlAction " ON DELETE ".toList ((g.2.head?.map (·.onDelete)).getD []) ++
    ddlAction " ON UPDATE ".toList ((g.2.head?.map (·.onUpdate)).getD [])

def ddlLines (table : Table) : List Text :=
  let pk := (table.columns.filter (·.isPrimaryKey)).map (·.name)
  table.columns.map b.ddlColumnLine ++
    (if pk ≠ [] then ["PRIMARY KEY (".toList ++ b.quoteList pk ++ ")".toList] else []) ++
    ((table.indexes.filter ddlIndexKept).filter b.ddlIndexInline).map b.ddlIndexLine ++
    (groupForeignKeys table.foreignKeys).map b.ddlForeignKeyLine

/-- Each line indented, with commas between the lines. -/
def joinLines : List Text → Text
  | [] => []
  | [l] => "    ".toList ++ l ++ "\n".toList
  | l :: ls => "    ".toList ++ l ++ ",\n".toList ++ joinLines ls

def tableDdl (table : Table) (schemaPrefix : Text) : Text :=
  let qualified := b.qualifiedRef schemaPrefix table.name
  "CREATE TABLE ".toList ++ qualified ++ " (\n".toList ++ joinLines (b.ddlLines table) ++
    ");".toList ++
    ((table.indexes.filter ddlIndexKept).filter fun idx => !b.ddlIndexInline idx).flatMap
      fun idx => "\n".toList ++ b.ddlIndexAfter qualified idx

end TableDdl

section Columns

def notNullClause (col : Column) : Text := if col.isNotNull then " NOT NULL".toList else []

def uniqueClause (col : Column) : Text := if col.isUnique then " UNIQUE".toList else []

def defaultClause (col : Column) : Text :=
  if col.defaultValue ≠ [] then " DEFAULT ".toList ++ col.defaultValue else []

def autoIncrementOf (col : Column) : Text :=
  if col.isAutoIncrement then autoIncrementClause b.databaseType else []

def columnComment (col : Column) : Text :=
  if col.comment ≠ [] then " COMMENT ".toList ++ commentLiteral col.comment else []

def alterTable (qualifiedTable clause : Text) (col : Text) : Text :=
  "ALTER TABLE ".toList ++ qualifiedTable ++ clause ++ b.quoteIdentifier col

def addColumn (qualifiedTable : Text) (column : Column) : Text :=
  match b with
  | PostgreSQL =>
    b.alterTable qualifiedTable " ADD COLUMN ".toList column.name ++ " ".toList ++
      (if column.isAutoIncrement then serialTypeForColumn column.type else column.type) ++
      notNullClause column ++ uniqueClause column ++ defaultClause column ++
      (if column.comment ≠ [] then
        "; ".toList ++ b.commentOn qualifiedTable column.name column.comment else [])
  | MySQL =>
    b.alterTable qualifiedTable " ADD COLUMN ".toList column.name ++ " ".toList ++ column.type ++
      notNullClause column ++ b.autoIncrementOf column ++ uniqueClause column ++ defaultClause column ++
      columnComment column
  | MSSQL | Oracle =>
    b.alterTable qualifiedTable " ADD ".toList column.name ++ " ".toList ++ column.type ++
      b.autoIncrementOf column ++ notNullClause column ++ uniqueClause column ++ defaultClause column
  | SQLite =>
    b.alterTable qualifiedTable " ADD COLUMN ".toList column.name ++ " ".toList ++ column.type ++
      notNullClause column ++ uniqueClause column ++ defaultClause column
  | DuckDB =>
    b.alterTable qualifiedTable " ADD COLUMN ".toList column.name ++ " ".toList ++ column.type ++
      defaultClause column ++ notNullClause column
  | Cassandra =>
    b.alterTable qualifiedTable " ADD ".toList column.name ++ " ".toList ++ column.type

def dropColumn (qualifiedTable columnName : Text) : Text :=
  match b with
  | Cassandra => b.alterTable qualifiedTable " DROP ".toList columnName
  | _ => b.alterTable qualifiedTable " DROP COLUMN ".toList columnName

def renameColumn (qualifiedTable oldColumnName newColumnName : Text) : Text :=
  match b with
  | MSSQL =>
    "EXEC sp_rename '".toList ++ qualifiedTable ++ ".".toList ++ oldColumnName ++ "', '".toList ++
      newColumnName ++ "', 'COLUMN'".toList
  | _ =>
    b.alterTable qualifiedTable " RENAME COLUMN ".toList oldColumnName ++ " TO ".toList ++
      b.quoteIdentifier newColumnName

/-- The statements of the default `alterColumn`, the multi-statement form of PostgreSQL. -/
def alterStatements (qualifiedTable : Text) (newColumn : Column) : List Text :=
  let alter := b.alterTable qualifiedTable " ALTER COLUMN ".toList newColumn.name
  [alter ++ " TYPE ".toList ++ newColumn.type,
    alter ++ (if newColumn.isNotNull then " SET NOT NULL" else " DROP NOT NULL").toList,
    if newColumn.defaultValue ≠ [] then alter ++ " SET DEFAULT ".toList ++ newColumn.defaultValue
    else alter ++ " DROP DEFAULT".toList] ++
    (if newColumn.comment ≠ [] then [b.commentOn qualifiedTable newColumn.name newColumn.comment]
      else [])

def alterColumn (qualifiedTable : Text) (newColumn : Column) : Text :=
  match b with
  | MySQL =>
    b.alterTable qualifiedTable " MODIFY COLUMN ".toList newColumn.name ++ " ".toList ++
      newColumn.type ++ notNullClause newColumn ++ b.autoIncrementOf newColumn ++ defaultClause newColumn ++
      columnComment newColumn
  | MSSQL =>
    b.alterTable qualifiedTable " ALTER COLUMN ".toList newColumn.name ++ " ".toList ++
      newColumn.type ++ notNullClause newColumn
  | Oracle =>
    b.alterTable qualifiedTable " MODIFY ".toList newColumn.name ++ " ".toList ++
      newColumn.type ++ notNullClause newColumn
  | SQLite => "-- SQLite doesn't support column modification directly".toList
  | PostgreSQL | DuckDB | Cassandra =>
    "; ".toList.intercalate (b.alterStatements qualifiedTable newColumn)

end Columns

section Tables

def renameTable (schema oldName newName : Text) : Text :=
  match b with
  | MySQL =>
    "RENAME TABLE ".toList ++ b.qualifiedRef schema oldName ++ " TO ".toList ++
      b.quoteIdentifier newName
  | MSSQL =>
    "EXEC sp_rename '".toList ++ (if schema = [] then oldName else schema ++ ".".toList ++ oldName) ++
      "', '".toList ++ newName ++ "'".toList
  | _ =>
    "ALTER TABLE ".toList ++ b.qualifiedRef schema oldName ++ " RENAME TO ".toList ++
      b.quoteIdentifier newName

def dropTable (schema tableName : Text) : Text :=
  match b with
  | Oracle => "DROP TABLE ".toList ++ b.qualifiedRef schema tableName ++ " CASCADE CONSTRAINTS".toList
  | Cassandra => "DROP TABLE IF EXISTS ".toList ++ b.qualifiedRef schema tableName
  | _ => "DROP TABLE ".toList ++ b.qualifiedRef schema tableName

def truncateTable (schema tableName : Text) : Text :=
  match b with
  | PostgreSQL => "TRUNCATE TABLE ONLY ".toList ++ b.qualifiedRef schema tableName
  | _ => "TRUNCATE TABLE ".toList ++ b.qualifiedRef schema tableName

def insertRow (qualifiedTable : Text) (columnNames valueLiterals : List Text) : Text :=
  let rows := columnNames.zip valueLiterals
  "INSERT INTO ".toList ++ qualifiedTable ++ " (".toList ++ b.quoteList (rows.map (·.1)) ++
    ") VALUES (".toList ++ ", ".toList.intercalate (rows.map (·.2)) ++ ")".toList

def assignment (a : Text × Text) : Text := b.quoteIdentifier a.1 ++ " = ".toList ++ a.2

def updateRow (qualifiedTable : Text) (assignments : List (Text × Text)) (whereExpr : Text) : Text :=
  "UPDATE ".toList ++ qualifiedTable ++ " SET ".toList ++
    ", ".toList.intercalate (assignments.map b.assignment) ++ " WHERE ".toList ++ whereExpr

end Tables
end Builder
end DearSql
