import DearSql.SqlPieces

/-! The pieces of each SQL text that a builder makes. -/
namespace DearSql
namespace Builder

variable (b : Builder)

section Parts

def namesOf (schema name : Text) : List Text := if schema = [] then [name] else [schema, name]

/-- A quoted list of names. -/
def namePieces (names : List Text) : List Piece :=
  (names.map fun n => Piece.path [n]).intersperse (.fixed ", ")

def autoIncrementPieces : DatabaseType → List Piece
  | .MYSQL | .MARIADB | .TIDB => [.fixed " AUTO_INCREMENT"]
  | .SQLITE => [.fixed " AUTOINCREMENT"]
  | .MSSQL => [.fixed " IDENTITY(1,1)"]
  | .ORACLE => [.fixed " GENERATED ALWAYS AS IDENTITY"]
  | _ => []

def commentOnPieces (schema tableName name comment : Text) : List Piece :=
  [.fixed "COMMENT ON COLUMN ", .path (namesOf schema tableName ++ [name]), .fixed " IS ",
    .literal comment]

def commentPieces (col : Column) : List Piece :=
  if col.comment ≠ [] then [.fixed " COMMENT ", .literal col.comment] else []

theorem text_namesOf (schema name : Text) :
    (Piece.path (namesOf schema name)).text b = b.qualifiedRef schema name := by
  unfold namesOf qualifiedRef
  split_ifs
  · exact text_path_singleton name
  · rw [text_path, text_path_singleton]

theorem text_columnOf (schema tableName name : Text) :
    (Piece.path (namesOf schema tableName ++ [name])).text b =
      b.qualifiedRef schema tableName ++ ".".toList ++ b.quoteIdentifier name := by
  unfold namesOf qualifiedRef
  split_ifs
  · rw [List.singleton_append, text_path, text_path_singleton]
  · rw [List.cons_append, List.singleton_append, text_path, text_path, text_path_singleton]
    simp only [List.append_assoc]

theorem quoteList_cons_cons (n m : Text) (ns : List Text) :
    b.quoteList (n :: m :: ns) = b.quoteIdentifier n ++ ", ".toList ++ b.quoteList (m :: ns) := by
  simp [quoteList, List.intercalate]

theorem namePieces_cons_cons (n m : Text) (ns : List Text) :
    namePieces (n :: m :: ns) = .path [n] :: .fixed ", " :: namePieces (m :: ns) := by
  simp [namePieces]

theorem render_namePieces (names : List Text) : render b (namePieces names) = b.quoteList names := by
  induction names with
  | nil => simp [namePieces, quoteList, List.intercalate]
  | cons n ns ih =>
    cases ns with
    | nil => simp [namePieces, quoteList, text_path_singleton, List.intercalate]
    | cons m ms =>
      rw [namePieces_cons_cons, render_cons, render_cons, ih, text_path_singleton,
        quoteList_cons_cons, List.append_assoc]
      rfl

theorem chained_namePieces (names : List Text) : chained (namePieces names) = true := by
  induction names with
  | nil => rfl
  | cons n ns ih =>
    cases ns with
    | nil => rfl
    | cons m ms =>
      rw [namePieces_cons_cons]
      exact chained_cons.mpr ⟨rfl, .inr rfl, (Clause.link (by simp) ih).2⟩

theorem render_autoIncrement (type : DatabaseType) :
    render b (autoIncrementPieces type) = autoIncrementClause type := by
  cases type <;> rfl

theorem render_commentOn (schema tableName name comment : Text) :
    render b (commentOnPieces schema tableName name comment) =
      b.commentOn (b.qualifiedRef schema tableName) name comment := by
  unfold commentOnPieces commentOn
  rw [render_cons, render_cons, text_columnOf]
  simp [Piece.text]

end Parts
section CreateTable

def columnClauses (col : Column) : List Piece :=
  (if b.inlinePk col then [.fixed " PRIMARY KEY AUTOINCREMENT"] else []) ++
    (if col.isNotNull && !col.isPrimaryKey && b.databaseType ≠ .CASSANDRA then
      [.fixed " NOT NULL"] else []) ++
    (if col.isAutoIncrement && b.databaseType ≠ .SQLITE && b.databaseType ≠ .POSTGRESQL then
      autoIncrementPieces b.databaseType else []) ++
    (if isMySQLFamily b.databaseType then commentPieces col else [])

def createColumnPieces (col : Column) : List Piece :=
  .path [col.name] :: .fixed " " :: .verbatim (b.createColumnType col) :: b.columnClauses col

/-- The columns of a table from the `i`-th on. -/
def columnsPieces : ℕ → List Column → List Piece
  | _, [] => []
  | i, col :: cols => (if i > 0 then [.fixed ", "] else []) ++ b.createColumnPieces col ++
      columnsPieces (i + 1) cols

def pkPieces (pk : List Text) : List Piece :=
  if pk ≠ [] then .fixed ", PRIMARY KEY (" :: (namePieces pk ++ [.fixed ")"]) else []

def tableCommentPieces (comment : Text) : List Piece :=
  .fixed " ENGINE=InnoDB DEFAULT CHARSET=utf8mb4" ::
    if comment ≠ [] then [.fixed " COMMENT=", .literal comment] else []

def commentStatementPieces (schema tableName : Text) (col : Column) : List Piece :=
  if col.comment ≠ [] then .fixed ";\n" :: commentOnPieces schema tableName col.name col.comment
  else []

/-- The columns of the key that `createTable` puts after the columns. -/
def trailingPk (cols : List Column) : List Text := (b.createLoop {} 0 cols).trailingPkColumns

def createTail (table : Table) (schemaPrefix : Text) : List Piece :=
  pkPieces (b.trailingPk table.columns) ++ [.fixed ")"] ++
    (if isMySQLFamily b.databaseType then tableCommentPieces table.comment else []) ++
    (if b.databaseType = .POSTGRESQL then
      table.columns.flatMap (commentStatementPieces schemaPrefix table.name) else [])

def createTablePieces (table : Table) (schemaPrefix : Text) : List Piece :=
  .fixed "CREATE TABLE " :: .path (namesOf schemaPrefix table.name) :: .fixed " (" ::
    (b.columnsPieces 0 table.columns ++ b.createTail table schemaPrefix)

theorem render_commentPieces (col : Column) :
    render b (commentPieces col) =
      if col.comment ≠ [] then " COMMENT ".toList ++ commentLiteral col.comment else [] := by
  unfold commentPieces
  rw [render_opt, render_cons, render_cons, render_nil, List.append_nil]
  rfl

theorem opt_and (c : Bool) (p : Prop) [Decidable p] (s : Text) :
    (if (c && decide p) = true then s else []) = if c = true then (if p then s else []) else [] := by
  cases c <;> simp

theorem render_createColumn (col : Column) : render b (b.createColumnPieces col) = b.createColumn col := by
  unfold createColumnPieces columnClauses createColumn
  rw [render_cons, render_cons, render_cons, render_append, render_append, render_append, render_opt,
    render_opt, render_opt, render_opt, render_autoIncrement, render_commentPieces,
    text_path_singleton, render_singleton, render_singleton, opt_and (isMySQLFamily _)]
  simp only [List.append_assoc]
  rfl

theorem createStep_sql (st : CreateLoop) (i : ℕ) (col : Column) :
    (b.createStep st i col).sql =
      st.sql ++ ((if i > 0 then ", ".toList else []) ++ b.createColumn col) := by
  unfold createStep
  simp only
  split_ifs <;> simp

theorem createLoop_sql (st : CreateLoop) (i : ℕ) (cols : List Column) :
    (b.createLoop st i cols).sql = st.sql ++ render b (b.columnsPieces i cols) := by
  induction cols generalizing st i with
  | nil => simp [createLoop, columnsPieces]
  | cons col cols ih =>
    rw [createLoop, ih, createStep_sql, columnsPieces, render_append, render_append, render_opt,
      render_createColumn, List.append_assoc]
    rfl

/-- The loop keeps the text apart from the key. -/
theorem createLoop_pk (st st' : CreateLoop) (i : ℕ) (cols : List Column)
    (hpk : st.trailingPkColumns = st'.trailingPkColumns)
    (hin : st.hasInlineSQLitePrimaryKey = st'.hasInlineSQLitePrimaryKey) :
    (b.createLoop st i cols).trailingPkColumns = (b.createLoop st' i cols).trailingPkColumns := by
  induction cols generalizing st st' i with
  | nil => exact hpk
  | cons col cols ih =>
    refine ih _ _ _ ?_ ?_ <;>
    · unfold createStep
      simp only [hin]
      split_ifs <;> simp [hpk]

theorem render_pkPieces (pk : List Text) :
    render b (pkPieces pk) =
      if pk ≠ [] then ", PRIMARY KEY (".toList ++ b.quoteList pk ++ ")".toList else [] := by
  unfold pkPieces
  rw [render_opt, render_cons, render_append, render_namePieces, List.append_assoc]
  rfl

theorem render_commentStatements (schema tableName : Text) (cols : List Column) :
    render b (cols.flatMap (commentStatementPieces schema tableName)) =
      b.commentStatements (b.qualifiedRef schema tableName) cols := by
  induction cols with
  | nil => rfl
  | cons col cols ih =>
    rw [List.flatMap_cons, render_append, ih, commentStatements, commentStatementPieces, render_opt,
      render_cons, render_commentOn]
    rfl

theorem render_createTail (table : Table) (schemaPrefix : Text) :
    render b (b.createTail table schemaPrefix) =
      (if b.trailingPk table.columns ≠ [] then
        ", PRIMARY KEY (".toList ++ b.quoteList (b.trailingPk table.columns) ++ ")".toList else []) ++
        ")".toList ++
        (if isMySQLFamily b.databaseType then
          " ENGINE=InnoDB DEFAULT CHARSET=utf8mb4".toList ++
            (if table.comment ≠ [] then " COMMENT=".toList ++ commentLiteral table.comment else [])
          else []) ++
        (if b.databaseType = .POSTGRESQL then
          b.commentStatements (b.qualifiedRef schemaPrefix table.name) table.columns else []) := by
  unfold createTail tableCommentPieces
  rw [render_append, render_append, render_append, render_pkPieces, render_opt, render_opt,
    render_commentStatements, render_singleton, render_cons, render_opt, render_cons,
    render_singleton]
  rfl

theorem render_createTable (table : Table) (schemaPrefix : Text) :
    render b (b.createTablePieces table schemaPrefix) = b.createTable table schemaPrefix := by
  have hpk := createLoop_pk b
    { sql := "CREATE TABLE ".toList ++ b.qualifiedRef schemaPrefix table.name ++ " (".toList } {} 0
    table.columns rfl rfl
  unfold createTablePieces createTable
  simp only [createLoop_sql, hpk]
  rw [render_cons, render_cons, render_cons, render_append, render_createTail, text_namesOf]
  simp only [-String.reduceToList, text_fixed, trailingPk, List.append_assoc]

end CreateTable

section TableDdl

def ddlColumnPieces (col : Column) : List Piece :=
  .path [col.name] :: .fixed " " :: .verbatim col.type ::
    ((if col.defaultValue ≠ [] && !"nextval(".toList.isPrefixOf col.defaultValue then
      [.fixed " DEFAULT ", .verbatim col.defaultValue] else []) ++
    (if col.isAutoIncrement && !isPostgresFamily b.databaseType then
      autoIncrementPieces b.databaseType else []) ++
    (if col.isNotNull && !col.isPrimaryKey && b.databaseType ≠ .CASSANDRA then
      [.fixed " NOT NULL"] else []))

def ddlIndexPieces (idx : Index) : List Piece :=
  .fixed "CONSTRAINT " :: .path [idx.name] :: .fixed " UNIQUE (" ::
    (namePieces idx.columns ++ [.fixed ")"])

def ddlIndexAfterPieces (schemaPrefix tableName : Text) (idx : Index) : List Piece :=
  .fixed "CREATE INDEX " :: .path [idx.name] :: .fixed " ON " ::
    .path (namesOf schemaPrefix tableName) :: .fixed " (" :: (namePieces idx.columns ++ [.fixed ");"])

def ddlActionPieces (clause : String) (action : Text) : List Piece :=
  if action ≠ [] && action ≠ "NO ACTION".toList then [.fixed clause, .verbatim action] else []

def ddlForeignKeyPieces (g : Text × List ForeignKey) : List Piece :=
  (if g.1 = [] then [] else [.fixed "CONSTRAINT ", .path [g.1], .fixed " "]) ++
    .fixed "FOREIGN KEY (" :: (namePieces (g.2.map (·.sourceColumn)) ++
    .fixed ") REFERENCES " :: .path [(g.2.head?.map (·.targetTable)).getD []] :: .fixed " (" ::
    (namePieces (g.2.map (·.targetColumn)) ++ .fixed ")" ::
    (ddlActionPieces " ON DELETE " ((g.2.head?.map (·.onDelete)).getD []) ++
    ddlActionPieces " ON UPDATE " ((g.2.head?.map (·.onUpdate)).getD []))))

def ddlPkPieces (pk : List Text) : List Piece :=
  .fixed "PRIMARY KEY (" :: (namePieces pk ++ [.fixed ")"])

def ddlLinePieces (table : Table) : List (List Piece) :=
  let pk := (table.columns.filter (·.isPrimaryKey)).map (·.name)
  table.columns.map b.ddlColumnPieces ++ (if pk ≠ [] then [ddlPkPieces pk] else []) ++
    ((table.indexes.filter ddlIndexKept).filter b.ddlIndexInline).map ddlIndexPieces ++
    (groupForeignKeys table.foreignKeys).map ddlForeignKeyPieces

def joinPieces : List (List Piece) → List Piece
  | [] => []
  | [l] => .fixed "    " :: (l ++ [.fixed "\n"])
  | l :: ls => .fixed "    " :: (l ++ .fixed ",\n" :: joinPieces ls)

def tableDdlPieces (table : Table) (schemaPrefix : Text) : List Piece :=
  .fixed "CREATE TABLE " :: .path (namesOf schemaPrefix table.name) :: .fixed " (\n" ::
    (joinPieces (b.ddlLinePieces table) ++ .fixed ");" ::
    ((table.indexes.filter ddlIndexKept).filter fun idx => !b.ddlIndexInline idx).flatMap
      fun idx => .fixed "\n" :: ddlIndexAfterPieces schemaPrefix table.name idx)

theorem render_ddlColumn (col : Column) : render b (b.ddlColumnPieces col) = b.ddlColumnLine col := by
  unfold ddlColumnPieces ddlColumnLine
  rw [render_cons, render_cons, render_cons, render_append, render_append, render_opt, render_opt,
    render_opt, render_autoIncrement, text_path_singleton, render_singleton, render_cons,
    render_singleton]
  simp only [List.append_assoc]
  rfl

theorem render_ddlIndex (idx : Index) : render b (ddlIndexPieces idx) = b.ddlIndexLine idx := by
  unfold ddlIndexPieces ddlIndexLine
  rw [render_cons, render_cons, render_cons, render_append, render_namePieces, text_path_singleton,
    render_singleton]
  simp only [List.append_assoc]
  rfl

theorem render_ddlIndexAfter (schemaPrefix tableName : Text) (idx : Index) :
    render b (ddlIndexAfterPieces schemaPrefix tableName idx) =
      b.ddlIndexAfter (b.qualifiedRef schemaPrefix tableName) idx := by
  unfold ddlIndexAfterPieces ddlIndexAfter
  rw [render_cons, render_cons, render_cons, render_cons, render_cons, render_append,
    render_namePieces, text_path_singleton, text_namesOf, render_singleton]
  simp only [List.append_assoc]
  rfl

theorem render_ddlAction (clause : String) (action : Text) :
    render b (ddlActionPieces clause action) = ddlAction clause.toList action := by
  unfold ddlActionPieces ddlAction
  rw [render_opt, render_cons, render_singleton]
  rfl

theorem render_ddlForeignKey (g : Text × List ForeignKey) :
    render b (ddlForeignKeyPieces g) = b.ddlForeignKeyLine g := by
  have hname : render b (if g.1 = [] then [] else [.fixed "CONSTRAINT ", .path [g.1], .fixed " "]) =
      if g.1 = [] then [] else "CONSTRAINT ".toList ++ b.quoteIdentifier g.1 ++ " ".toList := by
    split_ifs
    · rfl
    · rw [render_cons, render_cons, render_singleton, text_path_singleton, List.append_assoc]
      rfl
  unfold ddlForeignKeyPieces ddlForeignKeyLine
  rw [render_append, hname, render_cons, render_append, render_cons, render_cons, render_cons,
    render_append, render_cons, render_append, render_ddlAction, render_ddlAction,
    render_namePieces, render_namePieces, text_path_singleton]
  simp only [List.append_assoc]
  rfl

theorem render_ddlLines (table : Table) :
    (b.ddlLinePieces table).map (render b) = b.ddlLines table := by
  have hpk : ∀ pk : List Text, (if pk ≠ [] then [ddlPkPieces pk] else []).map (render b) =
      if pk ≠ [] then ["PRIMARY KEY (".toList ++ b.quoteList pk ++ ")".toList] else [] := fun pk => by
    split_ifs
    · rw [List.map_singleton, ddlPkPieces, render_cons, render_append, render_namePieces,
        render_singleton, List.append_assoc]
      rfl
    · rfl
  have hcol : render b ∘ b.ddlColumnPieces = b.ddlColumnLine := funext b.render_ddlColumn
  have hidx : render b ∘ ddlIndexPieces = b.ddlIndexLine := funext b.render_ddlIndex
  have hfk : render b ∘ ddlForeignKeyPieces = b.ddlForeignKeyLine := funext b.render_ddlForeignKey
  unfold ddlLinePieces ddlLines
  rw [List.map_append, List.map_append, List.map_append, hpk, List.map_map, List.map_map,
    List.map_map, hcol, hidx, hfk]

theorem render_joinPieces (ls : List (List Piece)) :
    render b (joinPieces ls) = joinLines (ls.map (render b)) := by
  induction ls with
  | nil => rfl
  | cons l ls ih =>
    cases ls with
    | nil =>
      rw [joinPieces, render_cons, render_append, render_singleton, List.map_singleton, joinLines,
        List.append_assoc]
      rfl
    | cons m ms =>
      have hjoin : joinLines ((l :: m :: ms).map (render b)) =
          "    ".toList ++ render b l ++ ",\n".toList ++ joinLines ((m :: ms).map (render b)) := rfl
      rw [hjoin, joinPieces, render_cons, render_append, render_cons, ih]
      · simp only [List.append_assoc]
        rfl
      · simp

theorem render_tableDdl (table : Table) (schemaPrefix : Text) :
    render b (b.tableDdlPieces table schemaPrefix) = b.tableDdl table schemaPrefix := by
  have hafter : ∀ idxs : List Index,
      render b (idxs.flatMap fun idx => .fixed "\n" :: ddlIndexAfterPieces schemaPrefix table.name idx) =
        idxs.flatMap fun idx => "\n".toList ++
          b.ddlIndexAfter (b.qualifiedRef schemaPrefix table.name) idx := fun idxs => by
    induction idxs with
    | nil => rfl
    | cons idx idxs ih =>
      rw [List.flatMap_cons, List.flatMap_cons, render_append, ih, render_cons,
        render_ddlIndexAfter]
      rfl
  unfold tableDdlPieces tableDdl
  rw [render_cons, render_cons, render_cons, render_append, render_cons, hafter, render_joinPieces,
    render_ddlLines, text_namesOf]
  simp only [List.append_assoc]
  rfl

end TableDdl

section Columns

def notNullPieces (col : Column) : List Piece := if col.isNotNull then [.fixed " NOT NULL"] else []

def uniquePieces (col : Column) : List Piece := if col.isUnique then [.fixed " UNIQUE"] else []

def defaultPieces (col : Column) : List Piece :=
  if col.defaultValue ≠ [] then [.fixed " DEFAULT ", .verbatim col.defaultValue] else []

def autoIncrementOfPieces (col : Column) : List Piece :=
  if col.isAutoIncrement then autoIncrementPieces b.databaseType else []

/-- What the builders put after the type of a new column, in their order. -/
def addClauses (schema tableName : Text) (col : Column) : List Piece :=
  match b with
  | PostgreSQL => notNullPieces col ++ uniquePieces col ++ defaultPieces col ++
      if col.comment ≠ [] then .fixed "; " :: commentOnPieces schema tableName col.name col.comment
      else []
  | MySQL => notNullPieces col ++ autoIncrementOfPieces .MySQL col ++ uniquePieces col ++
      defaultPieces col ++ commentPieces col
  | MSSQL => autoIncrementOfPieces .MSSQL col ++ notNullPieces col ++ uniquePieces col ++
      defaultPieces col
  | Oracle => autoIncrementOfPieces .Oracle col ++ notNullPieces col ++ uniquePieces col ++
      defaultPieces col
  | SQLite => notNullPieces col ++ uniquePieces col ++ defaultPieces col
  | DuckDB => defaultPieces col ++ notNullPieces col
  | Cassandra => []

def addClause : Builder → String
  | MSSQL | Oracle | Cassandra => " ADD "
  | _ => " ADD COLUMN "

def addType (col : Column) : Text :=
  match b with
  | PostgreSQL => if col.isAutoIncrement then serialTypeForColumn col.type else col.type
  | _ => col.type

def alterTablePieces (schema tableName : Text) (clause : String) (col : Text) : List Piece :=
  [.fixed "ALTER TABLE ", .path (namesOf schema tableName), .fixed clause, .path [col]]

def addColumnPieces (schema tableName : Text) (col : Column) : List Piece :=
  alterTablePieces schema tableName b.addClause col.name ++
    .fixed " " :: .verbatim (b.addType col) :: b.addClauses schema tableName col

def dropColumnPieces (schema tableName columnName : Text) : List Piece :=
  alterTablePieces schema tableName (if b = .Cassandra then " DROP " else " DROP COLUMN ") columnName

/-- The general form; the builder of MSSQL has one of its own. -/
def renameColumnPieces (schema tableName oldColumnName newColumnName : Text) : List Piece :=
  alterTablePieces schema tableName " RENAME COLUMN " oldColumnName ++
    [.fixed " TO ", .path [newColumnName]]

def alterStatementPieces (schema tableName : Text) (col : Column) : List (List Piece) :=
  let alter := alterTablePieces schema tableName " ALTER COLUMN " col.name
  [alter ++ [.fixed " TYPE ", .verbatim col.type],
    alter ++ [.fixed (if col.isNotNull then " SET NOT NULL" else " DROP NOT NULL")],
    if col.defaultValue ≠ [] then alter ++ [.fixed " SET DEFAULT ", .verbatim col.defaultValue]
    else alter ++ [.fixed " DROP DEFAULT"]] ++
    (if col.comment ≠ [] then [commentOnPieces schema tableName col.name col.comment] else [])

/-- The form of MySQL, and the multi-statement form of PostgreSQL. -/
def alterColumnPieces (schema tableName : Text) (col : Column) : List Piece :=
  match b with
  | MySQL =>
    alterTablePieces schema tableName " MODIFY COLUMN " col.name ++ .fixed " " :: .verbatim col.type ::
      (notNullPieces col ++ autoIncrementOfPieces .MySQL col ++ defaultPieces col ++ commentPieces col)
  | _ => [.fixed "; "].intercalate (alterStatementPieces schema tableName col)

theorem render_notNull (col : Column) : render b (notNullPieces col) = notNullClause col := by
  unfold notNullPieces notNullClause
  rw [render_opt, render_singleton]
  rfl

theorem render_unique (col : Column) : render b (uniquePieces col) = uniqueClause col := by
  unfold uniquePieces uniqueClause
  rw [render_opt, render_singleton]
  rfl

theorem render_default (col : Column) : render b (defaultPieces col) = defaultClause col := by
  unfold defaultPieces defaultClause
  rw [render_opt, render_cons, render_singleton]
  rfl

theorem render_autoIncrementOf (col : Column) :
    render b (b.autoIncrementOfPieces col) = b.autoIncrementOf col := by
  unfold autoIncrementOfPieces autoIncrementOf
  rw [render_opt, render_autoIncrement]

theorem render_columnComment (col : Column) : render b (commentPieces col) = columnComment col :=
  b.render_commentPieces col

theorem render_alterTable (schema tableName : Text) (clause : String) (col : Text) :
    render b (alterTablePieces schema tableName clause col) =
      b.alterTable (b.qualifiedRef schema tableName) clause.toList col := by
  unfold alterTablePieces alterTable
  rw [render_cons, render_cons, render_cons, render_singleton, text_namesOf, text_path_singleton]
  simp only [List.append_assoc]
  rfl

theorem render_addColumn (schema tableName : Text) (col : Column) :
    render b (b.addColumnPieces schema tableName col) =
      b.addColumn (b.qualifiedRef schema tableName) col := by
  unfold addColumnPieces
  rw [render_append, render_cons, render_cons, render_alterTable]
  cases b with
  | PostgreSQL =>
    unfold addColumn addClauses
    simp only [render_append, render_notNull, render_unique, render_default, render_opt, render_cons,
      render_commentOn, List.append_assoc]
    rfl
  | MySQL | MSSQL | Oracle | SQLite | DuckDB =>
    unfold addColumn addClauses
    simp only [render_append, render_notNull, render_unique, render_default,
      render_autoIncrementOf, render_columnComment, List.append_assoc]
    rfl
  | Cassandra =>
    rw [addClauses, render_nil, text_verbatim, List.append_nil (Cassandra.addType col),
      ← List.append_assoc]
    rfl

theorem render_dropColumn (schema tableName columnName : Text) :
    render b (b.dropColumnPieces schema tableName columnName) =
      b.dropColumn (b.qualifiedRef schema tableName) columnName := by
  unfold dropColumnPieces
  rw [render_alterTable]
  cases b <;> rfl

theorem render_renameColumn (hb : b ≠ .MSSQL) (schema tableName oldColumnName newColumnName : Text) :
    render b (renameColumnPieces schema tableName oldColumnName newColumnName) =
      b.renameColumn (b.qualifiedRef schema tableName) oldColumnName newColumnName := by
  unfold renameColumnPieces
  rw [render_append, render_alterTable, render_cons, render_singleton, text_path_singleton,
    ← List.append_assoc]
  cases b with
  | MSSQL => exact absurd rfl hb
  | _ => rfl

theorem render_intercalate (s : String) (ls : List (List Piece)) :
    render b ([.fixed s].intercalate ls) = s.toList.intercalate (ls.map (render b)) := by
  induction ls with
  | nil => rfl
  | cons l ls ih =>
    cases ls with
    | nil => simp [List.intercalate]
    | cons m ms =>
      have hl : [Piece.fixed s].intercalate (l :: m :: ms) =
          l ++ ([.fixed s] ++ [.fixed s].intercalate (m :: ms)) := by simp [List.intercalate]
      have hr : s.toList.intercalate ((l :: m :: ms).map (render b)) =
          render b l ++ (s.toList ++ s.toList.intercalate ((m :: ms).map (render b))) := by
        simp [List.intercalate]
      rw [hl, hr, render_append, render_append, ih, render_singleton]
      rfl

theorem render_alterStatements (schema tableName : Text) (col : Column) :
    (alterStatementPieces schema tableName col).map (render b) =
      b.alterStatements (b.qualifiedRef schema tableName) col := by
  have hcomment : (if col.comment ≠ [] then [commentOnPieces schema tableName col.name col.comment]
      else []).map (render b) = if col.comment ≠ [] then
        [b.commentOn (b.qualifiedRef schema tableName) col.name col.comment] else [] := by
    split_ifs
    · rw [List.map_singleton, render_commentOn]
    · rfl
  have hdefault : ∀ alter : List Piece, render b (if col.defaultValue ≠ [] then
      alter ++ [.fixed " SET DEFAULT ", .verbatim col.defaultValue]
      else alter ++ [.fixed " DROP DEFAULT"]) = if col.defaultValue ≠ [] then
        render b alter ++ " SET DEFAULT ".toList ++ col.defaultValue
        else render b alter ++ " DROP DEFAULT".toList := fun alter => by
    split_ifs
    · rw [render_append, render_cons, render_singleton, ← List.append_assoc]
      rfl
    · rw [render_append, render_singleton]
      rfl
  unfold alterStatementPieces alterStatements
  rw [List.map_append, hcomment, List.map_cons, List.map_cons, List.map_cons, List.map_nil,
    hdefault, render_append, render_append, render_alterTable, render_cons, render_singleton,
    render_singleton, ← List.append_assoc]
  rfl

theorem render_alterColumn (hb : b = .PostgreSQL ∨ b = .MySQL) (schema tableName : Text)
    (col : Column) :
    render b (b.alterColumnPieces schema tableName col) =
      b.alterColumn (b.qualifiedRef schema tableName) col := by
  rcases hb with rfl | rfl
  · unfold alterColumnPieces alterColumn
    rw [render_intercalate, render_alterStatements]
  · unfold alterColumnPieces alterColumn
    simp only [render_append, render_cons, render_alterTable, render_notNull, render_default,
      render_autoIncrementOf, render_columnComment, List.append_assoc]
    rfl

end Columns

section Tables

/-- The general form; the builder of MSSQL has one of its own. -/
def renameTablePieces (schema oldName newName : Text) : List Piece :=
  if b = .MySQL then
    [.fixed "RENAME TABLE ", .path (namesOf schema oldName), .fixed " TO ", .path [newName]]
  else
    [.fixed "ALTER TABLE ", .path (namesOf schema oldName), .fixed " RENAME TO ", .path [newName]]

def dropTablePieces (schema tableName : Text) : List Piece :=
  match b with
  | Oracle => [.fixed "DROP TABLE ", .path (namesOf schema tableName), .fixed " CASCADE CONSTRAINTS"]
  | Cassandra => [.fixed "DROP TABLE IF EXISTS ", .path (namesOf schema tableName)]
  | _ => [.fixed "DROP TABLE ", .path (namesOf schema tableName)]

def truncateTablePieces (schema tableName : Text) : List Piece :=
  [.fixed (if b = .PostgreSQL then "TRUNCATE TABLE ONLY " else "TRUNCATE TABLE "),
    .path (namesOf schema tableName)]

def verbatimList (texts : List Text) : List Piece :=
  [.fixed ", "].intercalate (texts.map fun s => [.verbatim s])

def insertRowPieces (schema tableName : Text) (columnNames valueLiterals : List Text) : List Piece :=
  let rows := columnNames.zip valueLiterals
  .fixed "INSERT INTO " :: .path (namesOf schema tableName) :: .fixed " (" ::
    (namePieces (rows.map (·.1)) ++ .fixed ") VALUES (" :: (verbatimList (rows.map (·.2)) ++
      [.fixed ")"]))

def assignmentPieces (a : Text × Text) : List Piece := [.path [a.1], .fixed " = ", .verbatim a.2]

def updateRowPieces (schema tableName : Text) (assignments : List (Text × Text)) (whereExpr : Text) :
    List Piece :=
  .fixed "UPDATE " :: .path (namesOf schema tableName) :: .fixed " SET " ::
    ([.fixed ", "].intercalate (assignments.map assignmentPieces) ++
      [.fixed " WHERE ", .verbatim whereExpr])

theorem render_renameTable (hb : b ≠ .MSSQL) (schema oldName newName : Text) :
    render b (b.renameTablePieces schema oldName newName) = b.renameTable schema oldName newName := by
  have hform : ∀ s s' : String, render b [.fixed s, .path (namesOf schema oldName), .fixed s',
      .path [newName]] = s.toList ++ b.qualifiedRef schema oldName ++ s'.toList ++
        b.quoteIdentifier newName := fun s s' => by
    rw [render_cons, render_cons, render_cons, render_singleton, text_namesOf, text_path_singleton]
    simp only [List.append_assoc, text_fixed]
  unfold renameTablePieces
  cases b with
  | MSSQL => exact absurd rfl hb
  | _ => exact hform _ _

theorem render_dropTable (schema tableName : Text) :
    render b (b.dropTablePieces schema tableName) = b.dropTable schema tableName := by
  have hform : ∀ s : String, render b [.fixed s, .path (namesOf schema tableName)] =
      s.toList ++ b.qualifiedRef schema tableName := fun s => by
    rw [render_cons, render_singleton, text_namesOf, text_fixed]
  cases b with
  | Oracle =>
    unfold dropTablePieces dropTable
    rw [render_cons, render_cons, render_singleton, text_namesOf, ← List.append_assoc]
    rfl
  | _ => exact hform _

theorem render_truncateTable (schema tableName : Text) :
    render b (b.truncateTablePieces schema tableName) = b.truncateTable schema tableName := by
  unfold truncateTablePieces
  rw [render_cons, render_singleton, text_namesOf]
  cases b <;> rfl

theorem render_verbatimList (texts : List Text) :
    render b (verbatimList texts) = ", ".toList.intercalate texts := by
  have hmap : render b ∘ (fun s => [Piece.verbatim s]) = id :=
    funext fun s => render_singleton (.verbatim s)
  rw [verbatimList, render_intercalate, List.map_map, hmap, List.map_id]

theorem render_insertRow (schema tableName : Text) (columnNames valueLiterals : List Text) :
    render b (insertRowPieces schema tableName columnNames valueLiterals) =
      b.insertRow (b.qualifiedRef schema tableName) columnNames valueLiterals := by
  unfold insertRowPieces insertRow
  rw [render_cons, render_cons, render_cons, render_append, render_cons, render_append,
    render_singleton, render_namePieces, render_verbatimList, text_namesOf]
  simp only [List.append_assoc]
  rfl

theorem render_assignment (a : Text × Text) : render b (assignmentPieces a) = b.assignment a := by
  unfold assignmentPieces assignment
  rw [render_cons, render_cons, render_singleton, text_path_singleton, ← List.append_assoc]
  rfl

theorem render_updateRow (schema tableName : Text) (assignments : List (Text × Text))
    (whereExpr : Text) :
    render b (updateRowPieces schema tableName assignments whereExpr) =
      b.updateRow (b.qualifiedRef schema tableName) assignments whereExpr := by
  have hmap : render b ∘ assignmentPieces = b.assignment := funext b.render_assignment
  unfold updateRowPieces updateRow
  rw [render_cons, render_cons, render_cons, render_append, render_intercalate, List.map_map, hmap,
    render_cons, render_singleton, text_namesOf]
  simp only [List.append_assoc]
  rfl

end Tables
end Builder
end DearSql
