import DearSql.KeyClauses
import DearSql.MysqlCatalog
import DearSql.SqlForms

/-! CREATE TABLE statements as definitions of columns with constraints after them: where the
statements of the builders and of MySQL's own `createTable` have their primary key. -/
namespace DearSql
open KeyClauses (keyNames)

section Definitions

inductive Attribute
  | primaryKey
  | notNull
  | unique
  | autoIncrement (type : DatabaseType)
  | default (value : Text)
  | comment (comment : Text)
  deriving DecidableEq

structure ColumnDefinition where
  name : Text
  type : Text
  attributes : List Attribute

inductive TableConstraint
  | primaryKey (columns : List Text)
  | foreignKey (fk : ForeignKey)

/-- A statement under its quoted name; `options` come after the closing parenthesis. -/
structure TableDefinition where
  name : Text
  columns : List ColumnDefinition
  constraints : List TableConstraint
  options : Text

def Attribute.text : Attribute → Text
  | primaryKey => " PRIMARY KEY".toList
  | notNull => " NOT NULL".toList
  | unique => " UNIQUE".toList
  | autoIncrement type => autoIncrementClause type
  | default value => " DEFAULT ".toList ++ value
  | comment c => " COMMENT ".toList ++ Builder.commentLiteral c

def ColumnDefinition.text (b : Builder) (c : ColumnDefinition) : Text :=
  b.quoteIdentifier c.name ++ " ".toList ++ c.type ++ c.attributes.flatMap Attribute.text

def foreignKeyText (b : Builder) (fk : ForeignKey) : Text :=
  "FOREIGN KEY (".toList ++ b.quoteIdentifier fk.sourceColumn ++ ") REFERENCES ".toList ++
    b.quoteIdentifier fk.targetTable ++ "(".toList ++ b.quoteIdentifier fk.targetColumn ++
    ")".toList ++
    (if fk.onUpdate ≠ [] then " ON UPDATE ".toList ++ fk.onUpdate else []) ++
    (if fk.onDelete ≠ [] then " ON DELETE ".toList ++ fk.onDelete else [])

def TableConstraint.text (b : Builder) : TableConstraint → Text
  | primaryKey columns => "PRIMARY KEY (".toList ++ b.quoteList columns ++ ")".toList
  | foreignKey fk => foreignKeyText b fk

def TableDefinition.text (b : Builder) (d : TableDefinition) : Text :=
  "CREATE TABLE ".toList ++ d.name ++ " (".toList ++
    ", ".toList.intercalate (d.columns.map (ColumnDefinition.text b)) ++
    (d.constraints.flatMap fun c => ", ".toList ++ c.text b) ++ ")".toList ++ d.options

/-- A primary key of a statement: at the column of that place, with the attribute that follows, or
a clause after the columns. -/
inductive KeySpec
  | inline (place : ℕ) (column : Text) (next : Option Attribute)
  | clause (columns : List Text)
  deriving DecidableEq

def KeySpec.columns : KeySpec → List Text
  | inline _ column _ => [column]
  | clause columns => columns

/-- What follows each PRIMARY KEY. -/
def afterKey : List Attribute → List (Option Attribute)
  | [] => []
  | .primaryKey :: rest => rest.head? :: afterKey rest
  | _ :: rest => afterKey rest

def TableConstraint.keySpec : TableConstraint → Option KeySpec
  | primaryKey columns => some (.clause columns)
  | foreignKey _ => none

def TableDefinition.keySpecs (d : TableDefinition) : List KeySpec :=
  (d.columns.zipIdx.flatMap fun e => (afterKey e.1.attributes).map (.inline e.2 e.1.name)) ++
    d.constraints.filterMap TableConstraint.keySpec

theorem flatMap_opt {α β : Type} (c : Prop) [Decidable c] (l : List α) (f : α → List β) :
    (if c then l else []).flatMap f = if c then l.flatMap f else [] := by
  split_ifs <;> rfl

/-- Columns with commas between them, when the first follows another. -/
theorem intercalate_cons (t : Text) (ts : List Text) :
    ", ".toList.intercalate (t :: ts) = t ++ ts.flatMap fun u => ", ".toList ++ u := by
  induction ts generalizing t with
  | nil => simp
  | cons u us ih =>
    rw [List.intercalate_cons_cons, ih, List.flatMap_cons, List.append_assoc, List.append_assoc]

end Definitions

namespace Builder
section CreateTable
variable (b : Builder)

def columnDefinition (col : Column) : ColumnDefinition where
  name := col.name
  type := b.createColumnType col
  attributes :=
    (if b.inlinePk col then [.primaryKey, .autoIncrement .SQLITE] else []) ++
      (if col.isNotNull && !col.isPrimaryKey && b.databaseType ≠ .CASSANDRA then [.notNull]
        else []) ++
      (if col.isAutoIncrement && b.databaseType ≠ .SQLITE && b.databaseType ≠ .POSTGRESQL then
        [.autoIncrement b.databaseType] else []) ++
      (if isMySQLFamily b.databaseType && col.comment ≠ [] then [.comment col.comment] else [])

/-- The clause after the columns; there is none beside a key at a column. -/
def keyClause (table : Table) : List TableConstraint :=
  if table.columns.any b.inlinePk then []
  else if keyNames table = [] then [] else [.primaryKey (keyNames table)]

def tableOptions (table : Table) (schemaPrefix : Text) : Text :=
  (if isMySQLFamily b.databaseType then
    " ENGINE=InnoDB DEFAULT CHARSET=utf8mb4".toList ++
      (if table.comment ≠ [] then " COMMENT=".toList ++ commentLiteral table.comment else [])
    else []) ++
  (if b.databaseType = .POSTGRESQL then
    b.commentStatements (b.qualifiedRef schemaPrefix table.name) table.columns else [])

def definition (table : Table) (schemaPrefix : Text) : TableDefinition where
  name := b.qualifiedRef schemaPrefix table.name
  columns := table.columns.map b.columnDefinition
  constraints := b.keyClause table
  options := b.tableOptions table schemaPrefix

theorem text_columnDefinition (col : Column) : (b.columnDefinition col).text b = b.createColumn col := by
  have hinline : [Attribute.primaryKey, .autoIncrement .SQLITE].flatMap Attribute.text =
      " PRIMARY KEY AUTOINCREMENT".toList := rfl
  rw [ColumnDefinition.text, columnDefinition, createColumn, List.flatMap_append,
    List.flatMap_append, List.flatMap_append, flatMap_opt, flatMap_opt, flatMap_opt, flatMap_opt,
    hinline, List.flatMap_singleton, List.flatMap_singleton, List.flatMap_singleton]
  simp only [-String.reduceToList, List.append_assoc]
  rfl

theorem createLoop_sql_rest (st : CreateLoop) {i : ℕ} (hi : i > 0) (cols : List Column) :
    (b.createLoop st i cols).sql =
      st.sql ++ (cols.map b.createColumn).flatMap fun t => ", ".toList ++ t := by
  induction cols generalizing st i with
  | nil => simp [createLoop]
  | cons col cols ih =>
    rw [createLoop, ih _ (Nat.succ_pos i), createStep_sql, if_pos hi, List.map_cons,
      List.flatMap_cons, List.append_assoc]

theorem createLoop_sql_columns (st : CreateLoop) (cols : List Column) :
    (b.createLoop st 0 cols).sql =
      st.sql ++ ", ".toList.intercalate (cols.map (ColumnDefinition.text b ∘ b.columnDefinition)) := by
  cases cols with
  | nil => simp [createLoop]
  | cons col cols =>
    have hcols : (col :: cols).map (ColumnDefinition.text b ∘ b.columnDefinition) =
        (col :: cols).map b.createColumn :=
      List.map_congr_left fun col _ => b.text_columnDefinition col
    rw [hcols, List.map_cons, intercalate_cons, createLoop, createLoop_sql_rest _ _ Nat.one_pos,
      createStep_sql, if_neg (by simp), List.nil_append, List.append_assoc]

/-- The list of the loop: emptied by a key at a column, and not filled again. -/
theorem createLoop_trailing (st : CreateLoop) (i : ℕ) (cols : List Column) :
    (b.createLoop st i cols).trailingPkColumns =
      if cols.any b.inlinePk then []
      else if b.databaseType = .SQLITE ∧ st.hasInlineSQLitePrimaryKey then st.trailingPkColumns
      else st.trailingPkColumns ++ (cols.filter (·.isPrimaryKey)).map (·.name) := by
  induction cols generalizing st i with
  | nil => simp [createLoop]
  | cons col cols ih =>
    have hsqlite : b.inlinePk col = true → b.databaseType = .SQLITE := by simp [inlinePk]
    rw [createLoop, ih, List.any_cons, List.filter_cons, createStep]
    cases hin : b.inlinePk col with
    | true => simp [hsqlite hin]
    | false =>
      by_cases hpk : col.isPrimaryKey = true
      · cases hsome : st.hasInlineSQLitePrimaryKey with
        | false => simp [hpk]
        | true => by_cases hsq : b.databaseType = .SQLITE <;> simp [hpk, hsq]
      · simp [hpk]

theorem append_phrase {s t u q r : Text} (h : s = t ++ u) : t ++ (u ++ q ++ r) = s ++ q ++ r := by
  rw [h, List.append_assoc, List.append_assoc, List.append_assoc]

theorem text_keyClause (table : Table) :
    ((b.keyClause table).flatMap fun c => ", ".toList ++ c.text b) =
      if (if table.columns.any b.inlinePk then [] else keyNames table) ≠ [] then
        ", PRIMARY KEY (".toList ++
          b.quoteList (if table.columns.any b.inlinePk then [] else keyNames table) ++ ")".toList
      else [] := by
  have hclause : ", PRIMARY KEY (".toList = ", ".toList ++ "PRIMARY KEY (".toList := rfl
  have hone (pk : List Text) : ", ".toList ++ (TableConstraint.primaryKey pk).text b =
      ", PRIMARY KEY (".toList ++ b.quoteList pk ++ ")".toList := append_phrase hclause
  rw [keyClause]
  cases table.columns.any b.inlinePk with
  | true => rw [if_pos rfl, if_pos rfl, if_neg (not_not.mpr rfl), List.flatMap_nil]
  | false =>
    rw [if_neg Bool.false_ne_true, if_neg Bool.false_ne_true]
    by_cases hkeys : keyNames table = []
    · rw [if_pos hkeys, if_neg (not_not.mpr hkeys), List.flatMap_nil]
    · rw [if_neg hkeys, if_pos hkeys, List.flatMap_singleton, hone]

/-- The statement of `createTable`, for every dialect. -/
theorem createTable_definition (table : Table) (schemaPrefix : Text) :
    b.createTable table schemaPrefix = (b.definition table schemaPrefix).text b := by
  have htrailing (sql : Text) : (b.createLoop { sql := sql } 0 table.columns).trailingPkColumns =
      if table.columns.any b.inlinePk then [] else keyNames table := by
    have hout : ¬(b.databaseType = .SQLITE ∧
      (CreateLoop.mk sql [] false).hasInlineSQLitePrimaryKey = true) := fun h => nomatch h.2
    rw [createLoop_trailing, if_neg hout, List.nil_append]
    rfl
  unfold createTable
  simp only [-String.reduceToList, createLoop_sql_columns, htrailing, ← text_keyClause]
  unfold TableDefinition.text definition tableOptions
  dsimp only
  rw [List.map_map]
  exact List.append_assoc _ _ _

theorem afterKey_attributes (col : Column) : afterKey (b.columnDefinition col).attributes =
    if b.inlinePk col then [some (.autoIncrement .SQLITE)] else [] := by
  rw [columnDefinition]
  cases b.inlinePk col with
  | true =>
    dsimp only [if_true]
    split_ifs <;> rfl
  | false =>
    dsimp only [if_false]
    split_ifs <;> rfl

theorem keySpecs_definition (table : Table) (schemaPrefix : Text) :
    (b.definition table schemaPrefix).keySpecs =
      (table.columns.zipIdx.filter fun e => b.inlinePk e.1).map
          (fun e => .inline e.2 e.1.name (some (.autoIncrement .SQLITE))) ++
        (b.keyClause table).filterMap TableConstraint.keySpec := by
  rw [TableDefinition.keySpecs, definition]
  congr 1
  simp only [List.zipIdx_map, List.flatMap_map]
  induction table.columns.zipIdx with
  | nil => rfl
  | cons e es ih =>
    rw [List.flatMap_cons, ih, List.filter_cons]
    simp only [Prod.map, id, afterKey_attributes]
    split_ifs <;> rfl

def bothKinds (col : Column) : Bool := col.isPrimaryKey && col.isAutoIncrement

theorem inlinePk_eq (col : Column) : b.inlinePk col = (bothKinds col && b.databaseType = .SQLITE) := rfl

theorem keySpecs_plain (table : Table) (schemaPrefix : Text)
    (hplain : b.databaseType ≠ .SQLITE ∨ ∀ col ∈ table.columns, bothKinds col = false) :
    (b.definition table schemaPrefix).keySpecs =
      if keyNames table = [] then [] else [.clause (keyNames table)] := by
  have hnone : ∀ col ∈ table.columns, b.inlinePk col = false := by
    intro col hmem
    rw [inlinePk_eq]
    rcases hplain with hdialect | hcols
    · simp [hdialect]
    · simp [hcols col hmem]
  have hin : table.columns.any b.inlinePk = false := List.any_eq_false.mpr (by simpa using hnone)
  have hplaces : (table.columns.zipIdx.filter fun e => b.inlinePk e.1) = [] :=
    List.filter_eq_nil_iff.mpr fun e he => by
      simp [hnone _ (List.fst_mem_of_mem_zipIdx he)]
  rw [keySpecs_definition, hplaces, List.map_nil, List.nil_append, keyClause, hin,
    if_neg Bool.false_ne_true]
  split_ifs <;> rfl

theorem keySpecs_inline (table : Table) (schemaPrefix : Text) (hsqlite : b.databaseType = .SQLITE)
    {pre post : List Column} {col : Column} (hcols : table.columns = pre ++ col :: post)
    (hcol : bothKinds col = true) (hothers : ∀ other ∈ pre ++ post, bothKinds other = false) :
    (b.definition table schemaPrefix).keySpecs =
      [.inline pre.length col.name (some (.autoIncrement .SQLITE))] := by
  have hinline : ∀ c, b.inlinePk c = bothKinds c := fun c => by simp [inlinePk_eq, hsqlite]
  have hrest (cs : List Column) (n : ℕ) (h : ∀ c ∈ cs, bothKinds c = false) :
      ((cs.zipIdx n).filter fun e => b.inlinePk e.1) = [] :=
    List.filter_eq_nil_iff.mpr fun e he => by
      simp [hinline, h _ (List.fst_mem_of_mem_zipIdx he)]
  have hin : table.columns.any b.inlinePk = true :=
    List.any_eq_true.mpr ⟨col, by simp [hcols], by rw [hinline, hcol]⟩
  rw [keySpecs_definition, keyClause, if_pos hin, hcols, List.zipIdx_append, List.filter_append,
    List.zipIdx_cons, List.filter_cons,
    hrest pre 0 fun c hc => hothers c (List.mem_append_left _ hc),
    hrest post _ fun c hc => hothers c (List.mem_append_right _ hc)]
  simp [hinline, hcol]

/-- Where the key is: after the columns, or on SQLite at the column that counts up, before the
word for that. -/
theorem createTable_key (table : Table) (schemaPrefix : Text) :
    b.createTable table schemaPrefix = (b.definition table schemaPrefix).text b ∧
      (b.databaseType ≠ .SQLITE ∨ (∀ col ∈ table.columns, bothKinds col = false) →
        (b.definition table schemaPrefix).keySpecs =
          if keyNames table = [] then [] else [.clause (keyNames table)]) ∧
      (b.databaseType = .SQLITE → ∀ pre col post, table.columns = pre ++ col :: post →
        bothKinds col = true → (∀ other ∈ pre ++ post, bothKinds other = false) →
          (b.definition table schemaPrefix).keySpecs =
            [.inline pre.length col.name (some (.autoIncrement .SQLITE))]) :=
  ⟨b.createTable_definition table schemaPrefix, b.keySpecs_plain table schemaPrefix,
    fun hsqlite _ _ _ => b.keySpecs_inline table schemaPrefix hsqlite⟩

end CreateTable
end Builder

namespace Mysql.MySQLDatabase
section CreateTable

def createColumn (c : Column) : Text :=
  quoteIdent c.name ++ " ".toList ++ (if c.type = [] then "TEXT".toList else c.type) ++
    (if c.isAutoIncrement then " AUTO_INCREMENT".toList else []) ++
    (if c.isPrimaryKey then " PRIMARY KEY".toList else []) ++
    (if c.isNotNull && !c.isPrimaryKey then " NOT NULL".toList else []) ++
    (if c.isUnique && !c.isPrimaryKey then " UNIQUE".toList else []) ++
    (if c.defaultValue ≠ [] then " DEFAULT ".toList ++ c.defaultValue else [])

def createColumns (first : Bool) : List Column → Text
  | [] => []
  | c :: cs => (if first then [] else ", ".toList) ++ createColumn c ++ createColumns false cs

def createForeignKey (fk : ForeignKey) : Text :=
  ", FOREIGN KEY (".toList ++ quoteIdent fk.sourceColumn ++ ") REFERENCES ".toList ++
    quoteIdent fk.targetTable ++ "(".toList ++ quoteIdent fk.targetColumn ++ ")".toList ++
    (if fk.onUpdate ≠ [] then " ON UPDATE ".toList ++ fk.onUpdate else []) ++
    (if fk.onDelete ≠ [] then " ON DELETE ".toList ++ fk.onDelete else [])

/-- The statement of `createTable`. -/
def createSql (table : Table) : Text :=
  "CREATE TABLE ".toList ++ quoteIdent table.name ++ " (".toList ++ createColumns true table.columns ++
    table.foreignKeys.flatMap createForeignKey ++ ")".toList

def columnDefinition (c : Column) : ColumnDefinition where
  name := c.name
  type := if c.type = [] then "TEXT".toList else c.type
  attributes :=
    (if c.isAutoIncrement then [.autoIncrement .MYSQL] else []) ++
      (if c.isPrimaryKey then [.primaryKey] else []) ++
      (if c.isNotNull && !c.isPrimaryKey then [.notNull] else []) ++
      (if c.isUnique && !c.isPrimaryKey then [.unique] else []) ++
      (if c.defaultValue ≠ [] then [.default c.defaultValue] else [])

def definition (table : Table) : TableDefinition where
  name := quoteIdent table.name
  columns := table.columns.map columnDefinition
  constraints := table.foreignKeys.map .foreignKey
  options := []

theorem text_columnDefinition (c : Column) :
    (columnDefinition c).text .MySQL = createColumn c := by
  rw [ColumnDefinition.text, columnDefinition, createColumn, List.flatMap_append,
    List.flatMap_append, List.flatMap_append, List.flatMap_append, flatMap_opt, flatMap_opt,
    flatMap_opt, flatMap_opt, flatMap_opt, List.flatMap_singleton, List.flatMap_singleton,
    List.flatMap_singleton, List.flatMap_singleton, List.flatMap_singleton]
  simp only [-String.reduceToList, List.append_assoc]
  rfl

theorem createColumns_rest (cs : List Column) :
    createColumns false cs = (cs.map createColumn).flatMap fun t => ", ".toList ++ t := by
  induction cs with
  | nil => rfl
  | cons c cs ih =>
    rw [createColumns, ih, if_neg Bool.false_ne_true, List.map_cons, List.flatMap_cons]

theorem createColumns_eq (cs : List Column) :
    createColumns true cs = ", ".toList.intercalate (cs.map createColumn) := by
  cases cs with
  | nil => rfl
  | cons c cs => rw [createColumns, createColumns_rest, if_pos rfl, List.map_cons, intercalate_cons]; rfl

theorem text_foreignKey (fk : ForeignKey) :
    ", ".toList ++ (TableConstraint.foreignKey fk).text .MySQL = createForeignKey fk := by
  have hchain (s t u : Text) (h : s = t ++ u) (a b c d e f g i : Text) :
      t ++ (u ++ a ++ b ++ c ++ d ++ e ++ f ++ g ++ i) =
        s ++ a ++ b ++ c ++ d ++ e ++ f ++ g ++ i := by
    subst h
    simp only [List.append_assoc]
  exact hchain _ _ _ rfl _ _ _ _ _ _ _ _

/-- The statement of MySQL's own `createTable`. -/
theorem createSql_definition (table : Table) : createSql table = (definition table).text .MySQL := by
  have hcolumns : (table.columns.map columnDefinition).map (ColumnDefinition.text .MySQL) =
      table.columns.map createColumn := by
    rw [List.map_map]
    exact List.map_congr_left fun c _ => text_columnDefinition c
  have hkeys : (table.foreignKeys.map TableConstraint.foreignKey).flatMap
      (fun c => ", ".toList ++ c.text .MySQL) = table.foreignKeys.flatMap createForeignKey := by
    rw [List.flatMap_map]
    exact List.flatMap_congr fun fk _ => text_foreignKey fk
  unfold createSql TableDefinition.text definition
  dsimp only
  rw [createColumns_eq, hcolumns, hkeys]
  exact (List.append_nil _).symm

theorem afterKey_attributes (c : Column) : (afterKey (columnDefinition c).attributes).length =
    if c.isPrimaryKey then 1 else 0 := by
  rw [columnDefinition]
  cases c.isPrimaryKey with
  | true =>
    dsimp only [if_true]
    split_ifs <;> rfl
  | false =>
    dsimp only [if_false]
    split_ifs <;> rfl

/-- A key for each column. -/
theorem keySpecs_columns (table : Table) :
    (definition table).keySpecs.map KeySpec.columns = (keyNames table).map fun n => [n] := by
  have hclauses : (table.foreignKeys.map TableConstraint.foreignKey).filterMap
      TableConstraint.keySpec = [] := by
    rw [List.filterMap_map]
    exact List.filterMap_eq_nil_iff.mpr fun _ _ => rfl
  have hcolumns (cs : List Column) (n : ℕ) :
      (((cs.map columnDefinition).zipIdx n).flatMap fun e =>
        (afterKey e.1.attributes).map (KeySpec.inline e.2 e.1.name)).map KeySpec.columns =
          ((cs.filter (·.isPrimaryKey)).map (·.name)).map fun n => [n] := by
    induction cs generalizing n with
    | nil => rfl
    | cons c cs ih =>
      have hown : ((afterKey (columnDefinition c).attributes).map
          (KeySpec.inline n c.name)).map KeySpec.columns =
            if c.isPrimaryKey then [[c.name]] else [] := by
        have hlen := afterKey_attributes c
        cases hk : c.isPrimaryKey with
        | true =>
          rw [hk, if_pos rfl] at hlen
          obtain ⟨next, hnext⟩ := List.length_eq_one_iff.mp hlen
          rw [hnext]
          rfl
        | false =>
          rw [hk, if_neg Bool.false_ne_true] at hlen
          rw [List.length_eq_zero_iff.mp hlen]
          rfl
      rw [List.map_cons, List.zipIdx_cons, List.flatMap_cons, List.map_append, ih, List.filter_cons]
      refine (congrArg (· ++ _) hown).trans ?_
      split_ifs <;> rfl
  rw [TableDefinition.keySpecs, definition, hclauses, List.append_nil, hcolumns]
  rfl

/-- One key over all the key columns where there are any, and the key of the builder. -/
def KeysAgree (table : Table) (schemaPrefix : Text) : Prop :=
  (definition table).keySpecs.map KeySpec.columns =
      (if keyNames table = [] then [] else [keyNames table]) ∧
    (definition table).keySpecs.map KeySpec.columns =
      (Builder.MySQL.definition table schemaPrefix).keySpecs.map KeySpec.columns

/-- The two statements have one key exactly where there is at most one key column. -/
theorem createTable_keys_agree_iff (table : Table) (schemaPrefix : Text) :
    createSql table = (definition table).text .MySQL ∧
      Builder.MySQL.createTable table schemaPrefix =
        (Builder.MySQL.definition table schemaPrefix).text .MySQL ∧
      (KeysAgree table schemaPrefix ↔ (keyNames table).length ≤ 1) := by
  refine ⟨createSql_definition table, Builder.MySQL.createTable_definition table schemaPrefix, ?_⟩
  have hbuilder := Builder.MySQL.keySpecs_plain table schemaPrefix (.inl nofun)
  rw [KeysAgree, keySpecs_columns, hbuilder]
  rcases keyNames table with _ | ⟨n, _ | ⟨m, ns⟩⟩
  · simp
  · simp [KeySpec.columns]
  · simp

def twoKeys : Table where
  name := "t".toList
  columns := [{ name := "a".toList, type := "INT".toList, isPrimaryKey := true },
    { name := "b".toList, type := "INT".toList, isPrimaryKey := true }]

theorem two_keys_disagree :
    createSql twoKeys = "CREATE TABLE `t` (`a` INT PRIMARY KEY, `b` INT PRIMARY KEY)".toList ∧
      ¬KeysAgree twoKeys [] := by
  refine ⟨by decide, fun h => ?_⟩
  have hkeys := h.1
  rw [keySpecs_columns] at hkeys
  exact absurd hkeys (by decide)

end CreateTable
end Mysql.MySQLDatabase
end DearSql
