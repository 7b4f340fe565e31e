import DearSql.Types
import DearSql.QueryResult
import DearSql.Joins

/-! The system catalog of one PostgreSQL database, the `information_schema` views over
it, and the rows of the queries that the catalog readers send. A server is a function from
these queries to their results; `Serves` says which results the catalog allows. -/
namespace DearSql.Pg
open Joins

abbrev Row := List Text

inductive RelKind
  | table | partitioned | view | foreign | other
  deriving DecidableEq

structure PgNamespace where
  oid : ℕ
  nspname : Text
  deriving DecidableEq

structure PgClass where
  oid : ℕ
  relname : Text
  relnamespace : ℕ
  relkind : RelKind := .table
  deriving DecidableEq

/-- A column that is not dropped. `formatType` is what `format_type` says of it. -/
structure PgAttribute where
  attrelid : ℕ
  attnum : ℕ
  attname : Text
  dataType : Text := []
  formatType : Text := []
  isNullable : Bool := true
  columnDefault : Option Text := none
  isIdentity : Bool := false
  deriving DecidableEq

inductive ConType
  | primary | unique | foreign | check
  deriving DecidableEq

/-- A constraint of a table. Only a foreign key has a `confrelid` and a `confkey`. -/
structure PgConstraint where
  conname : Text
  contype : ConType
  conrelid : ℕ
  conkey : List ℕ
  confrelid : ℕ := 0
  confkey : List ℕ := []
  deriving DecidableEq

/-- `COLUMN_TYPE`. -/
def PgAttribute.columnType (a : PgAttribute) : Text :=
  if a.dataType ∈ ["USER-DEFINED".toList, "ARRAY".toList] then a.formatType else a.dataType

/-- The test for a generated column; a default that is NULL is like no text. -/
def PgAttribute.autoIncrement (a : PgAttribute) : Bool :=
  a.columnDefault.any (fun d => "nextval(".toList.isPrefixOf d || d = "unique_rowid()".toList) ||
    a.isIdentity

def PgClass.isTable (r : PgClass) : Bool := r.relkind = .table || r.relkind = .partitioned

namespace PgConstraint

/-- `contype IN ('p', 'u', 'f')`. -/
def isKey (k : PgConstraint) : Bool := k.contype ≠ .check

/-- The table whose columns the constraint uses: a foreign key uses the ones it refers to. -/
def usedRel (k : PgConstraint) : ℕ := if k.contype = .foreign then k.confrelid else k.conrelid

def usedKey (k : PgConstraint) : List ℕ := if k.contype = .foreign then k.confkey else k.conkey

end PgConstraint

/-- The catalog tables with what the server keeps true of them. -/
structure PgCatalog where
  namespaces : List PgNamespace
  classes : List PgClass
  attributes : List PgAttribute
  constraints : List PgConstraint
  namespace_oids : (namespaces.map PgNamespace.oid).Nodup
  namespace_names : (namespaces.map PgNamespace.nspname).Nodup
  class_oids : (classes.map PgClass.oid).Nodup
  class_names : (classes.map fun r => (r.relnamespace, r.relname)).Nodup
  class_namespace : ∀ r ∈ classes, ∃ n ∈ namespaces, n.oid = r.relnamespace
  attribute_nums : (attributes.map fun a => (a.attrelid, a.attnum)).Nodup
  attribute_names : (attributes.map fun a => (a.attrelid, a.attname)).Nodup
  constraint_names : (constraints.map fun k => (k.conrelid, k.conname)).Nodup
  constraint_class : ∀ k ∈ constraints, ∃ r ∈ classes, r.oid = k.conrelid ∧ r.isTable
  constraint_key : ∀ k ∈ constraints, k.conkey.Nodup ∧
    ∀ i ∈ k.conkey, ∃ a ∈ attributes, a.attrelid = k.conrelid ∧ a.attnum = i
  key_columns : ∀ k ∈ constraints, k.isKey → k.conkey ≠ []
  foreign_class : ∀ k ∈ constraints, k.contype = .foreign →
    ∃ r ∈ classes, r.oid = k.confrelid ∧ r.isTable
  foreign_key : ∀ k ∈ constraints, k.contype = .foreign → k.confkey.Nodup ∧
    ∀ j ∈ k.confkey, ∃ a ∈ attributes, a.attrelid = k.confrelid ∧ a.attnum = j
  foreign_length : ∀ k ∈ constraints, k.contype = .foreign →
    k.confkey.length = k.conkey.length ∧ k.conkey.length ≤ 32

/-- A row of `information_schema.columns`. -/
structure ColumnsRow where
  tableSchema : Text
  tableName : Text
  column : PgAttribute
  deriving DecidableEq

/-- A row of `key_column_usage` or of `constraint_column_usage`. -/
structure UsageRow where
  constraintName : Text
  tableSchema : Text
  tableName : Text
  columnName : Text
  deriving DecidableEq

/-- A row of `table_constraints`. -/
structure TableConstraintsRow where
  constraintName : Text
  tableSchema : Text
  tableName : Text
  constraintType : ConType
  deriving DecidableEq

/-- What the role of a session may do, by schema, table and column: `owns` with the rights of
the table's owner, `writes` with a privilege other than `SELECT` on the table or on one of its
columns, `uses` with any privilege on the column. -/
structure Role where
  owns : Text → Text → Bool
  writes : Text → Text → Bool := fun _ _ => false
  uses : Text → Text → Text → Bool := fun _ _ _ => false

namespace Role

/-- The owner of every table. -/
def owner : Role := { owns := fun _ _ => true }

variable (role : Role)

/-- The columns of `columns` and `key_column_usage` that the role is shown. -/
def seesColumn (schema table column : Text) : Bool :=
  role.owns schema table || role.uses schema table column

/-- The tables whose constraints `table_constraints` shows the role. -/
def seesConstraints (schema table : Text) : Bool := role.owns schema table || role.writes schema table

@[simp] theorem owner_seesColumn (schema table column : Text) :
    owner.seesColumn schema table column = true := rfl

@[simp] theorem owner_seesConstraints (schema table : Text) :
    owner.seesConstraints schema table = true := rfl

end Role

namespace PgCatalog
variable (cat : PgCatalog)

def attributeAt (rel i : ℕ) : List PgAttribute :=
  having cat.attributes (fun a => (a.attrelid, a.attnum)) (rel, i)

/-- The tables, each with its schema. -/
def tables : List (PgClass × Text) :=
  (cat.classes.filter PgClass.isTable).flatMap fun r =>
    (having cat.namespaces PgNamespace.oid r.relnamespace).map fun n => (r, n.nspname)

def tableAt (rel : ℕ) : List (PgClass × Text) :=
  having cat.tables (fun t => t.1.oid) rel

def columnsView : List ColumnsRow :=
  cat.attributes.flatMap fun a =>
    ((having cat.classes PgClass.oid a.attrelid).filter fun r => r.relkind ≠ .other).flatMap
      fun r => (having cat.namespaces PgNamespace.oid r.relnamespace).map
        fun n => ⟨n.nspname, r.relname, a⟩

def tableConstraints : List TableConstraintsRow :=
  cat.constraints.flatMap fun k =>
    (cat.tableAt k.conrelid).map fun r => ⟨k.conname, r.2, r.1.relname, k.contype⟩

/-- One row for each place of each key. -/
def keyColumnUsage : List UsageRow :=
  (cat.constraints.filter PgConstraint.isKey).flatMap fun k =>
    (cat.tableAt k.conrelid).flatMap fun r =>
      k.conkey.flatMap fun i =>
        (cat.attributeAt k.conrelid i).map fun a => ⟨k.conname, r.2, r.1.relname, a.attname⟩

/-- One row for each column a constraint uses. -/
def constraintColumnUsage : List UsageRow :=
  cat.constraints.flatMap fun k =>
    (cat.tableAt k.usedRel).flatMap fun r =>
      (cat.attributes.filter fun a => a.attrelid = k.usedRel ∧ a.attnum ∈ k.usedKey).map fun a =>
        ⟨k.conname, r.2, r.1.relname, a.attname⟩

section Shown
variable (role : Role)

/-! The rows of the four views that a role is shown; of `constraint_column_usage` it is shown
the tables it owns. -/

def shownColumns : List ColumnsRow :=
  cat.columnsView.filter fun c => role.seesColumn c.tableSchema c.tableName c.column.attname

def shownConstraints : List TableConstraintsRow :=
  cat.tableConstraints.filter fun tc => role.seesConstraints tc.tableSchema tc.tableName

def shownKeyUsage : List UsageRow :=
  cat.keyColumnUsage.filter fun kcu =>
    role.seesColumn kcu.tableSchema kcu.tableName kcu.columnName

def shownColumnUsage : List UsageRow :=
  cat.constraintColumnUsage.filter fun ccu => role.owns ccu.tableSchema ccu.tableName

@[simp] theorem shownColumns_owner : cat.shownColumns .owner = cat.columnsView := by
  simp [shownColumns]

@[simp] theorem shownConstraints_owner : cat.shownConstraints .owner = cat.tableConstraints := by
  simp [shownConstraints]

@[simp] theorem shownKeyUsage_owner : cat.shownKeyUsage .owner = cat.keyColumnUsage := by
  simp [shownKeyUsage]

end Shown

section Facts
variable {cat : PgCatalog} {r : PgClass} {t t' : PgClass × Text} {a a' : PgAttribute}
  {k : PgConstraint} {rel : ℕ}

theorem namespaceOf (hr : r ∈ cat.classes) : ∃ n ∈ cat.namespaces, n.oid = r.relnamespace ∧
    having cat.namespaces PgNamespace.oid r.relnamespace = [n] := by
  obtain ⟨n, hn, he⟩ := cat.class_namespace r hr
  exact ⟨n, hn, he, having_eq cat.namespace_oids hn he⟩

theorem mem_tables : t ∈ cat.tables ↔ t.1 ∈ cat.classes ∧ t.1.isTable ∧
    ∃ n ∈ cat.namespaces, n.oid = t.1.relnamespace ∧ n.nspname = t.2 := by
  constructor
  · intro h
    simp only [tables, List.mem_flatMap, List.mem_filter, List.mem_map, mem_having] at h
    obtain ⟨r, ⟨hr, hk⟩, n, ⟨hn, he⟩, rfl⟩ := h
    exact ⟨hr, hk, n, hn, he, rfl⟩
  · rintro ⟨hr, hk, n, hn, he, hs⟩
    simp only [tables, List.mem_flatMap, List.mem_filter, List.mem_map, mem_having]
    exact ⟨t.1, ⟨hr, hk⟩, n, ⟨hn, he⟩, by rw [hs]⟩

theorem tables_classes (cat : PgCatalog) :
    cat.tables.map Prod.fst = cat.classes.filter PgClass.isTable := by
  have hone : ∀ r ∈ cat.classes.filter PgClass.isTable,
      ((having cat.namespaces PgNamespace.oid r.relnamespace).map fun n =>
        (r, n.nspname)).map Prod.fst = [r] := by
    intro r hr
    obtain ⟨n, -, -, hn⟩ := namespaceOf (List.mem_filter.mp hr).1
    simp [hn]
  rw [tables, List.map_flatMap, List.flatMap_congr hone, List.flatMap_singleton']

theorem tables_oids (cat : PgCatalog) : (cat.tables.map fun t => t.1.oid).Nodup := by
  have hsub : ((cat.classes.filter PgClass.isTable).map PgClass.oid).Sublist
      (cat.classes.map PgClass.oid) := List.filter_sublist.map _
  have hmap : cat.tables.map (fun t => t.1.oid) =
      (cat.tables.map Prod.fst).map PgClass.oid := by simp
  rw [hmap, tables_classes]
  exact cat.class_oids.sublist hsub

theorem tableAt_eq (ht : t ∈ cat.tables) (he : t.1.oid = rel) : cat.tableAt rel = [t] :=
  having_eq cat.tables_oids ht he

/-- The relation with a given name in a given schema. -/
theorem class_ext {r' : PgClass} {n n' : PgNamespace} (hr : r ∈ cat.classes)
    (hr' : r' ∈ cat.classes) (hn : n ∈ cat.namespaces) (hn' : n' ∈ cat.namespaces)
    (he : n.oid = r.relnamespace) (he' : n'.oid = r'.relnamespace)
    (hs : n.nspname = n'.nspname) (hname : r.relname = r'.relname) : r = r' := by
  obtain rfl := eq_of_key cat.namespace_names hn hn' hs
  exact eq_of_key cat.class_names hr hr' (by rw [← he, ← he', hname])

theorem table_ext (ht : t ∈ cat.tables) (ht' : t' ∈ cat.tables) (hs : t.2 = t'.2)
    (hname : t.1.relname = t'.1.relname) : t = t' := by
  obtain ⟨hr, -, n, hn, he, hns⟩ := mem_tables.mp ht
  obtain ⟨hr', -, n', hn', he', hns'⟩ := mem_tables.mp ht'
  exact Prod.ext (class_ext hr hr' hn hn' he he' (by rw [hns, hns', hs]) hname) hs

theorem exists_table {rel : ℕ} (h : ∃ r ∈ cat.classes, r.oid = rel ∧ r.isTable) :
    ∃ t ∈ cat.tables, t.1.oid = rel ∧ cat.tableAt rel = [t] := by
  obtain ⟨r, hr, he, hk⟩ := h
  obtain ⟨n, hn, hne, -⟩ := namespaceOf hr
  have ht : (r, n.nspname) ∈ cat.tables := mem_tables.mpr ⟨hr, hk, n, hn, hne, rfl⟩
  exact ⟨_, ht, he, tableAt_eq ht he⟩

theorem attributeAt_eq (ha : a ∈ cat.attributes) (hrel : a.attrelid = rel) {i : ℕ}
    (hi : a.attnum = i) : cat.attributeAt rel i = [a] :=
  having_eq cat.attribute_nums ha (by rw [hrel, hi])

theorem attribute_ext (ha : a ∈ cat.attributes) (ha' : a' ∈ cat.attributes)
    (hrel : a.attrelid = a'.attrelid) (hname : a.attname = a'.attname) : a = a' :=
  eq_of_key cat.attribute_names ha ha' (by rw [hrel, hname])

theorem attribute_ext_num (ha : a ∈ cat.attributes) (ha' : a' ∈ cat.attributes)
    (hrel : a.attrelid = a'.attrelid) (hnum : a.attnum = a'.attnum) : a = a' :=
  eq_of_key cat.attribute_nums ha ha' (by rw [hrel, hnum])

theorem constraints_nodup (cat : PgCatalog) : cat.constraints.Nodup :=
  .of_map _ cat.constraint_names

/-- The columns of a table, found by its name. -/
theorem columnsView_table (ht : t ∈ cat.tables) :
    (cat.columnsView.filter fun c => c.tableSchema = t.2 ∧ c.tableName = t.1.relname) =
      (cat.attributes.filter fun a => a.attrelid = t.1.oid).map fun a =>
        ⟨t.2, t.1.relname, a⟩ := by
  obtain ⟨hr, hk, n, hn, hne, hns⟩ := mem_tables.mp ht
  rw [columnsView, List.filter_flatMap, map_filter_eq]
  apply List.flatMap_congr
  intro a _
  by_cases ha : a.attrelid = t.1.oid
  · have hkind : t.1.relkind ≠ .other := by
      rintro h
      simp [PgClass.isTable, h] at hk
    rw [having_eq cat.class_oids hr ha.symm]
    simp [hkind, having_eq cat.namespace_oids hn hne, hns, ha]
  · simp only [ha, decide_false, Bool.false_eq_true, if_false, List.filter_eq_nil_iff]
    intro c hc
    simp only [List.mem_flatMap, List.mem_map, List.mem_filter, mem_having] at hc
    obtain ⟨r', ⟨⟨hr', ho⟩, -⟩, n', ⟨hn', hne'⟩, rfl⟩ := hc
    simp only [decide_eq_true_eq]
    rintro ⟨hs, hname⟩
    apply ha
    rw [← ho, class_ext hr' hr hn' hn hne' hne (by rw [hs, hns]) hname]

end Facts

end PgCatalog

/-- The queries of `tablesIn` and `describeIn`, with the texts put into them. -/
inductive CatalogQuery
  | tableNames (schema : Text)
  | tableColumns (schema : Text) (names : List Text)
  | tableForeignKeys (schema : Text) (names : List Text)
  | tableForeignKeysByName (schema : Text) (names : List Text)
  | tableSizes (schema : Text) (names : List Text)
  | columns (schema table : Text)
  | primaryKey (schema table : Text)
  | indexes (schema table : Text)
  | foreignKeys (schema table : Text)
  | size (schema table : Text)
  deriving DecidableEq

def boolText (b : Bool) : Text := if b then "true".toList else "false".toList

namespace PgCatalog
variable (cat : PgCatalog) (role : Role) (schema : Text)

def tableNameRows : List (Text × Row) :=
  (cat.tables.filter fun t => t.2 = schema).map fun t => (t.1.relname, [t.1.relname])

def columnCells (c : ColumnsRow) (pk : Bool) : Row :=
  [c.tableName, c.column.attname, c.column.columnType,
    if c.column.isNullable then "YES".toList else "NO".toList, boolText pk,
    boolText c.column.autoIncrement, c.column.columnDefault.getD []]

/-- The joins for one column. A name that is NULL is equal to no name. -/
def joinedConstraints (c : ColumnsRow) : List (Option TableConstraintsRow) :=
  (orNull ((cat.shownKeyUsage role).filter fun kcu => c.column.attname = kcu.columnName ∧
      c.tableName = kcu.tableName ∧ c.tableSchema = kcu.tableSchema)).flatMap fun kcu =>
    orNull ((cat.shownConstraints role).filter fun tc =>
      kcu.map UsageRow.constraintName = some tc.constraintName ∧ tc.constraintType = .primary)

def tableColumnRows (names : List Text) : List ((Text × ℕ) × Row) :=
  ((cat.shownColumns role).filter fun c =>
      c.tableSchema = schema ∧ c.tableName ∈ names).flatMap fun c =>
    (cat.joinedConstraints role c).map fun tc => ((c.tableName, c.column.attnum),
      columnCells c (tc.any fun tc => tc.constraintType = .primary))

/-- The columns whose number is `key[i]`, counted from 1; past the end it is NULL. -/
def attributeNth (rel : ℕ) (key : List ℕ) (i : ℕ) : List PgAttribute :=
  (key[i - 1]?).toList.flatMap (cat.attributeAt rel)

def tableForeignKeyRows (names : List Text) : List ((Text × Text × ℕ) × Row) :=
  (cat.constraints.filter fun con => con.contype = .foreign).flatMap fun con =>
    (having cat.classes PgClass.oid con.conrelid).flatMap fun src =>
    (having cat.namespaces PgNamespace.oid src.relnamespace).flatMap fun n =>
    ((having cat.classes PgClass.oid con.confrelid).filter
      fun tgt => tgt.relnamespace = src.relnamespace).flatMap fun tgt =>
    ((List.range' 1 32).filter fun i => i ≤ con.conkey.length).flatMap fun i =>
    (cat.attributeNth con.conrelid con.conkey i).flatMap fun sa =>
    (cat.attributeNth con.confrelid con.confkey i).flatMap fun ta =>
    if n.nspname = schema ∧ src.relname ∈ names then
      [((src.relname, con.conname, i),
        [src.relname, sa.attname, tgt.relname, ta.attname, con.conname])]
    else []

/-- The foreign keys of `schema` by the names of the views, for the tables `keep` holds of. -/
def foreignKeyJoin (keep : Text → Bool) : List (TableConstraintsRow × UsageRow × UsageRow) :=
  ((cat.shownConstraints role).filter fun tc =>
      tc.constraintType = .foreign ∧ tc.tableSchema = schema ∧ keep tc.tableName).flatMap fun tc =>
    ((cat.shownKeyUsage role).filter fun kcu => tc.constraintName = kcu.constraintName ∧
      tc.tableSchema = kcu.tableSchema).flatMap fun kcu =>
    ((cat.shownColumnUsage role).filter fun ccu => ccu.constraintName = tc.constraintName ∧
      ccu.tableSchema = tc.tableSchema).map fun ccu => (tc, kcu, ccu)

def tableForeignKeyByNameRows (names : List Text) : List (Text × Row) :=
  (cat.foreignKeyJoin role schema (· ∈ names)).map fun r => (r.1.tableName,
    [r.1.tableName, r.2.1.columnName, r.2.2.tableName, r.2.2.columnName, r.1.constraintName])

def columnRows (table : Text) : List (ℕ × Row) :=
  ((cat.shownColumns role).filter fun c => c.tableSchema = schema ∧ c.tableName = table).map fun c =>
    (c.column.attnum, [c.column.attname, c.column.columnType,
      if c.column.isNullable then "YES".toList else "NO".toList,
      c.column.columnDefault.getD [], boolText c.column.autoIncrement])

/-- An index that is `indisprimary` is that of a primary key. -/
def primaryKeyRows (table : Text) : List Row :=
  (cat.constraints.filter fun k => k.contype = .primary).flatMap fun k =>
    ((cat.tableAt k.conrelid).filter fun t => t.2 = schema ∧ t.1.relname = table).flatMap fun _ =>
      (cat.attributes.filter fun a => a.attrelid = k.conrelid ∧ a.attnum ∈ k.conkey).map fun a =>
        [a.attname]

def foreignKeyRows (table : Text) : List Row :=
  (cat.foreignKeyJoin role schema (· = table)).map fun r =>
    [r.2.1.columnName, r.2.2.tableName, r.2.2.columnName, r.1.constraintName]

end PgCatalog

/-- The query went well and these are its rows. -/
def Gives (r : QueryResult) (res : List Row) : Prop :=
  r.success = true ∧ r.statements.head?.map StatementResult.tableData = some res

/-- `ask` answers the readers in a session of `role` as a server with the catalog `cat` may;
`lt` is the order of its texts. The queries for sizes may fail. -/
structure ServesRole (cat : PgCatalog) (role : Role) (lt : Text → Text → Prop)
    (ask : CatalogQuery → QueryResult) : Prop where
  tableNames : ∀ schema, ∃ res, Gives (ask (.tableNames schema)) res ∧
    Answers lt (cat.tableNameRows schema) res
  tableColumns : ∀ schema names, ∃ res, Gives (ask (.tableColumns schema names)) res ∧
    Answers (Prod.Lex lt (· < ·)) (cat.tableColumnRows role schema names) res
  tableForeignKeys : ∀ schema names, ∃ res, Gives (ask (.tableForeignKeys schema names)) res ∧
    Answers (Prod.Lex lt (Prod.Lex lt (· < ·))) (cat.tableForeignKeyRows schema names) res
  columns : ∀ schema table, ∃ res, Gives (ask (.columns schema table)) res ∧
    Answers (· < ·) (cat.columnRows role schema table) res
  primaryKey : ∀ schema table, ∃ res, Gives (ask (.primaryKey schema table)) res ∧
    res.Perm (cat.primaryKeyRows schema table)
  indexes : ∀ schema table, ∃ res, Gives (ask (.indexes schema table)) res
  foreignKeys : ∀ schema table, ∃ res, Gives (ask (.foreignKeys schema table)) res ∧
    res.Perm (cat.foreignKeyRows role schema table)

/-- The session's role owns the tables, so the views show it every column and constraint. -/
abbrev Serves (cat : PgCatalog) (lt : Text → Text → Prop) (ask : CatalogQuery → QueryResult) : Prop :=
  ServesRole cat .owner lt ask

def reply (res : List Row) : QueryResult := { statements := [{ tableData := res }] }

/-- A server that compares texts by their bytes, without indexes other than primary keys. -/
def PgCatalog.serveRole (cat : PgCatalog) (role : Role) : CatalogQuery → QueryResult
  | .tableNames schema => reply (sorted (cat.tableNameRows schema))
  | .tableColumns schema names =>
    reply (@sorted (Text ×ₗ ℕ) Row _ (cat.tableColumnRows role schema names))
  | .tableForeignKeys schema names =>
    reply (@sorted (Text ×ₗ Text ×ₗ ℕ) Row _ (cat.tableForeignKeyRows schema names))
  | .tableForeignKeysByName schema names =>
    reply (sorted (cat.tableForeignKeyByNameRows role schema names))
  | .columns schema table => reply (sorted (cat.columnRows role schema table))
  | .primaryKey schema table => reply (cat.primaryKeyRows schema table)
  | .foreignKeys schema table => reply (cat.foreignKeyRows role schema table)
  | _ => reply []

theorem gives_reply (res : List Row) : Gives (reply res) res := ⟨rfl, rfl⟩

theorem PgCatalog.serves_role (cat : PgCatalog) (role : Role) :
    ServesRole cat role (· < ·) (cat.serveRole role) where
  tableNames _ := ⟨_, gives_reply _, sorted_answers _⟩
  tableColumns _ _ := ⟨_, gives_reply _, @sorted_answers (Text ×ₗ ℕ) Row _ _⟩
  tableForeignKeys _ _ := ⟨_, gives_reply _, @sorted_answers (Text ×ₗ Text ×ₗ ℕ) Row _ _⟩
  columns _ _ := ⟨_, gives_reply _, sorted_answers _⟩
  primaryKey _ _ := ⟨_, gives_reply _, .refl _⟩
  indexes _ _ := ⟨_, gives_reply _⟩
  foreignKeys _ _ := ⟨_, gives_reply _, .refl _⟩

abbrev PgCatalog.serve (cat : PgCatalog) : CatalogQuery → QueryResult := cat.serveRole .owner

theorem PgCatalog.serves (cat : PgCatalog) : Serves cat (· < ·) cat.serve := cat.serves_role .owner

section TwoTables

theorem schema_oids : ([⟨1, ['s']⟩].map PgNamespace.oid).Nodup := by decide

theorem schema_names : ([⟨1, ['s']⟩].map PgNamespace.nspname).Nodup := by decide

theorem twoTables_oids :
    ([⟨10, ['p'], 1, .table⟩, ⟨11, ['c'], 1, .table⟩].map PgClass.oid).Nodup := by decide

theorem twoTables_names : (([⟨10, ['p'], 1, .table⟩, ⟨11, ['c'], 1, .table⟩] : List PgClass).map
    fun r => (r.relnamespace, r.relname)).Nodup := by decide

theorem twoTables_namespace :
    ∀ r ∈ ([⟨10, ['p'], 1, .table⟩, ⟨11, ['c'], 1, .table⟩] : List PgClass),
      ∃ n ∈ ([⟨1, ['s']⟩] : List PgNamespace), n.oid = r.relnamespace := by decide

end TwoTables

end DearSql.Pg
