import DearSql.RowMaps
import DearSql.QueryResult

/-! The views of an Oracle data dictionary and the rows of the queries that the catalog readers
send. A session is a function from these queries to their results; `Serves` says which results
the dictionary allows. -/
namespace DearSql.Oracle
open Joins RowMaps

/-- A row of `ALL_TAB_COLUMNS`. -/
structure TabColumn where
  owner : Text
  tableName : Text
  columnName : Text
  columnId : ℕ
  dataType : Text
  nullable : Bool := true
  dataLength : Text := []
  dataPrecision : Option Text := none
  dataScale : Option Text := none
  identityColumn : Bool := false
  deriving DecidableEq

inductive ConstraintType
  | primary | referential | other
  deriving DecidableEq

/-- A row of `ALL_CONSTRAINTS`. -/
structure Constraint where
  owner : Text
  constraintName : Text
  constraintType : ConstraintType
  tableName : Text
  rOwner : Option Text := none
  rConstraintName : Option Text := none
  indexName : Option Text := none
  deriving DecidableEq

/-- A row of `ALL_CONS_COLUMNS`; a check constraint has no positions. -/
structure ConsColumn where
  owner : Text
  constraintName : Text
  columnName : Text
  position : Option ℕ := none
  deriving DecidableEq

/-- A row of `ALL_INDEXES`. -/
structure IndexEntry where
  owner : Text
  indexName : Text
  tableName : Text
  unique : Bool := false
  deriving DecidableEq

/-- A row of `ALL_IND_COLUMNS`. -/
structure IndColumn where
  indexOwner : Text
  indexName : Text
  columnName : Text
  columnPosition : ℕ
  deriving DecidableEq

/-- What stands under a constraint's name at a position. -/
def ConsColumn.place (c : ConsColumn) : Text × Text × Option ℕ :=
  (c.owner, c.constraintName, c.position)

/-- The views with what the server keeps true of them; an empty name would be NULL. -/
structure Dictionary where
  tables : List (Text × Text)
  views : List (Text × Text)
  columns : List TabColumn
  constraints : List Constraint
  consColumns : List ConsColumn
  indexes : List IndexEntry
  indColumns : List IndColumn
  tables_nodup : tables.Nodup
  tables_named : ∀ t ∈ tables, t.2 ≠ []
  views_nodup : views.Nodup
  views_named : ∀ v ∈ views, v.2 ≠ []
  column_ids : (columns.map fun c => (c.owner, c.tableName, c.columnId)).Nodup
  constraint_names : (constraints.map fun c => (c.owner, c.constraintName)).Nodup
  cons_places : ((consColumns.filter fun c => c.position.isSome).map ConsColumn.place).Nodup
  index_names : (indexes.map fun i => (i.owner, i.indexName)).Nodup
  ind_places : (indColumns.map fun c => (c.indexOwner, c.indexName, c.columnPosition)).Nodup

abbrev Row := List Text

def cell (value : Option Text) : Text := value.getD NULL_SENTINEL

/-- The tables a query is about: the whole schema, its views, or the one given by name. -/
inductive Scope
  | schema
  | views
  | table (name : Text)
  deriving DecidableEq

inductive DictQuery
  | tableNames (owner : Text)
  | viewNames (owner : Text)
  | columns (owner : Text) (scope : Scope)
  | primaryKeys (owner : Text) (scope : Scope)
  | foreignKeys (owner : Text) (scope : Scope)
  | indexes (owner : Text) (scope : Scope)
  deriving DecidableEq

namespace Dictionary
variable (dict : Dictionary) (owner : Text) (scope : Scope)

/-- The condition of the scope on the name of a table. -/
def covers (name : Text) : Bool :=
  match scope with
  | .schema => true
  | .views => decide ((owner, name) ∈ dict.views)
  | .table t => decide (name = t)

def tableNameRows : List (Text × Row) :=
  (dict.tables.filter fun t => t.1 = owner).map fun t => (t.2, [t.2])

def viewNameRows : List (Text × Row) :=
  (dict.views.filter fun v => v.1 = owner).map fun v => (v.2, [v.2])

def columnRows : List ((Text × ℕ) × Row) :=
  (dict.columns.filter fun c => c.owner = owner ∧ dict.covers owner scope c.tableName).map
    fun c => ((c.tableName, c.columnId),
      [c.tableName, c.columnName, c.dataType, if c.nullable then ['Y'] else ['N'], c.dataLength,
        cell c.dataPrecision, cell c.dataScale,
        if c.identityColumn then "YES".toList else "NO".toList])

/-- The constraints of one type on the tables of the scope. -/
def constraintsOf (type : ConstraintType) : List Constraint :=
  dict.constraints.filter fun ac =>
    ac.constraintType = type ∧ ac.owner = owner ∧ dict.covers owner scope ac.tableName

/-- `JOIN ALL_CONS_COLUMNS`. -/
def columnsOf (ac : Constraint) : List ConsColumn :=
  dict.consColumns.filter fun acc =>
    ac.constraintName = acc.constraintName ∧ ac.owner = acc.owner

def primaryKeyRows : List Row :=
  (dict.constraintsOf owner scope .primary).flatMap fun ac =>
    (dict.columnsOf ac).map fun acc => [ac.tableName, acc.columnName]

/-- The constraint that a foreign key refers to. -/
def referredBy (ac : Constraint) : List Constraint :=
  dict.constraints.filter fun rc =>
    ac.rConstraintName = some rc.constraintName ∧ ac.rOwner = some rc.owner

/-- The joins of the foreign key query; no position is equal to NULL. -/
def foreignKeyJoin : List (Constraint × ConsColumn × Constraint × ConsColumn) :=
  (dict.constraintsOf owner scope .referential).flatMap fun ac =>
    (dict.columnsOf ac).flatMap fun acc => (dict.referredBy ac).flatMap fun rc =>
      ((dict.columnsOf rc).filter fun rcc =>
        acc.position.isSome ∧ acc.position = rcc.position).map fun rcc => (ac, acc, rc, rcc)

def foreignKeyRows : List ((Text × Text × ℕ) × Row) :=
  (dict.foreignKeyJoin owner scope).map fun j =>
    ((j.1.tableName, j.1.constraintName, j.2.1.position.getD 0),
      [j.1.tableName, j.1.constraintName, j.2.1.columnName, j.2.2.1.tableName,
        j.2.2.2.columnName])

/-- The constraints that an index serves. -/
def servedBy (i : IndexEntry) : List Constraint :=
  dict.constraints.filter fun c => c.indexName = some i.indexName ∧ c.owner = i.owner

/-- The joins of the index query, with the condition that leaves out primary keys. -/
def indexJoin : List (IndexEntry × IndColumn) :=
  (dict.indexes.filter fun i => i.owner = owner ∧ dict.covers owner scope i.tableName).flatMap
    fun i => (dict.indColumns.filter fun ic =>
        i.indexName = ic.indexName ∧ i.owner = ic.indexOwner).flatMap fun ic =>
      ((orNull (dict.servedBy i)).filter fun c =>
        c.all fun c => c.constraintType ≠ .primary).map fun _ => (i, ic)

def indexRows : List ((Text × Text × ℕ) × Row) :=
  (dict.indexJoin owner scope).map fun j =>
    ((j.1.tableName, j.1.indexName, j.2.columnPosition),
      [j.1.tableName, j.1.indexName,
        if j.1.unique then "UNIQUE".toList else "NONUNIQUE".toList, j.2.columnName])

end Dictionary

/-- The query went well and these are its rows. -/
def Gives (r : QueryResult) (res : List Row) : Prop :=
  r.success = true ∧ r.statements.head?.map StatementResult.tableData = some res

/-- `ask` answers the readers as a session on the dictionary may; `lt` is the order of its
texts. The rows of a primary key come in any order. -/
structure Serves (dict : Dictionary) (lt : Text → Text → Prop) (ask : DictQuery → QueryResult) :
    Prop where
  tableNames : ∀ owner, ∃ res, Gives (ask (.tableNames owner)) res ∧
    Answers lt (dict.tableNameRows owner) res
  viewNames : ∀ owner, ∃ res, Gives (ask (.viewNames owner)) res ∧
    Answers lt (dict.viewNameRows owner) res
  columns : ∀ owner scope, ∃ res, Gives (ask (.columns owner scope)) res ∧
    Answers (Prod.Lex lt (· < ·)) (dict.columnRows owner scope) res
  primaryKeys : ∀ owner scope, ∃ res, Gives (ask (.primaryKeys owner scope)) res ∧
    res.Perm (dict.primaryKeyRows owner scope)
  foreignKeys : ∀ owner scope, ∃ res, Gives (ask (.foreignKeys owner scope)) res ∧
    Answers (Prod.Lex lt (Prod.Lex lt (· < ·))) (dict.foreignKeyRows owner scope) res
  indexes : ∀ owner scope, ∃ res, Gives (ask (.indexes owner scope)) res ∧
    Answers (Prod.Lex lt (Prod.Lex lt (· < ·))) (dict.indexRows owner scope) res

def reply (res : List Row) : QueryResult := { statements := [{ tableData := res }] }

/-- A session that compares texts by their bytes. -/
def Dictionary.serve (dict : Dictionary) : DictQuery → QueryResult
  | .tableNames owner => reply (sorted (dict.tableNameRows owner))
  | .viewNames owner => reply (sorted (dict.viewNameRows owner))
  | .columns owner scope => reply (@sorted (Text ×ₗ ℕ) Row _ (dict.columnRows owner scope))
  | .primaryKeys owner scope => reply (dict.primaryKeyRows owner scope)
  | .foreignKeys owner scope =>
    reply (@sorted (Text ×ₗ Text ×ₗ ℕ) Row _ (dict.foreignKeyRows owner scope))
  | .indexes owner scope =>
    reply (@sorted (Text ×ₗ Text ×ₗ ℕ) Row _ (dict.indexRows owner scope))

theorem gives_reply (res : List Row) : Gives (reply res) res := ⟨rfl, rfl⟩

theorem Dictionary.serves (dict : Dictionary) : Serves dict (· < ·) dict.serve where
  tableNames _ := ⟨_, gives_reply _, sorted_answers _⟩
  viewNames _ := ⟨_, gives_reply _, sorted_answers _⟩
  columns _ _ := ⟨_, gives_reply _, @sorted_answers (Text ×ₗ ℕ) Row _ _⟩
  primaryKeys _ _ := ⟨_, gives_reply _, .refl _⟩
  foreignKeys _ _ := ⟨_, gives_reply _, @sorted_answers (Text ×ₗ Text ×ₗ ℕ) Row _ _⟩
  indexes _ _ := ⟨_, gives_reply _, @sorted_answers (Text ×ₗ Text ×ₗ ℕ) Row _ _⟩

/-- The table a row of at least so many cells is about. -/
def tagOf (cells : ℕ) (row : Row) : Option Text :=
  if row.length < cells then none else row.head?

theorem head_of_tag {cells : ℕ} {name t : Text} {row : Row}
    (h : decide (tagOf cells (name :: row) = some t) = true) : name = t := by
  have htag := of_decide_eq_true h
  rw [tagOf] at htag
  split_ifs at htag
  exact Option.some.inj htag

namespace Dictionary
variable {dict : Dictionary} {owner t : Text} {scope scope' : Scope}

section Rows

variable (hs : dict.covers owner scope t = true) (hs' : dict.covers owner scope' t = true)
include hs hs'

theorem columnRows_own :
    (dict.columnRows owner scope).filter (fun x => tagOf 8 x.2 = some t) =
      (dict.columnRows owner scope').filter fun x => tagOf 8 x.2 = some t := by
  rw [columnRows, columnRows, List.map_eq_flatMap, List.map_eq_flatMap]
  refine filter_scoped fun c _ x hx hq => ?_
  obtain rfl := List.mem_singleton.mp hx
  obtain rfl := head_of_tag hq
  rw [hs, hs']

theorem constraint_scoped {type : ConstraintType} {ac : Constraint} (hac : ac.tableName = t) :
    decide (ac.constraintType = type ∧ ac.owner = owner ∧
        dict.covers owner scope ac.tableName = true) =
      decide (ac.constraintType = type ∧ ac.owner = owner ∧
        dict.covers owner scope' ac.tableName = true) := by
  rw [hac, hs, hs']

theorem primaryKeyRows_own :
    (dict.primaryKeyRows owner scope).filter (fun x => tagOf 2 x = some t) =
      (dict.primaryKeyRows owner scope').filter fun x => tagOf 2 x = some t := by
  refine filter_scoped fun ac _ x hx hq => constraint_scoped hs hs' ?_
  obtain ⟨acc, -, rfl⟩ := List.mem_map.mp hx
  exact head_of_tag hq

theorem foreignKeyRows_own :
    (dict.foreignKeyRows owner scope).filter (fun x => tagOf 5 x.2 = some t) =
      (dict.foreignKeyRows owner scope').filter fun x => tagOf 5 x.2 = some t := by
  rw [foreignKeyRows, foreignKeyRows, foreignKeyJoin, foreignKeyJoin, List.map_flatMap,
    List.map_flatMap]
  refine filter_scoped fun ac _ x hx hq => constraint_scoped hs hs' ?_
  simp only [List.mem_map, List.mem_flatMap] at hx
  obtain ⟨j, ⟨acc, -, rc, -, rcc, -, rfl⟩, rfl⟩ := hx
  exact head_of_tag hq

theorem indexRows_own :
    (dict.indexRows owner scope).filter (fun x => tagOf 4 x.2 = some t) =
      (dict.indexRows owner scope').filter fun x => tagOf 4 x.2 = some t := by
  rw [indexRows, indexRows, indexJoin, indexJoin, List.map_flatMap, List.map_flatMap]
  refine filter_scoped fun i _ x hx hq => ?_
  simp only [List.mem_map, List.mem_flatMap] at hx
  obtain ⟨j, ⟨ic, -, c, -, rfl⟩, rfl⟩ := hx
  obtain rfl := head_of_tag hq
  rw [hs, hs']

end Rows

section Keys

/-- The number of a column tells the columns of a table apart. -/
theorem columnRows_unique {x y : (Text × ℕ) × Row} (hx : x ∈ dict.columnRows owner scope)
    (hy : y ∈ dict.columnRows owner scope) (hxy : x.1 = y.1) : x.2 = y.2 := by
  simp only [columnRows, List.mem_map, List.mem_filter, decide_eq_true_eq] at hx hy
  obtain ⟨c, ⟨hc, rfl, -⟩, rfl⟩ := hx
  obtain ⟨c', ⟨hc', hown, -⟩, rfl⟩ := hy
  obtain ⟨htable, hid⟩ := Prod.mk.inj hxy
  obtain rfl := eq_of_key dict.column_ids hc hc' (by rw [htable, hid, hown])
  rfl

theorem constraint_ext {c c' : Constraint} (hc : c ∈ dict.constraints)
    (hc' : c' ∈ dict.constraints) (hown : c.owner = c'.owner)
    (hname : c.constraintName = c'.constraintName) : c = c' :=
  eq_of_key dict.constraint_names hc hc' (by rw [hown, hname])

theorem consColumn_ext {c c' : ConsColumn} (hc : c ∈ dict.consColumns)
    (hc' : c' ∈ dict.consColumns) (hsome : c.position.isSome) (hplace : c.place = c'.place) :
    c = c' := by
  have hsome' : c'.position.isSome := by
    rw [← (Prod.mk.inj (Prod.mk.inj hplace).2).2]
    exact hsome
  exact eq_of_key dict.cons_places (List.mem_filter.mpr ⟨hc, hsome⟩)
    (List.mem_filter.mpr ⟨hc', hsome'⟩) hplace

/-- What a row of the foreign key query is joined from. -/
structure JoinedKey (dict : Dictionary) (owner : Text) (ac : Constraint) (acc : ConsColumn)
    (rc : Constraint) (rcc : ConsColumn) : Prop where
  constraint : ac ∈ dict.constraints ∧ ac.owner = owner
  column : acc ∈ dict.consColumns ∧ ac.constraintName = acc.constraintName ∧ ac.owner = acc.owner
  referred : rc ∈ dict.constraints ∧ ac.rConstraintName = some rc.constraintName ∧
    ac.rOwner = some rc.owner
  referredColumn : rcc ∈ dict.consColumns ∧ rc.constraintName = rcc.constraintName ∧
    rc.owner = rcc.owner
  positioned : acc.position.isSome ∧ acc.position = rcc.position

theorem joinedKey {j : Constraint × ConsColumn × Constraint × ConsColumn}
    (hj : j ∈ dict.foreignKeyJoin owner scope) :
    JoinedKey dict owner j.1 j.2.1 j.2.2.1 j.2.2.2 := by
  simp only [foreignKeyJoin, constraintsOf, columnsOf, referredBy, List.mem_flatMap,
    List.mem_map, List.mem_filter, decide_eq_true_eq] at hj
  obtain ⟨ac, ⟨hac, -, hown, -⟩, acc, hacc, rc, hrc, rcc, ⟨hrcc, hpos⟩, rfl⟩ := hj
  exact ⟨⟨hac, hown⟩, hacc, hrc, hrcc, by simpa using hpos⟩

/-- The position tells the columns of a foreign key apart. -/
theorem foreignKeyRows_unique {x y : (Text × Text × ℕ) × Row}
    (hx : x ∈ dict.foreignKeyRows owner scope) (hy : y ∈ dict.foreignKeyRows owner scope)
    (hxy : x.1 = y.1) : x.2 = y.2 := by
  obtain ⟨⟨ac, acc, rc, rcc⟩, hj, rfl⟩ := List.mem_map.mp hx
  obtain ⟨⟨ac', acc', rc', rcc'⟩, hj', rfl⟩ := List.mem_map.mp hy
  obtain ⟨hac, ⟨hacc, hname, hown⟩, ⟨hrc, hrname, hrown⟩, ⟨hrcc, hrcname, hrcown⟩, hpos⟩ :=
    joinedKey hj
  obtain ⟨hac', ⟨hacc', hname', hown'⟩, ⟨hrc', hrname', hrown'⟩, ⟨hrcc', hrcname', hrcown'⟩,
    hpos'⟩ := joinedKey hj'
  obtain ⟨-, hconstraint, hposition⟩ : ac.tableName = ac'.tableName ∧
      ac.constraintName = ac'.constraintName ∧ acc.position.getD 0 = acc'.position.getD 0 := by
    simpa using hxy
  obtain rfl := constraint_ext hac.1 hac'.1 (hac.2.trans hac'.2.symm) hconstraint
  have hplace : acc.position = acc'.position := by
    obtain ⟨n, hn⟩ := Option.isSome_iff_exists.mp hpos.1
    obtain ⟨m, hm⟩ := Option.isSome_iff_exists.mp hpos'.1
    rw [hn, hm] at hposition ⊢
    exact congrArg some hposition
  obtain rfl := consColumn_ext hacc hacc' hpos.1
    (Prod.ext (hown.symm.trans hown') (Prod.ext (hname.symm.trans hname') hplace))
  obtain rfl := constraint_ext hrc hrc' (Option.some.inj (hrown.symm.trans hrown'))
    (Option.some.inj (hrname.symm.trans hrname'))
  obtain rfl := consColumn_ext hrcc hrcc' (hpos.2 ▸ hpos.1)
    (Prod.ext (hrcown.symm.trans hrcown') (Prod.ext (hrcname.symm.trans hrcname')
      (hpos.2.symm.trans hpos'.2)))
  rfl

/-- The position tells the columns of an index apart; an index that serves several constraints
yields each row as often, always the same. -/
theorem indexRows_unique {x y : (Text × Text × ℕ) × Row} (hx : x ∈ dict.indexRows owner scope)
    (hy : y ∈ dict.indexRows owner scope) (hxy : x.1 = y.1) : x.2 = y.2 := by
  simp only [indexRows, indexJoin, List.mem_map, List.mem_flatMap, List.mem_filter,
    decide_eq_true_eq] at hx hy
  obtain ⟨j, ⟨i, ⟨hi, hown, -⟩, ic, ⟨hic, hname, hicown⟩, c, -, rfl⟩, rfl⟩ := hx
  obtain ⟨j', ⟨i', ⟨hi', hown', -⟩, ic', ⟨hic', hname', hicown'⟩, c', -, rfl⟩, rfl⟩ := hy
  obtain ⟨-, hindex, hposition⟩ : i.tableName = i'.tableName ∧ i.indexName = i'.indexName ∧
      ic.columnPosition = ic'.columnPosition := by simpa using hxy
  obtain rfl := eq_of_key dict.index_names hi hi' (by rw [hown, hown', hindex])
  obtain rfl := eq_of_key dict.ind_places hic hic'
    (by rw [← hicown, ← hicown', ← hname, ← hname', hposition])
  rfl

/-- The rows that a query gathers of one owner, tagged by their table: what they say of a table does
not depend on what else the query covers, and the sort key tells the rows apart. -/
structure Gathered {κ : Type} (dict : Dictionary) (owner : Text) (width : ℕ)
    (rows : Scope → List (κ × Row)) : Prop where
  own : ∀ {scope scope' t}, dict.covers owner scope t = true → dict.covers owner scope' t = true →
    (rows scope).filter (fun x => tagOf width x.2 = some t) =
      (rows scope').filter fun x => tagOf width x.2 = some t
  unique : ∀ {scope} {x y : κ × Row}, x ∈ rows scope → y ∈ rows scope → x.1 = y.1 → x.2 = y.2

theorem gathered_columns : dict.Gathered owner 8 (dict.columnRows owner) :=
  ⟨columnRows_own, columnRows_unique⟩

theorem gathered_foreignKeys : dict.Gathered owner 5 (dict.foreignKeyRows owner) :=
  ⟨foreignKeyRows_own, foreignKeyRows_unique⟩

theorem gathered_indexes : dict.Gathered owner 4 (dict.indexRows owner) :=
  ⟨indexRows_own, indexRows_unique⟩

end Keys

end Dictionary

end DearSql.Oracle
