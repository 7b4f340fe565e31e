import DearSql.OracleCatalog
import DearSql.OracleQuery
import DearSql.IncomingKeys
import DearSql.KeyMaps

/-! `OracleDatabase::tables`, `views` and `describeTable`: the lists read the whole schema at
once and hand each table what stands under its name, the description asks for one table. -/
namespace DearSql.Oracle
open Joins RowMaps

theorem rowsOf_gives {r : QueryResult} {res : List Row} (h : Gives r res) : rowsOf r = .ok res := by
  simp [rowsOf, h.1, h.2]

def firstColumn (rows : List Row) : List Text :=
  rows.filterMap fun row => row.head?.filter fun name => name ≠ NULL_SENTINEL

def columnType (dataType dataLen prec scale : Text) : Text :=
  if prec ≠ NULL_SENTINEL then
    if scale ≠ NULL_SENTINEL ∧ scale ≠ ['0'] then
      dataType ++ '(' :: prec ++ ',' :: scale ++ [')']
    else dataType ++ '(' :: prec ++ [')']
  else if dataType ∈ ["VARCHAR2".toList, "CHAR".toList, "NVARCHAR2".toList, "RAW".toList] then
    dataType ++ '(' :: dataLen ++ [')']
  else dataType

section Maps

def pushColumn (columns : List Column) : Row → List Column
  | _ :: name :: type :: nullable :: len :: prec :: scale :: identity :: _ =>
    columns ++ [{ name := name, type := columnType type len prec scale
                  isNotNull := nullable = ['N'], isAutoIncrement := identity = "YES".toList }]
  | _ => columns

def pushKeyColumn (names : List Text) : Row → List Text
  | _ :: name :: _ => names ++ [name]
  | _ => names

def pushForeignKey (fks : List ForeignKey) : Row → List ForeignKey
  | _ :: name :: source :: target :: targetColumn :: _ =>
    fks ++ [{ name := name, sourceColumn := source, targetTable := target
              targetColumn := targetColumn }]
  | _ => fks

/-- `byName[row[1]]`, a map in the order of the names. -/
def putIndex (byName : List (Text × Index)) : Row → List (Text × Index)
  | _ :: name :: uniqueness :: column :: _ =>
    let idx := (KeyMaps.get name byName).getD { name := name }
    KeyMaps.assign name { idx with name := name, isUnique := uniqueness = "UNIQUE".toList
                                   columns := idx.columns ++ [column] } byName
  | _ => byName

def columnsBy : List Row → Text → List Column := fill (tagOf 8) pushColumn fun _ => []

def primaryKeysBy : List Row → Text → List Text := fill (tagOf 2) pushKeyColumn fun _ => []

def foreignKeysBy : List Row → Text → List ForeignKey := fill (tagOf 5) pushForeignKey fun _ => []

def indexesBy (rows : List Row) (table : Text) : List Index :=
  (fill (tagOf 4) putIndex (fun _ => []) rows table).map Prod.snd

end Maps

section Readers
variable (ask : DictQuery → QueryResult) (connName schema_ : Text)

/-- A table with what stands under its name. -/
def entry (cols : Text → List Column) (pks : Text → List Text) (fks : Text → List ForeignKey)
    (idx : Text → List Index) (tn : Text) : Table :=
  { name := tn, schema := schema_, fullName := connName ++ '.' :: schema_ ++ '.' :: tn
    columns := (cols tn).map fun c => { c with isPrimaryKey := decide (c.name ∈ pks tn) }
    foreignKeys := fks tn, indexes := idx tn }

/-- The loop of `tables`, which moves what it finds out of the maps. -/
def takeTables (cols : Text → List Column) (pks : Text → List Text)
    (fks : Text → List ForeignKey) (idx : Text → List Index) : List Text → List Table
  | [] => []
  | tn :: names =>
    entry connName schema_ cols pks fks idx tn ::
      takeTables (Function.update cols tn []) pks (Function.update fks tn [])
        (Function.update idx tn []) names

def tables : Except Text (List Table) := do
  let names := firstColumn (← rowsOf (ask (.tableNames schema_)))
  if names.isEmpty then return []
  let cols := columnsBy (← rowsOf (ask (.columns schema_ .schema)))
  let pks := primaryKeysBy (← rowsOf (ask (.primaryKeys schema_ .schema)))
  let fks := foreignKeysBy (← rowsOf (ask (.foreignKeys schema_ .schema)))
  let idx := indexesBy (← rowsOf (ask (.indexes schema_ .schema)))
  return Incoming.populateIncomingForeignKeys (takeTables connName schema_ cols pks fks idx names)

def viewEntry (cols : Text → List Column) (vn : Text) : Table :=
  { name := vn, schema := schema_, fullName := connName ++ '.' :: schema_ ++ '.' :: vn
    columns := cols vn }

def takeViews (cols : Text → List Column) : List Text → List Table
  | [] => []
  | vn :: names =>
    viewEntry connName schema_ cols vn :: takeViews (Function.update cols vn []) names

def views : Except Text (List Table) := do
  let names := firstColumn (← rowsOf (ask (.viewNames schema_)))
  if names.isEmpty then return []
  let cols := columnsBy (← rowsOf (ask (.columns schema_ .views)))
  return takeViews connName schema_ cols names

/-- The filter of the constraint and index queries: no name is no filter. -/
def scopeOf (tableName : Text) : Scope := if tableName.isEmpty then .schema else .table tableName

def describeTable (tableName : Text) : Except Text Table := do
  let cols := columnsBy (← rowsOf (ask (.columns schema_ (.table tableName))))
  let pks := primaryKeysBy (← rowsOf (ask (.primaryKeys schema_ (scopeOf tableName))))
  let fks := foreignKeysBy (← rowsOf (ask (.foreignKeys schema_ (scopeOf tableName))))
  let idx := indexesBy (← rowsOf (ask (.indexes schema_ (scopeOf tableName))))
  return entry connName schema_ cols pks fks idx tableName

end Readers

section Spec
variable {dict : Dictionary} {lt : Text → Text → Prop} {ask : DictQuery → QueryResult}
  {connName schema_ t : Text}

theorem takeTables_nodup (cols : Text → List Column) (pks : Text → List Text)
    (fks : Text → List ForeignKey) (idx : Text → List Index) {names : List Text}
    (hnd : names.Nodup) : takeTables connName schema_ cols pks fks idx names =
      names.map (entry connName schema_ cols pks fks idx) := by
  induction names generalizing cols fks idx with
  | nil => rfl
  | cons tn names ih =>
    obtain ⟨hnotin, hnd⟩ := List.nodup_cons.mp hnd
    rw [takeTables, ih _ _ _ hnd, List.map_cons]
    congr 1
    refine List.map_congr_left fun name hname => ?_
    have hne : name ≠ tn := fun h => hnotin (h ▸ hname)
    simp only [entry, Function.update_of_ne hne]

theorem takeViews_nodup (cols : Text → List Column) {names : List Text} (hnd : names.Nodup) :
    takeViews connName schema_ cols names = names.map (viewEntry connName schema_ cols) := by
  induction names generalizing cols with
  | nil => rfl
  | cons vn names ih =>
    obtain ⟨hnotin, hnd⟩ := List.nodup_cons.mp hnd
    rw [takeViews, ih _ hnd, List.map_cons]
    congr 1
    refine List.map_congr_left fun name hname => ?_
    have hne : name ≠ vn := fun h => hnotin (h ▸ hname)
    simp only [viewEntry, Function.update_of_ne hne]

theorem foldl_pushKeyColumn (names : List Text) {rows : List Row}
    (hrows : ∀ row ∈ rows, ∃ table name, row = [table, name]) :
    rows.foldl pushKeyColumn names = names ++ rows.filterMap fun row => row[1]? := by
  induction rows generalizing names with
  | nil => simp
  | cons row rows ih =>
    obtain ⟨table, name, rfl⟩ := hrows row List.mem_cons_self
    rw [List.foldl_cons, ih _ fun row hrow => hrows row (List.mem_cons_of_mem _ hrow)]
    simp [pushKeyColumn]

/-- The columns found in a key, in whatever order its rows come. -/
theorem mem_primaryKeysBy {rows : List Row} {name : Text}
    (hrows : ∀ row ∈ rows, ∃ table name, row = [table, name]) :
    name ∈ primaryKeysBy rows t ↔ [t, name] ∈ rows := by
  have hown : ∀ row ∈ ownRows (tagOf 2) t rows, ∃ table name, row = [table, name] :=
    fun row hrow => hrows row (List.mem_filter.mp hrow).1
  rw [primaryKeysBy, fill_at, foldl_pushKeyColumn _ hown, List.nil_append, List.mem_filterMap]
  constructor
  · rintro ⟨row, hrow, hname⟩
    obtain ⟨hrow', htag⟩ := List.mem_filter.mp hrow
    obtain ⟨table, name', rfl⟩ := hrows row hrow'
    obtain rfl := head_of_tag htag
    obtain rfl := Option.some.inj hname
    exact hrow'
  · intro hrow
    exact ⟨_, List.mem_filter.mpr ⟨hrow, by simp [tagOf]⟩, rfl⟩

/-- One table's part of an answer about several tables. -/
theorem fill_own {κ γ : Type} {lt : κ → κ → Prop} [Std.Trichotomous lt] {width : ℕ}
    {rows : Scope → List (κ × Row)} (hg : dict.Gathered schema_ width rows) {put : γ → Row → γ}
    {start : Text → γ} {scope scope' : Scope} {res res' : List Row}
    (hs : dict.covers schema_ scope t = true) (hs' : dict.covers schema_ scope' t = true)
    (h : Answers lt (rows scope) res) (h' : Answers lt (rows scope') res') :
    fill (tagOf width) put start res t = fill (tagOf width) put start res' t :=
  fill_answers h h' (hg.own hs hs') fun _ hx _ hy _ _ => hg.unique hx hy

theorem primaryKeyRows_pairs (dict : Dictionary) (owner : Text) (scope : Scope) :
    ∀ row ∈ dict.primaryKeyRows owner scope, ∃ table name, row = [table, name] := by
  intro row hrow
  obtain ⟨ac, -, hrow⟩ := List.mem_flatMap.mp hrow
  obtain ⟨acc, -, rfl⟩ := List.mem_map.mp hrow
  exact ⟨_, _, rfl⟩

theorem primaryKeysBy_own {scope scope' : Scope} {res res' : List Row} {name : Text}
    (hs : dict.covers schema_ scope t = true) (hs' : dict.covers schema_ scope' t = true)
    (h : res.Perm (dict.primaryKeyRows schema_ scope))
    (h' : res'.Perm (dict.primaryKeyRows schema_ scope')) :
    name ∈ primaryKeysBy res t ↔ name ∈ primaryKeysBy res' t := by
  have hpairs := primaryKeyRows_pairs dict schema_ scope
  have hpairs' := primaryKeyRows_pairs dict schema_ scope'
  rw [mem_primaryKeysBy fun row hrow => hpairs row (h.mem_iff.mp hrow),
    mem_primaryKeysBy fun row hrow => hpairs' row (h'.mem_iff.mp hrow), h.mem_iff, h'.mem_iff]
  have hmem : [t, name] ∈ (dict.primaryKeyRows schema_ scope).filter (fun x => tagOf 2 x = some t) ↔
      [t, name] ∈ (dict.primaryKeyRows schema_ scope').filter fun x => tagOf 2 x = some t := by
    rw [Dictionary.primaryKeyRows_own hs hs']
  simpa [tagOf] using hmem

theorem firstColumn_names (names : List Text) :
    firstColumn (names.map fun name => [name]) = names.filter fun name => name ≠ NULL_SENTINEL := by
  rw [firstColumn, List.filterMap_map, ← List.filterMap_eq_filter]
  refine List.filterMap_congr fun name _ => ?_
  simp [Option.guard, Option.filter]

/-- The names of one owner are distinct. -/
theorem firstColumn_nodup {rows : List (Text × Text)} {owner : Text} {res : List Row}
    (hnd : rows.Nodup) (h : res.Perm ((rows.filter fun t => t.1 = owner).map fun t => [t.2])) :
    (firstColumn res).Nodup ∧ ∀ name ∈ firstColumn res, (owner, name) ∈ rows := by
  have hperm : (firstColumn res).Perm
      (((rows.filter fun t => t.1 = owner).map Prod.snd).filter fun name => name ≠ NULL_SENTINEL) := by
    rw [← firstColumn_names, List.map_map]
    exact h.filterMap _
  have hinj : ((rows.filter fun t => t.1 = owner).map Prod.snd).Nodup := by
    refine (hnd.filter _).map_on fun x hx y hy hxy => Prod.ext ?_ hxy
    have hx := of_decide_eq_true (List.mem_filter.mp hx).2
    have hy := of_decide_eq_true (List.mem_filter.mp hy).2
    exact hx.trans hy.symm
  refine ⟨hperm.nodup_iff.mpr (hinj.filter _), fun name hname => ?_⟩
  obtain ⟨hname, -⟩ := List.mem_filter.mp (hperm.mem_iff.mp hname)
  obtain ⟨t, ht, rfl⟩ := List.mem_map.mp hname
  obtain ⟨hrow, hown⟩ := List.mem_filter.mp ht
  rw [← of_decide_eq_true hown]
  exact hrow

/-- The incoming keys are all that the list adds to its entries. -/
theorem mem_populate {l : List Table} {t : Table}
    (ht : t ∈ Incoming.populateIncomingForeignKeys l) :
    ∃ u ∈ l, Incoming.cleared t = Incoming.cleared u := by
  rw [Incoming.populate_eq] at ht
  have hmem := List.mem_map_of_mem (f := Incoming.cleared) ht
  rw [Pg.populate_keeps l Incoming.cleared fun _ _ => rfl] at hmem
  obtain ⟨u, hu, he⟩ := List.mem_map.mp hmem
  exact ⟨u, hu, he.symm⟩

theorem names_populate (l : List Table) :
    (Incoming.populateIncomingForeignKeys l).map Table.name = l.map Table.name := by
  rw [Incoming.populate_eq, Pg.populate_keeps l Table.name fun _ _ => rfl]

theorem covers_schema (name : Text) : dict.covers schema_ .schema name = true := rfl

theorem covers_table (name : Text) : dict.covers schema_ (.table name) name = true := by
  simp [Dictionary.covers]

/-- Describing a table puts together what the answers about the whole schema hold of it. -/
theorem describe_listed [Std.Trichotomous lt] (h : Serves dict lt ask) (hname : t ≠ [])
    {colRes keyRes fkRes idxRes : List Row}
    (hcols : Answers (Prod.Lex lt (· < ·)) (dict.columnRows schema_ .schema) colRes)
    (hkeys : keyRes.Perm (dict.primaryKeyRows schema_ .schema))
    (hfks : Answers (Prod.Lex lt (Prod.Lex lt (· < ·))) (dict.foreignKeyRows schema_ .schema) fkRes)
    (hidx : Answers (Prod.Lex lt (Prod.Lex lt (· < ·))) (dict.indexRows schema_ .schema) idxRes) :
    describeTable ask connName schema_ t = .ok (entry connName schema_ (columnsBy colRes)
      (primaryKeysBy keyRes) (foreignKeysBy fkRes) (indexesBy idxRes) t) := by
  obtain ⟨colRes', hc, hca⟩ := h.columns schema_ (.table t)
  obtain ⟨keyRes', hk, hka⟩ := h.primaryKeys schema_ (.table t)
  obtain ⟨fkRes', hf, hfa⟩ := h.foreignKeys schema_ (.table t)
  obtain ⟨idxRes', hi, hia⟩ := h.indexes schema_ (.table t)
  have hscope : scopeOf t = .table t := by simp [scopeOf, hname]
  have hall : dict.covers schema_ .schema t = true := covers_schema t
  have hown : dict.covers schema_ (.table t) t = true := covers_table t
  have hkey (name : Text) : name ∈ primaryKeysBy keyRes' t ↔ name ∈ primaryKeysBy keyRes t :=
    primaryKeysBy_own hown hall hka hkeys
  have hcol : columnsBy colRes' t = columnsBy colRes t :=
    fill_own Dictionary.gathered_columns hown hall hca hcols
  have hfk : foreignKeysBy fkRes' t = foreignKeysBy fkRes t :=
    fill_own Dictionary.gathered_foreignKeys hown hall hfa hfks
  have hindex : indexesBy idxRes' t = indexesBy idxRes t :=
    congrArg (List.map Prod.snd) (fill_own Dictionary.gathered_indexes hown hall hia hidx)
  simp only [describeTable, hscope, rowsOf_gives hc, rowsOf_gives hk, rowsOf_gives hf,
    rowsOf_gives hi, bind, Except.bind, pure, Except.pure, entry, hcol, hfk, hindex, hkey]

/-- The tables listed are those of the schema, in an order of their names, and each is what
describing it by its name gives, whatever the session answers to either; only the incoming keys
are the list's own. -/
theorem tables_describe [Std.Trichotomous lt] (h : Serves dict lt ask) :
    ∃ ts res, tables ask connName schema_ = .ok ts ∧
      Answers lt (dict.tableNameRows schema_) res ∧ ts.map Table.name = firstColumn res ∧
      ∀ t ∈ ts, describeTable ask connName schema_ t.name =
        .ok { t with incomingForeignKeys := [] } := by
  obtain ⟨res, hn, hna⟩ := h.tableNames schema_
  obtain ⟨colRes, hc, hca⟩ := h.columns schema_ .schema
  obtain ⟨keyRes, hk, hka⟩ := h.primaryKeys schema_ .schema
  obtain ⟨fkRes, hf, hfa⟩ := h.foreignKeys schema_ .schema
  obtain ⟨idxRes, hi, hia⟩ := h.indexes schema_ .schema
  have hperm : res.Perm ((dict.tables.filter fun t => t.1 = schema_).map fun t => [t.2]) := by
    simpa [Dictionary.tableNameRows, Function.comp_def] using hna.perm
  obtain ⟨hnd, hmem⟩ := firstColumn_nodup dict.tables_nodup hperm
  by_cases hempty : firstColumn res = []
  · refine ⟨[], res, ?_, hna, by simp [hempty], by simp⟩
    simp [tables, rowsOf_gives hn, hempty, bind, Except.bind, pure, Except.pure]
  · refine ⟨Incoming.populateIncomingForeignKeys ((firstColumn res).map (entry connName schema_
      (columnsBy colRes) (primaryKeysBy keyRes) (foreignKeysBy fkRes) (indexesBy idxRes))),
      res, ?_, hna, ?_, fun t ht => ?_⟩
    · simp [tables, rowsOf_gives hn, rowsOf_gives hc, rowsOf_gives hk, rowsOf_gives hf,
        rowsOf_gives hi, hempty, takeTables_nodup _ _ _ _ hnd, bind, Except.bind, pure, Except.pure]
    · rw [names_populate, List.map_map]
      exact List.map_id _
    · obtain ⟨u, hu, htu⟩ := mem_populate ht
      obtain ⟨name, hname, rfl⟩ := List.mem_map.mp hu
      obtain rfl : t.name = name := congrArg Table.name htu
      change _ = Except.ok (Incoming.cleared t)
      rw [htu, describe_listed h (dict.tables_named _ (hmem _ hname)) hca hka hfa hia]
      rfl

theorem foldl_pushColumn_unflagged {columns : List Column} {rows : List Row}
    (h : ∀ c ∈ columns, c.isPrimaryKey = false) :
    ∀ c ∈ rows.foldl pushColumn columns, c.isPrimaryKey = false := by
  refine List.foldlRecOn (motive := fun columns => ∀ c ∈ columns, c.isPrimaryKey = false)
    rows pushColumn h fun columns hcolumns row _ => ?_
  unfold pushColumn
  split
  · intro c hc
    rcases List.mem_append.mp hc with hc | hc
    · exact hcolumns c hc
    · exact List.mem_singleton.mp hc ▸ rfl
  · exact hcolumns

theorem columnsBy_unflagged (rows : List Row) : ∀ c ∈ columnsBy rows t, c.isPrimaryKey = false := by
  rw [columnsBy, fill_at]
  exact foldl_pushColumn_unflagged (by simp)

/-- The views listed are those of the schema, and each has the columns that describing it
gives; a description also flags the columns of a key declared on the view. -/
theorem views_describe [Std.Trichotomous lt] (h : Serves dict lt ask) :
    ∃ vs res, views ask connName schema_ = .ok vs ∧
      Answers lt (dict.viewNameRows schema_) res ∧ vs.map Table.name = firstColumn res ∧
      ∀ v ∈ vs, ∃ d, describeTable ask connName schema_ v.name = .ok d ∧
        v.columns = d.columns.map fun c => { c with isPrimaryKey := false } := by
  obtain ⟨res, hn, hna⟩ := h.viewNames schema_
  obtain ⟨colRes, hc, hca⟩ := h.columns schema_ .views
  have hperm : res.Perm ((dict.views.filter fun v => v.1 = schema_).map fun v => [v.2]) := by
    simpa [Dictionary.viewNameRows, Function.comp_def] using hna.perm
  obtain ⟨hnd, hmem⟩ := firstColumn_nodup dict.views_nodup hperm
  by_cases hempty : firstColumn res = []
  · refine ⟨[], res, ?_, hna, by simp [hempty], by simp⟩
    simp [views, rowsOf_gives hn, hempty, bind, Except.bind, pure, Except.pure]
  · refine ⟨(firstColumn res).map (viewEntry connName schema_ (columnsBy colRes)), res, ?_, hna,
      ?_, fun v hv => ?_⟩
    · simp [views, rowsOf_gives hn, rowsOf_gives hc, takeViews_nodup _ hnd, hempty, bind,
        Except.bind, pure, Except.pure]
    · rw [List.map_map]
      exact List.map_id _
    · obtain ⟨vn, hvn, rfl⟩ := List.mem_map.mp hv
      have hlisted : (schema_, vn) ∈ dict.views := hmem vn hvn
      obtain ⟨colRes', hc', hca'⟩ := h.columns schema_ .schema
      obtain ⟨keyRes, -, hka⟩ := h.primaryKeys schema_ .schema
      obtain ⟨fkRes, -, hfa⟩ := h.foreignKeys schema_ .schema
      obtain ⟨idxRes, -, hia⟩ := h.indexes schema_ .schema
      refine ⟨_, describe_listed h (dict.views_named _ hlisted) hca' hka hfa hia, ?_⟩
      have hcols : columnsBy colRes vn = columnsBy colRes' vn :=
        fill_own Dictionary.gathered_columns (by simpa [Dictionary.covers] using hlisted)
          (covers_schema vn) hca hca'
      simp only [viewEntry, entry, hcols, List.map_map]
      conv_lhs => rw [← List.map_id (columnsBy colRes' vn)]
      refine List.map_congr_left fun c hc => ?_
      have hflag := columnsBy_unflagged colRes' c hc
      simp [← hflag]

end Spec

section Example

theorem orders_nodup : [(['S'], ['O'])].Nodup := List.nodup_singleton _

theorem orders_named : ∀ t ∈ [((['S'], ['O']) : Text × Text)], t.2 ≠ [] := by simp

theorem orders_columns : (([⟨['S'], ['O'], ['I'], 1, ['N'], true, [], none, none, false⟩,
    ⟨['S'], ['O'], ['C'], 2, ['N'], true, [], none, none, false⟩] : List TabColumn).map
      fun c => (c.owner, c.tableName, c.columnId)).Nodup := by decide

theorem orders_constraints : (([⟨['S'], ['P'], .primary, ['O'], none, none, some ['X']⟩,
    ⟨['S'], ['F'], .referential, ['O'], some ['S'], some ['P'], none⟩] : List Constraint).map
      fun c => (c.owner, c.constraintName)).Nodup := by decide

theorem orders_places : (([⟨['S'], ['P'], ['I'], some 1⟩, ⟨['S'], ['F'], ['C'], some 1⟩] :
    List ConsColumn).filter fun c => c.position.isSome).map ConsColumn.place |>.Nodup := by decide

/-- A table whose column `C` refers to its own key, which the index `X` serves. -/
def orders : Dictionary where
  tables := [(['S'], ['O'])]
  views := [(['S'], ['V'])]
  columns := [⟨['S'], ['O'], ['I'], 1, ['N'], true, [], none, none, false⟩,
    ⟨['S'], ['O'], ['C'], 2, ['N'], true, [], none, none, false⟩]
  constraints := [⟨['S'], ['P'], .primary, ['O'], none, none, some ['X']⟩,
    ⟨['S'], ['F'], .referential, ['O'], some ['S'], some ['P'], none⟩]
  consColumns := [⟨['S'], ['P'], ['I'], some 1⟩, ⟨['S'], ['F'], ['C'], some 1⟩]
  indexes := [⟨['S'], ['X'], ['O'], true⟩]
  indColumns := [⟨['S'], ['X'], ['I'], 1⟩]
  tables_nodup := orders_nodup
  tables_named := orders_named
  views_nodup := List.nodup_singleton _
  views_named := fun v hv => by
    obtain rfl := List.mem_singleton.mp hv
    exact List.cons_ne_nil _ _
  column_ids := orders_columns
  constraint_names := orders_constraints
  cons_places := orders_places
  index_names := List.nodup_singleton _
  ind_places := List.nodup_singleton _

theorem orders_described : ∃ ts res, tables orders.serve ['c'] ['S'] = .ok ts ∧
    Answers (· < ·) (orders.tableNameRows ['S']) res ∧ ts.map Table.name = firstColumn res ∧
    ∀ t ∈ ts, describeTable orders.serve ['c'] ['S'] t.name =
      .ok { t with incomingForeignKeys := [] } :=
  tables_describe orders.serves

theorem orders_views_described : ∃ vs res, views orders.serve ['c'] ['S'] = .ok vs ∧
    Answers (· < ·) (orders.viewNameRows ['S']) res ∧ vs.map Table.name = firstColumn res ∧
    ∀ v ∈ vs, ∃ d, describeTable orders.serve ['c'] ['S'] v.name = .ok d ∧
      v.columns = d.columns.map fun c => { c with isPrimaryKey := false } :=
  views_describe orders.serves

end Example

end DearSql.Oracle
