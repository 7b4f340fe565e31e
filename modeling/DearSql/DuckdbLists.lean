import DearSql.Separated
import DearSql.Quoting
import DearSql.IncomingKeys

/-! What the DuckDB handle reads of a table from the rows of its catalog queries. Lists of names
come as one text, as in `[a, b]`. -/
namespace DearSql.Duckdb
open Separated Joins

abbrev Row := List Text

def truthy (v : Text) : Bool := v = "true".toList || v = ['1']

def parseList (v : Text) : List Text :=
  (((unwrap '[' ']' v).splitOn ',').map (trimEnds (· = ' '))).filter (· ≠ [])

def columnOf : Row → Option Column
  | _ :: name :: type :: notNull :: default :: key :: _ =>
    some { name := name, type := type, isNotNull := truthy notNull
           defaultValue := if default = NULL_SENTINEL then [] else default
           isPrimaryKey := truthy key }
  | _ => none

def indexOf : Row → Option Index
  | name :: unique :: primary :: expressions :: _ =>
    some { name := name, isUnique := truthy unique, isPrimary := truthy primary
           columns := (parseList expressions).map (unwrap '"' '"'), type := "ART".toList }
  | _ => none

def foreignKey (tableName target : Text) (k : Text × Text) : ForeignKey :=
  { name := "fk_".toList ++ tableName ++ '_' :: k.1, sourceColumn := k.1
    targetTable := target, targetColumn := k.2 }

def foreignKeysOf (tableName : Text) : Row → List ForeignKey
  | src :: target :: dst :: _ =>
    ((parseList src).zip (parseList dst)).map (foreignKey tableName target)
  | _ => []

/-- The catalog queries of the handle. -/
inductive CatalogQuery
  | tableInfo (table : Text)
  | indexes (table : Text)
  | constraints (table : Text)
  | tables
  deriving DecidableEq, Repr

section Load

variable (rows : CatalogQuery → Except Text (List Row))

def load (tableName : Text) (isView : Bool) : Except Text Table := do
  let columnRows ← rows (.tableInfo tableName)
  let t : Table := { name := tableName, fullName := tableName
                     columns := columnRows.filterMap columnOf }
  if isView then return t
  let indexRows ← rows (.indexes tableName)
  let constraintRows ← rows (.constraints tableName)
  return { t with indexes := indexRows.filterMap indexOf
                  foreignKeys := constraintRows.flatMap (foreignKeysOf tableName) }

def tables : Except Text (List Table) := do
  let names ← rows .tables
  let result ← names.mapM fun row => load rows (row.headD []) false
  return Incoming.populateIncomingForeignKeys result

end Load

section Lists

variable {n v : Text} {names : List Text}

/-- The text of a list of texts. -/
def listText (names : List Text) : Text := '[' :: [',', ' '].intercalate names ++ [']']

/-- A name that a list shows as it is. -/
def Clean (n : Text) : Prop := n ≠ [] ∧ ',' ∉ n ∧ trimEnds (· = ' ') n = n

instance (n : Text) : Decidable (Clean n) := inferInstanceAs (Decidable (_ ∧ _ ∧ _))

theorem parseList_clean : ∀ n ∈ parseList v, Clean n := by
  intro n hn
  rw [parseList, List.mem_filter, List.mem_map] at hn
  obtain ⟨⟨seg, hseg, rfl⟩, hne⟩ := hn
  exact ⟨by simpa using hne, fun hc => not_mem_of_splitOn hseg (trimEnds_sublist.subset hc),
    trimEnds_trimEnds⟩

/-- What is read of a list whose parts hold no comma: each part trimmed, but no empty ones. -/
theorem parseList_listText (h : ∀ n ∈ names, ',' ∉ n) :
    parseList (listText names) = (names.map (trimEnds (· = ' '))).filter (· ≠ []) := by
  rw [parseList, listText, unwrap_wrap]
  cases names with
  | nil => decide
  | cons n names =>
    rw [intercalate_behind, List.splitOn_intercalate]
    · have htrim : ∀ m : Text, trimEnds (· = ' ') (' ' :: m) = trimEnds (· = ' ') m :=
        fun m => trimEnds_cons rfl
      simp only [List.map_cons, List.map_map, Function.comp_def, htrim]
    · intro seg hseg
      rcases List.mem_cons.mp hseg with rfl | hseg
      · exact h seg List.mem_cons_self
      · obtain ⟨m, hm, rfl⟩ := List.mem_map.mp hseg
        have := h m (List.mem_cons_of_mem n hm)
        simp [this]
    · exact List.cons_ne_nil _ _

/-- A list of names is read back just if each of them is a clean one. -/
theorem parseList_listText_iff : parseList (listText names) = names ↔ ∀ n ∈ names, Clean n := by
  constructor
  · intro h n hn
    exact parseList_clean n (h ▸ hn)
  · intro h
    rw [parseList_listText fun n hn => (h n hn).2.1]
    have hsame : names.map (trimEnds (· = ' ')) = names :=
      List.map_congr_left (fun n hn => (h n hn).2.2) |>.trans (List.map_id names)
    rw [hsame]
    exact List.filter_eq_self.mpr fun n hn => by simpa using (h n hn).1

end Lists

section Catalog

structure CatColumn where
  cid : Text
  name : Text
  type : Text
  notNull : Bool
  default : Option Text
  key : Bool

structure CatIndex where
  name : Text
  unique : Bool
  primary : Bool
  columns : List Text

/-- A foreign key, its columns beside those it refers to. -/
structure CatConstraint where
  columns : List Text
  target : Text
  referenced : List Text
  paired : columns.length = referenced.length

/-- A table of the server. -/
structure CatTable where
  name : Text
  columns : List CatColumn
  indexes : List CatIndex
  constraints : List CatConstraint
  defaults : ∀ c ∈ columns, c.default ≠ some NULL_SENTINEL

def boolText (b : Bool) : Text := if b then "true".toList else "false".toList

/-- A column as the expression of an index; the server decides which names it puts in quotes. -/
def shown (quoted : Text → Bool) (n : Text) : Text :=
  if quoted n then '"' :: doubling '"' n ++ ['"'] else n

def CatColumn.row (c : CatColumn) : Row :=
  [c.cid, c.name, c.type, boolText c.notNull, c.default.getD NULL_SENTINEL, boolText c.key]

def CatIndex.row (quoted : Text → Bool) (i : CatIndex) : Row :=
  [i.name, boolText i.unique, boolText i.primary, listText (i.columns.map (shown quoted))]

def CatConstraint.row (c : CatConstraint) : Row :=
  [listText c.columns, c.target, listText c.referenced]

/-- The session answers the three queries about a table. -/
structure Serves (quoted : Text → Bool) (rows : CatalogQuery → Except Text (List Row))
    (t : CatTable) : Prop where
  tableInfo : rows (.tableInfo t.name) = .ok (t.columns.map CatColumn.row)
  indexes : rows (.indexes t.name) = .ok (t.indexes.map (CatIndex.row quoted))
  constraints : rows (.constraints t.name) = .ok (t.constraints.map CatConstraint.row)

def CatColumn.column (c : CatColumn) : Column :=
  { name := c.name, type := c.type, isNotNull := c.notNull, defaultValue := c.default.getD []
    isPrimaryKey := c.key }

def CatIndex.index (i : CatIndex) : Index :=
  { name := i.name, isUnique := i.unique, isPrimary := i.primary, columns := i.columns
    type := "ART".toList }

def CatTable.table (t : CatTable) : Table :=
  { name := t.name, fullName := t.name, columns := t.columns.map CatColumn.column
    indexes := t.indexes.map CatIndex.index
    foreignKeys := t.constraints.flatMap fun c =>
      (c.columns.zip c.referenced).map (foreignKey t.name c.target) }

/-- A column that the expressions of an index show so that it is read back. -/
def Readable (quoted : Text → Bool) (n : Text) : Prop :=
  if quoted n then ',' ∉ n ∧ '"' ∉ n else Clean n ∧ unwrap '"' '"' n = n

variable {quoted : Text → Bool} {rows : CatalogQuery → Except Text (List Row)} {t : CatTable}

@[simp] theorem truthy_boolText (b : Bool) : truthy (boolText b) = b := by
  cases b <;> decide

theorem columns_read (t : CatTable) :
    (t.columns.map CatColumn.row).filterMap columnOf = t.columns.map CatColumn.column := by
  rw [List.filterMap_map, ← List.filterMap_eq_map]
  refine List.filterMap_congr fun c hc => ?_
  have hdefault := t.defaults c hc
  cases hd : c.default with
  | none => simp [columnOf, CatColumn.row, CatColumn.column, hd]
  | some d =>
    have : d ≠ NULL_SENTINEL := fun he => hdefault (by rw [hd, he])
    simp [columnOf, CatColumn.row, CatColumn.column, hd, this]

theorem foreignKeys_read_iff : (t.constraints.map CatConstraint.row).flatMap
      (foreignKeysOf t.name) = t.table.foreignKeys ↔
    ∀ c ∈ t.constraints, ∀ n ∈ c.columns ++ c.referenced, Clean n := by
  rw [List.flatMap_map, CatTable.table]
  constructor
  · intro h
    -- whatever is read is clean
    have hclean : ∀ fk ∈ t.table.foreignKeys, Clean fk.sourceColumn ∧ Clean fk.targetColumn := by
      intro fk hfk
      rw [CatTable.table, ← h, List.mem_flatMap] at hfk
      obtain ⟨c, -, hfk⟩ := hfk
      obtain ⟨k, hk, rfl⟩ := List.mem_map.mp hfk
      exact ⟨parseList_clean _ (List.of_mem_zip hk).1, parseList_clean _ (List.of_mem_zip hk).2⟩
    intro c hc n hn
    have hkey : ∀ k ∈ c.columns.zip c.referenced, Clean k.1 ∧ Clean k.2 := fun k hk =>
      hclean (foreignKey t.name c.target k)
        (List.mem_flatMap.mpr ⟨c, hc, List.mem_map_of_mem hk⟩)
    rcases List.mem_append.mp hn with hn | hn
    · rw [← List.map_fst_zip c.paired.le] at hn
      obtain ⟨k, hk, rfl⟩ := List.mem_map.mp hn
      exact (hkey k hk).1
    · rw [← List.map_snd_zip c.paired.ge] at hn
      obtain ⟨k, hk, rfl⟩ := List.mem_map.mp hn
      exact (hkey k hk).2
  · intro h
    refine List.flatMap_congr fun c hc => ?_
    obtain ⟨hsrc, hdst⟩ := List.forall_mem_append.mp (h c hc)
    simp only [foreignKeysOf, CatConstraint.row, parseList_listText_iff.mpr hsrc,
      parseList_listText_iff.mpr hdst]

theorem mem_doubling {q c : Char} {s : Text} : c ∈ doubling q s ↔ c ∈ s := by
  induction s with
  | nil => rfl
  | cons d s ih =>
    rw [doubling]
    split_ifs with hd
    · simp [ih, hd]
    · simp [ih]

theorem doubling_eq_self {q : Char} {s : Text} : doubling q s = s ↔ q ∉ s := by
  have hcount : (doubling q s).count q = 2 * s.count q := by
    induction s with
    | nil => rfl
    | cons d s ih =>
      rw [doubling]
      split_ifs with hd
      · simp [ih, hd]
        omega
      · simp [ih, hd]
  constructor
  · intro h
    rw [h] at hcount
    exact List.count_eq_zero.mp (by omega)
  · exact doubling_of_not_mem

theorem shown_quoted {n : Text} (hq : quoted n = true) :
    shown quoted n = '"' :: doubling '"' n ++ ['"'] := if_pos hq

theorem shown_plain {n : Text} (hq : ¬quoted n = true) : shown quoted n = n := if_neg hq

theorem comma_shown {n : Text} : ',' ∈ shown quoted n ↔ ',' ∈ n := by
  by_cases hq : quoted n = true
  · simp [shown_quoted hq, mem_doubling]
  · rw [shown_plain hq]

theorem trimEnds_quoted {n : Text} (hq : quoted n = true) :
    trimEnds (· = ' ') (shown quoted n) = shown quoted n := by
  rw [trimEnds_eq_self, shown_quoted hq, List.getLast?_append]
  simp

/-- A name is read back from what an index shows of it. -/
theorem shown_read_iff {n : Text} (hn : ',' ∉ n) :
    trimEnds (· = ' ') (shown quoted n) ≠ [] ∧
      unwrap '"' '"' (trimEnds (· = ' ') (shown quoted n)) = n ↔ Readable quoted n := by
  by_cases hq : quoted n = true
  · rw [trimEnds_quoted hq, shown_quoted hq, unwrap_wrap, doubling_eq_self, Readable, if_pos hq]
    simp [hn]
  · rw [shown_plain hq, Readable, if_neg hq]
    constructor
    · rintro ⟨hne, hread⟩
      have hback := unwrap_sublist (a := '"') (b := '"') (l := trimEnds (· = ' ') n)
      rw [hread] at hback
      have htrim : trimEnds (· = ' ') n = n := trimEnds_sublist.antisymm hback
      rw [htrim] at hne hread
      exact ⟨⟨hne, hn, htrim⟩, hread⟩
    · rintro ⟨⟨hne, -, htrim⟩, hread⟩
      rw [htrim]
      exact ⟨hne, hread⟩

theorem Readable.comma {n : Text} (h : Readable quoted n) : ',' ∉ n := by
  unfold Readable at h
  split at h
  · exact h.1
  · exact h.1.2.1

theorem indexColumns_read_iff {names : List Text} :
    (parseList (listText (names.map (shown quoted)))).map (unwrap '"' '"') = names ↔
      ∀ n ∈ names, Readable quoted n := by
  have hlist (hcomma : ∀ n ∈ names, ',' ∉ n) : parseList (listText (names.map (shown quoted))) =
      (names.map fun n => trimEnds (· = ' ') (shown quoted n)).filter (· ≠ []) := by
    rw [parseList_listText, List.map_map]
    · rfl
    · intro m hm
      obtain ⟨n, hn, rfl⟩ := List.mem_map.mp hm
      exact comma_shown.not.mpr (hcomma n hn)
  constructor
  · intro h
    have hcomma : ∀ n ∈ names, ',' ∉ n := by
      intro n hn hc
      rw [← h] at hn
      obtain ⟨m, hm, rfl⟩ := List.mem_map.mp hn
      exact (parseList_clean m hm).2.1 (unwrap_sublist.subset hc)
    rw [hlist hcomma] at h
    -- as many are read as there are, so none of them is empty
    have hlength : ((names.map fun n => trimEnds (· = ' ') (shown quoted n)).filter
        (· ≠ [])).length = (names.map fun n => trimEnds (· = ' ') (shown quoted n)).length := by
      have hmap := congrArg List.length h
      rw [List.length_map] at hmap
      exact hmap.trans (List.length_map _).symm
    rw [List.length_filter_eq_length_iff] at hlength
    rw [List.filter_eq_self.mpr hlength, List.map_map] at h
    intro n hn
    refine (shown_read_iff (hcomma n hn)).mp ⟨?_, ?_⟩
    · simpa using hlength _ (List.mem_map_of_mem hn)
    · exact List.map_inj_left.mp (h.trans (List.map_id names).symm) n hn
  · intro h
    have hread : ∀ n ∈ names, _ := fun n hn => (shown_read_iff (h n hn).comma).mpr (h n hn)
    rw [hlist fun n hn => (h n hn).comma, List.filter_eq_self.mpr, List.map_map]
    · exact (List.map_congr_left fun n hn => (hread n hn).2).trans (List.map_id names)
    · intro m hm
      obtain ⟨n, hn, rfl⟩ := List.mem_map.mp hm
      simpa using (hread n hn).1

theorem indexes_read_iff : (t.indexes.map (CatIndex.row quoted)).filterMap indexOf =
    t.table.indexes ↔ ∀ i ∈ t.indexes, ∀ n ∈ i.columns, Readable quoted n := by
  have hrow : (t.indexes.map (CatIndex.row quoted)).filterMap indexOf = t.indexes.map fun i =>
      { i.index with
        columns := (parseList (listText (i.columns.map (shown quoted)))).map (unwrap '"' '"') } := by
    rw [List.filterMap_map, ← List.filterMap_eq_map]
    refine List.filterMap_congr fun i _ => ?_
    simp [indexOf, CatIndex.row, CatIndex.index]
  rw [hrow, CatTable.table, List.map_inj_left]
  refine forall₂_congr fun i _ => ?_
  rw [← indexColumns_read_iff]
  simp [CatIndex.index]

/-- The columns of the keys of a table and of its indexes can be read back. -/
def CatTable.Clean (quoted : Text → Bool) (t : CatTable) : Prop :=
  (∀ c ∈ t.constraints, ∀ n ∈ c.columns ++ c.referenced, Duckdb.Clean n) ∧
    ∀ i ∈ t.indexes, ∀ n ∈ i.columns, Readable quoted n

/-- What is read of a table. -/
def CatTable.loaded (quoted : Text → Bool) (t : CatTable) : Table :=
  { t.table with
    indexes := (t.indexes.map (CatIndex.row quoted)).filterMap indexOf
    foreignKeys := (t.constraints.map CatConstraint.row).flatMap (foreignKeysOf t.name) }

theorem load_loaded (h : Serves quoted rows t) :
    load rows t.name false = .ok (t.loaded quoted) := by
  simp only [load, h.tableInfo, h.indexes, h.constraints, columns_read, bind, Except.bind, pure,
    Except.pure, Bool.false_eq_true, if_false]
  rfl

theorem loaded_iff : t.loaded quoted = t.table ↔ t.Clean quoted := by
  rw [CatTable.Clean, ← foreignKeys_read_iff, ← indexes_read_iff]
  constructor
  · intro hsame
    exact ⟨congrArg Table.foreignKeys hsame, congrArg Table.indexes hsame⟩
  · rintro ⟨hfks, hindexes⟩
    rw [CatTable.loaded, hfks, hindexes]

variable {ts : List CatTable}

theorem mapM_load (h : ∀ t ∈ ts, Serves quoted rows t) :
    (ts.map fun t => [t.name]).mapM (fun row => load rows (row.headD []) false) =
      .ok (ts.map (CatTable.loaded quoted)) := by
  induction ts with
  | nil => rfl
  | cons t ts ih =>
    obtain ⟨ht, hts⟩ := List.forall_mem_cons.mp h
    rw [List.map_cons, List.mapM_cons, ih hts]
    change (load rows t.name false).bind _ = _
    rw [load_loaded ht]
    rfl

/-- The tables are read as the server has them just if the columns of their keys and indexes have
names that the lists of names show as they are. -/
theorem tables_iff (hnames : rows .tables = .ok (ts.map fun t => [t.name]))
    (h : ∀ t ∈ ts, Serves quoted rows t) :
    tables rows = .ok (Incoming.populateIncomingForeignKeys (ts.map CatTable.table)) ↔
      ∀ t ∈ ts, t.Clean quoted := by
  have hload : tables rows = .ok (Incoming.populateIncomingForeignKeys
      (ts.map (CatTable.loaded quoted))) := by
    simp only [tables, hnames, mapM_load h, bind, Except.bind, pure, Except.pure]
  have hcleared : ∀ l : List Table, (Incoming.populateIncomingForeignKeys l).map Incoming.cleared =
      l.map Incoming.cleared := by
    intro l
    rw [Incoming.populate_eq, Pg.populate_keeps l Incoming.cleared fun _ _ => rfl]
  rw [hload, Except.ok.injEq]
  constructor
  · intro hsame t ht
    have hfields := congrArg (List.map Incoming.cleared) hsame
    rw [hcleared, hcleared, List.map_map, List.map_map] at hfields
    exact loaded_iff.mp (List.map_inj_left.mp hfields t ht)
  · intro hclean
    rw [List.map_congr_left fun t ht => loaded_iff.mpr (hclean t ht)]

/-- A session over some tables. -/
def serve (quoted : Text → Bool) (ts : List CatTable) : CatalogQuery → Except Text (List Row)
  | .tables => .ok (ts.map fun t => [t.name])
  | .tableInfo n => .ok ((having ts CatTable.name n).flatMap fun t => t.columns.map CatColumn.row)
  | .indexes n =>
    .ok ((having ts CatTable.name n).flatMap fun t => t.indexes.map (CatIndex.row quoted))
  | .constraints n =>
    .ok ((having ts CatTable.name n).flatMap fun t => t.constraints.map CatConstraint.row)

theorem serve_serves (hnames : (ts.map CatTable.name).Nodup) (ht : t ∈ ts) :
    Serves quoted (serve quoted ts) t := by
  have hone : having ts CatTable.name t.name = [t] := having_eq hnames ht rfl
  constructor
  · simp [serve, hone]
  · simp [serve, hone]
  · simp [serve, hone]

/-- A table whose key and index have two columns. -/
def places : CatTable where
  name := ['p']
  columns := [⟨['0'], ['a'], "INTEGER".toList, true, none, true⟩,
    ⟨['1'], ['b'], "INTEGER".toList, false, some ['1'], false⟩]
  indexes := [⟨['i'], true, false, [['a'], ['b']]⟩]
  constraints := [⟨[['a'], ['b']], ['q'], [['x'], ['y']], rfl⟩]
  defaults := by decide

theorem tables_iff_places :
    tables (serve (fun _ => false) [places]) =
        .ok (Incoming.populateIncomingForeignKeys ([places].map CatTable.table)) ↔
      ∀ t ∈ [places], t.Clean fun _ => false :=
  tables_iff rfl fun _ ht => serve_serves (List.nodup_singleton _) ht

end Catalog

end DearSql.Duckdb
