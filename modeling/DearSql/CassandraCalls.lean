import DearSql.CassandraCatalog
import DearSql.CassandraSession
import DearSql.MysqlCatalog

/-! The catalog and data calls of `CassandraDatabase` over a session any of whose requests
may fail, and what the calls of both backends report. -/
namespace DearSql.Cassandra
open Effects ServerCalls

/-- What the cluster answers; a statement that ends in `LIMIT n` has at most `n` rows. -/
structure Cluster where
  columns : Text → List SchemaRow
  tableNames : Text → List (Option Text)
  views : Text → List (Option Text × Option Text)
  columnNames : Text → List Text
  data : Text → List (List Text)
  count : Text → ℕ
  error : Text := []
  limited (cql : Text) (n : ℤ) :
    ((data (cql ++ " LIMIT ".toList ++ itoa n)).length : ℤ) ≤ max n 0

/-- A keyspace, and whether the session of its connection is open. -/
structure CassandraDatabase where
  name : Text
  session : Bool

namespace CassandraDatabase
variable (db : CassandraDatabase)

def escapeLiteral (s : Text) : Text := doubling '\'' s

def columnsCql (table : Text) : Text :=
  ("SELECT column_name, type, kind, position FROM system_schema.columns " ++
    "WHERE keyspace_name = '").toList ++ escapeLiteral db.name ++ "' AND table_name = '".toList ++
    escapeLiteral table ++ ['\'']

def tablesCql : Text :=
  "SELECT table_name FROM system_schema.tables WHERE keyspace_name = '".toList ++
    escapeLiteral db.name ++ ['\'']

def viewsCql : Text :=
  ("SELECT view_name, base_table_name FROM system_schema.views " ++
    "WHERE keyspace_name = '").toList ++ escapeLiteral db.name ++ ['\'']

def whereClause (clause : Text) : Text :=
  if clause = [] then [] else " WHERE ".toList ++ clause ++ " ALLOW FILTERING".toList

def target (table : Text) : Text := quoteIdent db.name ++ '.' :: quoteIdent table

def selectCql (table where_ orderBy : Text) : Text :=
  "SELECT * FROM ".toList ++ db.target table ++ whereClause where_ ++
    (if orderBy = [] then [] else " ORDER BY ".toList ++ orderBy)

/-- The limit of a page of `getTableData`. -/
def pageLimit (limit : ℤ) : ℤ := if 0 < limit then limit else 1000

def dataCql (table : Text) (limit : ℤ) (where_ orderBy : Text) : Text :=
  db.selectCql table where_ orderBy ++ " LIMIT ".toList ++ itoa (pageLimit limit)

def countCql (table where_ : Text) : Text :=
  "SELECT COUNT(*) FROM ".toList ++ db.target table ++ whereClause where_

variable (srv : Cluster)

/-- `none` where there is no session or the request fails. -/
def runCql {α : Type} (answer : α) : M (Option α) :=
  if db.session then call answer else refuse

def loadColumns (table : Text) : M (List Column) :=
  Cassandra.loadColumns <$> db.runCql (srv.columns (db.columnsCql table))

/-- `CassandraConnImpl::execute` without a keyspace, so without a `USE`. -/
def execute (rowLimit : ℤ) (answer : Outcome) : M StatementResult := do
  match ← db.runCql answer with
  | some o => return o.result rowLimit
  | none => return failure (if db.session then srv.error else "Not connected".toList)

def shell (table : Text) : Table :=
  { name := table, schema := db.name, fullName := db.name ++ '.' :: table }

def tableEntry (cell : Option Text) : M Table := do
  return { db.shell (getStringCol cell) with
    columns := ← db.loadColumns srv (getStringCol cell) }

/-- `tables` and `views`: the names, and a table for each. -/
def listed {α : Type} (answer : List α) (entry : α → M Table) :
    M (Except Text (List Table)) := do
  match ← db.runCql answer with
  | none => return .ok []
  | some names => return .ok (← names.mapM entry)

def tables : M (Except Text (List Table)) :=
  db.listed (srv.tableNames db.tablesCql) (db.tableEntry srv)

def viewEntry (row : Option Text × Option Text) : M Table := do
  return { db.shell (getStringCol row.1) with
    definition := "Materialized view of ".toList ++ getStringCol row.2
    columns := ← db.loadColumns srv (getStringCol row.1) }

def views : M (Except Text (List Table)) :=
  db.listed (srv.views db.viewsCql) (db.viewEntry srv)

def describeTable (table : Text) : M (Except Text Table) := do
  return .ok { db.shell table with columns := ← db.loadColumns srv table }

def getTableData (table : Text) (limit : ℤ) (where_ orderBy : Text) :
    M (Except Text (List (List Text))) := do
  let cql := db.dataCql table limit where_ orderBy
  return .ok (← db.execute srv limit (.rows (srv.columnNames cql) (srv.data cql))).tableData

def getRowCount (table where_ : Text) : M (Except Text ℤ) := do
  let answer := Outcome.rows ["count".toList] [[itoa (srv.count (db.countCql table where_))]]
  let r ← db.execute srv 1 answer
  match r.success, r.tableData with
  | true, (text :: _) :: _ => return .ok ((stoi text).getD 0)
  | _, _ => return .ok 0

/-- The catalog and data calls of a `CassandraDatabase`. -/
inductive Op
  | tables
  | views
  | describeTable (table : Text)
  | getTableData (table : Text) (limit : ℤ) (where_ orderBy : Text)
  | getRowCount (table where_ : Text)

namespace Op

def Answer : Op → Type
  | tables | views => List Table
  | describeTable _ => Table
  | getTableData .. => List (List Text)
  | getRowCount .. => ℤ

def run : (op : Op) → M (Except Text op.Answer)
  | tables => db.tables srv
  | views => db.views srv
  | describeTable table => db.describeTable srv table
  | getTableData table limit where_ orderBy => db.getTableData srv table limit where_ orderBy
  | getRowCount table where_ => db.getRowCount srv table where_

def columnsOf (table : Text) : List Column :=
  Cassandra.loadColumns (some (srv.columns (db.columnsCql table)))

/-- What the cluster would have it return. -/
def truth : (op : Op) → op.Answer
  | tables => (srv.tableNames db.tablesCql).map fun cell =>
    { db.shell (getStringCol cell) with columns := columnsOf db srv (getStringCol cell) }
  | views => (srv.views db.viewsCql).map fun row =>
    { db.shell (getStringCol row.1) with
      definition := "Materialized view of ".toList ++ getStringCol row.2
      columns := columnsOf db srv (getStringCol row.1) }
  | describeTable t => { db.shell t with columns := columnsOf db srv t }
  | getTableData t limit where_ orderBy => srv.data (db.dataCql t limit where_ orderBy)
  | getRowCount t where_ => (srv.count (db.countCql t where_) : ℤ)

/-- The requests of a run without failures. -/
def calls : Op → ℕ
  | tables => 1 + (srv.tableNames db.tablesCql).length * 1
  | views => 1 + (srv.views db.viewsCql).length * 1
  | describeTable _ | getTableData .. | getRowCount .. => 1

/-- A count that `int` holds. -/
def Fits : Op → Prop
  | getRowCount t where_ => srv.count (db.countCql t where_) < 2 ^ 31
  | _ => True

end Op

section Rules
variable {srv} {db} {α β : Type}

theorem stays_runCql (a : α) : Leads Stays (db.runCql a) := by
  unfold runCql
  cases db.session with
  | true => exact stays_call a
  | false => exact stays_refuse

theorem follows_runCql (h : db.session = true) (a : α) : Follows (db.runCql a) 1 (some a) := by
  rw [runCql, if_pos h]
  exact follows_call a

theorem stays_loadColumns (t : Text) : Leads Stays (db.loadColumns srv t) :=
  stays_map (stays_runCql _) _

theorem follows_loadColumns (h : db.session = true) (t : Text) :
    Follows (db.loadColumns srv t) 1 (Op.columnsOf db srv t) := (follows_runCql h _).map _

theorem stays_loadColumns_map (t : Text) (f : List Column → α) :
    Leads Stays (do return f (← db.loadColumns srv t) : M α) := stays_map (stays_loadColumns t) f

theorem follows_loadColumns_map (h : db.session = true) (t : Text) (f : List Column → α) :
    Follows (do return f (← db.loadColumns srv t)) 1 (f (Op.columnsOf db srv t)) :=
  (follows_loadColumns h t).map f

/-- Without a session the first request fails. -/
theorem runCql_failed (h : db.session = false) (a : α) (s : Network) :
    (after (db.runCql a) s).failed = true := by
  rw [runCql, if_neg (by simp [h])]
  rfl

theorem failed_bind {m : M α} {f : α → M β} (hm : ∀ s, (after m s).failed = true)
    (stays : ∀ a, Leads Stays (f a)) (s : Network) : (after (m >>= f) s).failed = true := by
  rw [after_bind]
  exact stays _ _ (hm s)

theorem result_rows {limit : ℤ} {cols : List Text} {rs : List (List Text)}
    (h : (rs.length : ℤ) ≤ pageLimit limit) :
    ((Outcome.rows cols rs).result limit).tableData = rs := by
  have hpage : rs.take (pagingSize limit) = rs := by
    apply List.take_of_length_le
    unfold pagingSize pageLimit at *
    split_ifs at * <;> omega
  simp only [Outcome.result, hpage]
  split_ifs with hl
  · rfl
  · apply List.take_of_length_le
    unfold pageLimit at h
    rw [if_pos (by omega)] at h
    omega

theorem data_length (t : Text) (limit : ℤ) (where_ orderBy : Text) :
    ((srv.data (db.dataCql t limit where_ orderBy)).length : ℤ) ≤ pageLimit limit := by
  have := srv.limited (db.selectCql t where_ orderBy) (pageLimit limit)
  have hpos : 0 ≤ pageLimit limit := by
    unfold pageLimit
    split_ifs <;> omega
  rwa [max_eq_left hpos] at this

theorem stoi_itoa_eq_iff (n : ℕ) : (stoi (itoa n)).getD 0 = (n : ℤ) ↔ n < 2 ^ 31 := by
  have hin : (-2 ^ 31 ≤ (n : ℤ) ∧ (n : ℤ) < 2 ^ 31) ↔ n < 2 ^ 31 := by omega
  rw [stoi, leadingInt_itoa, Option.filter_some]
  simp only [hin, decide_eq_true_eq]
  split_ifs with h
  · exact iff_of_true rfl h
  · refine iff_of_false (fun h0 => h ?_) h
    have : (0 : ℤ) = n := h0
    omega

theorem follows_execute (h : db.session = true) (limit : ℤ) (answer : Outcome) :
    Follows (db.execute srv limit answer) 1 (answer.result limit) := by
  refine Follows.bind (n := 1) (k := 0) (follows_runCql h _) (fun o => ?_) (follows_pure _)
  cases o with
  | none => exact stays_pure _
  | some _ => exact stays_pure _

theorem execute_failed (h : db.session = false) (limit : ℤ) (answer : Outcome) (s : Network) :
    (after (db.execute srv limit answer) s).failed = true := by
  refine failed_bind (runCql_failed h _) (fun o => ?_) s
  cases o with
  | none => exact stays_pure _
  | some _ => exact stays_pure _

theorem stays_listed_tail {entry : α → M Table} (stays : ∀ a, Leads Stays (entry a))
    (o : Option (List α)) : Leads Stays (match o with
      | none => return .ok []
      | some names => return .ok (← names.mapM entry) : M (Except Text (List Table))) := by
  cases o with
  | none => exact stays_pure _
  | some names => exact stays_map (stays_mapM stays) Except.ok

theorem follows_listed (h : db.session = true) {entry : α → M Table} {g : α → Table}
    (stays : ∀ a, Leads Stays (entry a)) (hentry : ∀ a, Follows (entry a) 1 (g a))
    (answer : List α) : Follows (db.listed answer entry) (1 + answer.length * 1)
      (.ok (answer.map g)) :=
  Follows.bind (follows_runCql h _) (stays_listed_tail stays)
    ((follows_mapM _ stays hentry).map Except.ok)

theorem listed_failed (h : db.session = false) {entry : α → M Table}
    (stays : ∀ a, Leads Stays (entry a)) (answer : List α) (s : Network) :
    (after (db.listed answer entry) s).failed = true :=
  failed_bind (runCql_failed h _) (stays_listed_tail stays) s

theorem listed_ok {entry : α → M Table} (answer : List α) (s : Network) :
    ∃ v, value (db.listed answer entry) s = .ok v := by
  unfold listed
  rw [value_bind]
  cases value (db.runCql answer) s with
  | none => exact ⟨[], rfl⟩
  | some names => exact ⟨_, rfl⟩

theorem stays_tableEntry (cell : Option Text) : Leads Stays (db.tableEntry srv cell) :=
  stays_loadColumns_map _ _

theorem stays_viewEntry (row : Option Text × Option Text) :
    Leads Stays (db.viewEntry srv row) := stays_loadColumns_map _ _

/-- What a run without failures returns: a count goes through `std::stoi`. -/
def Op.shown : (op : Op) → op.Answer
  | .getRowCount t where_ => (stoi (itoa (srv.count (db.countCql t where_)))).getD 0
  | op => op.truth db srv

theorem follows_getRowCount (h : db.session = true) (t where_ : Text) :
    Follows (db.getRowCount srv t where_) 1
      (.ok (@Op.shown db srv (.getRowCount t where_))) := by
  refine Follows.bind (n := 1) (k := 0) (follows_execute h _ _) (fun r => ?_) (follows_pure _)
  split <;> exact stays_pure _

theorem follows_getTableData (h : db.session = true) (t : Text) (limit : ℤ)
    (where_ orderBy : Text) :
    Follows (db.getTableData srv t limit where_ orderBy) 1
      (.ok (srv.data (db.dataCql t limit where_ orderBy))) := by
  let answer : Outcome := .rows (srv.columnNames (db.dataCql t limit where_ orderBy))
    (srv.data (db.dataCql t limit where_ orderBy))
  have sent : Follows (db.execute srv limit answer) 1 (answer.result limit) :=
    follows_execute h limit answer
  have run := sent.map fun r => Except.ok (ε := Text) r.tableData
  rwa [result_rows (data_length t limit where_ orderBy)] at run

theorem follows_run (h : db.session = true) (op : Op) :
    Follows (op.run db srv) (op.calls db srv) (.ok (@Op.shown db srv op)) := by
  cases op with
  | tables =>
    exact follows_listed h stays_tableEntry (fun _ => follows_loadColumns_map h _ _) _
  | views =>
    exact follows_listed h stays_viewEntry (fun _ => follows_loadColumns_map h _ _) _
  | describeTable t => exact follows_loadColumns_map h t _
  | getTableData t limit where_ orderBy => exact follows_getTableData h t limit where_ orderBy
  | getRowCount t where_ => exact follows_getRowCount h t where_

theorem run_failed (h : db.session = false) (op : Op) (s : Network) :
    (after (op.run db srv) s).failed = true := by
  cases op with
  | tables => exact listed_failed h stays_tableEntry _ s
  | views => exact listed_failed h stays_viewEntry _ s
  | describeTable t => exact runCql_failed h _ s
  | getTableData t limit where_ orderBy => exact execute_failed h _ _ s
  | getRowCount t where_ =>
    refine failed_bind (execute_failed h _ _) (fun r => ?_) s
    split <;> exact stays_pure _

theorem run_ok (op : Op) (s : Network) : ∃ v, value (op.run db srv) s = .ok v := by
  cases op with
  | tables | views => exact listed_ok _ s
  | describeTable _ => exact ⟨_, rfl⟩
  | getTableData _ _ _ _ => exact ⟨_, rfl⟩
  | getRowCount t where_ =>
    change ∃ v, value (db.getRowCount srv t where_) s = .ok v
    unfold getRowCount
    rw [value_bind]
    split
    · exact ⟨_, rfl⟩
    · exact ⟨_, rfl⟩

theorem reports_run_iff (op : Op) (pending : List Bool) :
    Reports (op.run db srv) (op.truth db srv) pending ↔
      db.session = true ∧ Through (op.calls db srv) pending ∧ op.Fits db srv := by
  cases h : db.session with
  | false =>
    simp only [Bool.false_eq_true, false_and, iff_false]
    rintro ⟨hfail, -⟩
    obtain ⟨e, he⟩ := hfail (run_failed h op _)
    obtain ⟨v, hv⟩ : ∃ v, value (op.run db srv) ⟨pending, false⟩ = .ok v := run_ok op _
    rw [he] at hv
    cases hv
  | true =>
    rw [reports_iff (follows_run h op) (run_ok op), eq_self_iff_true, true_and]
    refine and_congr_right fun _ => ?_
    cases op with
    | getRowCount t where_ => exact stoi_itoa_eq_iff _
    | tables | views => exact iff_of_true rfl trivial
    | describeTable _ => exact iff_of_true rfl trivial
    | getTableData _ _ _ _ => exact iff_of_true rfl trivial

end Rules

end CassandraDatabase
end DearSql.Cassandra

namespace DearSql.CatalogCalls
open Effects ServerCalls

/-- A catalog or data call reports every failure and otherwise returns the truth exactly when
there is no failure to report (and a count fits `int`): it never throws. -/
theorem reports_iff_no_failure (my : Mysql.MySQLDatabase) (mysrv : Mysql.Server)
    (myop : Mysql.MySQLDatabase.Op) (cas : Cassandra.CassandraDatabase)
    (cassrv : Cassandra.Cluster) (casop : Cassandra.CassandraDatabase.Op)
    (pending : List Bool) :
    (Reports (myop.run my mysrv) (myop.truth my mysrv) pending ↔
        Through (myop.calls my mysrv) pending ∧ myop.Fits mysrv) ∧
      (Reports (casop.run cas cassrv) (casop.truth cas cassrv) pending ↔
        cas.session = true ∧ Through (casop.calls cas cassrv) pending ∧
          casop.Fits cas cassrv) :=
  ⟨Mysql.MySQLDatabase.reports_run_iff myop pending,
    Cassandra.CassandraDatabase.reports_run_iff casop pending⟩

/-- One table `t`, and the query for it fails: the list comes back empty. -/
theorem tables_swallowed :
    let db : Mysql.MySQLDatabase := ⟨['m'], ['d'], true⟩
    let srv : Mysql.Server := ⟨fun _ => [[some ['t']]], fun _ => [], fun _ => 0, ['e']⟩
    value (db.tables srv) ⟨[false], false⟩ = .ok [] ∧
      (after (db.tables srv) ⟨[false], false⟩).failed = true ∧
      ¬Reports (db.tables srv) (Mysql.MySQLDatabase.Op.truth db srv .tables) [false] := by
  refine ⟨rfl, rfl, ?_⟩
  rintro ⟨hfail, -⟩
  obtain ⟨e, he⟩ := hfail rfl
  cases he

end DearSql.CatalogCalls
