import DearSql.FetchFailures
import DearSql.PageQueries

/-! `getRowCount` of the backends on an answer of `SELECT COUNT(*)`: the count is read as an `int`. -/
namespace DearSql
open Cassandra (CassandraDatabase Cluster)
open Effects ServerCalls
open Mysql (MySQLDatabase Server toInt)

def Builder.countRows (b : Builder) (table : Table) (whereClause : Text) : Text :=
  "SELECT COUNT(*) FROM ".toList ++ b.qualifiedName table ++ whereText whereClause

/-- What `getRowCount` of `IDatabase` goes by: the backend and its `execute`. -/
structure IDatabase where
  type : DatabaseType
  execute : Text → ℤ → QueryResult

namespace IDatabase
variable (db : IDatabase)

def countQuery (table : Table) (whereClause : Text) : Text :=
  (createSQLBuilder db.type).countRows table whereClause

/-- A cell that `std::stoi` throws on counts as 0, and so does no cell. -/
def getRowCount (table : Table) (whereClause : Text) : Except Text ℤ := do
  let r ← firstOrThrow (db.execute (db.countQuery table whereClause) 1)
  match r.tableData with
  | (text :: _) :: _ => return (stoi text).getD 0
  | _ => return 0

end IDatabase

section Counts

/-- A successful answer of one cell, the number `n`. -/
def Counts (n : ℕ) (r : QueryResult) : Prop :=
  r.success = true ∧ ∃ s rest, r.statements = s :: rest ∧ s.tableData = [[itoa n]]

/-- The count itself, or an error. -/
def RightOrThrown (n : ℕ) : Except Text ℤ → Prop
  | .ok k => k = n
  | .error _ => True

variable {n : ℕ}

theorem getRowCount_shared {db : IDatabase} {table : Table} {whereClause : Text}
    (h : Counts n (db.execute (db.countQuery table whereClause) 1)) :
    db.getRowCount table whereClause = .ok ((stoi (itoa n)).getD 0) := by
  obtain ⟨hsuccess, s, rest, hstatements, hdata⟩ := h
  have hfirst : firstOrThrow (db.execute (db.countQuery table whereClause) 1) = .ok s := by
    rw [firstOrThrow, hsuccess, hstatements]
    rfl
  rw [IDatabase.getRowCount, hfirst]
  change (match s.tableData with
    | (text :: _) :: _ => Except.ok ((stoi text).getD 0)
    | _ => .ok 0) = _
  rw [hdata]

theorem value_mysql {db : MySQLDatabase} {srv : Server} {table whereClause : Text} {w : Network}
    (hcount : srv.count (MySQLDatabase.countQuery table whereClause) = n)
    (hw : Through ((if db.connected then 0 else 1) + 2) w.pending) :
    value (db.getRowCount srv table whereClause) w = .ok (toInt n) := by
  have hfollows := @MySQLDatabase.follows_getRowCount db srv table whereClause
  rw [hcount] at hfollows
  exact (hfollows.done w hw).1

theorem value_cassandra {db : CassandraDatabase} {srv : Cluster} {table whereClause : Text}
    {w : Network} (hsession : db.session = true)
    (hcount : srv.count (db.countCql table whereClause) = n) (hw : Through 1 w.pending) :
    value (db.getRowCount srv table whereClause) w = .ok ((stoi (itoa n)).getD 0) := by
  have hfollows : Follows (db.getRowCount srv table whereClause) 1
      (.ok ((stoi (itoa (srv.count (db.countCql table whereClause)))).getD 0)) :=
    CassandraDatabase.follows_getRowCount hsession table whereClause
  rw [hcount] at hfollows
  exact (hfollows.done w hw).1

/-- No call throws on a count: each of them returns it exactly when `int` holds it. -/
theorem rowCount_right_iff (n : ℕ) :
    (∀ (db : IDatabase) (table : Table) (whereClause : Text),
      Counts n (db.execute (db.countQuery table whereClause) 1) →
      (RightOrThrown n (db.getRowCount table whereClause) ↔ n < 2 ^ 31)) ∧
    (∀ (db : MySQLDatabase) (srv : Server) (table whereClause : Text) (w : Network),
      srv.count (MySQLDatabase.countQuery table whereClause) = n →
      Through ((if db.connected then 0 else 1) + 2) w.pending →
      (RightOrThrown n (value (db.getRowCount srv table whereClause) w) ↔ n < 2 ^ 31)) ∧
    ∀ (db : CassandraDatabase) (srv : Cluster) (table whereClause : Text) (w : Network),
      db.session = true → srv.count (db.countCql table whereClause) = n → Through 1 w.pending →
      (RightOrThrown n (value (db.getRowCount srv table whereClause) w) ↔ n < 2 ^ 31) := by
  refine ⟨fun db table whereClause h => ?_, fun db srv table whereClause w hcount hw => ?_,
    fun db srv table whereClause w hsession hcount hw => ?_⟩
  · rw [getRowCount_shared h]
    exact CassandraDatabase.stoi_itoa_eq_iff n
  · rw [value_mysql hcount hw]
    exact MySQLDatabase.toInt_eq_iff n
  · rw [value_cassandra hsession hcount hw]
    exact CassandraDatabase.stoi_itoa_eq_iff n

/-- A backend that answers every query with the count `n`. -/
def countingDatabase (n : ℕ) : IDatabase where
  type := .POSTGRESQL
  execute _ _ := { statements := [{ tableData := [[itoa n]] }] }

def countingServer (n : ℕ) : Server := ⟨fun _ => [], fun _ => [], fun _ => n, []⟩

def countingCluster (n : ℕ) : Cluster where
  columns _ := []
  tableNames _ := []
  views _ := []
  columnNames _ := []
  data _ := []
  count _ := n
  limited _ k := le_max_right k 0

theorem counts_countingDatabase (n : ℕ) (sql : Text) : Counts n ((countingDatabase n).execute sql 1) :=
  ⟨rfl, _, [], rfl, rfl⟩

theorem rowCount_right_three :
    (RightOrThrown 3 ((countingDatabase 3).getRowCount { name := ['t'] } []) ↔ 3 < 2 ^ 31) ∧
      (RightOrThrown 3 (value ((⟨['m'], ['d'], true⟩ : MySQLDatabase).getRowCount (countingServer 3)
        ['t'] []) ⟨[], false⟩) ↔ 3 < 2 ^ 31) ∧
      (RightOrThrown 3 (value ((⟨['k'], true⟩ : CassandraDatabase).getRowCount (countingCluster 3)
        ['t'] []) ⟨[], false⟩) ↔ 3 < 2 ^ 31) := by
  obtain ⟨hshared, hmysql, hcassandra⟩ := rowCount_right_iff 3
  exact ⟨hshared _ _ _ (counts_countingDatabase 3 _), hmysql _ _ _ _ _ rfl (by decide),
    hcassandra _ _ _ _ _ rfl rfl (by decide)⟩

/-- `2 ^ 31` rows: no row, a negative number of them and no row again. -/
theorem big_count_wrong :
    (countingDatabase (2 ^ 31)).getRowCount { name := ['t'] } [] = .ok 0 ∧
      value ((⟨['m'], ['d'], true⟩ : MySQLDatabase).getRowCount (countingServer (2 ^ 31)) ['t'] [])
        ⟨[], false⟩ = .ok (-2 ^ 31) ∧
      value ((⟨['k'], true⟩ : CassandraDatabase).getRowCount (countingCluster (2 ^ 31)) ['t'] [])
        ⟨[], false⟩ = .ok 0 ∧
      ¬RightOrThrown (2 ^ 31) (.ok 0) ∧ ¬RightOrThrown (2 ^ 31) (.ok (-2 ^ 31)) := by
  have hstoi : (stoi (itoa ((2 ^ 31 : ℕ) : ℤ))).getD 0 = 0 := by
    rw [stoi, leadingInt_itoa]
    rfl
  have hint : toInt ((2 ^ 31 : ℕ) : ℤ) = -2 ^ 31 := by
    rw [toInt, Int.bmod_def]
    norm_num
  have hmysql (sql : Text) : (countingServer (2 ^ 31)).count sql = 2 ^ 31 := rfl
  have hcassandra (cql : Text) : (countingCluster (2 ^ 31)).count cql = 2 ^ 31 := rfl
  refine ⟨?_, ?_, ?_, ?_, ?_⟩
  · rw [getRowCount_shared (counts_countingDatabase (2 ^ 31) _), hstoi]
  · rw [value_mysql (hmysql _) (by decide), hint]
  · rw [value_cassandra rfl (hcassandra _) (by decide), hstoi]
  · norm_num [RightOrThrown]
  · norm_num [RightOrThrown]

end Counts
end DearSql
