import DearSql.Fetches

/-! `OracleDatabase::execute` and `queryRows` over what ODPI-C answers. The loop of `runQuery`
ends at a fetch that fails as it does at the end of the rows. -/
namespace DearSql.Oracle
open Fetches

/-- A value of a row by its native type; the digits of a floating-point value are those of
`std::format`. -/
inductive Data
  | null
  | bytes (value : Text)
  | double (digits : Text)
  | float (digits : Text)
  | int64 (value : ℤ)
  | uint64 (value : ℕ)
  | boolean (value : Bool)
  | timestamp (year : ℤ) (month day hour minute second : ℕ)
  | intervalDS (days hours minutes seconds : ℤ)
  | intervalYM (years months : ℤ)
  | unsupported
  deriving DecidableEq, Repr

/-- `{:0wd}`: the zeros stand behind the sign. -/
def zeroPadded (width : ℕ) (n : ℤ) : Text :=
  let sign : Text := if n < 0 then ['-'] else []
  let digits := Nat.toDigits 10 n.natAbs
  sign ++ List.replicate (width - sign.length - digits.length) '0' ++ digits

def dataToString : Data → Text
  | .null => NULL_SENTINEL
  | .bytes value => value
  | .double digits => digits
  | .float digits => digits
  | .int64 value => itoa value
  | .uint64 value => itoa value
  | .boolean value => if value then BOOL_TRUE_SENTINEL else BOOL_FALSE_SENTINEL
  | .timestamp year month day hour minute second =>
    zeroPadded 4 year ++ '-' :: zeroPadded 2 month ++ '-' :: zeroPadded 2 day ++
      ' ' :: zeroPadded 2 hour ++ ':' :: zeroPadded 2 minute ++ ':' :: zeroPadded 2 second
  | .intervalDS days hours minutes seconds =>
    itoa days ++ ' ' :: zeroPadded 2 hours ++ ':' :: zeroPadded 2 minutes ++
      ':' :: zeroPadded 2 seconds
  | .intervalYM years months => itoa years ++ '-' :: itoa months
  | .unsupported => "<unsupported>".toList

inductive ExecMode
  | default
  | commitOnSuccess
  deriving DecidableEq, Repr

/-- What `dpiStmt_execute` opens: the rows of a query, a failed fetch with its error among them,
or the count of a statement without columns. -/
inductive Executed
  | rows (columnNames : List Text) (fetches : List (Fetch (List Data) Text))
  | command (rowsAffected : ℕ)
  deriving DecidableEq, Repr

structure Prepared where
  isQuery : Bool
  execute : ExecMode → Except Text Executed

/-- `dpiConn_prepareStmt`, as the session answers during one call. -/
abbrev Session := Text → Except Text Prepared

def limitNote (rowLimit : ℤ) (rows : ℕ) : Text :=
  if 0 < rowLimit ∧ rowLimit ≤ rows then " (limited to ".toList ++ itoa rowLimit ++ ")".toList else []

def statementResult (rowLimit : ℤ) : Executed → StatementResult
  | .rows columnNames fetches =>
    let tableData := (fetchRows rowLimit (List.map dataToString) fetches []).1
    { columnNames, tableData
      message := returnedRows tableData.length ++ limitNote rowLimit tableData.length }
  | .command rowsAffected =>
    { affectedRows := (rowsAffected : ℤ).bmod (2 ^ 32)
      message := if 0 < rowsAffected then itoa rowsAffected ++ " row(s) affected".toList
        else "Query executed successfully".toList }

def runQuery (session : Session) (query : Text) (rowLimit : ℤ) : QueryResult :=
  match session query with
  | .error message => { statements := [failure message] }
  | .ok stmt =>
    match stmt.execute (if stmt.isQuery then .default else .commitOnSuccess) with
    | .error message => { statements := [failure message] }
    | .ok executed => { statements := [statementResult rowLimit executed] }

/-- What `queryRows` makes of the result of `runQuery`. -/
def rowsOf (r : QueryResult) : Except Text (List (List Text)) :=
  if !r.success then .error r.errorMessage
  else .ok ((r.statements.head?.map StatementResult.tableData).getD [])

/-- One schema; `conn_` tells whether its session is open. -/
structure Database where
  schema_ : Text
  username : Text
  conn_ : Bool := false
  deriving DecidableEq, Repr

/-- A call of `execute`: what `createConn` gives if it comes to that, what the fresh session
answers while it is set up, and what the session answers to the call. -/
structure Call where
  sql : Text
  rowLimit : ℤ
  createConn : Except Text Unit := .ok ()
  fresh : Session
  session : Session

def toUpper (s : Text) : Text := s.map Char.toUpper

def Database.ensureConn (d : Database) (c : Call) : Except Text Unit :=
  if d.conn_ then .ok ()
  else do
    c.createConn
    if d.schema_ ≠ toUpper d.username then
      let r := runQuery c.fresh
        ("ALTER SESSION SET CURRENT_SCHEMA = ".toList ++ quoteIdent d.schema_) 0
      if !r.success then throw r.errorMessage

def Database.execute (d : Database) (c : Call) : QueryResult × Database :=
  match d.ensureConn c with
  | .error what => ({ statements := [failure what] }, d)
  | .ok () => (runQuery c.session c.sql c.rowLimit, { d with conn_ := true })

/-- The session is open and executes the query, of which a fetch fails after the rows `rs`, before
the limit is reached. -/
structure FetchFails (d : Database) (c : Call) (rs : List (List Data)) (e : Text) : Prop where
  opened : d.ensureConn c = .ok ()
  executed : ∃ stmt columnNames fetches, c.session c.sql = .ok stmt ∧
    stmt.execute (if stmt.isQuery then .default else .commitOnSuccess) =
      .ok (.rows columnNames fetches) ∧ FailsAfter c.rowLimit rs e fetches

/-- The rows before the failure come back as the whole result. -/
theorem execute_truncated {d : Database} {c : Call} {rs : List (List Data)} {e : Text}
    (h : FetchFails d c rs e) : (d.execute c).1.success = true ∧
      rowsOf (d.execute c).1 = .ok (rs.map (List.map dataToString)) := by
  obtain ⟨stmt, columnNames, fetches, hsession, hexec, hfails⟩ := h.executed
  have hrun : (d.execute c).1 = { statements := [statementResult c.rowLimit
      (.rows columnNames fetches)] } := by
    simp only [Database.execute, h.opened, runQuery, hsession, hexec]
  have hsuccess : (d.execute c).1.success = true := by
    rw [hrun]
    rfl
  refine ⟨hsuccess, ?_⟩
  rw [rowsOf, hsuccess, hrun]
  simp [statementResult, fetchRows_failed hfails]

end DearSql.Oracle
