import DearSql.Text

/-! `StatementResult` and `QueryResult`. Timings are measurements of the machine and
are left out; every other field is kept. -/
namespace DearSql

def NULL_SENTINEL : Text := "dearsql__null".toList
def BOOL_TRUE_SENTINEL : Text := "dearsql__bool_true".toList
def BOOL_FALSE_SENTINEL : Text := "dearsql__bool_false".toList

structure StatementResult where
  success : Bool := true
  errorMessage : Text := []
  columnNames : List Text := []
  tableData : List (List Text) := []
  affectedRows : ℤ := 0
  message : Text := []
  deriving DecidableEq, Repr

/-- `failure` (PostgreSQL), `failed` (MSSQL). -/
def failure (message : Text) : StatementResult := { success := false, errorMessage := message }

structure QueryResult where
  statements : List StatementResult := []
  messages : List Text := []
  deriving DecidableEq, Repr

namespace QueryResult

/-- `QueryResult::success()`: no statement at all is not a success. -/
def success (r : QueryResult) : Bool :=
  !r.statements.isEmpty && r.statements.all StatementResult.success

def errorMessage (r : QueryResult) : Text :=
  ((r.statements.find? fun s => !s.success).map StatementResult.errorMessage).getD []

theorem success_iff (r : QueryResult) :
    r.success = true ↔ r.statements ≠ [] ∧ ∀ s ∈ r.statements, s.success = true := by
  simp [success]

/-- A failed result among the statements fails the whole query. -/
theorem not_success_of_mem {r : QueryResult} {s : StatementResult} (hs : s ∈ r.statements)
    (hf : s.success = false) : r.success = false := by
  by_contra h
  have ht := ((success_iff r).mp (by simpa using h)).2 s hs
  rw [hf] at ht
  exact Bool.false_ne_true ht

@[simp] theorem success_failure (m : Text) (ms : List Text) :
    (QueryResult.mk [failure m] ms).success = false := rfl

end QueryResult

def decimal (n : ℕ) : Text := (toString n).toList

/-- `Returned n row(s)`, the message every backend gives a row set. -/
def returnedRows (n : ℕ) : Text :=
  "Returned ".toList ++ decimal n ++ " row".toList ++ (if n = 1 then [] else ['s'])

end DearSql
