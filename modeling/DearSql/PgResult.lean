import DearSql.QueryResult

/-! What libpq hands to `PostgresDatabase::run` and the loop that turns it into
statements. A result arrives whole (`PGRES_TUPLES_OK`) or, in chunked mode, as pieces
(`PGRES_TUPLES_CHUNK`) with a closing `PGRES_TUPLES_OK`. -/
namespace DearSql.Pg

/-- A column of a row description: `PQfname` and `PQftype`. -/
structure Field where
  name : Text
  ftype : ℕ
  deriving DecidableEq, Repr

/-- A value as `PQgetisnull` and `PQgetvalue` give it. -/
abbrev Cell := Option Text

inductive ExecStatus
  | emptyQuery | commandOk | tuplesOk | copyOut | copyIn | fatalError | tuplesChunk
  deriving DecidableEq, Repr

/-- A `PGresult`, through the accessors the source reads. -/
structure PGresult where
  status : ExecStatus
  fields : List Field := []
  rows : List (List Cell) := []
  cmdTuples : Text := []
  errorMessage : Text := []
  deriving DecidableEq, Repr

def BOOLOID : ℕ := 16

def cellText (f : Field) : Cell → Text
  | none => NULL_SENTINEL
  | some v =>
    if f.ftype = BOOLOID then
      if v.head? = some 't' then BOOL_TRUE_SENTINEL else BOOL_FALSE_SENTINEL
    else v

def rowTexts (fs : List Field) (row : List Cell) : List Text := List.zipWith cellText fs row

/-- `limit` of `appendPgRows`: how many of `nRows` more rows fit. -/
def roomFor (rowLimit : ℤ) (nRows have_ : ℕ) : ℕ :=
  if 0 < rowLimit then min nRows (rowLimit.toNat - have_) else nRows

/-- `appendPgRows`: a (chunk of a) row set, keeping at most `rowLimit` rows. -/
def appendPgRows (res : PGresult) (result : StatementResult) (rowLimit : ℤ) : StatementResult :=
  let limit := roomFor rowLimit res.rows.length result.tableData.length
  { result with
    columnNames := if result.columnNames = [] then res.fields.map Field.name
      else result.columnNames
    tableData := result.tableData ++ (res.rows.take limit).map (rowTexts res.fields) }

def setRowsMessage (result : StatementResult) (total : ℕ) (rowLimit : ℤ) (stopped : Bool) :
    StatementResult :=
  { result with
    message := returnedRows result.tableData.length ++
      if stopped then
        " (limited to ".toList ++ decimal rowLimit.toNat ++
          "; the rest was not fetched)".toList
      else if 0 < rowLimit ∧ rowLimit < total then
        " (limited to ".toList ++ decimal rowLimit.toNat ++ [')']
      else [] }

def extractPgResult (res : PGresult) (rowLimit : ℤ) : StatementResult :=
  match res.status with
  | .tuplesOk => setRowsMessage (appendPgRows res {} rowLimit) res.rows.length rowLimit false
  | .commandOk =>
    if res.cmdTuples ≠ [] then
      { affectedRows := atoi res.cmdTuples
        message := res.cmdTuples ++ " row(s) affected".toList }
    else { message := "Query executed successfully".toList }
  | _ => failure res.errorMessage

/-- The variables the result loop carries, and the statements built so far. -/
structure LoopState where
  statements : List StatementResult := []
  rows : StatementResult := {}
  streaming : Bool := false
  seen : ℕ := 0
  stopped : Bool := false
  deriving DecidableEq, Repr

def LoopState.push (st : LoopState) (r : StatementResult) : LoopState :=
  { st with statements := st.statements ++ [r] }

def LoopState.reset (st : LoopState) : LoopState :=
  { st with rows := {}, streaming := false, seen := 0 }

/-- The body of the result loop for one result. -/
def onResult (rowLimit : ℤ) (stoppable : Bool) (st : LoopState) (res : PGresult) : LoopState :=
  if res.status = .tuplesChunk ∨ (st.streaming = true ∧ res.status = .tuplesOk) then
    let rows := appendPgRows res st.rows rowLimit
    let seen := st.seen + res.rows.length
    if res.status = .tuplesChunk then
      { st with
        rows := rows, seen := seen, streaming := true
        stopped := st.stopped || (stoppable && decide (rowLimit < seen)) }
    else (st.push (setRowsMessage rows seen rowLimit false)).reset
  else if st.streaming then
    if st.stopped then (st.push (setRowsMessage st.rows st.seen rowLimit true)).reset
    else (st.push (extractPgResult res rowLimit)).reset
  else
    let r := extractPgResult res rowLimit
    if r.success ∨ r.errorMessage ≠ [] then st.push r else st

/-- The loop over results none of which starts a COPY. -/
def collect (rowLimit : ℤ) (stoppable : Bool) (st : LoopState) (rs : List PGresult) :
    LoopState := rs.foldl (onResult rowLimit stoppable) st

/-- A result that libpq repeats until the client ends the COPY. -/
def PGresult.isCopy (r : PGresult) : Bool := r.status = .copyIn || r.status = .copyOut

def PQgetResult : List PGresult → Option PGresult × List PGresult
  | [] => (none, [])
  | r :: rs => (some r, if r.isCopy then r :: rs else rs)

/-- The `for (;;)` loop of `run`, cut off after `fuel` calls of `PQgetResult`. -/
def loop (rowLimit : ℤ) (stoppable : Bool) : ℕ → List PGresult → LoopState → Option LoopState
  | 0, _, _ => none
  | fuel + 1, conn, st =>
    match PQgetResult conn with
    | (none, _) => some st
    | (some res, conn') => loop rowLimit stoppable fuel conn' (onResult rowLimit stoppable st res)

section Termination
variable {rowLimit : ℤ} {stoppable : Bool}

theorem loop_cons (fuel : ℕ) (r : PGresult) (rs : List PGresult) (st : LoopState) :
    loop rowLimit stoppable (fuel + 1) (r :: rs) st =
      loop rowLimit stoppable fuel (if r.isCopy then r :: rs else rs)
        (onResult rowLimit stoppable st r) := rfl

theorem loop_copy (fuel : ℕ) (r : PGresult) (rs : List PGresult) (st : LoopState)
    (hr : r.isCopy = true) : loop rowLimit stoppable fuel (r :: rs) st = none := by
  induction fuel generalizing st with
  | zero => rfl
  | succ fuel ih => rw [loop_cons, if_pos hr, ih]

/-- Without a COPY the loop ends after one call a result and one more. -/
theorem loop_eq_collect (rs : List PGresult) (st : LoopState) {fuel : ℕ}
    (hrs : ∀ r ∈ rs, r.isCopy = false) (hf : rs.length < fuel) :
    loop rowLimit stoppable fuel rs st = some (collect rowLimit stoppable st rs) := by
  induction rs generalizing st fuel with
  | nil =>
    obtain ⟨n, rfl⟩ := Nat.exists_eq_add_of_lt hf
    rfl
  | cons r rs ih =>
    obtain ⟨n, rfl⟩ : ∃ n, fuel = n + 1 := ⟨fuel - 1, by omega⟩
    have hr : r.isCopy = false := hrs r (by simp)
    rw [loop_cons, hr, if_neg Bool.false_ne_true]
    exact ih _ (fun x hx => hrs x (by simp [hx])) (by simp at hf; omega)

theorem loop_none_of_copy (rs : List PGresult) (fuel : ℕ) (st : LoopState)
    (hrs : ∃ r ∈ rs, r.isCopy = true) : loop rowLimit stoppable fuel rs st = none := by
  induction rs generalizing fuel st with
  | nil => simp at hrs
  | cons r rs ih =>
    by_cases hr : r.isCopy = true
    · exact loop_copy fuel r rs st hr
    · cases fuel with
      | zero => rfl
      | succ fuel =>
        rw [loop_cons, if_neg hr]
        apply ih
        obtain ⟨x, hx, hc⟩ := hrs
        rcases List.mem_cons.mp hx with rfl | hx
        · exact absurd hc hr
        · exact ⟨x, hx, hc⟩

/-- The loop ends exactly on the batches that start no COPY. -/
theorem loop_terminates_iff (rs : List PGresult) (st : LoopState) :
    (∃ fuel out, loop rowLimit stoppable fuel rs st = some out) ↔
      ∀ r ∈ rs, r.isCopy = false := by
  constructor
  · rintro ⟨fuel, out, h⟩ r hr
    by_contra hc
    have hn := @loop_none_of_copy rowLimit stoppable rs fuel st ⟨r, hr, by simpa using hc⟩
    simp [hn] at h
  · intro h
    exact ⟨rs.length + 1, _, loop_eq_collect rs st h (Nat.lt_succ_self _)⟩

/-- `COPY t FROM STDIN` alone: no number of calls ends the loop. -/
theorem loop_copy_in_runs_forever :
    ¬ ∃ fuel out, loop 1000 false fuel [{ status := .copyIn }] {} = some out := by
  rintro ⟨fuel, out, h⟩
  have hn := @loop_copy 1000 false fuel { status := .copyIn } [] {} rfl
  simp [hn] at h

end Termination
end DearSql.Pg
