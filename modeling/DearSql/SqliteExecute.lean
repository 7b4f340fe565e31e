import DearSql.Fetches

/-! `SQLiteDatabaseNode::execute`: `runMultiStatement` over what SQLite answers. -/
namespace DearSql.Sqlite
open Fetches

/-- A value of a row: NULL, or the bytes of its text where `sqlite3_column_text` has one. -/
inductive Cell
  | null
  | text (bytes : Option Text)
  deriving DecidableEq, Repr

def columnText (cell : Cell) (sentinelNull : Bool) : Text :=
  match cell with
  | .null => if sentinelNull then NULL_SENTINEL else []
  | .text bytes => bytes.getD []

/-- A prepared statement: what `sqlite3_step` answers call after call, an error with its
`sqlite3_errmsg`, and what `sqlite3_changes` gives behind it. -/
structure Statement where
  columnNames : List Text := []
  steps : List (Fetch (List Cell) Text) := []
  changes : ℤ := 0
  deriving DecidableEq, Repr

/-- What `sqlite3_prepare_v2` makes of a text: an error, nothing (a comment), or a statement. -/
inductive Preparation
  | error (errmsg : Text)
  | nothing
  | statement (s : Statement)
  deriving DecidableEq, Repr

/-- The answer with the number of bytes in front of `tail`. -/
structure Prepared where
  outcome : Preparation
  length : ℕ
  pos : 0 < length

/-- The database during a call: the answer to each `sqlite3_prepare_v2` of it, by its number and
the text it is given. -/
abbrev Db := ℕ → Text → Prepared

/-- The result of one statement. -/
def Statement.result (s : Statement) (rowLimit : ℤ) : StatementResult :=
  if s.columnNames ≠ [] then
    let out := fetchRows rowLimit (List.map (columnText · true)) s.steps []
    let r : StatementResult :=
      { columnNames := s.columnNames, tableData := out.1, message := returnedRows out.1.length }
    match out.2 with
    | .failed errmsg => { r with success := false, errorMessage := errmsg }
    | _ => r
  else match s.steps with
    | .failed errmsg :: _ => { success := false, errorMessage := errmsg }
    | _ => { affectedRows := s.changes, message := "Query executed successfully".toList }

theorem tail_shorter {remaining rest : Text} {c : Char} {n : ℕ} (hn : 0 < n)
    (h : remaining.dropWhile isspace = c :: rest) :
    ((c :: rest).drop n).length < remaining.length := by
  have hle := (List.dropWhile_suffix (l := remaining) isspace).length_le
  rw [h, List.length_cons] at hle
  rw [List.length_drop, List.length_cons]
  omega

/-- The statements of `remaining`, of which the next is the `n`-th that is prepared. -/
def runFrom (db : Db) (rowLimit : ℤ) (n : ℕ) (remaining : Text) (statements : List StatementResult) :
    List StatementResult :=
  match _h : remaining.dropWhile isspace with
  | [] => statements
  | c :: rest =>
    let p := db n (c :: rest)
    match p.outcome with
    | .error errmsg => statements ++ [failure errmsg]
    | .nothing => runFrom db rowLimit (n + 1) ((c :: rest).drop p.length) statements
    | .statement s =>
      let r := s.result rowLimit
      if r.success then
        runFrom db rowLimit (n + 1) ((c :: rest).drop p.length) (statements ++ [r])
      else statements ++ [r]
termination_by remaining.length
decreasing_by all_goals exact tail_shorter p.pos _h

def runMultiStatement (db : Db) (query : Text) (rowLimit : ℤ) : QueryResult :=
  { statements := runFrom db rowLimit 0 (cstr query) [] }

/-- A step of the statement fails before the limit is reached. -/
def Statement.StepFails (s : Statement) (rowLimit : ℤ) : Prop :=
  if s.columnNames ≠ [] then ∃ rs e, FailsAfter rowLimit rs e s.steps
  else ∃ e rest, s.steps = .failed e :: rest

/-- The call comes to the statement `s`: the statements before it do not fail. -/
inductive Reaches (db : Db) (rowLimit : ℤ) : ℕ → Text → Statement → Prop
  | here {n : ℕ} {remaining rest : Text} {c : Char} {s : Statement}
      (hrest : remaining.dropWhile isspace = c :: rest)
      (hs : (db n (c :: rest)).outcome = .statement s) : Reaches db rowLimit n remaining s
  | nothing {n : ℕ} {remaining rest : Text} {c : Char} {s : Statement}
      (hrest : remaining.dropWhile isspace = c :: rest)
      (hn : (db n (c :: rest)).outcome = .nothing)
      (next : Reaches db rowLimit (n + 1) ((c :: rest).drop (db n (c :: rest)).length) s) :
      Reaches db rowLimit n remaining s
  | after {n : ℕ} {remaining rest : Text} {c : Char} {s before : Statement}
      (hrest : remaining.dropWhile isspace = c :: rest)
      (hb : (db n (c :: rest)).outcome = .statement before) (hok : ¬before.StepFails rowLimit)
      (next : Reaches db rowLimit (n + 1) ((c :: rest).drop (db n (c :: rest)).length) s) :
      Reaches db rowLimit n remaining s

section Rules
variable {db : Db} {rowLimit : ℤ} {n : ℕ} {remaining : Text} {s : Statement}
  {statements : List StatementResult}

/-- A statement fails exactly where a step of it does. -/
theorem result_success_iff : (s.result rowLimit).success = false ↔ s.StepFails rowLimit := by
  unfold Statement.result Statement.StepFails
  split_ifs with hcols
  · constructor
    · intro h
      cases hlast : (fetchRows rowLimit (List.map (columnText · true)) s.steps []).2 with
      | row => simp [hlast] at h
      | done => simp [hlast] at h
      | failed e =>
        obtain ⟨rs, hrs⟩ := last_failed_iff.mp hlast
        exact ⟨rs, e, hrs⟩
    · rintro ⟨rs, e, h⟩
      rw [fetchRows_failed h]
  · cases hsteps : s.steps with
    | nil => simp
    | cons f rest => cases f <;> simp

theorem runFrom_cons {rest : Text} {c : Char} (hrest : remaining.dropWhile isspace = c :: rest) :
    runFrom db rowLimit n remaining statements =
      match (db n (c :: rest)).outcome with
      | .error errmsg => statements ++ [failure errmsg]
      | .nothing => runFrom db rowLimit (n + 1)
          ((c :: rest).drop (db n (c :: rest)).length) statements
      | .statement s => if (s.result rowLimit).success then runFrom db rowLimit (n + 1)
          ((c :: rest).drop (db n (c :: rest)).length) (statements ++ [s.result rowLimit])
        else statements ++ [s.result rowLimit] := by
  rw [runFrom]
  split
  · next h =>
    rw [hrest] at h
    cases h
  · next c' rest' h =>
    rw [hrest] at h
    cases h
    rfl

/-- A statement that fails is reported and ends the call. -/
theorem runFrom_reaches (h : Reaches db rowLimit n remaining s) (hf : s.StepFails rowLimit) :
    s.result rowLimit ∈ runFrom db rowLimit n remaining statements := by
  induction h generalizing statements with
  | here hrest hs =>
    rw [runFrom_cons hrest, hs]
    simp [result_success_iff.mpr hf]
  | nothing hrest hn next ih =>
    rw [runFrom_cons hrest, hn]
    exact ih hf
  | @after n remaining rest c s before hrest hb hok next ih =>
    have hsuccess : (before.result rowLimit).success = true := by
      rw [← Bool.not_eq_false, result_success_iff]
      exact hok
    rw [runFrom_cons hrest, hb]
    simp only [hsuccess, if_true]
    exact ih hf

theorem runMultiStatement_fails {query : Text} (h : Reaches db rowLimit 0 (cstr query) s)
    (hf : s.StepFails rowLimit) : (runMultiStatement db query rowLimit).success = false :=
  QueryResult.not_success_of_mem (runFrom_reaches h hf) (result_success_iff.mpr hf)

end Rules

end DearSql.Sqlite
