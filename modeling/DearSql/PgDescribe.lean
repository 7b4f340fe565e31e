import DearSql.PgSearchPath
import DearSql.Transactions

/-! `PostgresDatabase::describeTable` asks the session for its current schema, on
whatever `search_path` the calls before it left there: the last one they set that was
not taken back. -/
namespace DearSql.Pg
open Runs Transactions

namespace Session

/-- The path in force for the session, and the one a rollback brings back. -/
def store (s : Session) : Store Path := ⟨s.path, s.saved⟩

/-- What an accepted statement does to the session's path. A `SET LOCAL` leaves it alone. -/
def statementEvents (dflt : Path) (s : Session) (st : Stmt) (a : Answer) : List (Event Path) :=
  match st with
  | .commit => if s.tx = .aborted then [.undo] else [.keep]
  | .rollback | .abort => [.undo]
  | st =>
    match st.setting dflt a with
    | some (.session p) => [.set p]
    | _ => []

/-- A batch, up to the statement that is refused or fails. -/
def batchEvents (dflt : Path) : Session → List Stmt → List Answer → List (Event Path)
  | _, [], _ => []
  | s, st :: sts, as =>
    let a := Answer.toStmt st as
    if s.refuses st then []
    else if a.set.isFailed then [.undo]
    else s.statementEvents dflt st a ++ batchEvents dflt (s.exec dflt st a) sts as.tail

/-- Outside a transaction the batch is one of its own. -/
def roundTripEvents (dflt : Path) (s : Session) (sts : List Stmt) (as : List Answer) :
    List (Event Path) :=
  (if s.tx = .idle then [.keep] else []) ++ s.beginBatch.batchEvents dflt sts as ++
    if (execBatch dflt s.beginBatch sts as).1.tx = .idle then [.keep] else []

section Stores
variable {dflt : Path} {s : Session} {st : Stmt} {a : Answer}

theorem store_exec : (s.exec dflt st a).store = s.store.after (s.statementEvents dflt st a) := by
  have hset : ∀ x : Option Setting, (s.set x).store =
      s.store.after (match x with | some (.session p) => [.set p] | _ => []) := by
    intro x
    rcases x with _ | p | p <;> rfl
  cases st with
  | begin => rfl
  | commit =>
    unfold exec statementEvents
    split_ifs <;> rfl
  | rollback | abort => rfl
  | setPath | setLocal | setSchema | reset | discard | other => exact hset _

theorem store_execFailed : (s.execFailed st).store = s.store.after [.undo] := by
  unfold execFailed
  split_ifs <;> rfl

theorem store_execBatch (s : Session) (sts : List Stmt) (as : List Answer) :
    (execBatch dflt s sts as).1.store = s.store.after (s.batchEvents dflt sts as) := by
  induction sts generalizing s as with
  | nil => rfl
  | cons st sts ih =>
    rw [execBatch, batchEvents]
    dsimp only
    split_ifs with hr hf
    · rfl
    · exact store_execFailed
    · rw [ih, store_exec, after_append]

theorem store_roundTrip (s : Session) (sts : List Stmt) (as : List Answer) :
    (s.roundTrip dflt sts as).1.store = s.store.after (s.roundTripEvents dflt sts as) := by
  have hb : s.beginBatch.store = s.store.after (if s.tx = .idle then [.keep] else []) := by
    unfold beginBatch
    split_ifs <;> rfl
  have he : ∀ t : Session, t.endBatch.store =
      t.store.after (if t.tx = .idle then [.keep] else []) := by
    intro t
    unfold endBatch
    split_ifs <;> rfl
  rw [roundTrip, he, store_execBatch, hb, roundTripEvents, after_append, after_append]

end Stores
end Session

section Histories
variable (srv : Server)

/-- The path events of one text, if it reaches the server. -/
def runEvents (db : PostgresDatabase) (sql : Text) (rowLimit : ℤ) (w : Wire) : List (Event Path) :=
  match (run srv db sql rowLimit w).sent with
  | some s => s.roundTripEvents srv.dflt (srv.read sql) w.answers
  | none => []

/-- Those of a call: the preliminary command where the handle's schema is not the cached
one, and the text unless that command failed. -/
def callEvents (db : PostgresDatabase) (c : Call) : List (Event Path) :=
  if c.schema = db.searchPath then runEvents srv db c.sql c.rowLimit c.wire
  else
    let set := setRun srv db c
    runEvents srv db (pathCommand c.schema) 0 c.setWire ++
      if set.result.success then
        runEvents srv { set.db with searchPath := c.schema } c.sql c.rowLimit c.wire
      else []

def historyEvents : PostgresDatabase → List Call → List (Event Path)
  | _, [] => []
  | db, c :: cs => callEvents srv db c ++ historyEvents (step srv db c) cs

variable {srv} {db : PostgresDatabase} {c : Call}

theorem run_store (db : PostgresDatabase) (sql : Text) (rowLimit : ℤ) (w : Wire) :
    ((run srv db sql rowLimit w).db.session srv).store =
      (db.session srv).store.after (runEvents srv db sql rowLimit w) := by
  rcases run_cases srv db sql rowLimit w with ⟨_, _, hrun⟩ | ⟨hn, _, _, hd⟩
  · rw [runEvents, hrun]
    exact Session.store_roundTrip _ _ _
  · rw [runEvents, hn]
    rcases hd with hd | hd
    · rw [hd]
      rfl
    · rw [hd]
      rfl

theorem step_store : ((step srv db c).session srv).store =
    (db.session srv).store.after (callEvents srv db c) := by
  unfold step executeIn callEvents
  dsimp only
  split_ifs with hs hf hf
  · rw [runOn_session, run_store]
  · exact absurd hf (by simp_all)
  · rw [setRun, run_store, List.append_nil]
  · rw [runOn_session, run_store, after_append, session_searchPath, setRun, run_store]
  · exact absurd hf (by simp_all)

theorem history_store (db : PostgresDatabase) (cs : List Call) :
    ((final (step srv) db cs).session srv).store =
      (db.session srv).store.after (historyEvents srv db cs) := by
  induction cs generalizing db with
  | nil => rfl
  | cons c cs ih => rw [final_cons, ih, step_store, historyEvents, after_append]

theorem run_wf (h : (db.session srv).WF) (sql : Text) (rowLimit : ℤ) (w : Wire) :
    ((run srv db sql rowLimit w).db.session srv).WF := by
  rcases run_cases srv db sql rowLimit w with ⟨_, _, hrun⟩ | ⟨_, _, _, hd⟩
  · rw [hrun]
    exact h.roundTrip _
  · rcases hd with hd | hd
    · rwa [hd]
    · rwa [hd]

theorem step_wf (h : (db.session srv).WF) : ((step srv db c).session srv).WF := by
  unfold step executeIn
  dsimp only
  split_ifs
  · rw [runOn_session]
    exact run_wf h _ _ _
  · exact run_wf h _ _ _
  · rw [runOn_session]
    have hset : (PostgresDatabase.session srv
        { (setRun srv db c).db with searchPath := c.schema }).WF :=
      run_wf h (pathCommand c.schema) 0 c.setWire
    exact run_wf hset _ _ _

theorem final_wf (h : (db.session srv).WF) (cs : List Call) :
    ((final (step srv) db cs).session srv).WF := by
  induction cs generalizing db with
  | nil => exact h
  | cons c cs ih => exact ih (step_wf h)

/-- The path a history leaves on the session, when it leaves no transaction open. -/
theorem history_searchPath (srv : Server) (cs : List Call)
    (hi : ((final (step srv) {} cs).session srv).tx = .idle) :
    ((final (step srv) {} cs).session srv).searchPath =
      (lastStaying (historyEvents srv {} cs)).getD srv.dflt := by
  have hw : ((PostgresDatabase.session srv {}).WF) := Session.fresh_wf
  have hv : ((final (step srv) {} cs).session srv).store.value = _ :=
    congrArg Store.value (history_store {} cs)
  rw [(final_wf hw cs).searchPath_of_idle hi]
  exact hv.trans (after_settled srv.dflt _)

end Histories

def currentSchemaField : Field := ⟨"current_schema".toList, 19⟩

/-- The server's answer on the session `s`: the first schema of its path that exists. -/
def currentSchemaWire (currentSchema : Path → Option Text) (s : Session) : Wire :=
  { answers := [.plainly (.rows [currentSchemaField] [[currentSchema s.searchPath]])] }

/-- The text the client reads in that answer; no schema at all reads as the NULL text. -/
def schemaText (currentSchema : Path → Option Text) (p : Path) : Text :=
  cellText currentSchemaField (currentSchema p)

/-- Where `describeTable` looks `name` up on the handle `db`. -/
def lookup (srv : Server) (currentSchema : Path → Option Text) (db : PostgresDatabase)
    (name : Text) : Except Text (Text × Text) :=
  describeTable srv db name (currentSchemaWire currentSchema (db.session srv))

section Lookup
variable {srv : Server} {db : PostgresDatabase} {currentSchema : Path → Option Text} {name : Text}

theorem rows_currentSchema (hi : (db.session srv).tx = .idle) :
    rows srv db "SELECT current_schema()".toList
        (currentSchemaWire currentSchema (db.session srv)) =
      .ok [[schemaText currentSchema (db.session srv).searchPath]] := by
  set w := currentSchemaWire currentSchema (db.session srv) with hw
  have hrun : run srv db "SELECT current_schema()".toList 0 w =
      sentRun srv db "SELECT current_schema()".toList 0 w := run_sent (fun _ => rfl) rfl
  have hacc : (db.session srv).accepts .other w.answers = true := by
    simp [Session.accepts, Session.refuses, hi, hw, currentSchemaWire, Answer.toStmt,
      Answer.plainly, ResultSet.isFailed]
  have hset : (Answer.toStmt .other w.answers).set = .rows [currentSchemaField]
      [[currentSchema (db.session srv).searchPath]] := by
    simp [hw, currentSchemaWire, Answer.toStmt, Answer.plainly, ResultSet.isFailed]
  have hn : ¬ (0 : ℤ) < 0 := lt_irrefl 0
  have hres := sentRun_result srv.read_currentSchema hacc (sentRun_not_cancelled hn)
  rw [hset, plain_rows] at hres
  rw [rows, hrun, hres]
  rfl

/-- The lookup goes to the current schema of the path in force. -/
theorem lookup_eq (hname : '.' ∉ name) (hi : (db.session srv).tx = .idle) :
    lookup srv currentSchema db name =
      .ok (schemaText currentSchema (db.session srv).searchPath, name) := by
  rw [lookup, describeTable, if_neg hname, rows_currentSchema hi]
  rfl

end Lookup
end DearSql.Pg
