import DearSql.PgSession
import DearSql.Runs
import DearSql.Tokenizer

/-! `PostgresDatabase` over one session: `run` sends one batch, `executeIn` first brings
`search_path` to the handle's schema. The server reads texts by its own grammar, of
which only the spellings this client relies on are fixed. -/
namespace DearSql.Pg
open Runs

def stoppableRead (sql : Text) : Bool :=
  let r := statementRangeAt sql 0 .POSTGRESQL
  let word := lower ((slice sql r.1 r.2).takeWhile isalpha)
  ((sql.drop r.2).all fun c => c = ';' || isspace c) &&
    (word = "select".toList || word = "table".toList || word = "values".toList)

/-- The text `executeIn` sends ahead of the user's batch. -/
def pathCommand (schema : Text) : Text :=
  if schema = [] then "RESET search_path".toList
  else "SET search_path TO ".toList ++ quoteIdent schema

/-- A name a schema can have: no NUL, fewer than `NAMEDATALEN` bytes. -/
def ValidName (n : Text) : Prop := n ≠ [] ∧ '\x00' ∉ n ∧ n.length < 64

instance (n : Text) : Decidable (ValidName n) := inferInstanceAs (Decidable (_ ∧ _ ∧ _))

/-- The server: its default `search_path`, and how it reads the text of a batch. -/
structure Server where
  dflt : Path
  read : Text → List Stmt
  read_rollback : read "ROLLBACK".toList = [.rollback]
  read_currentSchema : read "SELECT current_schema()".toList = [.other]
  read_reset : read (pathCommand []) = [.reset]
  read_set (n : Text) : ValidName n → read (pathCommand n) = [.setPath [n]]
  read_pathCommand (n : Text) : ∃ st, read (pathCommand n) = [st] ∧ st.endsTx = false

/-- What libpq and the network do during one call of `run`. -/
structure Wire where
  connectError : Option Text := none
  sendError : Option Text := none
  answers : List Answer := []

def Wire.Up (w : Wire) : Prop := w.connectError = none ∧ w.sendError = none

instance (w : Wire) : Decidable w.Up := inferInstanceAs (Decidable (_ ∧ _))

/-- The handle's `conn_` and `searchPath_`. -/
structure PostgresDatabase where
  conn : Option Session := none
  searchPath : Text := []
  deriving DecidableEq

/-- A name no schema can have: the path is unknown and must be set again. -/
def UNKNOWN : Text := ['\x00']

/-- What a call leaves: `sent` is the session the text met, if it reached the server. -/
structure Ran where
  db : PostgresDatabase
  result : QueryResult
  sent : Option Session := none
  cancelled : Bool := false

section Run
variable (srv : Server) (db : PostgresDatabase)

def ensureConn (w : Wire) : Except Text (Session × PostgresDatabase) :=
  match db.conn with
  | some s => .ok (s, db)
  | none =>
    match w.connectError with
    | some err => .error ("PostgreSQL connection failed: ".toList ++ err)
    | none => .ok (.fresh srv.dflt, { conn := some (.fresh srv.dflt), searchPath := [] })

/-- `PostgresDatabase::run`. The round trip that measures latency is left out. -/
def run (sql : Text) (rowLimit : ℤ) (w : Wire) : Ran :=
  match ensureConn srv db w with
  | .error e => { db := db, result := { statements := [failure e] } }
  | .ok (s, db) =>
    match w.sendError with
    | some e => { db := db, result := { statements := [failure e] } }
    | none =>
      let stoppable := decide (0 < rowLimit) && decide (s.tx = .idle) && stoppableRead sql
      let r := s.roundTrip srv.dflt (srv.read sql) w.answers
      let st := collect rowLimit stoppable {} (r.2.flatMap (Answer.delivered rowLimit))
      { db := { db with conn := some r.1 }
        result := { statements := st.statements }
        sent := some s
        cancelled := st.stopped }

/-- A batch that may have moved the path itself, as the source tells from its text. -/
def mayMovePath (sql : Text) : Bool :=
  contains "search_path".toList (lower sql) || contains "rollback".toList (lower sql) ||
    contains "discard".toList (lower sql) || contains "reset".toList (lower sql)

/-- A call through the database handle (`schema` empty) or a schema handle, with what
happens during its two round trips. -/
structure Call where
  schema : Text
  sql : Text
  rowLimit : ℤ := 1000
  setWire : Wire := {}
  wire : Wire := {}

/-- The second half of `executeIn`: the user's batch, with `searchPath_` at the handle. -/
def runOn (c : Call) : Ran :=
  let r := run srv db c.sql c.rowLimit c.wire
  if !r.result.success || mayMovePath c.sql then { r with db := { r.db with searchPath := UNKNOWN } }
  else r

/-- The preliminary round trip of `executeIn`. -/
def setRun (c : Call) : Ran := run srv db (pathCommand c.schema) 0 c.setWire

def executeIn (c : Call) : Ran :=
  if c.schema = db.searchPath then runOn srv db c
  else
    let set := setRun srv db c
    if !set.result.success then { db := set.db, result := set.result }
    else runOn srv { set.db with searchPath := c.schema } c

def step (c : Call) : PostgresDatabase := (executeIn srv db c).db

def rows (sql : Text) (w : Wire) : Except Text (List (List Text)) :=
  let r := (run srv db sql 0 w).result
  if !r.success then
    .error (if r.errorMessage = [] then "query failed".toList else r.errorMessage)
  else .ok ((r.statements.head?.map StatementResult.tableData).getD [])

/-- `PostgresDatabase::describeTable` up to the schema and name it looks up. -/
def describeTable (tableName : Text) (w : Wire) : Except Text (Text × Text) :=
  if '.' ∈ tableName then
    .ok (tableName.takeWhile (· ≠ '.'), (tableName.dropWhile (· ≠ '.')).drop 1)
  else
    (rows srv db "SELECT current_schema()".toList w).map fun current =>
      let schema := match current with
        | (v :: _) :: _ => v
        | _ => "public".toList
      (schema, tableName)

def PostgresDatabase.session : Session := db.conn.getD (.fresh srv.dflt)

def PostgresDatabase.connected : PostgresDatabase :=
  { conn := some (db.session srv), searchPath := if db.conn = none then [] else db.searchPath }

variable {srv db} {sql : Text} {rowLimit : ℤ} {w : Wire} {c : Call}

@[simp] theorem session_connected : (db.connected srv).session srv = db.session srv := rfl

@[simp] theorem session_some (s : Session) (p : Text) :
    (PostgresDatabase.mk (some s) p).session srv = s := rfl

@[simp] theorem session_searchPath (db : PostgresDatabase) (p : Text) :
    PostgresDatabase.session srv { db with searchPath := p } = db.session srv := rfl

theorem ensureConn_ok (h : db.conn = none → w.connectError = none) :
    ensureConn srv db w = .ok (db.session srv, db.connected srv) := by
  obtain ⟨conn, p⟩ := db
  cases conn with
  | none => simp [ensureConn, h rfl, PostgresDatabase.session, PostgresDatabase.connected]
  | some s => simp [ensureConn, PostgresDatabase.session, PostgresDatabase.connected]

def sentRun (srv : Server) (db : PostgresDatabase) (sql : Text) (rowLimit : ℤ) (w : Wire) : Ran :=
  let s := db.session srv
  let stoppable := decide (0 < rowLimit) && decide (s.tx = .idle) && stoppableRead sql
  let r := s.roundTrip srv.dflt (srv.read sql) w.answers
  let st := collect rowLimit stoppable {} (r.2.flatMap (Answer.delivered rowLimit))
  { db := { db.connected srv with conn := some r.1 }
    result := { statements := st.statements }
    sent := some s
    cancelled := st.stopped }

theorem run_sent (hc : db.conn = none → w.connectError = none) (hw : w.sendError = none) :
    run srv db sql rowLimit w = sentRun srv db sql rowLimit w := by
  simp only [run, ensureConn_ok hc, hw]
  rfl

/-- A text reaches the server, or the call fails and the session is what it was. -/
theorem run_cases (srv : Server) (db : PostgresDatabase) (sql : Text) (rowLimit : ℤ) (w : Wire) :
    ((db.conn = none → w.connectError = none) ∧ w.sendError = none ∧
        run srv db sql rowLimit w = sentRun srv db sql rowLimit w) ∨
      ((run srv db sql rowLimit w).sent = none ∧
        (run srv db sql rowLimit w).cancelled = false ∧
        (run srv db sql rowLimit w).result.success = false ∧
        ((run srv db sql rowLimit w).db = db ∨
          (run srv db sql rowLimit w).db = db.connected srv)) := by
  by_cases hc : db.conn = none → w.connectError = none
  · cases hs : w.sendError with
    | none => exact Or.inl ⟨hc, rfl, run_sent hc hs⟩
    | some e =>
      right
      simp [run, ensureConn_ok hc, hs]
  · right
    obtain ⟨conn, p⟩ := db
    obtain ⟨hn, he⟩ := Classical.not_imp.mp hc
    obtain ⟨e, he⟩ := Option.ne_none_iff_exists'.mp he
    simp only at hn
    subst hn
    simp [run, ensureConn, he]

theorem delivered_statements {stoppable : Bool} (as : List Answer)
    (h : (collect rowLimit stoppable {} (as.flatMap (Answer.delivered rowLimit))).stopped = false) :
    (collect rowLimit stoppable {} (as.flatMap (Answer.delivered rowLimit))).statements =
      as.flatMap fun a => a.set.plain rowLimit := by
  by_cases hl : 0 < rowLimit
  · have hp : Answer.delivered rowLimit = Answer.pieces := funext fun a => if_pos hl
    have hd : as.flatMap (Answer.delivered rowLimit) = (as.map Answer.pieces).flatten := by
      rw [hp, List.flatMap_def]
    have hs : List.Forall₂ Split (as.map Answer.set) (as.map Answer.pieces) := by
      rw [List.forall₂_map_left_iff, List.forall₂_map_right_iff]
      exact List.forall₂_same.mpr fun a _ => a.split
    rw [hd] at h ⊢
    have := collect_batch hl [] hs h
    simpa [between, List.flatMap_map] using congrArg LoopState.statements this
  · have hp : Answer.delivered rowLimit = fun a => [a.set.whole] := funext fun a => if_neg hl
    have hd : as.flatMap (Answer.delivered rowLimit) =
        (as.map Answer.set).map ResultSet.whole := by
      rw [hp, List.map_map, List.map_eq_flatMap]
      rfl
    rw [hd]
    have := @collect_whole rowLimit stoppable [] false (as.map Answer.set)
    simpa [between, List.flatMap_map] using congrArg LoopState.statements this

theorem plain_success {r : ResultSet} (h : r ≠ .empty) (ms : List Text) :
    (QueryResult.mk (r.plain rowLimit) ms).success = !r.isFailed := by
  cases r with
  | rows fs rs =>
    rw [plain_rows]
    rfl
  | command t =>
    by_cases ht : t = []
    · simp [ResultSet.plain, ResultSet.whole, extractPgResult, ht, QueryResult.success,
        ResultSet.isFailed]
    · simp [ResultSet.plain, ResultSet.whole, extractPgResult, ht, QueryResult.success,
        ResultSet.isFailed]
  | empty => exact absurd rfl h
  | failed m =>
    rw [plain_failed]
    rfl

/-- The client sees a single statement succeed exactly when the server carried it out,
unless it stopped the statement itself. -/
theorem sentRun_success {st : Stmt} (hread : srv.read sql = [st])
    (h : (sentRun srv db sql rowLimit w).cancelled = false) :
    (sentRun srv db sql rowLimit w).result.success =
      (db.session srv).accepts st w.answers := by
  obtain ⟨a, ha, hne, hf⟩ := @Session.roundTrip_single srv.dflt (db.session srv) st w.answers
  simp only [sentRun, hread, ha] at h ⊢
  have hst := delivered_statements [a] h
  rw [hst, List.flatMap_singleton, plain_success hne, hf, Bool.not_not]

theorem sentRun_result {st : Stmt} (hread : srv.read sql = [st])
    (hacc : (db.session srv).accepts st w.answers = true)
    (h : (sentRun srv db sql rowLimit w).cancelled = false) :
    (sentRun srv db sql rowLimit w).result =
      { statements := (Answer.toStmt st w.answers).set.plain rowLimit } := by
  simp only [sentRun, hread, Session.roundTrip_accepted hacc] at h ⊢
  rw [delivered_statements _ h, List.flatMap_cons, List.flatMap_nil, List.append_nil]

theorem sentRun_not_cancelled (h : ¬ 0 < rowLimit) :
    (sentRun srv db sql rowLimit w).cancelled = false := by
  simp only [sentRun, h, decide_false, Bool.false_and]
  exact collect_not_stoppable _ _ rfl

theorem idle_of_cancelled (h : (sentRun srv db sql rowLimit w).cancelled = true) :
    (db.session srv).tx = .idle ∧ stoppableRead sql = true := by
  by_contra hn
  have hs : (decide (0 < rowLimit) && decide ((db.session srv).tx = .idle) &&
      stoppableRead sql) = false := by
    rw [not_and] at hn
    by_cases hi : (db.session srv).tx = .idle
    · simp [hi, hn hi]
    · simp [hi]
  simp only [sentRun, hs] at h
  rw [collect_not_stoppable _ _ rfl] at h
  exact Bool.false_ne_true h

theorem setRun_sent {st : Stmt} (hst : srv.read (pathCommand c.schema) = [st])
    (h : run srv db (pathCommand c.schema) 0 c.setWire =
      sentRun srv db (pathCommand c.schema) 0 c.setWire) :
    (setRun srv db c).result.success = (db.session srv).accepts st c.setWire.answers ∧
      (setRun srv db c).db = { db.connected srv with
        conn := some ((db.session srv).roundTrip srv.dflt [st] c.setWire.answers).1 } := by
  have hn : ¬ (0 : ℤ) < 0 := lt_irrefl 0
  rw [setRun, h]
  exact ⟨sentRun_success hst (sentRun_not_cancelled hn), by rw [sentRun, hst]⟩

end Run

section PlainServer

def setPrefix : Text := "SET search_path TO \"".toList

def readSet (sql : Text) : Option Text :=
  if setPrefix.isPrefixOf sql then
    match unquote (sql.drop 20) with
    | some (n, []) => some n
    | _ => none
  else none

def spellings : List (Text × Stmt) :=
  [("BEGIN".toList, .begin), ("COMMIT".toList, .commit), ("ROLLBACK".toList, .rollback),
    ("ABORT".toList, .abort), ("RESET search_path".toList, .reset)]

def readSchema (sql : Text) : Option Text :=
  if "SET SCHEMA '".toList.isPrefixOf sql then some ((sql.drop 12).takeWhile (· ≠ '\'')) else none

/-- One spelling of each statement this client or its user relies on; any other text is
one statement that touches neither the transaction nor the path. -/
def readPlainly (sql : Text) : Stmt :=
  match readSet sql with
  | some n => .setPath [n]
  | none =>
    match readSchema sql with
    | some n => .setSchema n
    | none => ((spellings.find? fun p => p.1 = sql).map Prod.snd).getD .other

theorem readSet_pathCommand {n : Text} (h : n ≠ []) : readSet (pathCommand n) = some n := by
  have hp : pathCommand n = setPrefix ++ (doubleQuotes n ++ ['"']) := by
    rw [pathCommand, if_neg h]
    rfl
  have hd : (pathCommand n).drop 20 = doubleQuotes n ++ ['"'] := by
    rw [hp]
    rfl
  have hpre : setPrefix.isPrefixOf (pathCommand n) = true := by
    rw [hp, List.isPrefixOf_iff_prefix]
    exact List.prefix_append _ _
  rw [readSet, if_pos hpre, hd, unquote_doubleQuotes]

theorem readPlainly_pathCommand {n : Text} (h : n ≠ []) :
    readPlainly (pathCommand n) = .setPath [n] := by
  rw [readPlainly, readSet_pathCommand h]

def plainServer (dflt : Path) : Server where
  dflt := dflt
  read sql := [readPlainly sql]
  read_rollback := by decide
  read_currentSchema := by decide
  read_reset := by decide
  read_set n h := by rw [readPlainly_pathCommand h.1]
  read_pathCommand n := by
    refine ⟨_, rfl, ?_⟩
    by_cases h : n = []
    · subst h
      decide
    · rw [readPlainly_pathCommand h]
      rfl

end PlainServer

def Call.setAccepted (srv : Server) (c : Call) : Bool :=
  (srv.read (pathCommand c.schema)).all fun st => !(Answer.toStmt st c.setWire.answers).set.isFailed

/-- A `ROLLBACK` typed through a handle, with nothing wrong on the network. -/
def Call.IsRollback (c : Call) : Prop :=
  c.sql = "ROLLBACK".toList ∧ c.setWire.Up ∧ c.wire.Up

instance (c : Call) : Decidable c.IsRollback := inferInstanceAs (Decidable (_ ∧ _ ∧ _))

/-- The text of the call was sent and its transaction is over. -/
def Ran.SentAndIdle (srv : Server) (r : Ran) : Prop :=
  r.sent ≠ none ∧ (r.db.session srv).tx = .idle

section Rollback
variable {srv : Server} {db : PostgresDatabase} {c : Call}

theorem runOn_session : ((runOn srv db c).db.session srv) =
    (run srv db c.sql c.rowLimit c.wire).db.session srv := by
  unfold runOn
  dsimp only
  split_ifs <;> rfl

theorem runOn_sent : (runOn srv db c).sent = (run srv db c.sql c.rowLimit c.wire).sent := by
  unfold runOn
  dsimp only
  split_ifs <;> rfl

theorem runOn_rollback (hc : c.IsRollback) : (runOn srv db c).SentAndIdle srv := by
  rw [Ran.SentAndIdle, runOn_session, runOn_sent, run_sent (fun _ => hc.2.2.1) hc.2.2.2, hc.1]
  refine ⟨by simp [sentRun], ?_⟩
  simp only [sentRun, srv.read_rollback, session_some]
  exact Session.roundTrip_rollback

/-- The preliminary round trip succeeds exactly when its command reaches a server that is
not in an aborted transaction and accepts it. -/
theorem setRun_success_iff :
    (setRun srv db c).result.success = true ↔
      (db.conn = none → c.setWire.connectError = none) ∧ c.setWire.sendError = none ∧
        (db.session srv).tx ≠ .aborted ∧ c.setAccepted srv = true := by
  obtain ⟨st, hst, he⟩ := srv.read_pathCommand c.schema
  have hacc : (db.session srv).accepts st c.setWire.answers = true ↔
      (db.session srv).tx ≠ .aborted ∧ c.setAccepted srv = true := by
    rw [Call.setAccepted, hst]
    simp [Session.accepts, Session.refuses, he]
  have hsent : ∀ h, (setRun srv db c).result.success =
      (db.session srv).accepts st c.setWire.answers := fun h => (setRun_sent hst h).1
  rcases run_cases srv db (pathCommand c.schema) 0 c.setWire with ⟨hc, hw, hrun⟩ | ⟨_, _, hf, _⟩
  · rw [hsent hrun, hacc]
    exact ⟨fun h => ⟨hc, hw, h⟩, fun h => h.2.2⟩
  · constructor
    · intro h
      rw [setRun, hf] at h
      exact absurd h Bool.false_ne_true
    · rintro ⟨hc, hw, ht⟩
      rw [hsent (run_sent hc hw)]
      exact hacc.mpr ht

theorem executeIn_rollback (hc : c.IsRollback) :
    (executeIn srv db c).SentAndIdle srv ↔
      c.schema = db.searchPath ∨ (db.session srv).tx ≠ .aborted ∧ c.setAccepted srv = true := by
  by_cases hp : c.schema = db.searchPath
  · have := @runOn_rollback srv db c hc
    simp [executeIn, hp, this]
  · have hset : (setRun srv db c).result.success = true ↔
        (db.session srv).tx ≠ .aborted ∧ c.setAccepted srv = true := by
      rw [setRun_success_iff]
      exact ⟨fun h => h.2.2, fun h => ⟨fun _ => hc.2.1.1, hc.2.1.2, h⟩⟩
    rw [← hset]
    cases hs : (setRun srv db c).result.success with
    | false => simp [executeIn, hp, hs, Ran.SentAndIdle]
    | true =>
      have := @runOn_rollback srv { (setRun srv db c).db with searchPath := c.schema } c hc
      simp [executeIn, hp, hs, this]

/-- After any run of calls, a `ROLLBACK` typed through a handle reaches the server and
ends the transaction exactly when no preliminary command is due, or the server is not in
an aborted transaction and accepts that command. -/
theorem rollback_ends_iff (srv : Server) (cs : List Call) (c : Call) (hc : c.IsRollback) :
    (executeIn srv (final (step srv) {} cs) c).SentAndIdle srv ↔
      c.schema = (final (step srv) {} cs).searchPath ∨
        ((final (step srv) {} cs).session srv).tx ≠ .aborted ∧ c.setAccepted srv = true :=
  executeIn_rollback hc

instance (srv : Server) (r : Ran) : Decidable (r.SentAndIdle srv) :=
  inferInstanceAs (Decidable (_ ∧ _))

/-- `BEGIN`, then a statement the server answers with an error, both through the
database handle. -/
def abortingCalls : List Call :=
  [{ schema := [], sql := "BEGIN".toList },
    { schema := [], sql := "SELEC 1".toList
      wire := { answers := [Answer.plainly (.failed ⟨"syntax error".toList, by decide⟩)] } }]

def rollbackCall : Call := { schema := [], sql := "ROLLBACK".toList }

theorem rollback_ends_begin :
    (executeIn (plainServer []) (final (step (plainServer [])) {} (abortingCalls.take 1))
      rollbackCall).SentAndIdle (plainServer []) :=
  (rollback_ends_iff (plainServer []) (abortingCalls.take 1) rollbackCall (by decide)).mpr
    (Or.inl (by decide))

/-- The failure marks the path unknown, the `RESET` it calls for is refused, and the
`ROLLBACK` is never sent. -/
theorem rollback_stuck_in_aborted :
    rollbackCall.IsRollback ∧
      ((final (step (plainServer [])) {} abortingCalls).session (plainServer [])).tx = .aborted ∧
      ¬ (executeIn (plainServer []) (final (step (plainServer [])) {} abortingCalls)
        rollbackCall).SentAndIdle (plainServer []) := by
  decide

end Rollback
end DearSql.Pg
