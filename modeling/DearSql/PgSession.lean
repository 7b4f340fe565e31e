import DearSql.PgStream

/-! A PostgreSQL session as its documentation describes it: the transaction state and the
`search_path` setting, which is transactional. A batch runs statement by statement and
stops at the first failure; outside `BEGIN` it is one implicit transaction. -/
namespace DearSql.Pg

inductive TxState
  | idle | inTransaction | aborted
  deriving DecidableEq, Repr

abbrev Path := List Text

/-- A new value of `search_path`: for the session, or until the transaction ends. -/
inductive Setting
  | session (p : Path)
  | transaction (p : Path)
  deriving DecidableEq, Repr

/-- A statement, by what it does to the transaction and to `search_path`. -/
inductive Stmt
  | setPath (p : Path)      -- SET search_path TO p, however it is spelled
  | setLocal (p : Path)     -- SET LOCAL search_path TO p, SET LOCAL SCHEMA
  | setSchema (name : Text) -- SET SCHEMA 'name', an alias of SET search_path
  | reset                   -- RESET search_path, RESET ALL
  | discard                 -- DISCARD ALL
  | begin | commit | rollback | abort
  | other                   -- may set the path through a function it calls
  deriving DecidableEq, Repr

/-- `ROLLBACK`, `ABORT` and `COMMIT` end the transaction. -/
def Stmt.endsTx : Stmt → Bool
  | .commit | .rollback | .abort => true
  | _ => false

/-- `ROLLBACK` and `ABORT` cannot fail. -/
def Stmt.isRollback : Stmt → Bool
  | .rollback | .abort => true
  | _ => false

structure Session where
  tx : TxState := .idle
  /-- what `COMMIT` keeps -/
  path : Path
  /-- a `SET LOCAL` value, in force until the transaction ends -/
  localPath : Option Path := none
  /-- what a rollback restores: the value the transaction began with -/
  saved : Path
  deriving DecidableEq, Repr

namespace Session

/-- The setting in force. -/
def searchPath (s : Session) : Path := s.localPath.getD s.path

def fresh (dflt : Path) : Session := { path := dflt, saved := dflt }

def rolledBack (s : Session) : Session :=
  { tx := .idle, path := s.saved, localPath := none, saved := s.saved }

def committed (s : Session) : Session :=
  { tx := .idle, path := s.path, localPath := none, saved := s.path }

/-- A failure undoes the transaction at once; an explicit one stays open, aborted. -/
def failed (s : Session) : Session :=
  { s.rolledBack with tx := if s.tx = .idle then .idle else .aborted }

def set (s : Session) : Option Setting → Session
  | none => s
  | some (.session p) => { s with path := p, localPath := none }
  | some (.transaction p) => { s with localPath := some p }

/-- An aborted transaction refuses everything that does not end it. -/
def refuses (s : Session) (st : Stmt) : Bool := s.tx = .aborted && !st.endsTx

/-- A statement that fails: at `COMMIT` the transaction is over all the same. -/
def execFailed (s : Session) (st : Stmt) : Session :=
  if st.endsTx then s.rolledBack else s.failed

end Session

def ResultSet.isFailed : ResultSet → Bool
  | .failed _ => true
  | _ => false

/-- The server's answer to one statement, with the pieces libpq delivers it in, and what
the functions it called have made of `search_path`. -/
structure Answer where
  set : ResultSet
  pieces : List PGresult
  split : Split set pieces
  setting : Option Setting := none

namespace Answer

def plainly : ResultSet → Answer
  | .rows fs rs =>
    { set := .rows fs rs, pieces := [tuplesOk fs rs], split := by simpa using Split.rows fs [] rs }
  | .command t =>
    { set := .command t, pieces := [ResultSet.whole (.command t)], split := .command t }
  | .empty => { set := .empty, pieces := [ResultSet.whole .empty], split := .empty }
  | .failed m =>
    { set := .failed m, pieces := [fatalError m.1], split := by simpa using Split.failed [] [] m }

def done : Answer := plainly (.command [])

def emptyQuery : Answer := plainly .empty

def refusal : Answer :=
  plainly (.failed ⟨"current transaction is aborted".toList, by decide⟩)

/-- What the server answers to `st` from the answers ready: a missing one is a plain
success, no statement gets the empty query's answer, and a rollback cannot fail. -/
def toStmt (st : Stmt) (as : List Answer) : Answer :=
  let a := as.headD .done
  if a.set = .empty ∨ (a.set.isFailed = true ∧ st.isRollback = true) then .done else a

/-- The pieces of the answer: whole unless the query asked for chunks. -/
def delivered (rowLimit : ℤ) (a : Answer) : List PGresult :=
  if 0 < rowLimit then a.pieces else [a.set.whole]

end Answer

/-- What an accepted statement, answered by `a`, sets `search_path` to. -/
def Stmt.setting (dflt : Path) (a : Answer) : Stmt → Option Setting
  | .setPath p => some (.session p)
  | .setSchema n => some (.session [n])
  | .reset | .discard => some (.session dflt)
  | .setLocal p => some (.transaction p)
  | .other => a.setting
  | _ => none

namespace Session

/-- A statement that succeeds. -/
def exec (dflt : Path) (s : Session) (st : Stmt) (a : Answer) : Session :=
  match st with
  | .begin => { s with tx := .inTransaction }
  | .commit => if s.tx = .aborted then s.rolledBack else s.committed
  | .rollback | .abort => s.rolledBack
  | st => s.set (st.setting dflt a)

/-- The statements of a batch with the answers the environment has ready for them. -/
def execBatch (dflt : Path) : Session → List Stmt → List Answer → Session × List Answer
  | s, [], _ => (s, [])
  | s, st :: sts, as =>
    let a := Answer.toStmt st as
    if s.refuses st then (s, [.refusal])
    else if a.set.isFailed then (s.execFailed st, [a])
    else
      let r := execBatch dflt (s.exec dflt st a) sts as.tail
      (r.1, a :: r.2)

/-- Outside a transaction the batch begins an implicit one. -/
def beginBatch (s : Session) : Session := if s.tx = .idle then { s with saved := s.path } else s

/-- The implicit transaction commits with the batch. -/
def endBatch (s : Session) : Session := if s.tx = .idle then s.committed else s

/-- One simple query: the session after it, and what the server answered. -/
def roundTrip (dflt : Path) (s : Session) (sts : List Stmt) (as : List Answer) :
    Session × List Answer :=
  let r := execBatch dflt s.beginBatch sts as
  (r.1.endBatch, if sts = [] then [.emptyQuery] else r.2)

section OneStatement
variable {dflt : Path} {s : Session} {st : Stmt} {as : List Answer}

@[simp] theorem set_tx (x : Option Setting) : (s.set x).tx = s.tx := by
  rcases x with _ | _ | _ <;> rfl

theorem exec_set {a : Answer} (he : st.endsTx = false) (hb : st ≠ .begin) :
    s.exec dflt st a = s.set (st.setting dflt a) := by
  cases st with
  | begin => exact absurd rfl hb
  | commit | rollback | abort => cases he
  | _ => rfl

def accepts (s : Session) (st : Stmt) (as : List Answer) : Bool :=
  !s.refuses st && !(Answer.toStmt st as).set.isFailed

@[simp] theorem beginBatch_tx : s.beginBatch.tx = s.tx := by
  unfold beginBatch
  split_ifs <;> rfl

@[simp] theorem beginBatch_path : s.beginBatch.path = s.path := by
  unfold beginBatch
  split_ifs <;> rfl

@[simp] theorem beginBatch_localPath : s.beginBatch.localPath = s.localPath := by
  unfold beginBatch
  split_ifs <;> rfl

theorem roundTrip_refused (h : s.refuses st = true) :
    s.roundTrip dflt [st] as = (s, [.refusal]) := by
  have htx : s.tx = .aborted := by
    simp only [refuses, Bool.and_eq_true, decide_eq_true_eq] at h
    exact h.1
  have hb : s.beginBatch = s := by simp [beginBatch, htx]
  simp [roundTrip, hb, execBatch, h, endBatch, htx]

theorem roundTrip_failed (h : s.refuses st = false)
    (ha : (Answer.toStmt st as).set.isFailed = true) :
    s.roundTrip dflt [st] as =
      ((s.beginBatch.execFailed st).endBatch, [Answer.toStmt st as]) := by
  have hb : s.beginBatch.refuses st = false := by simpa [refuses] using h
  simp [roundTrip, execBatch, hb, ha]

theorem roundTrip_accepted (h : s.accepts st as = true) :
    s.roundTrip dflt [st] as =
      ((s.beginBatch.exec dflt st (Answer.toStmt st as)).endBatch, [Answer.toStmt st as]) := by
  simp only [accepts, Bool.and_eq_true, Bool.not_eq_true'] at h
  have hb : s.beginBatch.refuses st = false := by simpa [refuses] using h.1
  simp only [roundTrip, execBatch, hb, h.2]
  simp

/-- An accepted statement is answered with a success, a refused or failed one is not. -/
theorem roundTrip_single (s : Session) (st : Stmt) (as : List Answer) :
    ∃ a : Answer, (s.roundTrip dflt [st] as).2 = [a] ∧ a.set ≠ .empty ∧
      a.set.isFailed = !s.accepts st as := by
  have hne : (Answer.toStmt st as).set ≠ .empty := by
    unfold Answer.toStmt
    dsimp only
    split_ifs with h
    · simp [Answer.done, Answer.plainly]
    · exact fun he => h (Or.inl he)
  by_cases hr : s.refuses st = true
  · refine ⟨.refusal, by rw [roundTrip_refused hr], by simp [Answer.refusal, Answer.plainly], ?_⟩
    simp [accepts, hr, Answer.refusal, Answer.plainly, ResultSet.isFailed]
  · rw [Bool.not_eq_true] at hr
    refine ⟨_, ?_, hne, by simp [accepts, hr]⟩
    cases ha : (Answer.toStmt st as).set.isFailed with
    | true => rw [roundTrip_failed hr ha]
    | false => rw [roundTrip_accepted (by simp only [accepts, hr, ha]; rfl)]

/-- `ROLLBACK` is never refused, never fails and leaves the session idle. -/
theorem roundTrip_rollback : (s.roundTrip dflt [.rollback] as).1.tx = .idle := by
  have ha : s.accepts .rollback as = true := by
    have hf : (Answer.toStmt .rollback as).set.isFailed = false := by
      unfold Answer.toStmt
      dsimp only
      split_ifs with h
      · rfl
      · simpa [Stmt.isRollback] using fun hf => h (Or.inr ⟨hf, rfl⟩)
    simp [accepts, refuses, Stmt.endsTx, hf]
  rw [roundTrip_accepted ha]
  rfl

end OneStatement
end Session
end DearSql.Pg
