import DearSql.MssqlExecute
import DearSql.OracleQuery
import DearSql.SqliteExecute
import DearSql.Tokenizer

/-! A row fetch that fails part-way, on the three backends that read a result row by row. SQLite
looks at the code its loop ends with. Oracle does not, and MSSQL leaves a failed `dbnextrow` to a
`dbresults` that may find nothing more to read. -/
namespace DearSql
open Fetches

namespace Mssql
open Process

/-- After `n` rows and those of the list a fetch fails, on a live process and before the limit is
reached; `cancel` tells whether a cancel arrives during it. -/
def RowFails (rowLimit : ℤ) (cancel : Bool) : ℕ → List Fetch → Prop
  | _, [] => False
  | n, .row _ d :: fs => d.Quiet ∧ RowFails rowLimit cancel (n + 1) fs
  | n, .fail d :: fs => d.cancel = cancel ∧ d.lost = false ∧ fs = [] ∧ Below rowLimit n

/-- The last result is cut off so, those before it are read to their end. -/
def CutOff (rowLimit : ℤ) (cancel : Bool) : List Reply → Prop
  | [] => False
  | .failed _ :: _ => False
  | .command d _ :: rs => d.Quiet ∧ CutOff rowLimit cancel rs
  | .rows d _ fetches last :: rs => d.Quiet ∧
    (RowFails rowLimit cancel 0 fetches ∧ rs = [] ∨ ReadsOut last fetches ∧ CutOff rowLimit cancel rs)

/-- The batch is sent, and read until a fetch fails; the `dbresults` behind it would find no more
results. -/
structure FetchFails (d : Database) (c : Call) (cancel : Bool) : Prop where
  process : ∃ p, d.ensureConn c.opened = .ok p ∧ p.dead = false ∧ p.pending = false
  going : c.cancel = false
  accepted : (c.respond c.sql).accepted = true
  sent : (c.respond c.sql).sent.Quiet
  cutOff : CutOff c.rowLimit cancel (c.respond c.sql).replies
  closing : (c.respond c.sql).closing.lost = false

section Reading
variable {rowLimit limit : ℤ} {cancel : Bool} {p q : Process} {fetches : List Fetch}
  {replies : List Reply} {last : During} {statements : List StatementResult}

theorem RowFails.readsOut {n : ℕ} (h : RowFails rowLimit false n fetches) :
    ReadsOut last fetches := by
  induction fetches generalizing n with
  | nil => exact False.elim h
  | cons f fs ih =>
    cases f with
    | row cells d => exact ⟨h.1, ih h.2⟩
    | fail d => exact ⟨⟨h.1, h.2.1⟩, h.2.2.1⟩

theorem fetchRows_readsOut (hd : p.dead = false) (hc : p.cancelled = false)
    (h : ReadsOut p.last p.fetches) (tableData : List (List Text)) (limited : Bool) :
    let q := (fetchRows rowLimit p tableData limited).2
    q.dead = false ∧ q.cancelled = false ∧ q.fetches = [] :=
  (fetchRows_left tableData limited hd).2.mpr ⟨hc, h⟩

/-- A cancel that arrives during the fetch that fails is noticed. -/
theorem fetchRows_cancelled {n : ℕ} (tableData : List (List Text)) (limited : Bool)
    (hd : p.dead = false) (hfails : RowFails limit true n p.fetches) :
    (fetchRows rowLimit p tableData limited).2.cancelled = true := by
  fun_induction fetchRows rowLimit p tableData limited generalizing n with
  | case1 p data lim hc => exact hc
  | case2 p data lim hc q h =>
    cases nextRow_of_eq h with
    | finish _ hf hl => simp [hf, RowFails] at hfails
  | case3 p data lim hc q h =>
    cases nextRow_of_eq h with
    | refused hdead => simp [hdead] at hd
    | finishLost _ hf hl => simp [hf, RowFails] at hfails
    | rowLost _ hf hl => simp [hf, hl, RowFails, During.Quiet] at hfails
    | fail _ hf => simp_all [RowFails]
  | case4 p data lim hc cells q h hlim ih =>
    cases nextRow_of_eq h with
    | @row _ d fs _ hf hl =>
      rw [hf] at hfails
      exact ih (by simp [hd, hl]) (by simpa using hfails.2)
  | case5 p data lim hc cells q h hlim ih =>
    cases nextRow_of_eq h with
    | @row _ d fs _ hf hl =>
      rw [hf] at hfails
      exact ih (by simp [hd, hl]) (by simpa using hfails.2)

theorem extractDbLibResult_success (p : Process) (limit : ℤ) :
    (extractDbLibResult p limit).1.success = true := by
  unfold extractDbLibResult
  split_ifs <;> rfl

theorem takeResults_end (h : p.dbresults = (.noMoreResults, q)) :
    takeResults limit p statements = (statements, q) := by
  rw [takeResults]
  split
  · next h' => rw [h] at h'; cases h'; rfl
  · next h' => rw [h] at h'; cases h'
  · next h' => rw [h] at h'; cases h'

theorem takeResults_next (h : p.dbresults = (.succeed, q)) :
    takeResults limit p statements =
      if (extractDbLibResult q limit).2.cancelled then
        (statements ++ [failure QUERY_CANCELLED], cancelUnlessDead (extractDbLibResult q limit).2)
      else takeResults limit (extractDbLibResult q limit).2
        (statements ++ [(extractDbLibResult q limit).1]) := by
  rw [takeResults]
  split
  · next h' => rw [h] at h'; cases h'
  · next h' => rw [h] at h'; cases h'
  · next h' => rw [h] at h'; cases h'; rfl

/-- A live process between two results, with no cancel noticed. -/
structure Between (p : Process) (replies : List Reply) : Prop where
  alive : p.dead = false
  going : p.cancelled = false
  fetches : p.fetches = []
  replies : p.replies = replies
  closing : p.closing.lost = false

theorem Between.rows {d last : During} {columns : ColumnNames} {rs : List Reply}
    (h : Between p (.rows d columns fetches last :: rs)) (hd : d.Quiet) :
    ∃ q, p.dbresults = (.succeed, q) ∧ q.columns ≠ [] ∧ q.fetches = fetches ∧ q.last = last ∧
      Between { q with fetches := [] } rs := by
  have hnext : p.dbresults = (.succeed, { { p with replies := rs }.pass d with
      columns := columns.1, fetches := fetches, last := last }) := by
    rw [dbresults, if_neg (by simp [h.alive]), if_neg (by simp [h.fetches]), h.replies]
    exact if_neg (by simp [h.alive, Reply.during, hd.2])
  refine ⟨_, hnext, columns.2, rfl, rfl, ?_⟩
  constructor <;> simp [h.alive, h.going, hd.1, hd.2, h.closing]

theorem Between.command {d : During} {n : ℤ} {rs : List Reply}
    (h : Between p (.command d n :: rs)) (hd : d.Quiet) :
    ∃ q, p.dbresults = (.succeed, q) ∧ q.columns = [] ∧ Between q rs := by
  have hnext : p.dbresults = (.succeed, { { p with replies := rs }.pass d with
      columns := [], count := n }) := by
    rw [dbresults, if_neg (by simp [h.alive]), if_neg (by simp [h.fetches]), h.replies]
    exact if_neg (by simp [h.alive, Reply.during, hd.2])
  refine ⟨_, hnext, rfl, ?_⟩
  constructor <;> simp [h.alive, h.going, h.fetches, hd.1, hd.2, h.closing]

theorem Between.done (h : Between p []) : ∃ q, p.dbresults = (.noMoreResults, q) := by
  refine ⟨p.pass p.closing, ?_⟩
  rw [dbresults, if_neg (by simp [h.alive]), if_neg (by simp [h.fetches]), h.replies]
  simp [h.alive, h.closing]

theorem Between.readOut (h : Between { p with fetches := [] } replies) (hcolumns : p.columns ≠ [])
    (hread : ReadsOut p.last p.fetches) : Between (extractDbLibResult p limit).2 replies := by
  obtain ⟨hreplies, hclosing⟩ := extractDbLibResult_behind p limit
  have halive : p.dead = false := h.alive
  obtain ⟨hd, hc, hf⟩ := @fetchRows_readsOut limit p halive h.going hread [] false
  rw [← extractDbLibResult_rows hcolumns] at hd hc hf
  exact ⟨hd, hc, hf, hreplies.trans h.replies, hclosing ▸ h.closing⟩

theorem success_next (hs : ∀ s ∈ statements, s.success = true) (p : Process) :
    ∀ s ∈ statements ++ [(extractDbLibResult p limit).1], s.success = true :=
  List.forall_mem_append.mpr ⟨hs, List.forall_mem_singleton.mpr (extractDbLibResult_success p limit)⟩

/-- A call whose last result is cut off is a failure exactly where a cancel is noticed. -/
theorem takeResults_cutOff {messages : List Text} (h : Between p replies)
    (hcut : CutOff rowLimit cancel replies) (hs : ∀ s ∈ statements, s.success = true) :
    (QueryResult.mk (takeResults limit p statements).1 messages).success = !cancel := by
  induction replies generalizing p statements with
  | nil => exact False.elim hcut
  | cons r rs ih =>
    cases r with
    | failed d => exact False.elim hcut
    | command d n =>
      obtain ⟨q, hq, hcolumns, hbetween⟩ := h.command hcut.1
      have hsame : (extractDbLibResult q limit).2 = q := extractDbLibResult_command hcolumns
      rw [takeResults_next hq, hsame, if_neg (by simp [hbetween.going])]
      exact ih hbetween hcut.2 (success_next hs q)
    | rows d columns fetches last =>
      obtain ⟨q, hq, hcolumns, rfl, rfl, hbetween⟩ := h.rows hcut.1
      rw [takeResults_next hq]
      rcases hcut.2 with ⟨hfails, rfl⟩ | ⟨hread, hcut⟩
      · cases cancel with
        | false =>
          have hend : Between (extractDbLibResult q limit).2 [] :=
            hbetween.readOut hcolumns hfails.readsOut
          obtain ⟨q', hq'⟩ := hend.done
          rw [if_neg (by simp [hend.going]), takeResults_end hq', Bool.not_false,
            QueryResult.success_iff]
          exact ⟨by simp, success_next hs q⟩
        | true =>
          have hcancel : (extractDbLibResult q limit).2.cancelled = true := by
            rw [extractDbLibResult_rows hcolumns]
            exact fetchRows_cancelled [] false hbetween.alive hfails
          rw [if_pos hcancel]
          exact QueryResult.not_success_of_mem (List.mem_append_right _ (List.mem_singleton_self _)) rfl
      · have hend : Between (extractDbLibResult q limit).2 rs := hbetween.readOut hcolumns hread
        rw [if_neg (by simp [hend.going])]
        exact ih hend hcut (success_next hs q)

theorem executeQueryOnProcess_cutOff {respond : Text → Batch} {query : Text}
    (hd : p.dead = false) (hp : p.pending = false) (hc : p.cancelled = false)
    (hsent : (respond query).sent.Quiet) (haccepted : (respond query).accepted = true)
    (hclosing : (respond query).closing.lost = false)
    (hcut : CutOff rowLimit cancel (respond query).replies) :
    (executeQueryOnProcess respond p query limit).1.success = !cancel := by
  have hf : p.fetches = [] := by
    have hboth : p.fetches = [] ∧ p.replies = [] := by simpa [pending] using hp
    exact hboth.1
  have hs := @dbsqlexec_send (p.clearLastError.clearInfoMessages.dbcmd query) respond hd hp
  have hcommand : (p.clearLastError.clearInfoMessages.dbcmd query).command = query := rfl
  have hbetween : Between ((p.clearLastError.clearInfoMessages.dbcmd query).send respond)
      (respond query).replies := by
    constructor <;> simp [send, hd, hc, hf, hsent.1, hsent.2, hclosing, dbcmd, clearLastError,
      clearInfoMessages]
  rw [hcommand, haccepted, hsent.2] at hs
  unfold executeQueryOnProcess
  simp only [hs, Bool.not_false, Bool.and_self, if_true]
  exact takeResults_cutOff hbetween hcut (by simp)

theorem execute_cutOff {d : Database} {c : Call} (h : FetchFails d c cancel) :
    (d.execute c).1.success = !cancel := by
  obtain ⟨p, hp, hdead, hpending⟩ := h.process
  unfold Database.execute
  simp only [hp]
  exact executeQueryOnProcess_cutOff (p := { p with cancelled := c.cancel }) hdead hpending h.going
    h.sent h.accepted h.closing h.cutOff

end Reading
end Mssql

/-- `firstOrThrow` of the calls every backend shares. -/
def firstOrThrow (r : QueryResult) : Except Text StatementResult :=
  if !r.success then .error (if r.errorMessage = [] then "query failed".toList else r.errorMessage)
  else .ok (r.statements.headD {})

/-- A call of `execute` on one of the backends. -/
inductive ExecuteCall
  | oracle (d : Oracle.Database) (c : Oracle.Call)
  | mssql (d : Mssql.Database) (c : Mssql.Call)
  | sqlite (db : Sqlite.Db) (sql : Text) (rowLimit : ℤ)

namespace ExecuteCall

def type : ExecuteCall → DatabaseType
  | .oracle _ _ => .ORACLE
  | .mssql _ _ => .MSSQL
  | .sqlite _ _ _ => .SQLITE

def result : ExecuteCall → QueryResult
  | .oracle d c => (d.execute c).1
  | .mssql d c => (d.execute c).1
  | .sqlite db sql rowLimit => Sqlite.runMultiStatement db sql rowLimit

/-- What a catalog call makes of the result: `queryRows` on Oracle; `rows` on MSSQL and the shared
calls read it by `firstOrThrow`. -/
def catalogRows (e : ExecuteCall) : Except Text (List (List Text)) :=
  match e with
  | .oracle _ _ => Oracle.rowsOf e.result
  | .mssql _ _ | .sqlite _ _ _ => (firstOrThrow e.result).map StatementResult.tableData

/-- A fetch fails before the row limit is reached, on MSSQL without a failed `dbresults` behind
it; `cancel` tells whether MSSQL's handle is cancelled during the fetch. -/
def FetchFails (cancel : Bool) : ExecuteCall → Prop
  | .oracle d c => ∃ rs e, Oracle.FetchFails d c rs e
  | .mssql d c => Mssql.FetchFails d c cancel
  | .sqlite db sql rowLimit => ∃ s, Sqlite.Reaches db rowLimit 0 (cstr sql) s ∧ s.StepFails rowLimit

/-- The result is no success, and a catalog call throws. -/
def Reported (e : ExecuteCall) : Prop :=
  e.result.success = false ∧ ∃ what, e.catalogRows = .error what

variable {e : ExecuteCall} {cancel : Bool}

/-- The catalog calls look at `success()` alone. -/
theorem reported_iff : e.Reported ↔ e.result.success = false := by
  refine and_iff_left_of_imp fun h => ?_
  cases e with
  | oracle d c => exact ⟨_, by rw [catalogRows, Oracle.rowsOf, h]; rfl⟩
  | mssql d c => exact ⟨_, by rw [catalogRows, firstOrThrow, h]; rfl⟩
  | sqlite db sql rowLimit => exact ⟨_, by rw [catalogRows, firstOrThrow, h]; rfl⟩

/-- A fetch that fails part-way is reported by SQLite; by MSSQL when a cancel arrives with it, and
by Oracle never. -/
theorem fetch_failure_reported_iff (h : e.FetchFails cancel) :
    e.Reported ↔ e.type = .SQLITE ∨ e.type = .MSSQL ∧ cancel = true := by
  rw [reported_iff]
  cases e with
  | oracle d c =>
    obtain ⟨rs, what, h⟩ := h
    simp [result, type, (Oracle.execute_truncated h).1]
  | mssql d c => simp [result, type, Mssql.execute_cutOff h]
  | sqlite db sql rowLimit =>
    obtain ⟨s, hreaches, hfails⟩ := h
    simp [result, type, Sqlite.runMultiStatement_fails hreaches hfails]

/-- A statement whose second step fails. -/
def brokenRead : Sqlite.Statement where
  columnNames := [['a']]
  steps := [.row [.text (some ['1'])], .failed "disk I/O error".toList]

theorem second_step_reported :
    (ExecuteCall.sqlite (fun _ _ => ⟨.statement brokenRead, 8, by decide⟩)
      "SELECT a".toList 0).Reported ↔
      DatabaseType.SQLITE = .SQLITE ∨ DatabaseType.SQLITE = .MSSQL ∧ false = true :=
  fetch_failure_reported_iff (e := .sqlite (fun _ _ => ⟨.statement brokenRead, 8, by decide⟩)
      "SELECT a".toList 0)
    ⟨brokenRead, .here rfl rfl, [[.text (some ['1'])]], "disk I/O error".toList,
      .inl le_rfl, [], rfl⟩

/-- A session whose second fetch fails. -/
def brokenSession : Oracle.Session := fun _ =>
  .ok ⟨true, fun _ => .ok (.rows [['A']] [.row [.bytes ['1']], .failed "ORA-01555".toList])⟩

theorem second_fetch_unreported :
    ¬ ∀ (e : ExecuteCall) (cancel : Bool), e.FetchFails cancel → e.Reported := by
  intro h
  have hfails : Oracle.FetchFails { schema_ := ['S'], username := ['s'], conn_ := true }
      { sql := "SELECT a FROM t".toList, rowLimit := 0, fresh := brokenSession
        session := brokenSession } [[.bytes ['1']]] "ORA-01555".toList :=
    ⟨rfl, _, _, _, rfl, rfl, .inl le_rfl, [], rfl⟩
  have hreported := (h (.oracle _ _) false ⟨_, _, hfails⟩).1
  rw [result, (Oracle.execute_truncated hfails).1] at hreported
  exact Bool.noConfusion hreported

end ExecuteCall
end DearSql
