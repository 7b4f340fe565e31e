import DearSql.DbLib
import DearSql.Runs

/-! `MSSQLDatabase::execute`. Whatever a batch answers, the process must be handed back
with nothing pending: the row limit drains, a cancel and a refused batch discard. The
exit after a failed `dbresults` does neither. -/
namespace DearSql.Mssql
open Process

def colToString : Cell → Text
  | .null => NULL_SENTINEL
  | .converted buf => cstr buf
  | .raw data => data

/-- The row loop of `extractDbLibResult`: the rows kept, and whether the limit was met. -/
def fetchRows (rowLimit : ℤ) (p : Process) (tableData : List (List Text)) (limited : Bool) :
    (List (List Text) × Bool) × Process :=
  if p.cancelled then ((tableData, limited), p)
  else match _h : p.dbnextrow with
    | (.noMoreRows, q) => ((tableData, limited), q)
    | (.fail, q) => ((tableData, limited), q)
    | (.row cells, q) =>
      if rowLimit ≤ tableData.length then fetchRows rowLimit q tableData true
      else fetchRows rowLimit q (tableData ++ [cells.map colToString]) limited
termination_by p.fetches.length
decreasing_by all_goals exact dbnextrow_shrinks _h

def extractDbLibResult (p : Process) (rowLimit : ℤ) : StatementResult × Process :=
  if p.columns ≠ [] then
    let out := fetchRows rowLimit p [] false
    ({ columnNames := p.columns, tableData := out.1.1,
       message := returnedRows out.1.1.length ++
        (if out.1.2 then " (limited to ".toList ++ itoa rowLimit ++ ")".toList else []) }, out.2)
  else if 0 ≤ p.count then
    ({ message := itoa p.count ++ " row(s) affected".toList, affectedRows := p.count }, p)
  else ({ message := "Query executed successfully".toList }, p)

theorem fetchRows_behind (rowLimit : ℤ) (p : Process) (tableData : List (List Text))
    (limited : Bool) :
    let q := (fetchRows rowLimit p tableData limited).2
    q.replies = p.replies ∧ q.closing = p.closing := by
  fun_induction fetchRows rowLimit p tableData limited with
  | case1 p => exact ⟨rfl, rfl⟩
  | case2 p _ _ _ q h => exact dbnextrow_behind h
  | case3 p _ _ _ q h => exact dbnextrow_behind h
  | case4 p _ _ _ cells q h _ ih =>
    exact ⟨ih.1.trans (dbnextrow_behind h).1, ih.2.trans (dbnextrow_behind h).2⟩
  | case5 p _ _ _ cells q h _ ih =>
    exact ⟨ih.1.trans (dbnextrow_behind h).1, ih.2.trans (dbnextrow_behind h).2⟩

theorem extractDbLibResult_behind (p : Process) (rowLimit : ℤ) :
    let q := (extractDbLibResult p rowLimit).2
    q.replies = p.replies ∧ q.closing = p.closing := by
  unfold extractDbLibResult
  split_ifs
  · exact fetchRows_behind rowLimit p [] false
  · exact ⟨rfl, rfl⟩
  · exact ⟨rfl, rfl⟩

def QUERY_CANCELLED : Text := "Query cancelled".toList

def errorText (p : Process) : Text := if p.cancelled then QUERY_CANCELLED else p.getLastError

def cancelUnlessDead (p : Process) : Process := if p.dead then p else p.dbcancel

/-- The result loop of `executeQueryOnProcess`. -/
def takeResults (rowLimit : ℤ) (p : Process) (statements : List StatementResult) :
    List StatementResult × Process :=
  match _h : p.dbresults with
  | (.noMoreResults, q) => (statements, q)
  | (.fail, q) => (statements ++ [failure (errorText q)], q)
  | (.succeed, q) =>
    let e := extractDbLibResult q rowLimit
    if e.2.cancelled then (statements ++ [failure QUERY_CANCELLED], cancelUnlessDead e.2)
    else takeResults rowLimit e.2 (statements ++ [e.1])
termination_by p.replies.length
decreasing_by
  rw [(extractDbLibResult_behind _ _).1]
  exact dbresults_shrinks _h

/-- `executeQueryOnProcess`; `respond` is the server at the time of the call. -/
def executeQueryOnProcess (respond : Text → Batch) (p : Process) (query : Text)
    (rowLimit : ℤ) : QueryResult × Process :=
  let p := p.clearLastError.clearInfoMessages.dbcmd query
  let sent := p.dbsqlexec respond
  let out :=
    if sent.1 then takeResults rowLimit sent.2 []
    else ([failure (errorText sent.2)], cancelUnlessDead sent.2)
  ({ statements := out.1, messages := out.2.infoMessages }, out.2.clearInfoMessages)

def INT_MAX : ℤ := 2147483647

/-- What a fresh connection is: nothing has been asked of it yet. -/
abbrev FreshProcess := {p : Process // p.pending = false}

/-- One handle over its own process; `conn_` is none before the first use. -/
structure Database where
  conn_ : Option Process := none

/-- A call of `execute`: what opening a connection gives if it comes to that, what the
server answers, and whether a cancel arrives while the call waits for its turn. -/
structure Call where
  sql : Text
  rowLimit : ℤ
  opened : Except Text FreshProcess
  respond : Text → Batch
  cancel : Bool := false

/-- `ensureConn`: a dead connection is closed and opened again. -/
def Database.ensureConn (d : Database) (opened : Except Text FreshProcess) :
    Except Text Process :=
  match d.conn_ with
  | some p => if p.dead then opened.map Subtype.val else .ok p
  | none => opened.map Subtype.val

/-- `MSSQLDatabase::execute`; the flag is cleared when the call is over. -/
def Database.execute (d : Database) (c : Call) : QueryResult × Database :=
  match d.ensureConn c.opened with
  | .error what => ({ statements := [failure what] }, { conn_ := none })
  | .ok p =>
    let out := executeQueryOnProcess c.respond { p with cancelled := c.cancel } c.sql
      (if 0 < c.rowLimit then c.rowLimit else INT_MAX)
    (out.1, { conn_ := some { out.2 with cancelled := false } })

def During.Quiet (d : During) : Prop := d.cancel = false ∧ d.lost = false

/-- A fetch fails with rows of the set behind it, and nothing ends the reading before. -/
def LeavesRows : List Fetch → Prop
  | [] => False
  | .row _ d :: fs => d.Quiet ∧ LeavesRows fs
  | .fail d :: fs => d.Quiet ∧ fs ≠ []

def ReadsOut (last : During) : List Fetch → Prop
  | [] => last.Quiet
  | .row _ d :: fs => d.Quiet ∧ ReadsOut last fs
  | .fail d :: fs => d.Quiet ∧ fs = []

/-- A statement fails with results behind it, or a fetch with rows behind it, and neither
a cancel nor a lost connection ends the reading before. -/
def LeavesResults : Bool → List Reply → Prop
  | _, [] => False
  | _, .failed d :: rs => d.lost = false ∧ rs ≠ []
  | cancelled, .command d _ :: rs => cancelled = false ∧ d.Quiet ∧ LeavesResults false rs
  | cancelled, .rows d _ fs last :: rs =>
    cancelled = false ∧ d.Quiet ∧ (LeavesRows fs ∨ ReadsOut last fs ∧ LeavesResults false rs)

/-- Reading the results of a live process will leave some of them pending. -/
def Process.LeavesPending (p : Process) : Prop :=
  p.dead = false ∧ (p.fetches ≠ [] ∨ LeavesResults p.cancelled p.replies)

def Process.Clean (p : Process) : Prop := p.dead = false → p.pending = false

section Loops
variable {rowLimit : ℤ} {p q : Process}

/-- Where the row loop leaves a process that is alive with no cancel noticed. -/
theorem fetchRows_left (tableData : List (List Text)) (limited : Bool) (hd : p.dead = false) :
    let q := (fetchRows rowLimit p tableData limited).2
    (q.dead = false ∧ q.cancelled = false ∧ q.fetches ≠ [] ↔
      p.cancelled = false ∧ LeavesRows p.fetches) ∧
    (q.dead = false ∧ q.cancelled = false ∧ q.fetches = [] ↔
      p.cancelled = false ∧ ReadsOut p.last p.fetches) := by
  fun_induction fetchRows rowLimit p tableData limited with
  | case1 p data lim hc => simp [hc]
  | case2 p data lim hc q h =>
    cases nextRow_of_eq h with
    | finish _ hf hl => simp [hd, hf, hl, hc, LeavesRows, ReadsOut, During.Quiet]
  | case3 p data lim hc q h =>
    cases nextRow_of_eq h with
    | refused hdead => simp [hdead] at hd
    | finishLost _ hf hl => simp [hf, hl, LeavesRows, ReadsOut, During.Quiet]
    | rowLost _ hf hl => simp [hf, hl, LeavesRows, ReadsOut, During.Quiet]
    | fail _ hf => simp [hd, hf, hc, LeavesRows, ReadsOut, During.Quiet]; tauto
  | case4 p data lim hc cells q h hlim ih =>
    cases nextRow_of_eq h with
    | @row _ d fs _ hf hl =>
      have h := ih (by simp [hd, hl])
      simpa [hf, hl, hc, LeavesRows, ReadsOut, During.Quiet] using h
  | case5 p data lim hc cells q h hlim ih =>
    cases nextRow_of_eq h with
    | @row _ d fs _ hf hl =>
      have h := ih (by simp [hd, hl])
      simpa [hf, hl, hc, LeavesRows, ReadsOut, During.Quiet] using h

theorem extractDbLibResult_rows (hc : p.columns ≠ []) :
    (extractDbLibResult p rowLimit).2 = (fetchRows rowLimit p [] false).2 := by
  unfold extractDbLibResult
  rw [if_pos hc]

theorem extractDbLibResult_command (hc : p.columns = []) :
    (extractDbLibResult p rowLimit).2 = p := by
  unfold extractDbLibResult
  rw [if_neg (not_not.mpr hc)]
  split_ifs <;> rfl

theorem leavesResults_lost {c : Bool} {r : Reply} {rs : List Reply} (hl : r.during.lost = true) :
    ¬ LeavesResults c (r :: rs) := by
  cases r <;> simp_all [LeavesResults, During.Quiet, Reply.during]

theorem cancelUnlessDead_clean (p : Process) : (cancelUnlessDead p).Clean := by
  unfold cancelUnlessDead
  split_ifs with h
  · intro hd
    simp [h] at hd
  · exact fun _ => rfl

theorem extractDbLibResult_left (h : p.dbresults = (.succeed, q)) :
    (extractDbLibResult q rowLimit).2.cancelled = false ∧
      (extractDbLibResult q rowLimit).2.LeavesPending ↔ p.LeavesPending := by
  have hreplies := (extractDbLibResult_behind q rowLimit).1
  cases nextResult_of_eq h with
  | @rows d last columns fs rs hd hf hr hl =>
    generalize hq : ({ { p with replies := rs }.pass d with
      columns := columns.1, fetches := fs, last := last } : Process) = q at hreplies ⊢
    have hdead : q.dead = false := by simp [← hq, hd, hl]
    have hcancel : q.cancelled = (p.cancelled || d.cancel) := by simp [← hq]
    have hfetches : q.fetches = fs := by rw [← hq]
    have hlast : q.last = last := by rw [← hq]
    have hrs : q.replies = rs := by simp [← hq]
    obtain ⟨hstop, hend⟩ := @fetchRows_left rowLimit q [] false hdead
    rw [← extractDbLibResult_rows (by rw [← hq]; exact columns.2), hcancel, hfetches] at hstop hend
    rw [hlast] at hend
    rw [hrs] at hreplies
    generalize extractDbLibResult q rowLimit = e at hstop hend hreplies ⊢
    have hright : p.LeavesPending ↔ (p.cancelled || d.cancel) = false ∧
        (LeavesRows fs ∨ ReadsOut last fs ∧ LeavesResults false rs) := by
      simp [Process.LeavesPending, LeavesResults, During.Quiet, hd, hf, hr, hl, and_assoc]
    have hleft : e.2.cancelled = false ∧ e.2.LeavesPending ↔
        (e.2.dead = false ∧ e.2.cancelled = false ∧ e.2.fetches ≠ []) ∨
        (e.2.dead = false ∧ e.2.cancelled = false ∧ e.2.fetches = []) ∧ LeavesResults false rs := by
      by_cases hx : e.2.fetches = []
      · simp only [Process.LeavesPending, hreplies, hx]
        grind
      · simp only [Process.LeavesPending, hx]
        grind
    rw [hleft, hright, hstop, hend, and_assoc, ← and_or_left]
  | @command d n rs hd hf hr hl =>
    rw [extractDbLibResult_command rfl]
    have hright : p.LeavesPending ↔ (p.cancelled || d.cancel) = false ∧ LeavesResults false rs := by
      simp [Process.LeavesPending, LeavesResults, During.Quiet, hd, hf, hr, hl, and_assoc]
    rw [hright]
    simp [Process.LeavesPending, hd, hf, hl]
    grind

/-- Where the result loop ends: with something pending exactly when it trips on its way. -/
theorem takeResults_clean (statements : List StatementResult) :
    ¬ (takeResults rowLimit p statements).2.Clean ↔ p.LeavesPending := by
  unfold Process.Clean
  fun_induction takeResults rowLimit p statements with
  | case1 p out q h =>
    cases nextResult_of_eq h with
    | finish hd hf hr hl => simp [hf, hr, pending, LeavesResults, Process.LeavesPending]
  | case2 p out q h =>
    cases nextResult_of_eq h with
    | refused hd => simp [hd, Process.LeavesPending]
    | rowsLeft hd hf => simp [hd, hf, pending, Process.LeavesPending]
    | finishLost hd hf hr hl => simp [hf, hr, hl, LeavesResults, Process.LeavesPending]
    | lost hd hf hr hl => simp [hf, hr, hl, leavesResults_lost, Process.LeavesPending]
    | failed hd hf hr hl => simp [hd, hf, hr, hl, pending, LeavesResults, Process.LeavesPending]
  | case3 p out q h e hc =>
    rw [← @extractDbLibResult_left rowLimit p q h]
    refine iff_of_false (not_not.mpr (cancelUnlessDead_clean e.2)) (fun ⟨hn, _⟩ => ?_)
    simp [e, hn] at hc
  | case4 p out q h e hc ih =>
    rw [← @extractDbLibResult_left rowLimit p q h]
    have hn : e.2.cancelled = false := by simpa using hc
    exact ih.trans (and_iff_right hn).symm

end Loops

/-- The call is answered, and reading the answer trips over a failure with results or rows
behind it. -/
def Trips (p : Process) (b : Batch) : Prop :=
  p.dead = false ∧ p.pending = false ∧ b.accepted = true ∧ b.sent.lost = false ∧
    LeavesResults (p.cancelled || b.sent.cancel) b.replies

/-- Nothing is pending on a live process, and the next `dbsqlexec` is not refused. -/
def Process.Ready (p : Process) : Prop :=
  p.dead = false → p.replies = [] ∧ p.fetches = [] ∧
    ∀ respond, (p.dbsqlexec respond).2 = p.send respond

section Calls
variable {respond : Text → Batch} {p : Process} {query : Text} {rowLimit : ℤ}

theorem ready_iff_clean : p.Ready ↔ p.Clean := by
  constructor
  · intro h hd
    obtain ⟨hr, hf, -⟩ := h hd
    simp [pending, hr, hf]
  · intro h hd
    have hp := h hd
    have hrf : p.fetches = [] ∧ p.replies = [] := by simpa [pending] using hp
    refine ⟨hrf.2, hrf.1, fun respond => ?_⟩
    simp [dbsqlexec, hd, hp]

/-- A call on a process that does not send it fails, and discards what is pending. -/
theorem executeQueryOnProcess_refused (h : p.dead = true ∨ p.pending = true) :
    (executeQueryOnProcess respond p query rowLimit).1.success = false ∧
      (executeQueryOnProcess respond p query rowLimit).2.Clean := by
  obtain ⟨ns, hs⟩ := @dbsqlexec_refused (p.clearLastError.clearInfoMessages.dbcmd query)
    respond h
  unfold executeQueryOnProcess
  simp only [hs, Bool.false_eq_true, if_false]
  exact ⟨QueryResult.success_failure _ _, cancelUnlessDead_clean _⟩

theorem send_leavesPending (hp : p.pending = false) :
    (p.send respond).LeavesPending ↔ p.dead = false ∧ (respond p.command).sent.lost = false ∧
      LeavesResults (p.cancelled || (respond p.command).sent.cancel)
        (respond p.command).replies := by
  have hf : p.fetches = [] := by
    have h : p.fetches = [] ∧ p.replies = [] := by simpa [pending] using hp
    exact h.1
  simp [send, Process.LeavesPending, hf, and_assoc]

theorem executeQueryOnProcess_clean :
    ¬ (executeQueryOnProcess respond p query rowLimit).2.Clean ↔ Trips p (respond query) := by
  by_cases h : p.dead = true ∨ p.pending = true
  · refine iff_of_false (not_not.mpr (executeQueryOnProcess_refused h).2) ?_
    rintro ⟨hd, hp, -⟩
    simp [hd, hp] at h
  obtain ⟨hd, hp⟩ : p.dead = false ∧ p.pending = false := by simpa using h
  have hs := @dbsqlexec_send (p.clearLastError.clearInfoMessages.dbcmd query) respond hd hp
  have hl := @send_leavesPending respond (p.clearLastError.clearInfoMessages.dbcmd query) hp
  have hcommand : (p.clearLastError.clearInfoMessages.dbcmd query).command = query := rfl
  rw [hcommand] at hs hl
  unfold executeQueryOnProcess Trips
  cases ha : (respond query).accepted && !(respond query).sent.lost with
  | true =>
    have hb : (respond query).accepted = true ∧ (respond query).sent.lost = false := by
      simpa using ha
    simp only [hs, ha, if_true]
    refine (takeResults_clean []).trans (hl.trans ?_)
    simp [hd, hp, hb, dbcmd, clearLastError, clearInfoMessages]
  | false =>
    simp only [hs, ha, Bool.false_eq_true, if_false]
    refine iff_of_false (not_not.mpr (cancelUnlessDead_clean _)) ?_
    rintro ⟨-, -, hacc, hlost, -⟩
    simp [hacc, hlost] at ha

/-- `executeQueryOnProcess` hands a live process back with nothing pending exactly when it
does not trip: a lost connection, the row limit, a cancel and a refused batch are all
cleaned up after, a failure with something behind it is not. -/
theorem executeQueryOnProcess_ready_iff :
    (executeQueryOnProcess respond p query rowLimit).2.Ready ↔ ¬ Trips p (respond query) := by
  rw [ready_iff_clean, ← executeQueryOnProcess_clean, not_not]

/-- A batch of three statements of which the second fails: the result of the third stays
pending. -/
theorem failed_statement_leaves_results :
    ¬ ∀ (respond : Text → Batch) (p : Process) (query : Text) (rowLimit : ℤ),
      (executeQueryOnProcess respond p query rowLimit).2.Ready := by
  intro h
  have hready := h (fun _ => { replies := [.command {} 1, .failed {}, .command {} 1] }) {}
    "DELETE FROM t; INSERT INTO t VALUES (NULL); DELETE FROM u".toList 100
  rw [ready_iff_clean] at hready
  refine absurd hready (executeQueryOnProcess_clean.mpr ?_)
  simp [Trips, pending, LeavesResults, During.Quiet]

end Calls

section Runs

def Database.Ready (d : Database) : Prop := ∀ p, d.conn_ = some p → p.Ready

def Smooth (d : Database) (c : Call) : Prop :=
  ∀ p, d.ensureConn c.opened = .ok p → ¬ Trips { p with cancelled := c.cancel } (c.respond c.sql)

theorem execute_ready (d : Database) (c : Call) (h : Smooth d c) : (d.execute c).2.Ready := by
  unfold Database.execute
  cases hc : d.ensureConn c.opened with
  | error what =>
    intro p hp
    simp at hp
  | ok p =>
    intro q hq
    have hclean : (executeQueryOnProcess c.respond { p with cancelled := c.cancel } c.sql
        (if 0 < c.rowLimit then c.rowLimit else INT_MAX)).2.Clean := by
      by_contra hn
      exact h p hc (executeQueryOnProcess_clean.mp hn)
    simp only [Option.some.injEq] at hq
    rw [ready_iff_clean, ← hq]
    exact hclean

/-- In a run of calls that all go smoothly, every call finds its process ready. -/
theorem execute_run_ready (d : Database) (hd : d.Ready) (calls : List Call)
    (h : Runs.Along (fun d c => (d.execute c).2) Smooth d calls) :
    Runs.Along (fun d c => (d.execute c).2) (fun d _ => d.Ready) d calls :=
  h.of_invariant (fun d c _ hs => execute_ready d c hs) (fun _ _ hr _ => hr) hd

end Runs
end DearSql.Mssql
