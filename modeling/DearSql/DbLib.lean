import DearSql.QueryResult

/-! A db-lib process while a batch is read from it. The server's answer is a list of
results, each row of a result arrives by its own call, and during any call the handlers
may be given messages, another thread may ask for a cancel and the connection may drop.
Results stay pending until they are read or `dbcancel` discards them. -/
namespace DearSql.Mssql

inductive Notice
  | error (dberrstr oserrstr : Option Text)
  | message (msgno severity : ℤ) (msgtext : Option Text)
  deriving DecidableEq, Repr

/-- What happens while a db-lib call is under way. -/
structure During where
  notices : List Notice := []
  cancel : Bool := false
  lost : Bool := false
  deriving DecidableEq, Repr

/-- A column of a row: NULL, text that `dbconvert` could produce, or the raw bytes. -/
inductive Cell
  | null
  | converted (buf : Text)
  | raw (data : Text)
  deriving DecidableEq, Repr

/-- An answer to `dbnextrow` before the rows run out. -/
inductive Fetch
  | row (cells : List Cell) (during : During)
  | fail (during : During)
  deriving DecidableEq, Repr

abbrev ColumnNames := {names : List Text // names ≠ []}

/-- An answer to `dbresults`: a row set (`last` is the call that finds no more rows), a
statement without rows, or a statement that failed. -/
inductive Reply
  | rows (during : During) (columns : ColumnNames) (fetches : List Fetch) (last : During)
  | command (during : During) (count : ℤ)
  | failed (during : During)
  deriving DecidableEq, Repr

def Reply.during : Reply → During
  | .rows d _ _ _ => d
  | .command d _ => d
  | .failed d => d

/-- The server's answer to one batch; `accepted` is what `dbsqlexec` makes of it, and
`closing` is the call that finds no more results. -/
structure Batch where
  accepted : Bool := true
  sent : During := {}
  replies : List Reply := []
  closing : During := {}
  deriving DecidableEq, Repr

/-- A `DBPROCESS` with the flag its interrupt hook watches and the buffers of the thread
that drives it. `onDead` and `onPending` are what db-lib reports when it refuses a call. -/
structure Process where
  dead : Bool := false
  command : Text := []
  columns : List Text := []
  count : ℤ := -1
  fetches : List Fetch := []
  last : During := {}
  replies : List Reply := []
  closing : During := {}
  onDead : List Notice := []
  onPending : List Notice := []
  cancelled : Bool := false
  lastError : Text := []
  infoMessages : List Text := []
  deriving DecidableEq, Repr

namespace Process

def dblibErrorHandler (p : Process) (dberrstr oserrstr : Option Text) : Process :=
  let msg := dberrstr.getD []
  let os := oserrstr.getD []
  { p with lastError :=
      if os = [] then msg else (if msg = [] then msg else msg ++ "; ".toList) ++ os }

def dblibMessageHandler (p : Process) (msgno severity : ℤ) (msgtext : Option Text) : Process :=
  match msgtext with
  | none => p
  | some text =>
    if 10 < severity then { p with lastError := text }
    else if text ≠ [] ∧ msgno ≠ 5701 ∧ msgno ≠ 5703 ∧ msgno ≠ 5704 then
      { p with infoMessages := p.infoMessages ++ [text] }
    else p

def notify (p : Process) : Notice → Process
  | .error db os => p.dblibErrorHandler db os
  | .message no severity text => p.dblibMessageHandler no severity text

/-- The state after what happens during a call. -/
def pass (p : Process) (d : During) : Process :=
  let q := d.notices.foldl notify p
  { q with cancelled := q.cancelled || d.cancel, dead := q.dead || d.lost }

/-- A result or a row of the last batch is still to be read. -/
def pending (p : Process) : Bool := !p.fetches.isEmpty || !p.replies.isEmpty

def clearLastError (p : Process) : Process := { p with lastError := [] }

def clearInfoMessages (p : Process) : Process := { p with infoMessages := [] }

def getLastError (p : Process) : Text :=
  if p.lastError = [] then "Unknown error".toList else p.lastError

def dbcmd (p : Process) (query : Text) : Process := { p with command := query }

def send (p : Process) (respond : Text → Batch) : Process :=
  let b := respond p.command
  { p with replies := b.replies, closing := b.closing }.pass b.sent

/-- `dbsqlexec`: whether it succeeds. With results pending nothing is sent. -/
def dbsqlexec (p : Process) (respond : Text → Batch) : Bool × Process :=
  if p.dead then (false, p.onDead.foldl notify p)
  else if p.pending then (false, p.onPending.foldl notify p)
  else ((respond p.command).accepted && !(p.send respond).dead, p.send respond)

def dbcancel (p : Process) : Process := { p with fetches := [], replies := [], closing := {} }

inductive RetCode
  | succeed
  | fail
  | noMoreResults
  deriving DecidableEq, Repr

/-- `dbresults`: a failed statement does not discard the results behind it, and rows of
the current result that are still to be read are not skipped. -/
def dbresults (p : Process) : RetCode × Process :=
  if p.dead then (.fail, p.onDead.foldl notify p)
  else if !p.fetches.isEmpty then (.fail, p.onPending.foldl notify p)
  else match p.replies with
    | [] =>
      let q := p.pass p.closing
      (if q.dead then .fail else .noMoreResults, q)
    | r :: rs =>
      let q := { p with replies := rs }.pass r.during
      if q.dead then (.fail, q)
      else match r with
        | .rows _ columns fetches last =>
          (.succeed, { q with columns := columns.1, fetches := fetches, last := last })
        | .command _ count => (.succeed, { q with columns := [], count := count })
        | .failed _ => (.fail, q)

inductive RowCode
  | row (cells : List Cell)
  | fail
  | noMoreRows
  deriving DecidableEq, Repr

def dbnextrow (p : Process) : RowCode × Process :=
  if p.dead then (.fail, p.onDead.foldl notify p)
  else match p.fetches with
    | [] =>
      let q := p.pass p.last
      (if q.dead then .fail else .noMoreRows, q)
    | .row cells d :: fs =>
      let q := { p with fetches := fs }.pass d
      (if q.dead then .fail else .row cells, q)
    | .fail d :: fs => (.fail, { p with fetches := fs }.pass d)

section Notices
variable {p : Process}

theorem notify_eq (n : Notice) :
    ∃ e ms, p.notify n = { p with lastError := e, infoMessages := ms } := by
  cases n with
  | error db os => exact ⟨_, p.infoMessages, rfl⟩
  | message no severity text =>
    cases text with
    | none => exact ⟨p.lastError, p.infoMessages, rfl⟩
    | some text =>
      simp only [notify, dblibMessageHandler]
      split_ifs
      · exact ⟨text, p.infoMessages, rfl⟩
      · exact ⟨p.lastError, _, rfl⟩
      · exact ⟨p.lastError, p.infoMessages, rfl⟩

theorem foldl_notify_eq (ns : List Notice) :
    ∃ e ms, ns.foldl notify p = { p with lastError := e, infoMessages := ms } := by
  induction ns generalizing p with
  | nil => exact ⟨p.lastError, p.infoMessages, rfl⟩
  | cons n ns ih =>
    obtain ⟨e, ms, h⟩ := @notify_eq p n
    obtain ⟨e', ms', h'⟩ := @ih (p.notify n)
    exact ⟨e', ms', by rw [List.foldl_cons, h', h]⟩

theorem pass_eq (d : During) :
    ∃ e ms, p.pass d = { p with
      cancelled := p.cancelled || d.cancel, dead := p.dead || d.lost,
      lastError := e, infoMessages := ms } := by
  obtain ⟨e, ms, h⟩ := @foldl_notify_eq p d.notices
  exact ⟨e, ms, by rw [pass, h]⟩

@[simp] theorem foldl_notify_dead (ns : List Notice) : (ns.foldl notify p).dead = p.dead := by
  obtain ⟨e, ms, h⟩ := @foldl_notify_eq p ns
  rw [h]

@[simp] theorem foldl_notify_fetches (ns : List Notice) :
    (ns.foldl notify p).fetches = p.fetches := by
  obtain ⟨e, ms, h⟩ := @foldl_notify_eq p ns
  rw [h]

@[simp] theorem foldl_notify_replies (ns : List Notice) :
    (ns.foldl notify p).replies = p.replies := by
  obtain ⟨e, ms, h⟩ := @foldl_notify_eq p ns
  rw [h]

@[simp] theorem pass_dead (d : During) : (p.pass d).dead = (p.dead || d.lost) := by
  obtain ⟨e, ms, h⟩ := @pass_eq p d
  rw [h]

@[simp] theorem pass_cancelled (d : During) :
    (p.pass d).cancelled = (p.cancelled || d.cancel) := by
  obtain ⟨e, ms, h⟩ := @pass_eq p d
  rw [h]

@[simp] theorem pass_fetches (d : During) : (p.pass d).fetches = p.fetches := by
  obtain ⟨e, ms, h⟩ := @pass_eq p d
  rw [h]

@[simp] theorem pass_replies (d : During) : (p.pass d).replies = p.replies := by
  obtain ⟨e, ms, h⟩ := @pass_eq p d
  rw [h]

@[simp] theorem foldl_notify_closing (ns : List Notice) :
    (ns.foldl notify p).closing = p.closing := by
  obtain ⟨e, ms, h⟩ := @foldl_notify_eq p ns
  rw [h]

@[simp] theorem pass_closing (d : During) : (p.pass d).closing = p.closing := by
  obtain ⟨e, ms, h⟩ := @pass_eq p d
  rw [h]

@[simp] theorem pass_last (d : During) : (p.pass d).last = p.last := by
  obtain ⟨e, ms, h⟩ := @pass_eq p d
  rw [h]

end Notices

section Calls
variable {p q : Process}

theorem dbsqlexec_send {respond : Text → Batch} (hd : p.dead = false) (hp : p.pending = false) :
    p.dbsqlexec respond =
      ((respond p.command).accepted && !(respond p.command).sent.lost, p.send respond) := by
  simp [dbsqlexec, hd, hp, send]

theorem dbsqlexec_refused {respond : Text → Batch} (h : p.dead = true ∨ p.pending = true) :
    ∃ ns, p.dbsqlexec respond = (false, List.foldl notify p ns) := by
  unfold dbsqlexec
  by_cases hd : p.dead = true
  · exact ⟨p.onDead, if_pos hd⟩
  · exact ⟨p.onPending, by rw [if_neg hd, if_pos (h.resolve_left hd)]⟩

/-- Everything `dbnextrow` can do. -/
inductive NextRow (p : Process) : RowCode → Process → Prop
  | refused (hd : p.dead = true) : NextRow p .fail (p.onDead.foldl notify p)
  | finish (hd : p.dead = false) (hf : p.fetches = []) (hl : p.last.lost = false) :
      NextRow p .noMoreRows (p.pass p.last)
  | finishLost (hd : p.dead = false) (hf : p.fetches = []) (hl : p.last.lost = true) :
      NextRow p .fail (p.pass p.last)
  | row {cells : List Cell} {d : During} {fs : List Fetch} (hd : p.dead = false)
      (hf : p.fetches = .row cells d :: fs) (hl : d.lost = false) :
      NextRow p (.row cells) ({ p with fetches := fs }.pass d)
  | rowLost {cells : List Cell} {d : During} {fs : List Fetch} (hd : p.dead = false)
      (hf : p.fetches = .row cells d :: fs) (hl : d.lost = true) :
      NextRow p .fail ({ p with fetches := fs }.pass d)
  | fail {d : During} {fs : List Fetch} (hd : p.dead = false)
      (hf : p.fetches = .fail d :: fs) : NextRow p .fail ({ p with fetches := fs }.pass d)

theorem dbnextrow_spec (p : Process) : NextRow p p.dbnextrow.1 p.dbnextrow.2 := by
  unfold dbnextrow
  by_cases hd : p.dead = true
  · rw [if_pos hd]
    exact .refused hd
  rw [if_neg hd]
  rw [Bool.not_eq_true] at hd
  split
  · next hf =>
    cases hl : p.last.lost with
    | true => simpa [hd, hl] using NextRow.finishLost hd hf hl
    | false => simpa [hd, hl] using NextRow.finish hd hf hl
  · next cells d fs hf =>
    cases hl : d.lost with
    | true => simpa [hd, hl] using NextRow.rowLost hd hf hl
    | false => simpa [hd, hl] using NextRow.row hd hf hl
  · next d fs hf => exact .fail hd hf

theorem nextRow_of_eq {c : RowCode} (h : p.dbnextrow = (c, q)) : NextRow p c q := by
  simpa [h] using dbnextrow_spec p

theorem dbnextrow_shrinks {cells : List Cell} (h : p.dbnextrow = (.row cells, q)) :
    q.fetches.length < p.fetches.length := by
  cases nextRow_of_eq h with
  | row hd hf hl => simp [hf]

/-- Reading a row leaves what is behind the rows. -/
theorem dbnextrow_behind {c : RowCode} (h : p.dbnextrow = (c, q)) :
    q.replies = p.replies ∧ q.closing = p.closing := by
  cases nextRow_of_eq h <;> simp

/-- Everything `dbresults` can do. -/
inductive NextResult (p : Process) : RetCode → Process → Prop
  | refused (hd : p.dead = true) : NextResult p .fail (p.onDead.foldl notify p)
  | rowsLeft (hd : p.dead = false) (hf : p.fetches ≠ []) :
      NextResult p .fail (p.onPending.foldl notify p)
  | finish (hd : p.dead = false) (hf : p.fetches = []) (hr : p.replies = [])
      (hl : p.closing.lost = false) : NextResult p .noMoreResults (p.pass p.closing)
  | finishLost (hd : p.dead = false) (hf : p.fetches = []) (hr : p.replies = [])
      (hl : p.closing.lost = true) : NextResult p .fail (p.pass p.closing)
  | lost {r : Reply} {rs : List Reply} (hd : p.dead = false) (hf : p.fetches = [])
      (hr : p.replies = r :: rs) (hl : r.during.lost = true) :
      NextResult p .fail ({ p with replies := rs }.pass r.during)
  | rows {d last : During} {columns : ColumnNames} {fs : List Fetch} {rs : List Reply}
      (hd : p.dead = false) (hf : p.fetches = []) (hr : p.replies = .rows d columns fs last :: rs)
      (hl : d.lost = false) :
      NextResult p .succeed { { p with replies := rs }.pass d with
        columns := columns.1, fetches := fs, last := last }
  | command {d : During} {n : ℤ} {rs : List Reply} (hd : p.dead = false) (hf : p.fetches = [])
      (hr : p.replies = .command d n :: rs) (hl : d.lost = false) :
      NextResult p .succeed { { p with replies := rs }.pass d with columns := [], count := n }
  | failed {d : During} {rs : List Reply} (hd : p.dead = false) (hf : p.fetches = [])
      (hr : p.replies = .failed d :: rs) (hl : d.lost = false) :
      NextResult p .fail ({ p with replies := rs }.pass d)

theorem dbresults_spec (p : Process) : NextResult p p.dbresults.1 p.dbresults.2 := by
  unfold dbresults
  by_cases hd : p.dead = true
  · rw [if_pos hd]
    exact .refused hd
  by_cases hf : (!p.fetches.isEmpty) = true
  · rw [if_neg hd, if_pos hf]
    exact .rowsLeft (by simpa using hd) (by simpa using hf)
  rw [if_neg hd, if_neg hf]
  rw [Bool.not_eq_true] at hd
  replace hf : p.fetches = [] := by simpa using hf
  split
  · next hr =>
    cases hl : p.closing.lost with
    | true => simpa [hd, hl] using NextResult.finishLost hd hf hr hl
    | false => simpa [hd, hl] using NextResult.finish hd hf hr hl
  · next r rs hr =>
    cases hl : r.during.lost with
    | true => simpa [hd, hl] using NextResult.lost hd hf hr hl
    | false =>
      dsimp only
      rw [if_neg (by simp [hd, hl])]
      cases r with
      | rows d columns fs last => exact .rows hd hf hr hl
      | command d n => exact .command hd hf hr hl
      | failed d => exact .failed hd hf hr hl

theorem nextResult_of_eq {c : RetCode} (h : p.dbresults = (c, q)) : NextResult p c q := by
  simpa [h] using dbresults_spec p

theorem dbresults_shrinks (h : p.dbresults = (.succeed, q)) :
    q.replies.length < p.replies.length := by
  cases nextResult_of_eq h with
  | rows hd hf hr hl => simp [hr]
  | command hd hf hr hl => simp [hr]

end Calls
end Process
end DearSql.Mssql
