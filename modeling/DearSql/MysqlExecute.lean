import DearSql.Loops
import DearSql.MysqlCatalog

/-! `MySQLDatabase::execute`. The reply to a batch ends at its first failure, and where that
failure shows depends on its place: in `mysql_real_query` for the first result of all, in
`mysql_store_result` for rows that break off, in `mysql_next_result` for the rest. -/
namespace DearSql.Mysql
open Loops

/-- What `mysql_error` gives after a failed call. -/
structure ErrorText where
  text : Text
  said : text ≠ []

def MYSQL_TYPE_TINY : ℕ := 1

structure Field where
  name : Text
  type : ℕ
  length : ℕ

inductive Outcome
  | rows (fields : List Field) (rows : List Row)
  | ok (affected : UInt64)

/-- A result as it comes over the line; a row set may break off on the way. -/
inductive Packet
  | outcome (o : Outcome)
  | broken (message : ErrorText)
  | error (message : ErrorText)

section Batches

inductive Ending
  | whole
  | error (message : ErrorText)
  /-- The rows break off; where the connection is gone with them, the next call says so again. -/
  | breaks (message : ErrorText) (gone : Option ErrorText)

structure Statement where
  results : List Outcome
  ending : Ending
  answers : ending = .whole → results ≠ []

structure Batch where
  first : Statement
  rest : List Statement

def Ending.failures : Ending → List ErrorText
  | whole => []
  | error m => [m]
  | breaks m gone => m :: gone.toList

def Ending.packets : Ending → List Packet
  | whole => []
  | error m => [.error m]
  | breaks m gone => .broken m :: gone.toList.map .error

namespace Statement

def Fails (s : Statement) : Prop := s.ending.failures ≠ []

instance (s : Statement) : Decidable s.Fails := inferInstanceAs (Decidable (_ ≠ _))

def packets (s : Statement) : List Packet := s.results.map .outcome ++ s.ending.packets

end Statement

/-- The results of the statements that ran, up to the first failure. -/
def ran : List Statement → List Outcome
  | [] => []
  | s :: rest => s.results ++ if s.Fails then [] else ran rest

/-- How the server stops: at the first failure, or with everything done. -/
def stop : List Statement → Ending
  | [] => .whole
  | s :: rest => if s.Fails then s.ending else stop rest

def reply : List Statement → List Packet
  | [] => []
  | s :: rest => s.packets ++ if s.Fails then [] else reply rest

def Batch.statements (b : Batch) : List Statement := b.first :: b.rest

theorem Ending.packets_eq_nil {e : Ending} (h : e.failures = []) : e.packets = [] := by
  cases e with
  | whole => rfl
  | error => cases h
  | breaks => cases h

theorem reply_eq (l : List Statement) : reply l = (ran l).map .outcome ++ (stop l).packets := by
  induction l with
  | nil => rfl
  | cons s rest ih =>
    rw [reply, ran, stop, Statement.packets]
    split_ifs with h
    · simp
    · rw [Ending.packets_eq_nil (not_not.mp h), ih]
      simp

theorem stop_failures_eq_nil {l : List Statement} :
    (stop l).failures = [] ↔ ∀ s ∈ l, ¬s.Fails := by
  induction l with
  | nil => simp [stop, Ending.failures]
  | cons s rest ih =>
    rw [stop, List.forall_mem_cons]
    split_ifs with h
    · exact iff_of_false h fun hs => hs.1 h
    · rw [ih]
      exact (and_iff_right h).symm

/-- A batch has a reply, and one without results has failed. -/
theorem Batch.answered (b : Batch) : reply b.statements ≠ [] := by
  rw [Batch.statements, reply, Statement.packets]
  intro h
  have hs := List.append_eq_nil_iff.mp (List.append_eq_nil_iff.mp h).1
  refine b.first.answers ?_ (List.map_eq_nil_iff.mp hs.1)
  cases he : b.first.ending with
  | whole => rfl
  | error => simp [he, Ending.packets] at hs
  | breaks => simp [he, Ending.packets] at hs

end Batches

structure MYSQL_RES where
  fields : List Field
  rows : List Row

/-- The client library over a server that answers texts with batches. What its calls say depends on
the packets of the reply: `At` is a connection where the first of them has come in, `Past` one where
that packet is read and the rest is still to come. -/
structure Client where
  MYSQL : Type
  batch : Text → MYSQL → Batch
  mysql_ping : MYSQL → MYSQL
  mysql_real_query : Text → MYSQL → ℤ × MYSQL
  mysql_store_result : MYSQL → Option MYSQL_RES × MYSQL
  mysql_field_count : MYSQL → ℕ
  mysql_affected_rows : MYSQL → UInt64
  mysql_next_result : MYSQL → ℤ × MYSQL
  mysql_error : MYSQL → Text
  At : MYSQL → List Packet → Prop
  Past : MYSQL → List Packet → Prop
  query_error (sql : Text) (c : MYSQL) (m : ErrorText) (l : List Packet) :
    reply (batch sql c).statements = .error m :: l →
      (mysql_real_query sql c).1 ≠ 0 ∧ mysql_error (mysql_real_query sql c).2 = m.text
  query_ok (sql : Text) (c : MYSQL) (p : Packet) (l : List Packet) :
    reply (batch sql c).statements = p :: l → (∀ m, p ≠ .error m) →
      (mysql_real_query sql c).1 = 0 ∧ At (mysql_real_query sql c).2 (p :: l)
  store_rows (c : MYSQL) (fields : List Field) (rows : List Row) (l : List Packet) :
    At c (.outcome (.rows fields rows) :: l) →
      (mysql_store_result c).1 = some ⟨fields, rows⟩ ∧ Past (mysql_store_result c).2 l
  store_ok (c : MYSQL) (n : UInt64) (l : List Packet) : At c (.outcome (.ok n) :: l) →
    (mysql_store_result c).1 = none ∧ Past (mysql_store_result c).2 l ∧
      mysql_field_count (mysql_store_result c).2 = 0 ∧
      mysql_affected_rows (mysql_store_result c).2 = n
  store_broken (c : MYSQL) (m : ErrorText) (l : List Packet) : At c (.broken m :: l) →
    (mysql_store_result c).1 = none ∧ Past (mysql_store_result c).2 l ∧
      mysql_field_count (mysql_store_result c).2 ≠ 0 ∧
      mysql_error (mysql_store_result c).2 = m.text
  next_none (c : MYSQL) : Past c [] → (mysql_next_result c).1 < 0
  next_more (c : MYSQL) (p : Packet) (l : List Packet) : Past c (p :: l) → (∀ m, p ≠ .error m) →
    (mysql_next_result c).1 = 0 ∧ At (mysql_next_result c).2 (p :: l)
  next_error (c : MYSQL) (m : ErrorText) (l : List Packet) : Past c (.error m :: l) →
    0 < (mysql_next_result c).1 ∧ mysql_error (mysql_next_result c).2 = m.text

section Source

def Field.isBool (f : Field) : Bool := f.type = MYSQL_TYPE_TINY && f.length = 1

/-- The row loop of `extractMysqlResult`. -/
def copyRows (rowLimit : ℤ) (fields : List Field) : List Row → ℤ → List (List Text)
  | [], _ => []
  | row :: rows, rowCount =>
    if rowLimit ≤ 0 ∨ rowCount < rowLimit then
      List.zipWith dataCell (fields.map Field.isBool) row ::
        copyRows rowLimit fields rows (rowCount + 1)
    else []

/-- A row set as a result. -/
def rowsResult (rowLimit : ℤ) (res : MYSQL_RES) : StatementResult :=
  let tableData := copyRows rowLimit res.fields res.rows 0
  { columnNames := res.fields.map Field.name, tableData
    message := returnedRows tableData.length ++
      if 0 < rowLimit ∧ rowLimit ≤ res.rows.length ∧ rowLimit < toInt res.rows.length then
        " (limited to ".toList ++ itoa rowLimit ++ ")".toList
      else [] }

def affectedResult (affected : UInt64) : StatementResult :=
  if affected ≠ -1 then
    { affectedRows := toInt affected.toNat
      message := decimal affected.toNat ++ " row(s) affected".toList }
  else { message := "Query executed successfully".toList }

namespace Client
variable (cl : Client)

def extractMysqlResult (rowLimit : ℤ) (c : cl.MYSQL) : StatementResult × cl.MYSQL :=
  match cl.mysql_store_result c with
  | (some res, c) => (rowsResult rowLimit res, c)
  | (none, c) =>
    if cl.mysql_field_count c = 0 then (affectedResult (cl.mysql_affected_rows c), c)
    else (failure (cl.mysql_error c), c)

/-- One turn of the result loop: the results so far, with the failure that ends it. -/
def resultTurn (rowLimit : ℤ) (s : cl.MYSQL × List StatementResult) :
    Option (Turn (cl.MYSQL × List StatementResult) (List StatementResult)) :=
  let (r, c) := cl.extractMysqlResult rowLimit s.1
  let statements := if r.success ∨ r.errorMessage ≠ [] then s.2 ++ [r] else s.2
  let (next, c) := cl.mysql_next_result c
  some <|
    if next = 0 then .next (c, statements)
    else .done (if 0 < next then statements ++ [failure (cl.mysql_error c)] else statements)

/-- `MySQLDatabase::execute`; `opened` is what `ensureConn` gives. -/
def execute (fuel : ℕ) (opened : Except Text cl.MYSQL) (sql : Text) (rowLimit : ℤ) :
    Option QueryResult :=
  match opened with
  | .error what => some { statements := [failure what] }
  | .ok c =>
    let (failed, c) := cl.mysql_real_query sql (cl.mysql_ping c)
    if failed ≠ 0 then some { statements := [failure (cl.mysql_error c)] }
    else (loop (cl.resultTurn rowLimit) fuel (c, [])).map fun statements => { statements }

end Client

end Source

section Turns

variable {cl : Client} {rowLimit : ℤ} {c c' : cl.MYSQL} {r : StatementResult}
  {acc : List StatementResult} {p : Packet} {m : ErrorText} {l : List Packet} {n : ℕ}

def resultOf (rowLimit : ℤ) : Outcome → StatementResult
  | .rows fields rows => rowsResult rowLimit ⟨fields, rows⟩
  | .ok affected => affectedResult affected

theorem resultOf_success (rowLimit : ℤ) (o : Outcome) : (resultOf rowLimit o).success = true := by
  cases o with
  | rows => rfl
  | ok affected =>
    rw [resultOf, affectedResult]
    split_ifs <;> rfl

def ErrorText.result (m : ErrorText) : StatementResult := failure m.text

/-- The condition under which the loop keeps a result. -/
abbrev Kept (r : StatementResult) : Prop := r.success ∨ r.errorMessage ≠ []

theorem kept_resultOf (o : Outcome) : Kept (resultOf rowLimit o) :=
  Or.inl (resultOf_success rowLimit o)

theorem kept_result (m : ErrorText) : Kept m.result := Or.inr m.said

namespace Client

theorem extract_outcome {o : Outcome} (h : cl.At c (.outcome o :: l)) :
    ∃ c', cl.extractMysqlResult rowLimit c = (resultOf rowLimit o, c') ∧ cl.Past c' l := by
  refine ⟨(cl.mysql_store_result c).2, ?_⟩
  rw [extractMysqlResult]
  cases o with
  | rows fields rows =>
    obtain ⟨h₁, h₂⟩ := cl.store_rows c fields rows l h
    rw [← Prod.mk.eta (p := cl.mysql_store_result c), h₁]
    exact ⟨rfl, h₂⟩
  | ok affected =>
    obtain ⟨h₁, h₂, h₃, h₄⟩ := cl.store_ok c affected l h
    rw [← Prod.mk.eta (p := cl.mysql_store_result c), h₁]
    simp only [h₃, h₄, if_true]
    exact ⟨rfl, h₂⟩

theorem extract_broken (h : cl.At c (.broken m :: l)) :
    ∃ c', cl.extractMysqlResult rowLimit c = (m.result, c') ∧ cl.Past c' l := by
  refine ⟨(cl.mysql_store_result c).2, ?_⟩
  obtain ⟨h₁, h₂, h₃, h₄⟩ := cl.store_broken c m l h
  rw [extractMysqlResult, ← Prod.mk.eta (p := cl.mysql_store_result c), h₁]
  simp only [h₃, h₄, if_false]
  exact ⟨rfl, h₂⟩

theorem turn_none (he : cl.extractMysqlResult rowLimit c = (r, c')) (hk : Kept r)
    (h : cl.Past c' []) : cl.resultTurn rowLimit (c, acc) = some (.done (acc ++ [r])) := by
  have hn := cl.next_none c' h
  rw [resultTurn, he]
  simp only [if_pos hk, if_neg hn.ne, if_neg hn.not_gt]

theorem turn_error (he : cl.extractMysqlResult rowLimit c = (r, c')) (hk : Kept r)
    (h : cl.Past c' (.error m :: l)) :
    cl.resultTurn rowLimit (c, acc) = some (.done (acc ++ [r] ++ [m.result])) := by
  obtain ⟨hn, hm⟩ := cl.next_error c' m l h
  rw [resultTurn, he]
  simp only [if_pos hk, if_neg hn.ne', if_pos hn, hm]
  rfl

theorem turn_more (he : cl.extractMysqlResult rowLimit c = (r, c')) (hk : Kept r)
    (h : cl.Past c' (p :: l)) (hp : ∀ m, p ≠ .error m) :
    ∃ c'', cl.resultTurn rowLimit (c, acc) = some (.next (c'', acc ++ [r])) ∧
      cl.At c'' (p :: l) := by
  obtain ⟨hn, hat⟩ := cl.next_more c' p l h hp
  refine ⟨_, ?_, hat⟩
  rw [resultTurn, he]
  simp only [if_pos hk, if_pos hn]

/-- Rows that break off are the last thing the loop sees. -/
theorem loop_broken {gone : Option ErrorText}
    (h : cl.At c (.broken m :: gone.toList.map .error)) (hn : 0 < n) :
    loop (cl.resultTurn rowLimit) n (c, acc) =
      some (acc ++ (Ending.breaks m gone).failures.map ErrorText.result) := by
  obtain ⟨k, rfl⟩ : ∃ k, n = k + 1 := ⟨n - 1, by omega⟩
  obtain ⟨c', he, hp⟩ := cl.extract_broken h
  cases gone with
  | none => exact loop_done (turn_none he (kept_result m) hp)
  | some g =>
    rw [loop_done (turn_error he (kept_result m) hp)]
    simp [Ending.failures]

/-- The loop keeps every result and the failures behind them. -/
theorem loop_outcomes {o : Outcome} {os : List Outcome} {e : Ending}
    (h : cl.At c (.outcome o :: (os.map .outcome ++ e.packets))) (hn : os.length + 1 < n) :
    loop (cl.resultTurn rowLimit) n (c, acc) =
      some (acc ++ (o :: os).map (resultOf rowLimit) ++ e.failures.map ErrorText.result) := by
  obtain ⟨k, rfl⟩ : ∃ k, n = k + 1 := ⟨n - 1, by omega⟩
  induction os generalizing o c acc k with
  | nil =>
    obtain ⟨c', he, hp⟩ := cl.extract_outcome h
    cases e with
    | whole =>
      rw [loop_done (turn_none he (kept_resultOf o) hp)]
      simp [Ending.failures]
    | error m => exact loop_done (turn_error he (kept_resultOf o) hp)
    | breaks m gone =>
      obtain ⟨c'', ht, hat⟩ := turn_more he (kept_resultOf o) hp (by simp)
      rw [loop_next ht, loop_broken hat (by omega)]
      rfl
  | cons o' os ih =>
    obtain ⟨c', he, hp⟩ := cl.extract_outcome h
    obtain ⟨c'', ht, hat⟩ := turn_more he (kept_resultOf o) hp (by simp)
    obtain ⟨j, rfl⟩ : ∃ j, k = j + 1 := ⟨k - 1, by omega⟩
    rw [loop_next ht, ih hat j (by simp only [List.length_cons] at hn; omega)]
    simp

end Client

end Turns

section Execution

variable (cl : Client) (c : cl.MYSQL) (sql : Text) (rowLimit : ℤ)

/-- The statements that the server makes of the text, on the connection after the ping. -/
def Client.sent : List Statement := (cl.batch sql (cl.mysql_ping c)).statements

theorem execute_statements {fuel : ℕ} (hn : (ran (cl.sent c sql)).length < fuel) :
    cl.execute fuel (.ok c) sql rowLimit = some
      { statements := (ran (cl.sent c sql)).map (resultOf rowLimit) ++
          (stop (cl.sent c sql)).failures.map ErrorText.result } := by
  have hreply : reply (cl.sent c sql) = _ := reply_eq _
  have hne : reply (cl.sent c sql) ≠ [] := Batch.answered _
  rw [Client.execute]
  cases hr : ran (cl.sent c sql) with
  | nil =>
    rw [hr, List.map_nil, List.nil_append] at hreply
    rw [hr] at hn
    cases hs : stop (cl.sent c sql) with
    | whole => exact absurd (hreply.trans (by rw [hs]; rfl)) hne
    | error m =>
      rw [hs] at hreply
      obtain ⟨h₁, h₂⟩ := cl.query_error sql _ m [] hreply
      simp only [if_pos h₁, h₂]
      rfl
    | breaks m gone =>
      rw [hs] at hreply
      obtain ⟨h₁, h₂⟩ := cl.query_ok sql _ _ _ hreply (by simp)
      simp only [h₁, ne_eq, not_true_eq_false, if_false]
      rw [Client.loop_broken h₂ hn]
      rfl
  | cons o os =>
    rw [hr, List.map_cons, List.cons_append] at hreply
    rw [hr] at hn
    obtain ⟨h₁, h₂⟩ := cl.query_ok sql _ _ _ hreply (by simp)
    simp only [h₁, ne_eq, not_true_eq_false, if_false]
    rw [Client.loop_outcomes h₂ hn]
    rfl

/-- A batch is a success exactly where each of its statements is, wherever a failure shows, and
what ran before the failure is reported in order. -/
theorem batch_succeeds_iff :
    ∃ r : QueryResult,
      (∀ k, cl.execute ((ran (cl.sent c sql)).length + 1 + k) (.ok c) sql rowLimit = some r) ∧
      (r.success = true ↔ ∀ s ∈ cl.sent c sql, ¬s.Fails) ∧
      r.statements = (ran (cl.sent c sql)).map (resultOf rowLimit) ++
        (stop (cl.sent c sql)).failures.map ErrorText.result := by
  refine ⟨_, fun k => execute_statements cl c sql rowLimit (by omega), ?_, rfl⟩
  rw [← stop_failures_eq_nil]
  constructor
  · intro h
    by_contra hne
    obtain ⟨m, hm⟩ := List.exists_mem_of_ne_nil _ hne
    have hmem := List.mem_append_right ((ran (cl.sent c sql)).map (resultOf rowLimit))
      (List.mem_map_of_mem (f := ErrorText.result) hm)
    rw [QueryResult.not_success_of_mem hmem rfl] at h
    exact Bool.false_ne_true h
  · intro h
    rw [QueryResult.success_iff]
    constructor
    · intro hnil
      have hran : ran (cl.sent c sql) = [] := by
        simpa using (List.append_eq_nil_iff.mp hnil).1
      have hreply := reply_eq (cl.sent c sql)
      rw [hran, Ending.packets_eq_nil h] at hreply
      exact Batch.answered _ hreply
    · intro s hs
      rw [h, List.map_nil, List.append_nil] at hs
      obtain ⟨o, -, rfl⟩ := List.mem_map.mp hs
      exact resultOf_success rowLimit o

end Execution

section Documented

/-- A connection: the packet that has come in, the ones to come, and what the last call left. -/
structure Line where
  current : Option Packet := none
  coming : List Packet := []
  fieldCount : ℕ := 0
  affectedRows : UInt64 := 0
  lastError : Text := []

def Line.receive (c : Line) : ℤ × Line :=
  match c.coming with
  | [] => (-1, c)
  | .error m :: l => (1, { c with coming := l, lastError := m.text })
  | p :: l => (0, { c with current := some p, coming := l })

def Line.read (c : Line) : Option MYSQL_RES × Line :=
  match c.current with
  | some (.outcome (.rows fields rows)) =>
    (some ⟨fields, rows⟩, { c with current := none, fieldCount := fields.length })
  | some (.outcome (.ok n)) => (none, { c with current := none, fieldCount := 0, affectedRows := n })
  | some (.broken m) => (none, { c with current := none, fieldCount := 1, lastError := m.text })
  | _ => (none, c)

theorem Line.receive_more {c : Line} {p : Packet} {l : List Packet} (h : c.coming = p :: l)
    (hp : ∀ m, p ≠ .error m) : c.receive = (0, { c with current := some p, coming := l }) := by
  rw [receive, h]
  cases p with
  | outcome => rfl
  | broken => rfl
  | error m => exact absurd rfl (hp m)

/-- A server that makes these batches of the texts, over a line that stays up. -/
def documented (batch : Text → Batch) : Client where
  MYSQL := Line
  batch sql _ := batch sql
  mysql_ping c := c
  mysql_real_query sql c := { c with coming := reply (batch sql).statements : Line }.receive
  mysql_store_result := Line.read
  mysql_field_count := Line.fieldCount
  mysql_affected_rows := Line.affectedRows
  mysql_next_result := Line.receive
  mysql_error := Line.lastError
  At c l := ∃ p, c.current = some p ∧ l = p :: c.coming
  Past c l := c.coming = l
  query_error sql c m l h := by simp [Line.receive, h]
  query_ok sql c p l h hp := by
    rw [Line.receive_more h hp]
    exact ⟨rfl, p, rfl, rfl⟩
  store_rows := by
    rintro c fields rows l ⟨p, hc, ⟨⟩⟩
    simp [Line.read, hc]
  store_ok := by
    rintro c n l ⟨p, hc, ⟨⟩⟩
    simp [Line.read, hc]
  store_broken := by
    rintro c m l ⟨p, hc, ⟨⟩⟩
    simp [Line.read, hc]
  next_none c h := by simp [Line.receive, h]
  next_more c p l h hp := by
    rw [Line.receive_more h hp]
    exact ⟨rfl, p, rfl, rfl⟩
  next_error c m l h := by simp [Line.receive, h]

/-- The second of three statements breaks off. -/
def brokenBatch : Batch where
  first := ⟨[.ok 1], .whole, by simp⟩
  rest := [⟨[], .breaks ⟨['m'], by simp⟩ none, by simp⟩, ⟨[.ok 2], .whole, by simp⟩]

theorem batch_stops_at_break : ∃ r : QueryResult,
    (∀ k, (documented fun _ => brokenBatch).execute (2 + k) (.ok {}) [] 0 = some r) ∧
    r.success = false ∧
    r.statements = [resultOf 0 (.ok 1), ErrorText.result ⟨['m'], by simp⟩] := by
  obtain ⟨r, hrun, hsuccess, hstatements⟩ :=
    batch_succeeds_iff (documented fun _ => brokenBatch) {} [] 0
  refine ⟨r, hrun, ?_, hstatements⟩
  rw [← Bool.not_eq_true, hsuccess]
  exact fun h => h _ (.tail _ (.head _)) (by decide)

end Documented

end DearSql.Mysql
