import DearSql.PgResult

/-! Chunked streaming against the plain path. A batch is a list of result sets; libpq
may deliver each row set in any number of pieces, and an error may come after some
pieces of a row set. The loop of `run` builds the statements the unsplit results give. -/
namespace DearSql.Pg

/-- libpq gives every error result a message. -/
abbrev ErrorText := {m : Text // m ≠ []}

inductive ResultSet
  | rows (fields : List Field) (rows : List (List Cell))
  | command (cmdTuples : Text)
  | empty
  | failed (message : ErrorText)
  deriving DecidableEq

def tuplesChunk (fs : List Field) (rs : List (List Cell)) : PGresult :=
  { status := .tuplesChunk, fields := fs, rows := rs }

def tuplesOk (fs : List Field) (rs : List (List Cell)) : PGresult :=
  { status := .tuplesOk, fields := fs, rows := rs }

def fatalError (m : Text) : PGresult := { status := .fatalError, errorMessage := m }

def ResultSet.whole : ResultSet → PGresult
  | .rows fs rs => tuplesOk fs rs
  | .command t => { status := .commandOk, cmdTuples := t }
  | .empty => { status := .emptyQuery }
  | .failed m => fatalError m

/-- Every way libpq may deliver a result: a row set in chunks with a closing
`PGRES_TUPLES_OK`, an error possibly after chunks of the row set it interrupts. -/
inductive Split : ResultSet → List PGresult → Prop
  | rows (fs : List Field) (chunks : List (List (List Cell))) (last : List (List Cell)) :
      Split (.rows fs (chunks.flatten ++ last))
        (chunks.map (tuplesChunk fs) ++ [tuplesOk fs last])
  | command (t : Text) : Split (.command t) [ResultSet.whole (.command t)]
  | empty : Split .empty [ResultSet.whole .empty]
  | failed (fs : List Field) (chunks : List (List (List Cell))) (m : ErrorText) :
      Split (.failed m) (chunks.map (tuplesChunk fs) ++ [fatalError m])

/-- The plain path: the extracted result, unless it failed without a message. -/
def ResultSet.plain (rowLimit : ℤ) (r : ResultSet) : List StatementResult :=
  let s := extractPgResult r.whole rowLimit
  if s.success ∨ s.errorMessage ≠ [] then [s] else []

/-- The loop between two results: `out` built, nothing streaming. -/
def between (out : List StatementResult) (stopped : Bool) : LoopState :=
  { statements := out, stopped := stopped }

/-- What `appendPgRows` makes of the first rows `rs` of a row set. -/
def kept (rowLimit : ℤ) (fs : List Field) (rs : List (List Cell)) : StatementResult :=
  appendPgRows (tuplesOk fs rs) {} rowLimit

/-- The loop within a row set of which the rows `rs` have arrived. -/
def amid (rowLimit : ℤ) (out : List StatementResult) (fs : List Field)
    (rs : List (List Cell)) (stopped : Bool) : LoopState :=
  { statements := out, rows := kept rowLimit fs rs, streaming := true, seen := rs.length,
    stopped := stopped }

section Loop
variable {rowLimit : ℤ} {stoppable : Bool}

theorem take_min_length {α : Type*} (n : ℕ) (l : List α) : l.take (min l.length n) = l.take n := by
  rw [min_comm, ← List.take_eq_take_min]

theorem kept_tableData (hl : 0 < rowLimit) (fs : List Field) (rs : List (List Cell)) :
    (kept rowLimit fs rs).tableData = (rs.take rowLimit.toNat).map (rowTexts fs) := by
  simp [kept, appendPgRows, roomFor, hl, tuplesOk, take_min_length]

theorem kept_columnNames (fs : List Field) (rs : List (List Cell)) :
    (kept rowLimit fs rs).columnNames = fs.map Field.name := by
  simp [kept, appendPgRows, tuplesOk]

theorem appendPgRows_kept (hl : 0 < rowLimit) (fs : List Field) (a b : List (List Cell))
    (st : ExecStatus) :
    appendPgRows { status := st, fields := fs, rows := b } (kept rowLimit fs a) rowLimit =
      kept rowLimit fs (a ++ b) := by
  have hroom : rowLimit.toNat - min rowLimit.toNat a.length = rowLimit.toNat - a.length := by
    omega
  have hdata : (kept rowLimit fs a).tableData ++
      (b.take (roomFor rowLimit b.length (kept rowLimit fs a).tableData.length)).map
        (rowTexts fs) = (kept rowLimit fs (a ++ b)).tableData := by
    simp only [kept_tableData hl, roomFor, if_pos hl, List.length_map, List.length_take, hroom,
      take_min_length, ← List.map_append, List.take_append]
  unfold appendPgRows
  simp only [hdata, kept_columnNames, ite_self]
  simp [kept, appendPgRows, tuplesOk]

theorem onResult_chunk_between (out : List StatementResult) (s : Bool) (fs : List Field)
    (rs : List (List Cell)) :
    onResult rowLimit stoppable (between out s) (tuplesChunk fs rs) =
      amid rowLimit out fs rs (s || (stoppable && decide (rowLimit < rs.length))) := by
  simp [onResult, between, amid, kept, appendPgRows, tuplesChunk, tuplesOk]

theorem onResult_chunk_amid (hl : 0 < rowLimit) (out : List StatementResult) (s : Bool)
    (fs : List Field) (a b : List (List Cell)) :
    onResult rowLimit stoppable (amid rowLimit out fs a s) (tuplesChunk fs b) =
      amid rowLimit out fs (a ++ b)
        (s || (stoppable && decide (rowLimit < (a ++ b).length))) := by
  have h := appendPgRows_kept hl fs a b .tuplesChunk
  simp [onResult, amid, tuplesChunk, h]

theorem onResult_stopped (st : LoopState) (r : PGresult) (h : st.stopped = true) :
    (onResult rowLimit stoppable st r).stopped = true := by
  unfold onResult
  split_ifs <;> simp [LoopState.push, LoopState.reset, h]
  split_ifs <;> simp [h]

theorem collect_stopped (st : LoopState) (rs : List PGresult) (h : st.stopped = true) :
    (collect rowLimit stoppable st rs).stopped = true := by
  induction rs generalizing st with
  | nil => exact h
  | cons r rs ih => exact ih _ (onResult_stopped st r h)

theorem onResult_not_stoppable (st : LoopState) (r : PGresult) (h : st.stopped = false) :
    (onResult rowLimit false st r).stopped = false := by
  unfold onResult
  split_ifs <;> simp [LoopState.push, LoopState.reset, h]
  all_goals split_ifs <;> simp [h]

theorem collect_not_stoppable (st : LoopState) (rs : List PGresult) (h : st.stopped = false) :
    (collect rowLimit false st rs).stopped = false := by
  induction rs generalizing st with
  | nil => exact h
  | cons r rs ih => exact ih _ (onResult_not_stoppable st r h)

theorem onResult_no_chunk (st : LoopState) (r : PGresult) (h : st.stopped = false)
    (hr : r.status ≠ .tuplesChunk) : (onResult rowLimit stoppable st r).stopped = false := by
  unfold onResult
  split_ifs <;> simp [LoopState.push, LoopState.reset, h]
  split_ifs <;> simp [h]

theorem collect_no_chunk (st : LoopState) (rs : List PGresult) (h : st.stopped = false)
    (hrs : ∀ r ∈ rs, r.status ≠ .tuplesChunk) :
    (collect rowLimit stoppable st rs).stopped = false := by
  induction rs generalizing st with
  | nil => exact h
  | cons r rs ih =>
    exact ih _ (onResult_no_chunk st r h (hrs r (by simp))) fun x hx => hrs x (by simp [hx])

theorem collect_singleton (st : LoopState) (r : PGresult) :
    collect rowLimit stoppable st [r] = onResult rowLimit stoppable st r := rfl

theorem collect_append (st : LoopState) (a b : List PGresult) :
    collect rowLimit stoppable st (a ++ b) =
      collect rowLimit stoppable (collect rowLimit stoppable st a) b := List.foldl_append

theorem collect_chunks_amid (hl : 0 < rowLimit) (out : List StatementResult) (s : Bool)
    (fs : List Field) (a : List (List Cell)) (chunks : List (List (List Cell)))
    (hs : s = (stoppable && decide (rowLimit < a.length))) :
    collect rowLimit stoppable (amid rowLimit out fs a s) (chunks.map (tuplesChunk fs)) =
      amid rowLimit out fs (a ++ chunks.flatten)
        (stoppable && decide (rowLimit < (a ++ chunks.flatten).length)) := by
  induction chunks generalizing a s with
  | nil => simp [collect, hs]
  | cons c cs ih =>
    have hstop : (s || (stoppable && decide (rowLimit < ((a ++ c).length : ℕ)))) =
        (stoppable && decide (rowLimit < ((a ++ c).length : ℕ))) := by
      subst hs
      cases stoppable <;> simp
      omega
    have hstep := @onResult_chunk_amid rowLimit stoppable hl out s fs a c
    rw [hstop] at hstep
    have := ih _ (a ++ c) rfl
    simpa [collect, hstep, List.append_assoc] using this

theorem collect_chunks (hl : 0 < rowLimit) (out : List StatementResult) (fs : List Field)
    (c : List (List Cell)) (cs : List (List (List Cell))) :
    collect rowLimit stoppable (between out false) ((c :: cs).map (tuplesChunk fs)) =
      amid rowLimit out fs (c :: cs).flatten
        (stoppable && decide (rowLimit < (c :: cs).flatten.length)) := by
  have h := @collect_chunks_amid rowLimit stoppable hl out _ fs c cs rfl
  have h0 := @onResult_chunk_between rowLimit stoppable out false fs c
  rw [Bool.false_or] at h0
  simpa only [List.map_cons, collect, List.foldl_cons, h0, List.flatten_cons] using h

theorem onResult_close (hl : 0 < rowLimit) (out : List StatementResult) (s : Bool)
    (fs : List Field) (a last : List (List Cell)) :
    onResult rowLimit stoppable (amid rowLimit out fs a s) (tuplesOk fs last) =
      between (out ++ [extractPgResult (tuplesOk fs (a ++ last)) rowLimit]) s := by
  have h := appendPgRows_kept hl fs a last .tuplesOk
  have he : extractPgResult (tuplesOk fs (a ++ last)) rowLimit =
      setRowsMessage (kept rowLimit fs (a ++ last)) (a ++ last).length rowLimit false := rfl
  rw [he]
  simp [onResult, amid, tuplesOk, h, between, LoopState.push, LoopState.reset]

theorem onResult_error (out : List StatementResult) (fs : List Field)
    (a : List (List Cell)) (m : Text) :
    onResult rowLimit stoppable (amid rowLimit out fs a false) (fatalError m) =
      between (out ++ [failure m]) false := by
  simp [onResult, amid, fatalError, between, LoopState.push, LoopState.reset, extractPgResult]

theorem onResult_error_stopped (out : List StatementResult) (fs : List Field)
    (a : List (List Cell)) (m : Text) :
    onResult rowLimit stoppable (amid rowLimit out fs a true) (fatalError m) =
      between (out ++ [setRowsMessage (kept rowLimit fs a) a.length rowLimit true]) true := by
  simp [onResult, amid, fatalError, between, LoopState.push, LoopState.reset]

theorem onResult_whole (out : List StatementResult) (s : Bool) (r : ResultSet) :
    onResult rowLimit stoppable (between out s) r.whole =
      between (out ++ r.plain rowLimit) s := by
  have hc : r.whole.status ≠ .tuplesChunk := by cases r <;> simp [ResultSet.whole, tuplesOk, fatalError]
  have hstep : onResult rowLimit stoppable (between out s) r.whole =
      if (extractPgResult r.whole rowLimit).success ∨
        (extractPgResult r.whole rowLimit).errorMessage ≠ [] then
        (between out s).push (extractPgResult r.whole rowLimit) else between out s := by
    simp [onResult, between, hc]
  rw [hstep]
  unfold ResultSet.plain
  dsimp only
  split_ifs <;> simp [between, LoopState.push]

theorem collect_whole (out : List StatementResult) (s : Bool) (batch : List ResultSet) :
    collect rowLimit stoppable (between out s) (batch.map ResultSet.whole) =
      between (out ++ batch.flatMap (ResultSet.plain rowLimit)) s := by
  induction batch generalizing out with
  | nil => simp [collect]
  | cons r batch ih =>
    have h := ih (out ++ r.plain rowLimit)
    rw [← onResult_whole out s r] at h
    simpa [collect] using h

theorem plain_rows (fs : List Field) (rs : List (List Cell)) :
    (ResultSet.rows fs rs).plain rowLimit = [extractPgResult (tuplesOk fs rs) rowLimit] := by
  unfold ResultSet.plain
  exact if_pos (Or.inl rfl)

theorem plain_failed (m : ErrorText) : (ResultSet.failed m).plain rowLimit = [failure m.1] := by
  unfold ResultSet.plain
  exact if_pos (Or.inr m.2)

/-- One result, however split, adds what its unsplit form adds. -/
theorem collect_split (hl : 0 < rowLimit) (out : List StatementResult) {r : ResultSet}
    {pieces : List PGresult} (h : Split r pieces)
    (hstop : (collect rowLimit stoppable (between out false) pieces).stopped = false) :
    collect rowLimit stoppable (between out false) pieces =
      between (out ++ r.plain rowLimit) false := by
  cases h with
  | rows fs chunks last =>
    cases chunks with
    | nil => exact @onResult_whole rowLimit stoppable out false (.rows fs last)
    | cons c cs =>
      rw [collect_append, collect_chunks hl, collect_singleton, onResult_close hl] at hstop ⊢
      rw [plain_rows]
      exact congrArg (between _) hstop
  | command t => exact @onResult_whole rowLimit stoppable out false (.command t)
  | empty => exact @onResult_whole rowLimit stoppable out false .empty
  | failed fs chunks m =>
    cases chunks with
    | nil => exact @onResult_whole rowLimit stoppable out false (.failed m)
    | cons c cs =>
      rw [collect_append, collect_chunks hl, collect_singleton] at hstop ⊢
      have hs : (stoppable && decide (rowLimit < (c :: cs).flatten.length)) = false := by
        by_contra hne
        rw [Bool.not_eq_false] at hne
        rw [hne] at hstop
        rw [onResult_error_stopped] at hstop
        exact absurd hstop Bool.true_eq_false_eq_False
      rw [hs, onResult_error, plain_failed]

theorem collect_batch (hl : 0 < rowLimit) (out : List StatementResult)
    {batch : List ResultSet} {pieces : List (List PGresult)}
    (h : List.Forall₂ Split batch pieces)
    (hstop : (collect rowLimit stoppable (between out false) pieces.flatten).stopped = false) :
    collect rowLimit stoppable (between out false) pieces.flatten =
      between (out ++ batch.flatMap (ResultSet.plain rowLimit)) false := by
  induction h generalizing out with
  | nil => simp [collect]
  | @cons r p batch pieces hr _ ih =>
    rw [List.flatten_cons, collect_append] at hstop ⊢
    have hfirst : (collect rowLimit stoppable (between out false) p).stopped = false := by
      by_contra hne
      rw [Bool.not_eq_false] at hne
      simp [collect_stopped _ pieces.flatten hne] at hstop
    rw [collect_split hl out hr hfirst] at hstop ⊢
    rw [ih _ hstop, List.flatMap_cons, List.append_assoc]

/-- What can follow once a read of the rows `all` is told to stop: the stream completes
all the same, or it ends with the cancel error after some of the rows. -/
inductive Race (fs : List Field) (all : List (List Cell)) : List PGresult → Prop
  | completes {pieces : List PGresult} (h : Split (.rows fs all) pieces) : Race fs all pieces
  | cancelled (chunks : List (List (List Cell))) (m : ErrorText) (h : chunks.flatten <+: all) :
      Race fs all (chunks.map (tuplesChunk fs) ++ [fatalError m])

def FirstRows (rowLimit : ℤ) (fs : List Field) (all : List (List Cell))
    (s : StatementResult) : Prop :=
  s.success = true ∧ s.columnNames = fs.map Field.name ∧
    s.tableData = (all.take rowLimit.toNat).map (rowTexts fs)

theorem firstRows_kept (hl : 0 < rowLimit) (fs : List Field) {a all : List (List Cell)}
    (hp : a <+: all) (hlen : rowLimit < a.length) (total : ℕ) (stopped : Bool) :
    FirstRows rowLimit fs all (setRowsMessage (kept rowLimit fs a) total rowLimit stopped) := by
  obtain ⟨b, rfl⟩ := hp
  have htake : (a ++ b).take rowLimit.toNat = a.take rowLimit.toNat := by
    rw [List.take_append_of_le_length]
    omega
  refine ⟨rfl, @kept_columnNames rowLimit fs a, ?_⟩
  rw [htake]
  exact kept_tableData hl fs a

/-- Whichever side wins, a stopped read leaves its first rows as one success. -/
theorem collect_race (hl : 0 < rowLimit) (fs : List Field) (all : List (List Cell))
    {pieces : List PGresult} (h : Race fs all pieces)
    (hstop : (collect rowLimit stoppable (between [] false) pieces).stopped = true) :
    ∃ s, (collect rowLimit stoppable (between [] false) pieces).statements = [s] ∧
      FirstRows rowLimit fs all s := by
  cases h with
  | completes h =>
    cases h with
    | rows _ chunks last =>
      cases chunks with
      | nil =>
        have hw := @onResult_whole rowLimit stoppable [] false (.rows fs last)
        simp only [collect, List.map_nil, List.nil_append, List.foldl_cons, List.foldl_nil] at hstop
        rw [show tuplesOk fs last = (ResultSet.rows fs last).whole from rfl, hw] at hstop
        simp [between] at hstop
      | cons c cs =>
        rw [collect_append, collect_chunks hl, collect_singleton, onResult_close hl] at hstop ⊢
        have hmore : rowLimit < (c :: cs).flatten.length := by
          simp only [between, Bool.and_eq_true, decide_eq_true_eq] at hstop
          exact hstop.2
        refine ⟨_, rfl, ?_⟩
        exact firstRows_kept hl fs List.prefix_rfl
          (by simp only [List.length_append]; omega) _ _
  | cancelled chunks m hp =>
    cases chunks with
    | nil =>
      have hw := @onResult_whole rowLimit stoppable [] false (.failed m)
      simp only [collect, List.map_nil, List.nil_append, List.foldl_cons, List.foldl_nil] at hstop
      rw [show fatalError m.1 = (ResultSet.failed m).whole from rfl, hw] at hstop
      simp [between] at hstop
    | cons c cs =>
      rw [collect_append, collect_chunks hl, collect_singleton] at hstop ⊢
      cases hs : (stoppable && decide (rowLimit < ((c :: cs).flatten.length : ℕ))) with
      | false =>
        rw [hs, onResult_error] at hstop
        simp [between] at hstop
      | true =>
        rw [onResult_error_stopped]
        refine ⟨_, rfl, firstRows_kept hl fs hp ?_ _ _⟩
        simp only [Bool.and_eq_true, decide_eq_true_eq] at hs
        exact hs.2

/-- Streaming in chunks refines the plain path: without an early stop the statements are
those of the unsplit results; with one, the first rows of the read are its only result. -/
theorem streaming_refines_plain (hl : 0 < rowLimit) :
    (∀ (batch : List ResultSet) (pieces : List (List PGresult)),
      List.Forall₂ Split batch pieces →
      (collect rowLimit stoppable {} pieces.flatten).stopped = false →
      (collect rowLimit stoppable {} pieces.flatten).statements =
        batch.flatMap (ResultSet.plain rowLimit)) ∧
    (∀ (fs : List Field) (all : List (List Cell)) (pieces : List PGresult),
      Race fs all pieces → (collect rowLimit stoppable {} pieces).stopped = true →
      ∃ s, (collect rowLimit stoppable {} pieces).statements = [s] ∧
        FirstRows rowLimit fs all s) := by
  constructor
  · intro batch pieces h hstop
    have := collect_batch hl [] h hstop
    exact congrArg LoopState.statements this
  · intro fs all pieces h hstop
    exact collect_race hl fs all h hstop

theorem streaming_refines_plain_pieces :
    (collect 2 true {} [tuplesChunk [] [[]], tuplesOk [] [[]]]).statements =
        (ResultSet.rows [] [[], []]).plain 2 ∧
      ∃ s, (collect 1 true {} [tuplesChunk [] [[]], tuplesChunk [] [[]],
          fatalError "canceling statement".toList]).statements = [s] ∧
        FirstRows 1 [] [[], [], []] s := by
  have hm : "canceling statement".toList ≠ [] := by decide
  constructor
  · have h := (@streaming_refines_plain 2 true (by decide)).1 [.rows [] [[], []]]
      [[tuplesChunk [] [[]], tuplesOk [] [[]]]] (.cons (Split.rows [] [[[]]] [[]]) .nil) (by decide)
    simpa using h
  · exact (@streaming_refines_plain 1 true (by decide)).2 [] [[], [], []] _
      (Race.cancelled [[[]], [[]]] ⟨_, hm⟩ ⟨[[]], rfl⟩) (by decide)

end Loop
end DearSql.Pg
