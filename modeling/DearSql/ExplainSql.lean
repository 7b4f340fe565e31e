import DearSql.StatementIsolation

/-! The statement `explainSql` makes of a text, and the statements `statementRanges` finds in it. -/
namespace DearSql.Explain
open Lexing

def trimStatement (sql : Text) : Text :=
  ((sql.dropWhile isspace).reverse.dropWhile fun c => isspace c || c = ';').reverse

/-- What `explainSql` puts in front of a statement, without the blank behind it. -/
def opening (type : DatabaseType) (analyze : Bool) : Option Text :=
  match type, analyze with
  | .POSTGRESQL, true => some "EXPLAIN (ANALYZE, BUFFERS, FORMAT JSON)".toList
  | .POSTGRESQL, false => some "EXPLAIN (FORMAT JSON)".toList
  | .MYSQL, true => some "EXPLAIN ANALYZE".toList
  | .MYSQL, false => some "EXPLAIN FORMAT=TREE".toList
  | .SQLITE, false => some "EXPLAIN QUERY PLAN".toList
  | _, _ => none

def explainSql (type : DatabaseType) (statement : Text) (analyze : Bool) : Option Text :=
  let stmt := trimStatement statement
  if stmt.isEmpty then none
  else (opening type analyze).map fun o => o ++ ' ' :: stmt

section Tokens

variable {d : Dialect} {type : DatabaseType} {R X : Text}

/-- What follows a blank is tokenized by itself where no token goes over the blank. -/
theorem tokenize_after_blank (h : ∀ x ∈ tokenize (R ++ [' ']) d, x.stop ≤ R.length) :
    tokenize (R ++ ' ' :: X) d =
      tokenize (R ++ [' ']) d ++ (tokenize X d).map (Lexeme.shift (R.length + 1)) := by
  have hrest : ∀ (prev : Option Char) (Y : Text),
      lexFrom (scanToken d) prev R.length 0 (' ' :: Y) =
        (tokenize Y d).map (Lexeme.shift (R.length + 1)) := by
    intro prev Y
    rw [lexFrom_pass (by rw [scanToken_break prev (by decide)]; rfl)]
    exact lexFrom_neutral d (neutral_of_isspace (by decide)) _ Y
  have hseam : SeamAt (KeepsEnd [' '] (' ' :: X)) (0 + R.length)
      (lexFrom (scanToken d) none 0 0 (R ++ [' '])) := by
    rw [Nat.zero_add]
    exact fun x hx => ⟨.inl (h x hx), fun _ => .inr (.inl rfl)⟩
  obtain ⟨xs, -, h1, h2⟩ := lexFrom_swap (bounded_scanToken d)
    (swap_scanToken d (stops_cons.mpr (by decide))) hseam
  rw [Nat.zero_add, hrest] at h1 h2
  have hR : tokenize (R ++ [' ']) d = xs := h1.trans (List.append_nil xs)
  rw [hR]
  exact h2

end Tokens

section Ranges

/-- The first token that is not a comment is no semicolon. -/
def joins (ts : List Token) : Bool :=
  ((ts.filter fun t => t.kind.kind ≠ .comment).head?).any fun t => !t.kind.isSemi

theorem joins_shift (k : ℕ) (ts : List Token) : joins (ts.map (Lexeme.shift k)) = joins ts := by
  induction ts with
  | nil => rfl
  | cons t ts ih =>
    by_cases hc : t.kind.kind = .comment
    · simpa [joins, hc] using ih
    · simp [joins, hc]

def moved (k : ℕ) (r : ℕ × ℕ) : ℕ × ℕ := (r.1 + k, r.2 + k)

theorem rangesFrom_shift (k : ℕ) (first : Option ℕ) (last : ℕ) (ts : List Token) :
    statementRangesFrom (first.map (· + k)) (last + k) (ts.map (Lexeme.shift k)) =
      (statementRangesFrom first last ts).map (moved k) := by
  induction ts generalizing first last with
  | nil => cases first <;> rfl
  | cons t ts ih =>
    rw [List.map_cons, statementRangesFrom, statementRangesFrom]
    have hnone := ih none last
    rw [Option.map_none] at hnone
    by_cases hs : t.kind.isSemi = true
    · simp only [Lexeme.shift_kind, hs, if_true, List.map_append, hnone]
      cases first <;> rfl
    · by_cases hc : t.kind.kind = .comment
      · simp [hs, hc, ih]
      · have hsome := ih (some (first.getD t.start)) t.stop
        have hstart : (first.map (· + k)).getD (t.start + k) = first.getD t.start + k := by
          cases first <;> rfl
        simpa [hs, hc, hstart] using hsome

theorem rangesFrom_start (b b' last : ℕ) (ts : List Token) :
    statementRangesFrom (some b) last ts =
      (statementRangesFrom (some b') last ts).modifyHead fun r => (b, r.2) := by
  induction ts generalizing last with
  | nil => rfl
  | cons t ts ih =>
    rw [statementRangesFrom, statementRangesFrom]
    by_cases hs : t.kind.isSemi = true
    · simp [hs, flushRange]
    · by_cases hc : t.kind.kind = .comment
      · simp only [hs, hc]
        simpa using ih last
      · simpa [hs, hc] using ih t.stop

/-- A statement under way goes on in the first statement of the text behind it, or ends before. -/
theorem rangesFrom_under_way (b last : ℕ) (ts : List Token) :
    statementRangesFrom (some b) last ts =
      if joins ts then (statementRangesFrom none 0 ts).modifyHead fun r => (b, r.2)
      else (b, last) :: statementRangesFrom none 0 ts := by
  induction ts with
  | nil => rfl
  | cons t ts ih =>
    rw [statementRangesFrom, statementRangesFrom]
    by_cases hs : t.kind.isSemi = true
    · have hc : t.kind.kind ≠ .comment := by
        intro hc
        simp [TokInfo.isSemi, hc] at hs
      simp [hs, hc, joins, flushRange, rangesFrom_last last 0]
    · by_cases hc : t.kind.kind = .comment
      · simpa [hs, hc, joins] using ih
      · simpa [hs, hc, joins] using rangesFrom_start b t.start t.stop ts

theorem rangesFrom_opening {xs : List Token} (hxs : ∀ x ∈ xs, x.kind.ordinary = true) {b e : ℕ}
    (hone : statementRangesFrom none 0 xs = [(b, e)]) (ys : List Token) :
    statementRangesFrom none 0 (xs ++ ys) = statementRangesFrom (some b) e ys := by
  cases xs with
  | nil => cases hone
  | cons x xs =>
    obtain ⟨hx, hxs⟩ := List.forall_mem_cons.mp hxs
    obtain ⟨hkind, hsemi⟩ := ordinary_iff.mp hx
    have hsemis : ∀ t ∈ xs, t.kind.isSemi = false := fun t ht => (ordinary_iff.mp (hxs t ht)).2
    have hlast := rangesFrom_some hsemis x.start x
    rw [List.cons_append, statementRangesFrom, if_neg (by simp [hsemi]), if_pos hkind,
      Option.getD_none, hlast]
    rw [statementRangesFrom, if_neg (by simp [hsemi]), if_pos hkind, Option.getD_none,
      ← List.append_nil xs, hlast, statementRangesFrom, flushRange, List.singleton_inj,
      Prod.mk.injEq] at hone
    rw [hone.1, hone.2]

end Ranges

section Explain

variable {type : DatabaseType} {s e o X : Text} {analyze : Bool}

theorem explainSql_eq_some : explainSql type s analyze = some e ↔
    trimStatement s ≠ [] ∧ ∃ o, opening type analyze = some o ∧
      o ++ ' ' :: trimStatement s = e := by
  by_cases hempty : trimStatement s = []
  · simp [explainSql, hempty]
  · simp [explainSql, hempty]

/-- The words in front are a statement of their own. -/
theorem opening_tokens (ho : opening type analyze = some o) :
    (∀ x ∈ tokenize (o ++ [' ']) (dialectFor type),
      x.kind.ordinary = true ∧ x.stop ≤ o.length) ∧
    statementRanges (o ++ [' ']) type = [(0, o.length)] := by
  unfold opening at ho
  split at ho
  · cases ho
    decide
  · cases ho
    decide
  · cases ho
    decide
  · cases ho
    decide
  · cases ho
    decide
  · cases ho

/-- The statements behind the words in front, in the text and in what `explainSql` makes of it. -/
theorem explain_statements (h : explainSql type s analyze = some e) :
    ∃ k, e.drop (k + 1) = trimStatement s ∧ statementRanges e type =
      if joins (tokenize (trimStatement s) (dialectFor type)) then
        ((statementRanges (trimStatement s) type).map (moved (k + 1))).modifyHead fun r => (0, r.2)
      else (0, k) :: (statementRanges (trimStatement s) type).map (moved (k + 1)) := by
  obtain ⟨-, o, ho, rfl⟩ := explainSql_eq_some.mp h
  obtain ⟨htokens, hone⟩ := opening_tokens ho
  have hafter := tokenize_after_blank (X := trimStatement s) fun x hx => (htokens x hx).2
  have hshift := rangesFrom_shift (o.length + 1) none 0
    (tokenize (trimStatement s) (dialectFor type))
  refine ⟨o.length, by simp, ?_⟩
  rw [statementRanges, hafter, rangesFrom_opening (fun x hx => (htokens x hx).1) hone,
    rangesFrom_under_way, joins_shift, rangesFrom_last 0 (0 + (o.length + 1))]
  rw [Option.map_none] at hshift
  rw [hshift]
  rfl

/-- Only the first of two statements is explained; the other one runs. -/
theorem explain_statements_two :
    explainSql .POSTGRESQL "a; b".toList true =
        some "EXPLAIN (ANALYZE, BUFFERS, FORMAT JSON) a; b".toList ∧
      ∃ k, "EXPLAIN (ANALYZE, BUFFERS, FORMAT JSON) a; b".toList.drop (k + 1) = "a; b".toList ∧
        statementRanges "EXPLAIN (ANALYZE, BUFFERS, FORMAT JSON) a; b".toList .POSTGRESQL =
          if joins (tokenize "a; b".toList (dialectFor .POSTGRESQL)) then
            ((statementRanges "a; b".toList .POSTGRESQL).map (moved (k + 1))).modifyHead
              fun r => (0, r.2)
          else (0, k) :: (statementRanges "a; b".toList .POSTGRESQL).map (moved (k + 1)) := by
  have h : explainSql .POSTGRESQL "a; b".toList true =
      some "EXPLAIN (ANALYZE, BUFFERS, FORMAT JSON) a; b".toList := by decide
  exact ⟨h, explain_statements h⟩

theorem joins_of_first {ts : List Token} (h : InOrder ts) {t : Token} (ht : t ∈ ts)
    (hkind : t.kind.ordinary = true) (hstart : t.start = 0) : joins ts = true := by
  cases ts with
  | nil => cases ht
  | cons u us =>
    obtain rfl | hu := List.mem_cons.mp ht
    · obtain ⟨hc, hs⟩ := ordinary_iff.mp hkind
      simp [joins, hc, hs]
    · have hbefore := (List.pairwise_cons.mp h.apart).1 t hu
      have hnonempty := h.nonempty u List.mem_cons_self
      omega

/-- The statement a listed range gives is explained as one statement, from its first word to the
end of its text. -/
theorem explain_range {r : ℕ × ℕ} (hr : r ∈ statementRanges s type)
    (htrim : trimStatement (slice s r.1 r.2) = slice s r.1 r.2)
    (h : explainSql type (slice s r.1 r.2) analyze = some e) :
    statementRanges e type = [(0, e.length)] := by
  have hone := range_alone hr
  have hlength : (slice s r.1 r.2).length = r.2 - r.1 :=
    slice_length ((rangesLaw s type).nonempty r hr).2
  have hfirst : joins (tokenize (slice s r.1 r.2) (dialectFor type)) = true := by
    obtain ⟨t, ht, hkind, hstart⟩ :=
      (rangesOf_statements (slice s r.1 r.2) type).first (0, r.2 - r.1) (by simp [hone])
    exact joins_of_first (inOrder_tokenize _ _) ht hkind hstart
  obtain ⟨k, hdrop, hranges⟩ := explain_statements h
  rw [htrim] at hdrop hranges
  have hlong := congrArg List.length hdrop
  rw [List.length_drop, hlength] at hlong
  rw [hranges, if_pos hfirst, hone]
  have hpos := ((rangesLaw s type).nonempty r hr).1
  simp only [List.map_cons, List.map_nil, List.modifyHead_cons, moved]
  congr 2
  omega

theorem explain_range_second :
    (3, 6) ∈ statementRanges "a; b.5;c".toList .MYSQL ∧
      statementRanges "EXPLAIN ANALYZE b.5".toList .MYSQL =
        [(0, "EXPLAIN ANALYZE b.5".toList.length)] := by
  have hr : (3, 6) ∈ statementRanges "a; b.5;c".toList .MYSQL := by decide
  have htrim : trimStatement (slice "a; b.5;c".toList 3 6) = slice "a; b.5;c".toList 3 6 := by
    decide
  have h : explainSql .MYSQL (slice "a; b.5;c".toList 3 6) true =
      some "EXPLAIN ANALYZE b.5".toList := by decide
  exact ⟨hr, explain_range hr htrim h⟩

end Explain

end DearSql.Explain
