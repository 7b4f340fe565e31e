import DearSql.SameView
import DearSql.Statements

/-! Completion and resolution see only the statement of the cursor. -/
namespace DearSql
open Lexing Loops

section Seam

variable {d : Dialect} {P : Text} {t : Token}

theorem scan_semicolon (prev : Option Char) (s : Text) :
    scanToken d prev (';' :: s) = some ({ kind := .punct, text := [';'] }, 1) := by
  rw [scanToken_break prev (by decide)]
  rfl

/-- What follows a semicolon is tokenized by itself. -/
theorem tokenize_after_semicolon (hlast : (tokenize P d).getLast? = some t)
    (hsemi : t.kind.isSemi = true) (hstop : t.stop = P.length) :
    ∃ xs, (∀ x ∈ xs, x.stop < P.length) ∧ tokenize P d = xs ++ [t] ∧
      ∀ X, tokenize (P ++ X) d = xs ++ t :: (tokenize X d).map (Lexeme.shift P.length) := by
  have ht : t ∈ tokenize P d := List.mem_of_getLast? hlast
  obtain ⟨hkind, hone, hget⟩ := semi_scan ht hsemi
  obtain ⟨Q, hQ, rfl⟩ : ∃ Q, Q.length = t.start ∧ P = Q ++ [';'] := by
    refine ⟨P.take t.start, List.length_take_of_le (by omega), ?_⟩
    have hdrop : P.drop t.start = [';'] := by
      obtain ⟨hlt, hc⟩ := List.getElem?_eq_some_iff.mp hget
      rw [List.drop_eq_getElem_cons hlt, hc, List.drop_eq_nil_of_le (by omega)]
    rw [← hdrop, List.take_append_drop]
  have hneutral : Neutral (some ';') := by
    rintro p ⟨⟩
    decide
  have hrest : ∀ (prev : Option Char) (X : Text),
      lexFrom (scanToken d) prev Q.length 0 (';' :: X) =
        t :: (tokenize X d).map (Lexeme.shift (Q.length + 1)) := by
    intro prev X
    rw [lexFrom_step (bounded_scanToken d) (scan_semicolon prev X)]
    have htok : t = ⟨{ kind := .punct, text := [';'] }, Q.length, Q.length + 1⟩ := by
      rw [← hkind, hQ, ← hone]
    rw [htok]
    congr 1
    exact lexFrom_neutral d hneutral _ X
  have hswap : ∀ X : Text, ∃ xs, (∀ x ∈ xs, x.stop ≤ Q.length) ∧
      tokenize (Q ++ [';']) d = xs ++ [t] ∧
      tokenize (Q ++ ';' :: X) d = xs ++ t :: (tokenize X d).map (Lexeme.shift (Q.length + 1)) := by
    intro X
    have hseam : SeamAt (KeepsEnd [';'] (';' :: X)) (0 + Q.length)
        (lexFrom (scanToken d) none 0 0 (Q ++ [';'])) := by
      rw [Nat.zero_add, hQ]
      exact fun x hx => ⟨(seam_start ht x hx).1, fun _ => .inr (.inl rfl)⟩
    obtain ⟨xs, hxs, h1, h2⟩ := lexFrom_swap (bounded_scanToken d)
      (swap_scanToken d (stops_cons.mpr (by decide))) hseam
    rw [Nat.zero_add] at hxs h1 h2
    rw [hrest] at h1 h2
    exact ⟨xs, hxs, h1, h2⟩
  obtain ⟨xs, hxs, hP, -⟩ := hswap []
  refine ⟨xs, fun x hx => by simpa using Nat.lt_succ_of_le (hxs x hx), hP, fun X => ?_⟩
  obtain ⟨ys, -, hP', hX⟩ := hswap X
  obtain rfl : xs = ys := List.append_cancel_right (hP.symm.trans hP')
  rw [List.append_assoc, List.length_append]
  exact hX

end Seam

section Isolation

variable {type : DatabaseType} {P X : Text} {c : ℕ}

/-- A text ends with a semicolon of its own. -/
def EndsStatement (P : Text) (type : DatabaseType) : Prop :=
  ∃ t, (tokenize P (dialectFor type)).getLast? = some t ∧ t.kind.isSemi = true ∧ t.stop = P.length

/-- A text after one that ends a statement. -/
def afterStatement (P X : Text) (c : ℕ) : Views where
  sql := X
  cursor := c
  sql' := P ++ X
  cursor' := P.length + c
  move := (P.length + ·)

theorem moved_shift (t : Token) : (afterStatement P X c).Moved t (t.shift P.length) where
  like := .refl _
  start := Nat.add_comm _ _
  stop := Nat.add_comm _ _
  start_le := by simp [afterStatement, Nat.add_comm]
  le_start := by simp [afterStatement, Nat.add_comm]
  stop_le := by simp [afterStatement, Nat.add_comm]
  le_stop := by simp [afterStatement, Nat.add_comm]
  typed _ _ _ := by
    simp only [afterStatement, slice, Lexeme.shift_start]
    rw [Nat.add_comm t.start, Nat.add_sub_add_left, ← List.drop_drop, List.drop_left]

theorem sameView_after (hP : EndsStatement P type) (hc : c ≤ X.length) :
    SameView (afterStatement P X c) (dialectFor type) := by
  obtain ⟨t, hlast, hsemi, hstop⟩ := hP
  obtain ⟨xs, hxs, hPtok, hall⟩ := tokenize_after_semicolon hlast hsemi hstop
  have hlt : ∀ x ∈ xs ++ [t], x.stop ≤ P.length + c := by
    intro x hx
    rcases List.mem_append.mp hx with hx | hx
    · exact (hxs x hx).le.trans (Nat.le_add_right _ _)
    · rw [List.mem_singleton.mp hx, hstop]
      exact Nat.le_add_right _ _
  have hmoved : ∀ ts : List Token, List.Forall₂ (afterStatement P X c).Moved ts
      (ts.map (Lexeme.shift P.length)) := fun ts =>
    List.forall₂_map_right_iff.mpr (List.forall₂_same.mpr fun u _ => moved_shift u)
  have hmem : ∀ x ∈ xs, x ∈ tokenize P (dialectFor type) := fun x hx => by simp [hPtok, hx]
  refine ⟨hc, by simp [afterStatement, hc], rfl, ?_, ?_⟩
  · have hbars : ∀ x ∈ xs ++ [t], barsCursor (P.length + c) x = false := by
      intro x hx
      rcases List.mem_append.mp hx with hx | hx
      · have hclosed : x.kind.closed = true := by
          by_contra hopen
          have := stop_of_open (hmem x hx) (by simpa using hopen)
          have := hxs x hx
          omega
        have hlt := hxs x hx
        have h1 : ¬P.length + c ≤ x.stop := by omega
        have h2 : ¬P.length + c < x.stop := by omega
        unfold barsCursor
        cases x.kind.kind <;> simp [hclosed, h1, h2]
      · obtain rfl := List.mem_singleton.mp hx
        simp only [TokInfo.isSemi, Bool.and_eq_true, decide_eq_true_eq] at hsemi
        simp [barsCursor, hsemi.1]
    have hfirst : ((xs ++ [t]).any fun x => decide (x.start < P.length + c) &&
        barsCursor (P.length + c) x) = false := by
      rw [List.any_eq_false]
      intro x hx
      simp [hbars x hx]
    simp only [afterStatement]
    rw [insideLiteral_tokenize, insideLiteral_tokenize, hall, List.append_cons, List.any_append,
      hfirst, Bool.false_or]
    exact Views.bars_moved (hmoved _)
  · have hkeep : notComment t = true := by
      simp only [TokInfo.isSemi, Bool.and_eq_true, decide_eq_true_eq] at hsemi
      simp [notComment, hsemi.1]
    have hfilter : ∀ ts : List Token, (ts.map (Lexeme.shift P.length)).filter notComment =
        (ts.filter notComment).map (Lexeme.shift P.length) := fun ts => List.filter_map
    simp only [afterStatement]
    rw [statementTokens_eq, statementTokens_eq, hall, List.filter_append,
      List.filter_cons_of_pos hkeep, hfilter, segmentFrom_semi ?_ hsemi]
    · exact Views.segment_moved (v := afterStatement P X c) .nil (hmoved _)
    · intro u hu
      refine hlt u ?_
      rcases List.mem_append.mp hu with hu | hu
      · exact List.mem_append_left _ (List.mem_filter.mp hu).1
      · exact List.mem_append_right _ hu

/-- Text before the last semicolon changes neither what is offered nor what a name stands for. -/
theorem statement_isolation (hP : EndsStatement P type) (hc : c ≤ X.length)
    (catalog : CompletionCatalog) :
    complete (P ++ X) (P.length + c) catalog type =
        (complete X c catalog type).map (CompletionResult.move (P.length + ·)) ∧
      resolveIdentifierAt (P ++ X) (P.length + c) catalog type =
        (resolveIdentifierAt X c catalog type).map
          (Option.map (ResolvedIdentifier.move (P.length + ·))) :=
  ⟨complete_moved (sameView_after hP hc) catalog,
    resolveIdentifierAt_moved (sameView_after hP hc) catalog⟩

theorem statement_isolation_select :
    complete (['a', ';'] ++ ['s']) (['a', ';'].length + 1) {} .POSTGRESQL =
        (complete ['s'] 1 {} .POSTGRESQL).map (CompletionResult.move (2 + ·)) ∧
      resolveIdentifierAt (['a', ';'] ++ ['s']) (['a', ';'].length + 1) {} .POSTGRESQL =
        (resolveIdentifierAt ['s'] 1 {} .POSTGRESQL).map
          (Option.map (ResolvedIdentifier.move (2 + ·))) :=
  statement_isolation ⟨⟨{ kind := .punct, text := [';'] }, 1, 2⟩, by decide, by decide, rfl⟩
    (by decide) {}

end Isolation
end DearSql
