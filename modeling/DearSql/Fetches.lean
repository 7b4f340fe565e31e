import DearSql.QueryResult

/-! Rows taken one call at a time, up to a limit. The loop of the Oracle and the SQLite backend
ends at the limit, at the end of the rows or at a call that fails. -/
namespace DearSql.Fetches

variable {ρ ε : Type}

/-- What the call for the next row answers; a list of answers ends with the rows. -/
inductive Fetch (ρ ε : Type)
  | row (r : ρ)
  | failed (e : ε)
  deriving DecidableEq, Repr

/-- What the last call answered: a row, where the limit ends the loop. -/
inductive Last (ε : Type)
  | row
  | done
  | failed (e : ε)
  deriving DecidableEq, Repr

/-- With `n` rows taken the limit is not reached. -/
def Below (rowLimit : ℤ) (n : ℕ) : Prop := rowLimit ≤ 0 ∨ n < rowLimit

instance (rowLimit : ℤ) (n : ℕ) : Decidable (Below rowLimit n) :=
  inferInstanceAs (Decidable (_ ∨ _))

def fetchRows (rowLimit : ℤ) (text : ρ → List Text) (fetches : List (Fetch ρ ε))
    (tableData : List (List Text)) : List (List Text) × Last ε :=
  if ¬Below rowLimit tableData.length then (tableData, .row)
  else match fetches with
    | [] => (tableData, .done)
    | .failed e :: _ => (tableData, .failed e)
    | .row r :: rest => fetchRows rowLimit text rest (tableData ++ [text r])

/-- After the rows `rs` a call fails, and the limit is not reached before. -/
def FailsAfter (rowLimit : ℤ) (rs : List ρ) (e : ε) (fetches : List (Fetch ρ ε)) : Prop :=
  Below rowLimit rs.length ∧ ∃ rest, fetches = rs.map .row ++ .failed e :: rest

section Rules
variable {rowLimit : ℤ} {text : ρ → List Text} {fetches : List (Fetch ρ ε)}
  {tableData : List (List Text)} {e : ε}

theorem Below.of_le {m n : ℕ} (h : Below rowLimit n) (hmn : m ≤ n) : Below rowLimit m := by
  rcases h with h | h
  · exact .inl h
  · exact .inr (by omega)

theorem fetchRows_rows {rs : List ρ} {rest : List (Fetch ρ ε)}
    (h : Below rowLimit (tableData.length + rs.length)) :
    fetchRows rowLimit text (rs.map .row ++ rest) tableData =
      fetchRows rowLimit text rest (tableData ++ rs.map text) := by
  induction rs generalizing tableData with
  | nil => simp
  | cons r rs ih =>
    have hnow : Below rowLimit tableData.length := h.of_le (by simp)
    have hrest : Below rowLimit ((tableData ++ [text r]).length + rs.length) :=
      h.of_le (by simp; omega)
    rw [List.map_cons, List.cons_append, fetchRows, if_neg (not_not.mpr hnow), ih hrest]
    simp

/-- The rows before the failure are kept, whatever becomes of it. -/
theorem fetchRows_failed {rs : List ρ} (h : FailsAfter rowLimit rs e fetches) :
    fetchRows rowLimit text fetches [] = (rs.map text, .failed e) := by
  obtain ⟨hbelow, rest, rfl⟩ := h
  rw [fetchRows_rows (by simpa using hbelow), fetchRows, if_neg]
  · simp
  · simpa using hbelow

/-- The last call is one that fails only where one fails within the limit. -/
theorem failed_of_last (h : (fetchRows rowLimit text fetches tableData).2 = .failed e) :
    ∃ (rs : List ρ) (rest : List (Fetch ρ ε)), fetches = rs.map .row ++ .failed e :: rest ∧
      Below rowLimit (tableData.length + rs.length) := by
  induction fetches generalizing tableData with
  | nil =>
    unfold fetchRows at h
    split_ifs at h
  | cons f fetches ih =>
    unfold fetchRows at h
    split_ifs at h with hbelow
    · cases f with
      | failed e' =>
        cases h
        exact ⟨[], fetches, rfl, hbelow⟩
      | row r =>
        obtain ⟨rs, rest, rfl, hrs⟩ := ih h
        refine ⟨r :: rs, rest, rfl, ?_⟩
        rw [List.length_append, List.length_singleton] at hrs
        rw [List.length_cons, Nat.add_comm rs.length, ← Nat.add_assoc]
        exact hrs

theorem last_failed_iff : (fetchRows rowLimit text fetches []).2 = .failed e ↔
    ∃ rs, FailsAfter rowLimit rs e fetches := by
  constructor
  · intro h
    obtain ⟨rs, rest, hfetches, hbelow⟩ := failed_of_last h
    exact ⟨rs, by simpa using hbelow, rest, hfetches⟩
  · rintro ⟨rs, h⟩
    rw [fetchRows_failed h]

end Rules
end DearSql.Fetches
