import DearSql.CompleteBounds
import DearSql.Statements

/-! The range that a completion item replaces. -/
namespace DearSql
open Lexing Loops

/-- The cursor is in the middle of a string, comment, number or parameter, or at the end of one
that would go on. -/
def Inside (cursor : ℕ) (t : Token) : Prop :=
  t.start < cursor ∧
    match t.kind.kind with
    | .string => cursor < t.stop ∨ (cursor = t.stop ∧ t.kind.closed = false)
    | .comment => cursor < t.stop ∨ (cursor = t.stop ∧ (t.kind.closed = false ∨ t.kind.lineComment))
    | .number | .param => cursor ≤ t.stop
    | _ => False

/-- The token is an identifier that the cursor types at. -/
def TypedAt (cursor : ℕ) (t : Token) : Prop :=
  t.start < cursor ∧
    ((t.kind.kind = .word ∧ cursor ≤ t.stop) ∨
      (t.kind.kind = .quotedIdent ∧ (t.kind.closed = false ∨ cursor < t.stop)))

/-- Where a completion goes: at the cursor, or over the identifier typed there. -/
structure ReplaceLaw (sql : Text) (cursor : ℕ) (type : DatabaseType) (r : CompletionResult) :
    Prop where
  start_le : r.replaceStart ≤ cursor
  le_end : cursor ≤ r.replaceEnd
  end_le : r.replaceEnd ≤ sql.length
  range : (r.replaceStart = cursor ∧ r.replaceEnd = cursor) ∨
    ∃ t ∈ statementTokens (tokenize sql (dialectFor type)) cursor sql.length,
      TypedAt cursor t ∧ r.replaceStart = t.start ∧ r.replaceEnd = t.stop
  inside : (∃ t ∈ tokenize sql (dialectFor type), Inside cursor t) →
    r.items = [] ∧ r.replaceStart = cursor ∧ r.replaceEnd = cursor

section Literals

theorem mem_of_statementTokens {all : List Token} {offset length : ℕ} {t : Token}
    (ht : t ∈ statementTokens all offset length) : t ∈ all :=
  List.mem_of_mem_take (List.mem_of_mem_drop (List.mem_filter.mp ht).1)

theorem barsCursor_of_inside {cursor : ℕ} {t : Token} (h : Inside cursor t) :
    barsCursor cursor t = true := by
  obtain ⟨-, h⟩ := h
  unfold barsCursor
  cases hk : t.kind.kind <;> rw [hk] at h <;> simp only at h ⊢
  case string =>
    rcases h with h | ⟨-, h⟩
    · simp [h]
    · simp [h]
  case comment =>
    cases hl : t.kind.lineComment with
    | true =>
      rcases h with h | ⟨h, -⟩
      · simp [h.le]
      · simp [h]
    | false =>
      rcases h with h | ⟨-, h | h⟩
      · simp [h]
      · simp [h]
      · simp [hl] at h
  all_goals simpa using h

/-- The loop stops at the first token from the cursor on: no earlier one is missed. -/
theorem insideLiteral_of_bars {cursor : ℕ} {ts : List Token}
    (hinc : ts.Pairwise fun t u => t.start < u.start) {t : Token} (ht : t ∈ ts)
    (hlt : t.start < cursor) (hbars : barsCursor cursor t = true) :
    insideLiteral cursor ts = true := by
  induction ts with
  | nil => simp at ht
  | cons u us ih =>
    obtain ⟨hu, hus⟩ := List.pairwise_cons.mp hinc
    have hult : u.start < cursor := by
      rcases List.mem_cons.mp ht with rfl | ht
      · exact hlt
      · exact (hu t ht).trans hlt
    rw [insideLiteral, if_neg (by omega)]
    split_ifs with hbu
    · rfl
    · rcases List.mem_cons.mp ht with rfl | ht
      · exact absurd hbars hbu
      · exact ih hus ht

end Literals

/-- What the typed identifier is: none at the cursor, or a token. -/
theorem typedFrom_range (sql : Text) (cursor i : ℕ) (toks : List Token) :
    let typed := typedFrom sql cursor i toks
    (typed.replaceStart = cursor ∧ typed.replaceEnd = cursor) ∨
      ∃ t ∈ toks, TypedAt cursor t ∧ typed.replaceStart = t.start ∧ typed.replaceEnd = t.stop := by
  induction toks generalizing i with
  | nil => exact .inl ⟨rfl, rfl⟩
  | cons t ts ih =>
    rw [typedFrom]
    split_ifs with hstart hword hquoted
    · exact .inl ⟨rfl, rfl⟩
    · exact .inr ⟨t, List.mem_cons_self, ⟨by omega, .inl hword⟩, rfl, rfl⟩
    · exact .inr ⟨t, List.mem_cons_self, ⟨by omega, .inr ⟨hquoted.1, hquoted.2.symm⟩⟩, rfl, rfl⟩
    · rcases ih (i + 1) with h | ⟨u, hu, h⟩
      · exact .inl h
      · exact .inr ⟨u, List.mem_cons_of_mem _ hu, h⟩

/-- Nothing is offered, or the cursor is in no literal and types what the tokens say. -/
theorem offersAt_cases {sql : Text} {cursor : ℕ} {catalog : CompletionCatalog}
    {type : DatabaseType} {typed : Typed} {offers : List Offer}
    (h : offersAt sql cursor catalog type = some (typed, offers)) :
    (offers = [] ∧ typed.replaceStart = cursor ∧ typed.replaceEnd = cursor) ∨
      (insideLiteral cursor (tokenize sql (dialectFor type)) = false ∧
        typed = typedFrom sql cursor 0
          (statementTokens (tokenize sql (dialectFor type)) cursor sql.length)) := by
  simp only [offersAt] at h
  by_cases hsql : (!isSqlDialect type) = true
  · rw [if_pos hsql, Option.some_inj, Prod.mk.injEq] at h
    obtain ⟨rfl, rfl⟩ := h
    exact .inl ⟨rfl, rfl, rfl⟩
  rw [if_neg hsql] at h
  obtain ⟨a, -, h⟩ := Option.bind_eq_some_iff.mp h
  by_cases hin : insideLiteral cursor (tokenize sql (dialectFor type)) = true
  · rw [if_pos hin, Option.some_inj, Prod.mk.injEq] at h
    obtain ⟨rfl, rfl⟩ := h
    exact .inl ⟨rfl, rfl, rfl⟩
  rw [if_neg hin] at h
  obtain ⟨found, -, h⟩ := Option.bind_eq_some_iff.mp h
  rw [Option.some_inj, Prod.mk.injEq] at h
  exact .inr ⟨by simpa using hin, h.1.symm⟩

/-- A typed identifier reaches from before the cursor to the cursor at least. -/
theorem typedAt_bounds {sql : Text} {d : Dialect} {cursor : ℕ} (hc : cursor ≤ sql.length)
    {t : Token} (ht : t ∈ tokenize sql d) (h : TypedAt cursor t) :
    t.start ≤ cursor ∧ cursor ≤ t.stop ∧ t.stop ≤ sql.length := by
  have hle := (tokenize_partitions sql d).inside t ht
  obtain ⟨hlt, ⟨-, h⟩ | ⟨-, ho | h⟩⟩ := h
  · exact ⟨hlt.le, h, hle⟩
  · have := stop_of_open ht ho
    exact ⟨hlt.le, by omega, hle⟩
  · exact ⟨hlt.le, h.le, hle⟩

/-- The range is empty at the cursor or the identifier typed there, and nothing is offered inside
a string, comment, number or parameter. -/
theorem replace_range (sql : Text) (cursor : ℕ) (catalog : CompletionCatalog)
    (type : DatabaseType) :
    ∃ r, complete sql cursor catalog type = some r ∧
      ReplaceLaw sql (min cursor sql.length) type r := by
  obtain ⟨r, hr, -⟩ := complete_yields sql cursor catalog type
  refine ⟨r, hr, ?_⟩
  obtain ⟨⟨typed, offers⟩, hoffers, hr⟩ := Option.bind_eq_some_iff.mp hr
  obtain ⟨items, hitems, hr⟩ := Option.bind_eq_some_iff.mp hr
  obtain rfl := Option.some_inj.mp hr
  generalize hcur : min cursor sql.length = c at hoffers
  have hc : c ≤ sql.length := hcur ▸ min_le_right _ _
  rcases offersAt_cases hoffers with ⟨rfl, h1, h2⟩ | ⟨hin, rfl⟩
  · obtain rfl : [] = items := by simpa [Emitter.take, Emitter.items, firstOfKey] using hitems
    exact ⟨h1.le, h2.ge, h2.trans_le hc, .inl ⟨h1, h2⟩, fun _ => ⟨rfl, h1, h2⟩⟩
  have hout : ¬∃ t ∈ tokenize sql (dialectFor type), Inside c t := fun ⟨t, ht, hti⟩ => by
    have := insideLiteral_of_bars (tokenize_partitions sql _).increasing ht hti.1
      (barsCursor_of_inside hti)
    simp [hin] at this
  have hrange := typedFrom_range sql c 0
    (statementTokens (tokenize sql (dialectFor type)) c sql.length)
  obtain ⟨h1, h2⟩ | ⟨t, ht, htyped, h1, h2⟩ := hrange
  · exact ⟨h1.le, h2.ge, h2.trans_le hc, .inl ⟨h1, h2⟩, fun h => absurd h hout⟩
  · obtain ⟨hb1, hb2, hb3⟩ := typedAt_bounds hc (mem_of_statementTokens ht) htyped
    exact ⟨h1.trans_le hb1, hb2.trans_eq h2.symm, h2.trans_le hb3,
      .inr ⟨t, ht, htyped, h1, h2⟩, fun h => absurd h hout⟩

end DearSql
