import DearSql.SqlChains

/-! Comments in generated SQL: each is a string token of its own, as long as the lexer of the
dialect reads its literal the way it was escaped. -/
namespace DearSql
open Lexing

section Requests

/-- A call that puts comments into its SQL. -/
inductive Commented
  | createTable (table : Table) (schemaPrefix : Text)
  | addColumn (schema tableName : Text) (column : Column)
  | alterColumn (schema tableName : Text) (newColumn : Column)
  deriving DecidableEq, Repr

def nonEmpty (cs : List Text) : List Text := cs.filter (· ≠ [])

/-- A text of words, numbers and parentheses only. -/
def Plain (d : Dialect) (p : Text) : Prop :=
  ∀ t ∈ infos d p, t.kind = .word ∨ t.kind = .number ∨
    (t.kind = .punct ∧ (t.text = ['('] ∨ t.text = [')']))

namespace Commented

def sql (b : Builder) : Commented → Text
  | createTable table schemaPrefix => b.createTable table schemaPrefix
  | addColumn schema tableName column => b.addColumn (b.qualifiedRef schema tableName) column
  | alterColumn schema tableName column => b.alterColumn (b.qualifiedRef schema tableName) column

def columns : Commented → List Column
  | createTable table _ => table.columns
  | addColumn _ _ column | alterColumn _ _ column => [column]

def tableComment : Commented → Text
  | createTable table _ => table.comment
  | _ => []

/-- The comments that are not empty, those of the columns first. -/
def comments (r : Commented) : List Text :=
  nonEmpty (r.columns.map (·.comment)) ++ nonEmpty [r.tableComment]

def PlainTypes (d : Dialect) (r : Commented) : Prop :=
  ∀ col ∈ r.columns, Plain d col.type ∧ Plain d col.defaultValue

/-- The semicolons of a call with `n` comments. -/
def semicolons (b : Builder) (n : ℕ) : Commented → ℕ
  | createTable .. | addColumn .. => if b = .PostgreSQL then n else 0
  | alterColumn .. => if b = .PostgreSQL then 2 + n else 0

/-- Each comment is one closed string, and the semicolons are those of the statement forms. -/
def Kept (type : DatabaseType) (r : Commented) : Prop :=
  strings (infos (dialectFor type) (r.sql (createSQLBuilder type))) = r.comments.map stringInfo ∧
    semis (infos (dialectFor type) (r.sql (createSQLBuilder type))) =
      r.semicolons (createSQLBuilder type) r.comments.length

def pieces (b : Builder) : Commented → List Piece
  | createTable table schemaPrefix => b.createTablePieces table schemaPrefix
  | addColumn schema tableName column => b.addColumnPieces schema tableName column
  | alterColumn schema tableName column => b.alterColumnPieces schema tableName column

theorem render_pieces {b : Builder} (hb : b = .PostgreSQL ∨ b = .MySQL) (r : Commented) :
    render b (r.pieces b) = r.sql b := by
  cases r with
  | createTable table schemaPrefix => exact b.render_createTable table schemaPrefix
  | addColumn schema tableName column => exact b.render_addColumn schema tableName column
  | alterColumn schema tableName column => exact b.render_alterColumn hb schema tableName column

theorem chained_pieces (b : Builder) (r : Commented) : chained (r.pieces b) = true := by
  cases r with
  | createTable table schemaPrefix => exact b.chained_createTable table schemaPrefix
  | addColumn schema tableName column => exact b.chained_addColumn schema tableName column
  | alterColumn schema tableName column => exact b.chained_alterColumn schema tableName column

end Commented
end Requests

section Literals

def Piece.literals : Piece → List Text
  | literal comment => [comment]
  | _ => []

def Piece.semicolons : Piece → ℕ
  | fixed s => s.toList.count ';'
  | _ => 0

def literals (ps : List Piece) : List Text := ps.flatMap Piece.literals

def semicolonsIn (ps : List Piece) : ℕ := (ps.map Piece.semicolons).sum

/-- A piece taken over as it is holds words, numbers and parentheses only. -/
def Piece.PlainText (d : Dialect) : Piece → Prop
  | verbatim s => Plain d s
  | _ => True

theorem strings_append (ts us : List TokInfo) : strings (ts ++ us) = strings ts ++ strings us :=
  List.filter_append _ _

theorem semis_append (ts us : List TokInfo) : semis (ts ++ us) = semis ts + semis us :=
  List.countP_append

theorem readFrom_whole {d : Dialect} {c : Char} {rest : Text} {st : Start}
    (h : (readFrom d c rest st).1.kind = .word ∨ (readFrom d c rest st).1.kind = .number ∨
      (readFrom d c rest st).1.kind = .punct) : (readFrom d c rest st).1.whole := by
  cases st with
  | word | number | punct | op | param => exact ⟨rfl, rfl⟩
  | lineComment => simp [readFrom, lineCommentToken] at h
  | string | backtick | bracket => simp [readFrom, quotedToken] at h
  | doubleQuote =>
    simp only [readFrom, quotedToken] at h
    split_ifs at h <;> simp at h
  | blockComment =>
    simp only [readFrom, blockCommentToken] at h
    split at h <;> simp at h
  | dollar =>
    simp only [readFrom, dollarToken_eq] at h ⊢
    split_ifs at h ⊢
    · split at h <;> simp at h
    · exact ⟨rfl, rfl⟩

theorem Plain.whole {d : Dialect} {p : Text} (h : Plain d p) : ∀ t ∈ infos d p, t.whole := by
  intro t ht
  obtain ⟨x, hx, rfl⟩ := List.mem_map.mp ht
  have hk := h x.kind ht
  obtain ⟨prev, c, rest, -, -, hread⟩ := token_scan hx
  have := @readFrom_whole d c rest (startOf d prev c (rest.headD '\x00')) (by rw [hread]; tauto)
  rwa [hread] at this

theorem Plain.tokens {d : Dialect} {p : Text} (h : Plain d p) :
    strings (infos d p) = [] ∧ semis (infos d p) = 0 := by
  constructor
  · refine List.filter_eq_nil_iff.mpr fun t ht => ?_
    rcases h t ht with h1 | h1 | ⟨h1, -⟩ <;> rw [h1] <;> decide
  · refine List.countP_eq_zero.mpr fun t ht => ?_
    rcases h t ht with h1 | h1 | ⟨h1, h2 | h2⟩ <;> simp [TokInfo.isSemi, *]

theorem mem_intersperse {α : Type*} {sep x : α} {l : List α} (h : x ∈ l.intersperse sep) :
    x = sep ∨ x ∈ l := by
  induction l with
  | nil => simp at h
  | cons a as ih =>
    cases as with
    | nil => exact .inr h
    | cons c cs =>
      rw [List.intersperse_cons_cons] at h
      simp only [List.mem_cons] at h ih ⊢
      tauto

theorem path_tokens (d : Dialect) (names : List Text) :
    strings ((Piece.path names).infos d) = [] ∧ semis ((Piece.path names).infos d) = 0 := by
  have hmem : ∀ t ∈ (Piece.path names).infos d, t = dotInfo ∨ ∃ n, t = identInfo n := by
    intro t ht
    rcases mem_intersperse ht with rfl | ht
    · exact .inl rfl
    · obtain ⟨n, -, rfl⟩ := List.mem_map.mp ht
      exact .inr ⟨n, rfl⟩
  constructor
  · refine List.filter_eq_nil_iff.mpr fun t ht => ?_
    rcases hmem t ht with rfl | ⟨n, rfl⟩ <;> simp [dotInfo, identInfo]
  · refine List.countP_eq_zero.mpr fun t ht => ?_
    rcases hmem t ht with rfl | ⟨n, rfl⟩ <;> simp [dotInfo, identInfo, TokInfo.isSemi]

theorem Piece.tokens {d : Dialect} (hd : d ∈ builderDialects) {p : Piece} (hk : p.known = true)
    (hp : p.PlainText d) :
    strings (p.infos d) = p.literals.map stringInfo ∧ semis (p.infos d) = p.semicolons := by
  cases p with
  | fixed s =>
    exact phrase_tokens s (List.mem_append.mpr (of_decide_eq_true hk : s ∈ _ ∨ s ∈ _)) d hd
  | path names => exact path_tokens d names
  | literal c => exact ⟨rfl, rfl⟩
  | verbatim s => exact Plain.tokens hp

/-- The strings of a chain are its literals, and its semicolons those of its phrases. -/
theorem tokens_pieces {d : Dialect} (hd : d ∈ builderDialects) {ps : List Piece}
    (hc : chained ps = true) (hp : ∀ p ∈ ps, p.PlainText d) :
    strings (ps.flatMap (Piece.infos d)) = (literals ps).map stringInfo ∧
      semis (ps.flatMap (Piece.infos d)) = semicolonsIn ps := by
  induction ps with
  | nil => exact ⟨rfl, rfl⟩
  | cons p ps ih =>
    obtain ⟨hk, -, hps⟩ := chained_cons.mp hc
    obtain ⟨h1, h2⟩ := Piece.tokens hd hk (hp p (by simp))
    obtain ⟨h3, h4⟩ := ih hps fun q hq => hp q (by simp [hq])
    rw [List.flatMap_cons, strings_append, semis_append, h1, h2, h3, h4]
    simp [literals, semicolonsIn]

/-- After a comment that is read otherwise than it was escaped the strings are not the literals. -/
theorem strings_diverge {b : Builder} (hd : b.dialect.backslashEscape = true) {ps : List Piece}
    (hc : chained ps = true) (hp : ∀ p ∈ ps, p.PlainText b.dialect)
    (hbad : ∃ c ∈ literals ps, '\\' ∈ c) :
    strings (infosFrom b.dialect none (render b ps)) ≠ (literals ps).map stringInfo := by
  induction ps with
  | nil => simp [literals] at hbad
  | cons p ps ih =>
    obtain ⟨hk, hnext, hps⟩ := chained_cons.mp hc
    by_cases hw : p.Whole b.dialect
    · obtain ⟨h1, -⟩ := Piece.tokens (dialect_mem b) hk (hp p (by simp))
      rw [infosFrom_render hc (Piece.reads (chained_cons.mp hc).1 hw) neutral_none, strings_append, h1]
      intro he
      have hlit : literals (p :: ps) = p.literals ++ literals ps := List.flatMap_cons
      rw [hlit, List.map_append, List.append_cancel_left_eq] at he
      refine ih hps (fun q hq => hp q (by simp [hq])) ?_ he
      obtain ⟨c, hc, hmem⟩ := hbad
      rw [hlit, List.mem_append] at hc
      refine ⟨c, hc.resolve_left fun hcp => ?_, hmem⟩
      cases p with
      | literal c' =>
        obtain rfl := List.mem_singleton.mp hcp
        exact hw hd hmem
      | fixed | path | verbatim => simp [Piece.literals] at hcp
    · cases p with
      | fixed | path => exact absurd trivial hw
      | verbatim s => exact absurd (Plain.whole (hp (.verbatim s) (by simp))) hw
      | literal c =>
        have hmem : '\\' ∈ c := by simpa [Piece.Whole, hd] using hw
        have hstop := stops_render (b := b) (hnext.resolve_left (by simp [Piece.isOpen]))
        have hrest : (render b ps).head? ≠ some '\'' := fun h =>
          (quiet_of_isBreak (hstop _ h)).quotes.1 rfl
        intro he
        have hne := scanQuoted_backslash hrest hmem
        rw [render_cons, text_literal, literal_split] at he
        let q := scanQuoted '\'' true (doubling '\'' c ++ '\'' :: render b ps)
        have hscan : scanToken b.dialect none ('\'' :: (doubling '\'' c ++ '\'' :: render b ps)) =
            some ({ kind := .string, closed := q.closed, text := q.text }, 1 + q.len) := by
          rw [scanToken_eq_some, startOf_quote, readFrom, hd]
          exact ⟨by decide, rfl⟩
        rw [infosFrom_take hscan, strings, List.filter_cons_of_pos (by simp)] at he
        exact hne (congrArg TokInfo.text (List.cons_eq_cons.mp he).1)

end Literals
section Says

variable (d : Dialect)

/-- The comments that a list of pieces with plain texts holds, and its semicolons. -/
structure Says (ps : List Piece) (cs : List Text) (k : ℕ) : Prop where
  plain : ∀ p ∈ ps, p.PlainText d
  comments : literals ps = cs
  semicolons : semicolonsIn ps = k

/-- Pieces without comments or semicolons. -/
def Silent (ps : List Piece) : Prop :=
  ∀ p ∈ ps, p.PlainText d ∧ p.literals = [] ∧ p.semicolons = 0

variable {d} {ps qs : List Piece} {cs cs' : List Text} {k k' : ℕ}

theorem Says.append (h : Says d ps cs k) (h' : Says d qs cs' k') :
    Says d (ps ++ qs) (cs ++ cs') (k + k') where
  plain p hp := (List.mem_append.mp hp).elim (h.plain p) (h'.plain p)
  comments := by
    rw [literals, List.flatMap_append]
    exact congrArg₂ _ h.comments h'.comments
  semicolons := by
    rw [semicolonsIn, List.map_append, List.sum_append]
    exact congrArg₂ _ h.semicolons h'.semicolons

theorem says_nil : Says d [] [] 0 := ⟨by simp, rfl, rfl⟩

theorem says_literal (c : Text) : Says d [.literal c] [c] 0 :=
  ⟨by simp [Piece.PlainText], rfl, rfl⟩

theorem Silent.says (h : Silent d ps) : Says d ps [] 0 where
  plain p hp := (h p hp).1
  comments := List.flatMap_eq_nil_iff.mpr fun p hp => (h p hp).2.1
  semicolons := List.sum_eq_zero fun n hn => by
    obtain ⟨p, hp, rfl⟩ := List.mem_map.mp hn
    exact (h p hp).2.2

theorem Silent.then (h : Silent d ps) (h' : Says d qs cs k) : Says d (ps ++ qs) cs k := by
  simpa using h.says.append h'

theorem Silent.append (h : Silent d ps) (h' : Silent d qs) : Silent d (ps ++ qs) := fun p hp =>
  (List.mem_append.mp hp).elim (h p) (h' p)

theorem Silent.opt (h : Silent d ps) (c : Prop) [Decidable c] :
    Silent d (if c then ps else []) := by
  split_ifs
  · exact h
  · simp [Silent]

theorem silent_fixed {s : String} (h : s.toList.count ';' = 0) : Silent d [.fixed s] := by
  simpa [Silent, Piece.PlainText, Piece.literals, Piece.semicolons] using h

theorem silent_path (names : List Text) : Silent d [.path names] := by
  simp [Silent, Piece.PlainText, Piece.literals, Piece.semicolons]

theorem silent_verbatim {s : Text} (h : Plain d s) : Silent d [.verbatim s] := by
  simpa [Silent, Piece.PlainText, Piece.literals, Piece.semicolons] using h

theorem silent_namePieces (names : List Text) : Silent d (Builder.namePieces names) := by
  intro p hp
  rcases mem_intersperse hp with rfl | hp
  · exact silent_fixed (s := ", ") rfl _ (by simp)
  · obtain ⟨n, -, rfl⟩ := List.mem_map.mp hp
    exact silent_path [n] _ (by simp)

theorem nonEmpty_cons (c : Text) (cs : List Text) : nonEmpty (c :: cs) = nonEmpty [c] ++ nonEmpty cs :=
  List.filter_append [c] cs

theorem Says.comment {c : Text} (h : Says d ps [c] k) :
    Says d (if c ≠ [] then ps else []) (nonEmpty [c]) (k * (nonEmpty [c]).length) := by
  by_cases hc : c = []
  · simpa [hc, nonEmpty] using says_nil
  · simpa [hc, nonEmpty] using h

end Says

section Forms

variable {d : Dialect} {col : Column}

open Builder

theorem silent_autoIncrement (type : DatabaseType) : Silent d (autoIncrementPieces type) := by
  cases type with
  | MYSQL | MARIADB | TIDB | SQLITE | MSSQL | ORACLE => exact (silent_fixed (by simp))
  | _ => simp [Silent, autoIncrementPieces]

theorem says_commentOn (schema tableName name comment : Text) :
    Says d (commentOnPieces schema tableName name comment) [comment] 0 :=
  (((silent_fixed (s := "COMMENT ON COLUMN ") (by simp)).append (silent_path _)).append
    (silent_fixed (s := " IS ") (by simp))).then (says_literal comment)

theorem says_commentPieces (col : Column) : Says d (commentPieces col) (nonEmpty [col.comment]) 0 := by
  have h : Says d [.fixed " COMMENT ", .literal col.comment] [col.comment] 0 :=
    (silent_fixed (s := " COMMENT ") (by simp)).then (says_literal _)
  have := h.comment
  rwa [Nat.zero_mul] at this

theorem silent_notNull (col : Column) : Silent d (notNullPieces col) :=
  Silent.opt (silent_fixed (by simp)) _

theorem silent_unique (col : Column) : Silent d (uniquePieces col) :=
  Silent.opt (silent_fixed (by simp)) _

theorem silent_default (h : Plain d col.defaultValue) : Silent d (defaultPieces col) :=
  Silent.opt ((silent_fixed (s := " DEFAULT ") (by simp)).append (silent_verbatim h)) _

theorem plain_serial (type : Text) :
    Plain Builder.PostgreSQL.dialect (serialTypeForColumn type) := by
  have h : ∀ s ∈ ["BIGSERIAL", "SMALLSERIAL", "SERIAL"],
      ∀ t ∈ infos Builder.PostgreSQL.dialect s.toList, t.kind = .word ∨ t.kind = .number ∨
        (t.kind = .punct ∧ (t.text = ['('] ∨ t.text = [')'])) := by decide
  unfold serialTypeForColumn
  split_ifs
  · exact h "BIGSERIAL" (by simp)
  · exact h "SMALLSERIAL" (by simp)
  · exact h "SERIAL" (by simp)

section Builders

variable {b : Builder}

theorem plain_createColumnType (h : Plain b.dialect col.type) :
    Plain b.dialect (b.createColumnType col) := by
  unfold createColumnType
  split_ifs with hs
  · obtain rfl : b = .PostgreSQL := by
      cases b <;> simp [databaseType] at hs ⊢
    exact plain_serial _
  · exact h

/-- The comments that a column carries in its own line. -/
theorem says_createColumn (h : Plain b.dialect col.type) :
    Says b.dialect (b.createColumnPieces col)
      (if isMySQLFamily b.databaseType then nonEmpty [col.comment] else []) 0 := by
  have hhead : Silent b.dialect [.path [col.name], .fixed " ", .verbatim (b.createColumnType col)] :=
    ((silent_path _).append (silent_fixed (by simp))).append (silent_verbatim (plain_createColumnType h))
  have hpk : Silent b.dialect [.fixed " PRIMARY KEY AUTOINCREMENT"] := (silent_fixed (by simp))
  have hnn : Silent b.dialect [.fixed " NOT NULL"] := (silent_fixed (by simp))
  have hcore := ((hpk.opt (b.inlinePk col = true)).append (hnn.opt
    ((col.isNotNull && !col.isPrimaryKey && b.databaseType ≠ .CASSANDRA) = true))).append
    ((silent_autoIncrement b.databaseType).opt ((col.isAutoIncrement && b.databaseType ≠ .SQLITE &&
      b.databaseType ≠ .POSTGRESQL) = true))
  refine hhead.then (hcore.then ?_)
  split_ifs
  · exact says_commentPieces col
  · exact says_nil

theorem says_columns {cols : List Column} (h : ∀ col ∈ cols, Plain b.dialect col.type) (i : ℕ) :
    Says b.dialect (b.columnsPieces i cols)
      (if isMySQLFamily b.databaseType then nonEmpty (cols.map (·.comment)) else []) 0 := by
  induction cols generalizing i with
  | nil => simpa [nonEmpty, columnsPieces] using says_nil
  | cons col cols ih =>
    have hcol := says_createColumn (h col (by simp))
    have hrest := ih (fun c hc => h c (by simp [hc])) (i + 1)
    have hcomma : Silent b.dialect (if i > 0 then [.fixed ", "] else []) :=
      Silent.opt (silent_fixed (by simp)) _
    have hall := (hcomma.then hcol).append hrest
    rw [columnsPieces, List.map_cons, nonEmpty_cons]
    split_ifs at hall ⊢ <;> exact hall

theorem says_commentStatements (schema tableName : Text) (cols : List Column) :
    Says d (cols.flatMap (commentStatementPieces schema tableName))
      (nonEmpty (cols.map (·.comment))) (nonEmpty (cols.map (·.comment))).length := by
  induction cols with
  | nil => exact says_nil
  | cons col cols ih =>
    have hsemi : Says d [.fixed ";\n"] [] 1 :=
      ⟨by simp [Piece.PlainText], rfl, by simp [semicolonsIn, Piece.semicolons]⟩
    have hcol := (hsemi.append (says_commentOn schema tableName col.name col.comment)).comment
    rw [Nat.add_zero, Nat.one_mul] at hcol
    rw [List.flatMap_cons, List.map_cons, nonEmpty_cons, List.length_append]
    exact hcol.append ih

theorem silent_pk (pk : List Text) : Silent d (pkPieces pk) :=
  Silent.opt ((silent_fixed (s := ", PRIMARY KEY (") (by simp)).append
    ((silent_namePieces pk).append (silent_fixed (by simp)))) _

theorem says_tableComment (comment : Text) :
    Says d (tableCommentPieces comment) (nonEmpty [comment]) 0 := by
  have h : Says d [.fixed " COMMENT=", .literal comment] [comment] 0 :=
    (silent_fixed (s := " COMMENT=") (by simp)).then (says_literal _)
  have hcomment := h.comment
  rw [Nat.zero_mul] at hcomment
  exact (silent_fixed (s := " ENGINE=InnoDB DEFAULT CHARSET=utf8mb4") (by simp)).then hcomment

/-- PostgreSQL leaves the comment of the table out. -/
theorem says_createTable (hb : b = .PostgreSQL ∨ b = .MySQL) {table : Table}
    (h : ∀ col ∈ table.columns, Plain b.dialect col.type) (schemaPrefix : Text) :
    Says b.dialect (b.createTablePieces table schemaPrefix)
      (nonEmpty (table.columns.map (·.comment)) ++
        if b = .PostgreSQL then [] else nonEmpty [table.comment])
      (if b = .PostgreSQL then (nonEmpty (table.columns.map (·.comment))).length else 0) := by
  have hhead : Silent b.dialect
      [.fixed "CREATE TABLE ", .path (namesOf schemaPrefix table.name), .fixed " ("] :=
    ((silent_fixed (s := "CREATE TABLE ") (by simp)).append (silent_path _)).append (silent_fixed (by simp))
  have htail : Silent b.dialect (pkPieces (b.trailingPk table.columns) ++ [.fixed ")"]) :=
    (silent_pk _).append (silent_fixed (by simp))
  have hcols := says_columns h 0
  rcases hb with rfl | rfl
  · have hcomments := says_commentStatements (d := Builder.PostgreSQL.dialect) schemaPrefix table.name
      table.columns
    have hall := hhead.then (hcols.append (htail.then hcomments))
    simpa [isMySQLFamily, createTablePieces, createTail, databaseType] using hall
  · have hall := hhead.then (hcols.append (htail.then (says_tableComment table.comment)))
    simpa [isMySQLFamily, createTablePieces, createTail, databaseType] using hall

theorem silent_alterTable {s : String} (h : s.toList.count ';' = 0) (schema tableName name : Text) :
    Silent d (alterTablePieces schema tableName s name) :=
  (((silent_fixed (s := "ALTER TABLE ") (by simp)).append (silent_path _)).append
    (silent_fixed h)).append (silent_path _)

theorem silent_type {s : Text} (h : Plain d s) : Silent d [.fixed " ", .verbatim s] :=
  (silent_fixed (s := " ") (by simp)).append (silent_verbatim h)

theorem says_semicolon {s : String} (h : s.toList.count ';' = 1) : Says d [.fixed s] [] 1 :=
  ⟨by simp [Piece.PlainText], rfl, by simp [semicolonsIn, Piece.semicolons, h]⟩

theorem silent_autoIncrementOf (b : Builder) (col : Column) : Silent d (b.autoIncrementOfPieces col) :=
  Silent.opt (silent_autoIncrement _) _

theorem says_addColumn (hb : b = .PostgreSQL ∨ b = .MySQL) (h : Plain b.dialect col.type)
    (hv : Plain b.dialect col.defaultValue) (schema tableName : Text) :
    Says b.dialect (b.addColumnPieces schema tableName col) (nonEmpty [col.comment])
      (if b = .PostgreSQL then (nonEmpty [col.comment]).length else 0) := by
  have halter : Silent b.dialect (alterTablePieces schema tableName " ADD COLUMN " col.name) :=
    silent_alterTable (by simp) _ _ _
  rcases hb with rfl | rfl
  · have htype : Plain Builder.PostgreSQL.dialect (Builder.PostgreSQL.addType col) := by
      unfold addType
      split_ifs
      · exact plain_serial _
      · exact h
    have hsemi : Says Builder.PostgreSQL.dialect [.fixed "; "] [] 1 := says_semicolon (by simp)
    have hcomment := (hsemi.append (says_commentOn schema tableName col.name col.comment)).comment
    rw [Nat.add_zero, Nat.one_mul] at hcomment
    have hclauses := ((silent_notNull col).append (silent_unique col)).append (silent_default hv)
    rw [if_pos rfl]
    exact halter.then ((silent_type htype).then (hclauses.then hcomment))
  · have hclauses := (((silent_notNull col).append (silent_autoIncrementOf .MySQL col)).append
      (silent_unique col)).append (silent_default hv)
    rw [if_neg (by simp)]
    exact halter.then ((silent_type h).then (hclauses.then (says_commentPieces col)))

/-- Statements in a row have a semicolon between any two. -/
theorem says_intercalate {ls : List (List Piece)} {css : List (List Text)}
    (h : List.Forall₂ (fun l cs => Says d l cs 0) ls css) (hne : ls ≠ []) :
    Says d ([.fixed "; "].intercalate ls) css.flatten (ls.length - 1) := by
  induction h with
  | nil => exact absurd rfl hne
  | @cons l cs ls css hl hls ih =>
    cases hls with
    | nil => simpa [List.intercalate] using hl
    | @cons m ds ms dss hm hms =>
      have hsemi : Says d [.fixed "; "] [] 1 := says_semicolon (by simp)
      have hsplit : [Piece.fixed "; "].intercalate (l :: m :: ms) =
          l ++ ([.fixed "; "] ++ [.fixed "; "].intercalate (m :: ms)) := by simp [List.intercalate]
      have hlen : (l :: m :: ms).length - 1 = 0 + (1 + ((m :: ms).length - 1)) := by
        simp only [List.length_cons]
        omega
      rw [hsplit, hlen]
      exact hl.append (hsemi.append (ih (by simp)))

theorem says_alterStatements (h : Plain d col.type) (hv : Plain d col.defaultValue)
    (schema tableName : Text) :
    List.Forall₂ (fun l cs => Says d l cs 0) (alterStatementPieces schema tableName col)
      ([[], [], []] ++ (nonEmpty [col.comment]).map fun c => [c]) := by
  have halter : Silent d (alterTablePieces schema tableName " ALTER COLUMN " col.name) :=
    silent_alterTable (by simp) _ _ _
  have htype := halter.append ((silent_fixed (s := " TYPE ") (by simp)).append (silent_verbatim h))
  have hnull := halter.append (silent_fixed
    (s := if col.isNotNull then " SET NOT NULL" else " DROP NOT NULL") (by split_ifs <;> simp))
  have hdefault : Silent d (if col.defaultValue ≠ [] then
      alterTablePieces schema tableName " ALTER COLUMN " col.name ++
        ([.fixed " SET DEFAULT "] ++ [.verbatim col.defaultValue])
      else alterTablePieces schema tableName " ALTER COLUMN " col.name ++ [.fixed " DROP DEFAULT"]) := by
    split_ifs
    · exact halter.append ((silent_fixed (by simp)).append (silent_verbatim hv))
    · exact halter.append (silent_fixed (by simp))
  have hcomment : List.Forall₂ (fun l cs => Says d l cs 0)
      (if col.comment ≠ [] then [commentOnPieces schema tableName col.name col.comment] else [])
      ((nonEmpty [col.comment]).map fun c => [c]) := by
    by_cases hc : col.comment = []
    · simp [hc, nonEmpty]
    · simpa [hc, nonEmpty] using says_commentOn schema tableName col.name col.comment
  exact .cons htype.says (.cons hnull.says (.cons hdefault.says hcomment))

theorem says_alterColumn (hb : b = .PostgreSQL ∨ b = .MySQL) (h : Plain b.dialect col.type)
    (hv : Plain b.dialect col.defaultValue) (schema tableName : Text) :
    Says b.dialect (b.alterColumnPieces schema tableName col) (nonEmpty [col.comment])
      (if b = .PostgreSQL then 2 + (nonEmpty [col.comment]).length else 0) := by
  rcases hb with rfl | rfl
  · have hstatements := says_alterStatements h hv schema tableName
    have hlen : (alterStatementPieces schema tableName col).length - 1 =
        2 + (nonEmpty [col.comment]).length := by
      rw [hstatements.length_eq, List.length_append, List.length_map]
      simp only [List.length_cons, List.length_nil]
      omega
    have hne : alterStatementPieces schema tableName col ≠ [] := by simp [alterStatementPieces]
    have hall := says_intercalate hstatements hne
    have hflat : ([[], [], []] ++ (nonEmpty [col.comment]).map fun c => [c]).flatten =
        nonEmpty [col.comment] := by simp [List.flatten_eq_flatMap, List.flatMap_map]
    rw [hlen, hflat] at hall
    rwa [if_pos rfl]
  · have hclauses := ((silent_notNull col).append (silent_autoIncrementOf .MySQL col)).append
      (silent_default hv)
    have halter : Silent Builder.MySQL.dialect
        (alterTablePieces schema tableName " MODIFY COLUMN " col.name) :=
      silent_alterTable (by simp) _ _ _
    rw [if_neg (by simp)]
    exact halter.then ((silent_type h).then (hclauses.then (says_commentPieces col)))

end Builders
end Forms

section Kept

/-- The comments that the builder puts into its SQL: PostgreSQL leaves that of a new table out. -/
def Commented.shown (b : Builder) (r : Commented) : List Text :=
  nonEmpty (r.columns.map (·.comment)) ++ if b = .PostgreSQL then [] else nonEmpty [r.tableComment]

theorem Commented.shown_eq {b : Builder} {r : Commented} (h : b = .PostgreSQL → r.tableComment = []) :
    r.shown b = r.comments := by
  unfold shown comments
  split_ifs with hb
  · rw [h hb]
    rfl
  · rfl

theorem shown_column {b : Builder} (col : Column) :
    (nonEmpty [col.comment] ++ if b = .PostgreSQL then [] else nonEmpty [[]]) =
      nonEmpty [col.comment] := by
  split_ifs <;> simp [nonEmpty]

theorem says_pieces {b : Builder} (hb : b = .PostgreSQL ∨ b = .MySQL) {r : Commented}
    (h : r.PlainTypes b.dialect) :
    Says b.dialect (r.pieces b) (r.shown b) (r.semicolons b (r.shown b).length) := by
  cases r with
  | createTable table schemaPrefix =>
    have hshow := says_createTable hb (fun col hc => (h col hc).1) schemaPrefix
    rcases hb with rfl | rfl
    · simpa [Commented.shown, Commented.semicolons, Commented.columns, Commented.pieces] using hshow
    · exact hshow
  | addColumn schema tableName col =>
    obtain ⟨h1, h2⟩ := h col (by simp [Commented.columns])
    have hshown : (Commented.addColumn schema tableName col).shown b = nonEmpty [col.comment] :=
      shown_column col
    rw [hshown]
    exact says_addColumn hb h1 h2 schema tableName
  | alterColumn schema tableName col =>
    obtain ⟨h1, h2⟩ := h col (by simp [Commented.columns])
    have hshown : (Commented.alterColumn schema tableName col).shown b = nonEmpty [col.comment] :=
      shown_column col
    rw [hshown]
    exact says_alterColumn hb h1 h2 schema tableName

theorem Piece.whole_of_plain {d : Dialect} {p : Piece} (h : p.PlainText d)
    (hc : d.backslashEscape = true → ∀ c ∈ p.literals, '\\' ∉ c) : p.Whole d := by
  cases p with
  | fixed | path => trivial
  | literal c => exact fun hd => hc hd c (by simp [Piece.literals])
  | verbatim s => exact Plain.whole h

/-- The strings and semicolons of the SQL, where the lexer reads every comment as it was escaped. -/
theorem tokens_sql {b : Builder} (hb : b = .PostgreSQL ∨ b = .MySQL) {r : Commented}
    (h : r.PlainTypes b.dialect) (hc : b.dialect.backslashEscape = true → ∀ c ∈ r.shown b, '\\' ∉ c) :
    strings (infos b.dialect (r.sql b)) = (r.shown b).map stringInfo ∧
      semis (infos b.dialect (r.sql b)) = r.semicolons b (r.shown b).length := by
  have hshow := says_pieces hb h
  have hchain := r.chained_pieces b
  have hwhole : ∀ p ∈ r.pieces b, p.Whole b.dialect := fun p hp =>
    Piece.whole_of_plain (hshow.plain p hp) fun hd c hcp =>
      hc hd c (hshow.comments ▸ List.mem_flatMap.mpr ⟨p, hp, hcp⟩)
  obtain ⟨h1, h2⟩ := tokens_pieces (dialect_mem b) hchain hshow.plain
  rw [← Commented.render_pieces hb r, infos_render hchain hwhole, h1, h2, hshow.comments,
    hshow.semicolons]
  exact ⟨rfl, rfl⟩

theorem builder_of_type {type : DatabaseType} (h : isPostgresFamily type ∨ isMySQLFamily type) :
    dialectFor type = (createSQLBuilder type).dialect ∧
      (createSQLBuilder type = .PostgreSQL ∧ isPostgresFamily type ∧ isMySQLFamily type = false ∨
        createSQLBuilder type = .MySQL ∧ isMySQLFamily type ∧ isPostgresFamily type = false) := by
  cases type <;> simp_all [isPostgresFamily, isMySQLFamily, createSQLBuilder, Builder.dialect,
    Builder.databaseType, dialectFor]

theorem stringInfo_injective : Function.Injective stringInfo := fun _ _ h => congrArg TokInfo.text h

/-- Comments stay in their literals as long as MySQL gets no backslash, and all of them are there
as long as PostgreSQL is given no comment of a table. -/
theorem comments_kept_iff {type : DatabaseType} (hf : isPostgresFamily type ∨ isMySQLFamily type)
    {r : Commented} (h : r.PlainTypes (dialectFor type)) :
    r.Kept type ↔ (isMySQLFamily type → ∀ c ∈ r.comments, '\\' ∉ c) ∧
      (isPostgresFamily type → r.tableComment = []) := by
  obtain ⟨hd, hfam⟩ := builder_of_type hf
  unfold Commented.Kept
  rw [hd] at h ⊢
  rcases hfam with ⟨hb, hpg, hmy⟩ | ⟨hb, hmy, hpg⟩
  · rw [hb] at h ⊢
    obtain ⟨h1, h2⟩ := tokens_sql (.inl rfl) h fun hd => absurd hd (by decide)
    simp only [hpg, hmy, Bool.false_eq_true, false_implies, true_implies, true_and]
    constructor
    · rintro ⟨hstrings, -⟩
      -- PostgreSQL shows the column comments only
      rw [h1, (List.map_injective_iff.mpr stringInfo_injective).eq_iff] at hstrings
      unfold Commented.shown Commented.comments at hstrings
      rw [if_pos rfl, List.append_cancel_left_eq] at hstrings
      simpa [nonEmpty] using hstrings.symm
    · intro ht
      rw [h1, h2, Commented.shown_eq fun _ => ht]
      exact ⟨rfl, rfl⟩
  · rw [hb] at h ⊢
    have hshown : r.shown .MySQL = r.comments := Commented.shown_eq (by simp)
    simp only [hpg, hmy, Bool.false_eq_true, false_implies, true_implies, and_true]
    constructor
    · rintro ⟨hstrings, -⟩ c hc hmem
      have hshow := says_pieces (.inr rfl) h
      have hne := strings_diverge (b := .MySQL) rfl (r.chained_pieces .MySQL) hshow.plain
        ⟨c, by rwa [hshow.comments, hshown], hmem⟩
      rw [Commented.render_pieces (.inr rfl), ← infos_eq, hshow.comments, hshown] at hne
      exact hne hstrings
    · intro hc
      obtain ⟨h1, h2⟩ := tokens_sql (.inr rfl) h fun _ => hshown ▸ hc
      rw [h1, h2, hshown]
      exact ⟨rfl, rfl⟩

theorem plain_int (comment : Text) : Commented.PlainTypes (dialectFor .MYSQL)
    (.addColumn [] ['t'] { name := ['c'], type := "int".toList, comment := comment }) := by
  have hint : ∀ t ∈ infos (dialectFor .MYSQL) "int".toList, t.kind = .word ∨ t.kind = .number ∨
      (t.kind = .punct ∧ (t.text = ['('] ∨ t.text = [')'])) := by decide
  intro col hc
  obtain rfl := List.mem_singleton.mp hc
  exact ⟨hint, by simp [Plain, infos_eq]⟩

theorem comment_kept_mysql :
    Commented.Kept .MYSQL
      (.addColumn [] ['t'] { name := ['c'], type := "int".toList, comment := "it's".toList }) :=
  (comments_kept_iff (.inr rfl) (plain_int _)).mpr
    ⟨fun _ => by simp [Commented.comments, Commented.columns, Commented.tableComment, nonEmpty],
      fun h => absurd h (by decide)⟩

/-- A backslash before a quote ends the literal, and what follows is read as SQL. -/
theorem comment_breaks_out :
    Commented.PlainTypes (dialectFor .MYSQL) (.addColumn [] ['t']
      { name := ['c'], type := "int".toList, comment := "\\'; DROP TABLE t -- ".toList }) ∧
    ¬Commented.Kept .MYSQL (.addColumn [] ['t']
      { name := ['c'], type := "int".toList, comment := "\\'; DROP TABLE t -- ".toList }) := by
  refine ⟨plain_int _, ?_⟩
  unfold Commented.Kept
  decide

end Kept
end DearSql
