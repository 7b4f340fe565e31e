import DearSql.Quoting

/-! Generated SQL as a list of pieces: fixed phrases, quoted names, comment literals and texts
taken over as they are. A list whose pieces keep apart is tokenized piece by piece. -/
namespace DearSql
open Lexing

def Builder.dialect (b : Builder) : Dialect := dialectFor b.databaseType

theorem Builder.quotes_dialect (b : Builder) : QuotesWith b b.dialect := by cases b <;> rfl

section Phrases

/-- The phrases that start a text. -/
@[simp] def leadPhrases : List String :=
  ["CREATE TABLE ", "PRIMARY KEY (", "CONSTRAINT ", "CREATE INDEX ", "FOREIGN KEY (",
    "ALTER TABLE ", "COMMENT ON COLUMN ", "RENAME TABLE ", "DROP TABLE ", "DROP TABLE IF EXISTS ",
    "TRUNCATE TABLE ONLY ", "TRUNCATE TABLE ", "INSERT INTO ", "UPDATE "]

/-- The phrases that come after other pieces. -/
@[simp] def linkPhrases : List String :=
  [" ", ", ", ",\n", "\n", "    ", " (", " (\n", "; ", ";\n", ");", ") VALUES (", " = ",
    ", PRIMARY KEY (", " COMMENT ", " COMMENT=", " DEFAULT ", " UNIQUE (", " ON ",
    ") REFERENCES ", " ON DELETE ", " ON UPDATE ", " ADD COLUMN ", " ADD ", " IS ",
    " DROP COLUMN ", " DROP ", " RENAME COLUMN ", " TO ", " ALTER COLUMN ", " TYPE ",
    " SET DEFAULT ", " MODIFY COLUMN ", " MODIFY ", " RENAME TO ", " SET ", " WHERE "]

/-- The phrases after which the text may go on with anything. -/
def openPhrases : List String := leadPhrases ++ linkPhrases

/-- The phrases that end in a word or a parenthesis. -/
@[simp] def closedPhrases : List String :=
  [")", " PRIMARY KEY AUTOINCREMENT", " NOT NULL", " AUTO_INCREMENT", " AUTOINCREMENT",
    " IDENTITY(1,1)", " GENERATED ALWAYS AS IDENTITY", " ENGINE=InnoDB DEFAULT CHARSET=utf8mb4",
    " UNIQUE", " SET NOT NULL", " DROP NOT NULL", " DROP DEFAULT", " CASCADE CONSTRAINTS"]

def strings (ts : List TokInfo) : List TokInfo := ts.filter fun t => t.kind = .string

def semis (ts : List TokInfo) : ℕ := ts.countP TokInfo.isSemi

/-- The dialects of the builders. -/
def builderDialects : List Dialect :=
  [dialectFor .POSTGRESQL, dialectFor .MYSQL, dialectFor .MSSQL, dialectFor .ORACLE,
    dialectFor .SQLITE]

theorem dialect_mem (b : Builder) : b.dialect ∈ builderDialects := by cases b <;> decide

theorem open_law : ∀ s ∈ openPhrases, ∀ d ∈ builderDialects, endsOpen d s.toList = true := by
  decide +kernel

theorem closed_law : ∀ s ∈ closedPhrases, ∀ d ∈ builderDialects, ∀ t ∈ infos d s.toList, t.whole := by
  decide +kernel

theorem link_law : ∀ s ∈ linkPhrases ++ closedPhrases, s.toList.head?.any isBreak = true := by
  decide +kernel

theorem phrase_tokens : ∀ s ∈ openPhrases ++ closedPhrases, ∀ d ∈ builderDialects,
    strings (infos d s.toList) = [] ∧ semis (infos d s.toList) = s.toList.count ';' := by
  decide +kernel

end Phrases

inductive Piece
  | fixed (phrase : String)
  | path (names : List Text)
  | literal (comment : Text)
  | verbatim (text : Text)
  deriving DecidableEq, Repr

namespace Piece

def text (b : Builder) : Piece → Text
  | fixed s => s.toList
  | path names => ".".toList.intercalate (names.map b.quoteIdentifier)
  | literal comment => Builder.commentLiteral comment
  | verbatim s => s

def infos (d : Dialect) : Piece → List TokInfo
  | fixed s => DearSql.infos d s.toList
  | path names => (names.map identInfo).intersperse dotInfo
  | literal comment => [stringInfo comment]
  | verbatim s => DearSql.infos d s

def known : Piece → Bool
  | fixed s => s ∈ openPhrases ∨ s ∈ closedPhrases
  | path names => names ≠ []
  | literal _ | verbatim _ => true

def isOpen : Piece → Bool
  | fixed s => s ∈ openPhrases
  | _ => false

def breaks : Piece → Bool
  | fixed s => s.toList.head?.any isBreak
  | _ => false

/-- The piece is made of tokens that text after it leaves alone. -/
def Whole (d : Dialect) : Piece → Prop
  | literal comment => d.backslashEscape = true → '\\' ∉ comment
  | verbatim s => ∀ t ∈ DearSql.infos d s, t.whole
  | _ => True

end Piece

section Texts

variable (b : Builder)

@[simp] theorem text_fixed (s : String) : (Piece.fixed s).text b = s.toList := rfl

@[simp] theorem text_literal (c : Text) : (Piece.literal c).text b = Builder.commentLiteral c := rfl

@[simp] theorem text_verbatim (s : Text) : (Piece.verbatim s).text b = s := rfl

end Texts

def render (b : Builder) (ps : List Piece) : Text := ps.flatMap (Piece.text b)

/-- A list that can follow a piece that is not open. -/
def stopping : List Piece → Bool
  | [] => true
  | p :: _ => p.breaks

def chained : List Piece → Bool
  | [] => true
  | p :: ps => p.known && (p.isOpen || stopping ps) && chained ps

/-- Pieces that can be put after other pieces. -/
def Clause (ps : List Piece) : Prop := stopping ps = true ∧ chained ps = true

section Chains

variable {ps qs : List Piece}

@[simp] theorem chained_nil : chained [] = true := rfl

theorem stopping_append (hp : stopping ps = true) (hq : stopping qs = true) :
    stopping (ps ++ qs) = true := by
  cases ps with
  | nil => exact hq
  | cons p ps => exact hp

theorem chained_cons {p : Piece} :
    chained (p :: ps) = true ↔
      p.known = true ∧ (p.isOpen = true ∨ stopping ps = true) ∧ chained ps = true := by
  simp [chained, and_assoc]

theorem chained_append (hp : chained ps = true) (hq : Clause qs) : chained (ps ++ qs) = true := by
  induction ps with
  | nil => exact hq.2
  | cons p ps ih =>
    obtain ⟨h1, h2, h3⟩ := chained_cons.mp hp
    exact chained_cons.mpr ⟨h1, h2.imp_right fun h => stopping_append h hq.1, ih h3⟩

theorem Clause.nil : Clause [] := ⟨rfl, rfl⟩

theorem Clause.append (hp : Clause ps) (hq : Clause qs) : Clause (ps ++ qs) :=
  ⟨stopping_append hp.1 hq.1, chained_append hp.2 hq⟩

theorem Clause.opt (h : Clause ps) (c : Prop) [Decidable c] : Clause (if c then ps else []) := by
  split_ifs
  · exact h
  · exact Clause.nil

theorem Clause.flatMap {α : Type*} {f : α → List Piece} {l : List α} (h : ∀ a ∈ l, Clause (f a)) :
    Clause (l.flatMap f) := by
  induction l with
  | nil => exact Clause.nil
  | cons a as ih =>
    rw [List.flatMap_cons]
    exact (h a (by simp)).append (ih fun x hx => h x (by simp [hx]))

/-- Pieces after an open phrase. -/
theorem chained_open {s : String} (h : s ∈ openPhrases) (hp : chained ps = true) :
    chained (.fixed s :: ps) = true :=
  chained_cons.mpr ⟨decide_eq_true (.inl h), .inl (decide_eq_true h), hp⟩

theorem chained_lead {s : String} (h : s ∈ leadPhrases) (hp : chained ps = true) :
    chained (.fixed s :: ps) = true :=
  chained_open (List.mem_append_left _ h) hp

theorem Clause.link {s : String} (h : s ∈ linkPhrases) (hp : chained ps = true) :
    Clause (.fixed s :: ps) :=
  ⟨link_law s (List.mem_append_left _ h), chained_open (List.mem_append_right _ h) hp⟩

theorem Clause.closed {s : String} (h : s ∈ closedPhrases) (hp : Clause ps) :
    Clause (.fixed s :: ps) :=
  ⟨link_law s (List.mem_append_right _ h),
    chained_cons.mpr ⟨decide_eq_true (.inr h), .inr hp.1, hp.2⟩⟩

theorem chained_path {names : List Text} (h : names ≠ []) (hp : Clause ps) :
    chained (.path names :: ps) = true :=
  chained_cons.mpr ⟨by simpa [Piece.known] using h, .inr hp.1, hp.2⟩

theorem chained_literal (c : Text) (hp : Clause ps) : chained (.literal c :: ps) = true :=
  chained_cons.mpr ⟨rfl, .inr hp.1, hp.2⟩

theorem chained_verbatim (s : Text) (hp : Clause ps) : chained (.verbatim s :: ps) = true :=
  chained_cons.mpr ⟨rfl, .inr hp.1, hp.2⟩

end Chains

section Render

variable {b : Builder}

@[simp] theorem render_nil : render b [] = [] := rfl

@[simp] theorem render_cons (p : Piece) (ps : List Piece) : render b (p :: ps) = p.text b ++ render b ps :=
  rfl

@[simp] theorem render_append (ps qs : List Piece) :
    render b (ps ++ qs) = render b ps ++ render b qs := List.flatMap_append

theorem render_singleton (p : Piece) : render b [p] = p.text b := List.append_nil _

theorem render_opt (c : Prop) [Decidable c] (ps : List Piece) :
    render b (if c then ps else []) = if c then render b ps else [] := by
  split_ifs <;> rfl

theorem stops_render {ps : List Piece} (h : stopping ps = true) : Stops (render b ps) := by
  cases ps with
  | nil => exact Stops.nil
  | cons p ps =>
    cases p with
    | fixed s => exact ((breaks_of h).append _).1
    | path | literal | verbatim => simp [stopping, Piece.breaks] at h

theorem text_path (n m : Text) (ns : List Text) :
    (Piece.path (n :: m :: ns)).text b =
      b.quoteIdentifier n ++ ".".toList ++ (Piece.path (m :: ns)).text b := by
  simp [Piece.text, List.intercalate]

theorem text_path_singleton (n : Text) : (Piece.path [n]).text b = b.quoteIdentifier n := by
  simp [Piece.text, List.intercalate]

theorem head_path {ns : List Text} (h : ns ≠ []) :
    ((Piece.path ns).text b).head? = some b.openQuote := by
  obtain ⟨n, ns, rfl⟩ := List.exists_cons_of_ne_nil h
  cases ns with
  | nil => rw [text_path_singleton, head_quoteIdentifier]
  | cons m ns => simp [text_path, head_quoteIdentifier]

theorem reads_path {ns : List Text} (h : ns ≠ []) :
    Reads b.dialect ((Piece.path ns).text b) ((Piece.path ns).infos b.dialect) := by
  induction ns with
  | nil => exact absurd rfl h
  | cons n ns ih =>
    cases ns with
    | nil =>
      rw [text_path_singleton]
      exact reads_quoteIdentifier b.quotes_dialect n
    | cons m ms =>
      rw [text_path]
      exact (ih (by simp)).dot b.quotes_dialect n (head_path (by simp))

/-- Each piece reads as its own tokens. -/
theorem Piece.reads {p : Piece} (hk : p.known = true) (hw : p.Whole b.dialect) :
    Reads b.dialect (p.text b) (p.infos b.dialect) := by
  cases p with
  | fixed s =>
    rcases (of_decide_eq_true hk : s ∈ openPhrases ∨ s ∈ closedPhrases) with h | h
    · exact (readsOn_of_endsOpen (open_law s h _ (dialect_mem b))).reads
    · exact reads_of_whole (closed_law s h _ (dialect_mem b))
  | path ns => exact reads_path (by simpa [Piece.known] using hk)
  | literal c => exact reads_commentLiteral hw
  | verbatim s => exact reads_of_whole hw

/-- One piece of a chain read off. -/
theorem infosFrom_render {p : Piece} {ps : List Piece} {ts : List TokInfo}
    (h : chained (p :: ps) = true) (hr : Reads b.dialect (p.text b) ts) {prev : Option Char}
    (hp : Neutral prev) :
    infosFrom b.dialect prev (render b (p :: ps)) = ts ++ infosFrom b.dialect none (render b ps) := by
  obtain ⟨hk, hnext, -⟩ := chained_cons.mp h
  rcases hnext with hopen | hstop
  · cases p with
    | fixed s =>
      have hs : s ∈ openPhrases := of_decide_eq_true hopen
      have hon := readsOn_of_endsOpen (open_law s hs _ (dialect_mem b)) prev (render b ps) hp
      exact hr.infos ▸ hon
    | path | literal | verbatim => simp [Piece.isOpen] at hopen
  · exact hr prev _ hp (stops_render hstop)

/-- A chain is tokenized piece by piece. -/
theorem infos_render {ps : List Piece} (h : chained ps = true) (hw : ∀ p ∈ ps, p.Whole b.dialect) :
    infos b.dialect (render b ps) = ps.flatMap (Piece.infos b.dialect) := by
  rw [infos_eq]
  induction ps with
  | nil => rfl
  | cons p ps ih =>
    rw [infosFrom_render h (Piece.reads (chained_cons.mp h).1 (hw p (by simp))) neutral_none,
      ih (chained_cons.mp h).2.2 fun q hq => hw q (by simp [hq]), List.flatMap_cons]

end Render
end DearSql
