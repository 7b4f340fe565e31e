import DearSql.TokenPieces

/-! Quoted names and string literals read back as what was quoted. -/
namespace DearSql
open Lexing

section Doubling

theorem scanQuoted_cons {close c : Char} {backslash : Bool} (hc : c ≠ close)
    (hb : (backslash && c = '\\') = false) {l : Text} (hl : l ≠ []) :
    scanQuoted close backslash (c :: l) = (scanQuoted close backslash l).shift 1 c := by
  obtain ⟨a, as, rfl⟩ := List.exists_cons_of_ne_nil hl
  rw [scanQuoted, hb, if_neg (by simp), if_neg hc]

theorem scanQuoted_close {close : Char} (hclose : close ≠ '\\') (backslash : Bool) {rest : Text}
    (hrest : rest.head? ≠ some close) : scanQuoted close backslash (close :: rest) = ⟨1, true, []⟩ := by
  cases rest with
  | nil => simp [scanQuoted]
  | cons a as =>
    have ha : a ≠ close := by simpa using hrest
    simp [scanQuoted, hclose, ha]

/-- Doubled quotes are undone, up to the closing quote. -/
theorem scanQuoted_doubling {close : Char} (hclose : close ≠ '\\') {backslash : Bool} {s : Text}
    (hs : backslash = true → '\\' ∉ s) {rest : Text} (hrest : rest.head? ≠ some close) :
    scanQuoted close backslash (doubling close s ++ close :: rest) =
      ⟨(doubling close s).length + 1, true, s⟩ := by
  induction s with
  | nil => exact scanQuoted_close hclose backslash hrest
  | cons c cs ih =>
    have ih := ih fun hb hmem => hs hb (List.mem_cons_of_mem _ hmem)
    by_cases hc : c = close
    · subst hc
      have hstep : scanQuoted c backslash (c :: c :: (doubling c cs ++ c :: rest)) =
          (scanQuoted c backslash (doubling c cs ++ c :: rest)).shift 2 c := by
        simp [scanQuoted, hclose]
      rw [doubling, if_pos rfl, List.cons_append, List.cons_append, hstep, ih]
      rfl
    · have hb : (backslash && c = '\\') = false := by
        cases backslash with
        | false => rfl
        | true =>
          have : c ≠ '\\' := fun h => hs rfl (by simp [h])
          simpa using this
      rw [doubling, if_neg hc, List.cons_append, scanQuoted_cons hc hb (by simp), ih]
      rfl

theorem doubling_of_not_mem {q : Char} {s : Text} (h : q ∉ s) : doubling q s = s := by
  induction s with
  | nil => rfl
  | cons c cs ih =>
    obtain ⟨hc, hcs⟩ := not_or.mp (List.mem_cons.not.mp h)
    rw [doubling, if_neg (Ne.symm hc), ih hcs]

/-- A quoted text that is not closed yet. -/
theorem scanQuoted_unfinished {close : Char} {s : Text} (h : close ∉ s) :
    scanQuoted close false s = ⟨s.length, false, s⟩ := by
  induction s with
  | nil => rfl
  | cons c cs ih =>
    obtain ⟨hc, hcs⟩ := not_or.mp (List.mem_cons.not.mp h)
    cases cs with
    | nil => rw [scanQuoted, if_neg (Ne.symm hc)]; rfl
    | cons d ds =>
      rw [scanQuoted_cons (Ne.symm hc) rfl (List.cons_ne_nil _ _), ih hcs]
      rfl

theorem quotedToken_doubling (kind : Tok) {close : Char} (hclose : close ≠ '\\') {backslash : Bool}
    {s : Text} (hs : backslash = true → '\\' ∉ s) {rest : Text} (hrest : rest.head? ≠ some close) :
    quotedToken kind close backslash (doubling close s ++ close :: rest) =
      ({ kind := kind, text := s }, (doubling close s).length + 2) := by
  rw [quotedToken, scanQuoted_doubling hclose hs hrest]
  simp only [Prod.mk.injEq, true_and]
  omega

end Doubling

section Identifiers

def identInfo (name : Text) : TokInfo := { kind := .quotedIdent, text := name }

def Builder.quoteStart : Builder → Start
  | .MySQL => .backtick
  | .MSSQL => .bracket
  | _ => .doubleQuote

/-- The lexer of a dialect takes the builder's quotes for identifier quotes. -/
def QuotesWith (b : Builder) (d : Dialect) : Prop :=
  match b with
  | .MySQL => d.backtickIdent = true
  | .MSSQL => d.bracketIdent = true
  | _ => d.doubleQuoteIdent = true

theorem closeQuote_ne (b : Builder) : b.closeQuote ≠ '\\' := by cases b <;> decide

/-- The builder's opening quote starts a quoted identifier. -/
theorem scan_openQuote {b : Builder} {d : Dialect} (hq : QuotesWith b d) (prev : Option Char)
    (rest : Text) : scanToken d prev (b.openQuote :: rest) =
      some (quotedToken .quotedIdent b.closeQuote false rest) := by
  have hread : readFrom d b.openQuote rest b.quoteStart =
      quotedToken .quotedIdent b.closeQuote false rest := by
    cases b with
    | MySQL | MSSQL => rfl
    | PostgreSQL | Oracle | SQLite | DuckDB | Cassandra =>
      simp only [Builder.quoteStart, readFrom, show d.doubleQuoteIdent = true from hq]
      rfl
  have hspace : isspace b.openQuote = false := by cases b <;> decide
  have hstart : ∀ next, startOf d prev b.openQuote next = b.quoteStart := fun next => by
    cases b with
    | MySQL => simp [startOf, Builder.openQuote, Builder.quoteStart, show d.backtickIdent = true from hq]
    | MSSQL => simp [startOf, Builder.openQuote, Builder.quoteStart, show d.bracketIdent = true from hq]
    | PostgreSQL | Oracle | SQLite | DuckDB | Cassandra =>
      simp [startOf, Builder.openQuote, Builder.quoteStart]
  rw [scanToken_eq_some, hstart]
  exact ⟨hspace, hread⟩

theorem scan_quoteIdentifier {b : Builder} {d : Dialect} (hq : QuotesWith b d) (prev : Option Char)
    (name : Text) {rest : Text} (hrest : rest.head? ≠ some b.closeQuote) :
    scanToken d prev (b.quoteIdentifier name ++ rest) =
      some (identInfo name, (b.quoteIdentifier name).length) := by
  have hsplit : b.quoteIdentifier name ++ rest =
      b.openQuote :: (doubling b.closeQuote name ++ b.closeQuote :: rest) := by
    simp [Builder.quoteIdentifier]
  have hlen : (b.quoteIdentifier name).length = (doubling b.closeQuote name).length + 2 := by
    simp [Builder.quoteIdentifier]
  rw [hsplit, scan_openQuote hq, quotedToken_doubling .quotedIdent (closeQuote_ne b) (by simp) hrest,
    hlen]
  rfl

theorem infosFrom_quoteIdentifier {b : Builder} {d : Dialect} (hq : QuotesWith b d)
    (prev : Option Char) (name : Text) {rest : Text} (hrest : rest.head? ≠ some b.closeQuote) :
    infosFrom d prev (b.quoteIdentifier name ++ rest) =
      identInfo name :: infosFrom d (some b.closeQuote) rest := by
  rw [infosFrom_scan (scan_quoteIdentifier hq prev name hrest)]
  simp [Builder.quoteIdentifier]

theorem stops_ne_close {b : Builder} {rest : Text} (h : Stops rest) :
    rest.head? ≠ some b.closeQuote := fun he => by
  have hq := (quiet_of_isBreak (h _ he)).quotes
  cases b <;> simp [Builder.closeQuote] at hq

theorem reads_quoteIdentifier {b : Builder} {d : Dialect} (hq : QuotesWith b d) (name : Text) :
    Reads d (b.quoteIdentifier name) [identInfo name] := fun prev rest _ hs => by
  rw [infosFrom_quoteIdentifier hq prev name (stops_ne_close hs), infosFrom_stops hs]
  rfl

def dotInfo : TokInfo := { kind := .punct, text := ['.'] }

/-- A dot before anything but a digit is a token of its own. -/
theorem scan_dot {d : Dialect} {prev : Option Char} {s : Text}
    (hs : isdigit (s.headD '\x00') = false) : scanToken d prev ('.' :: s) = some (dotInfo, 1) := by
  have hst : startOf d prev '.' (s.headD '\x00') = .punct := by
    simp only [startOf, startsNumber, hs]
    simp [show isdigit '.' = false from rfl, show isIdentStartByte '.' = false from rfl,
      startsParam, isPunctByte]
  rw [scanToken_eq_some, hst]
  exact ⟨by decide, rfl⟩

theorem infosFrom_dot {d : Dialect} {prev : Option Char} {s : Text}
    (hs : isdigit (s.headD '\x00') = false) :
    infosFrom d prev ('.' :: s) = dotInfo :: infosFrom d (some '.') s :=
  @infosFrom_scan d prev ['.'] s dotInfo (scan_dot hs)

theorem neutral_dot : Neutral (some '.') := by
  rintro p ⟨⟩
  decide

/-- A quoted name, a dot, and more quoted names. -/
theorem Reads.dot {b : Builder} {d : Dialect} (hq : QuotesWith b d) (n : Text) {q : Text}
    {us : List TokInfo} (h : Reads d q us) (hhead : q.head? = some b.openQuote) :
    Reads d (b.quoteIdentifier n ++ ".".toList ++ q) (identInfo n :: dotInfo :: us) :=
  fun prev rest _ hs => by
    have hne : ('.' :: (q ++ rest)).head? ≠ some b.closeQuote := by
      cases b <;> simp [Builder.closeQuote]
    have hdig : isdigit ((q ++ rest).headD '\x00') = false := by
      cases q with
      | nil => simp at hhead
      | cons c q =>
        obtain rfl : c = b.openQuote := by simpa using hhead
        rw [List.cons_append, List.headD_cons]
        cases b <;> decide
    have hassoc : b.quoteIdentifier n ++ ".".toList ++ q ++ rest =
        b.quoteIdentifier n ++ '.' :: (q ++ rest) := by simp
    rw [hassoc, infosFrom_quoteIdentifier hq prev n hne, infosFrom_dot hdig,
      h _ rest neutral_dot hs]
    rfl

theorem head_quoteIdentifier (b : Builder) (n : Text) :
    (b.quoteIdentifier n).head? = some b.openQuote := rfl

end Identifiers

section StringLiterals

def stringInfo (c : Text) : TokInfo := { kind := .string, text := c }

theorem startOf_quote (d : Dialect) (prev : Option Char) (next : Char) :
    startOf d prev '\'' next = .string := by
  simp [startOf]

theorem literal_split (c rest : Text) :
    Builder.commentLiteral c ++ rest = '\'' :: (doubling '\'' c ++ '\'' :: rest) := by
  simp [Builder.commentLiteral, escapeSingleQuotes]

theorem scan_commentLiteral {d : Dialect} (prev : Option Char) {c : Text}
    (hc : d.backslashEscape = true → '\\' ∉ c) {rest : Text} (hrest : rest.head? ≠ some '\'') :
    scanToken d prev (Builder.commentLiteral c ++ rest) =
      some (stringInfo c, (Builder.commentLiteral c).length) := by
  rw [literal_split, scanToken_eq_some, startOf_quote]
  refine ⟨by decide, ?_⟩
  rw [readFrom, quotedToken_doubling .string (by decide) hc hrest]
  simp [Builder.commentLiteral, escapeSingleQuotes, stringInfo]

theorem reads_commentLiteral {d : Dialect} {c : Text} (hc : d.backslashEscape = true → '\\' ∉ c) :
    Reads d (Builder.commentLiteral c) [stringInfo c] := fun prev rest _ hs => by
  have hrest : rest.head? ≠ some '\'' := fun h =>
    (quiet_of_isBreak (hs _ h)).quotes.1 rfl
  rw [infosFrom_scan (scan_commentLiteral prev hc hrest), infosFrom_stops hs]
  rfl

/-- A text that the backslash scanner lags behind, because it has dropped backslashes, never
catches up. -/
theorem scanQuoted_lags {rest : Text} (hrest : rest.head? ≠ some '\'') (w : Text) (k : ℕ) :
    (scanQuoted '\'' true (doubling '\'' w ++ '\'' :: rest)).text ≠
      List.replicate (k + 1) '\\' ++ w := by
  induction hl : w.length using Nat.strong_induction_on generalizing w k with
  | _ n ih =>
    subst hl
    cases w with
    | nil =>
      rw [doubling, List.nil_append, scanQuoted_close (by decide) true hrest]
      simp [List.replicate_succ]
    | cons c cs =>
      rw [List.replicate_succ, List.cons_append]
      by_cases hc : c = '\''
      · subst hc
        rw [doubling, if_pos rfl, List.cons_append, List.cons_append]
        simp [scanQuoted, Quoted.shift]
      by_cases hb : c = '\\'
      · subst hb
        rw [doubling, if_neg hc, List.cons_append]
        cases cs with
        | nil => simp [doubling, scanQuoted, Quoted.shift]
        | cons a as =>
          by_cases ha : a = '\''
          · subst ha
            rw [doubling, if_pos rfl, List.cons_append, List.cons_append]
            simp [scanQuoted, Quoted.shift]
          · rw [doubling, if_neg ha, List.cons_append]
            intro he
            have hstep : (scanQuoted '\'' true ('\\' :: a :: (doubling '\'' as ++ '\'' :: rest))).text =
                a :: (scanQuoted '\'' true (doubling '\'' as ++ '\'' :: rest)).text := by
              simp [scanQuoted, Quoted.shift]
            rw [hstep, List.cons.injEq] at he
            obtain ⟨rfl, he⟩ := he
            refine ih as.length (by simp) as (k + 1) rfl (he.trans ?_)
            rw [List.replicate_succ', List.replicate_succ']
            simp
      · rw [doubling, if_neg hc, List.cons_append, scanQuoted_cons hc (by simp [hb]) (by simp)]
        simp [Quoted.shift, hb]

/-- A literal with a backslash in it never reads back as what was quoted. -/
theorem scanQuoted_backslash {rest : Text} (hrest : rest.head? ≠ some '\'') {c : Text}
    (hc : '\\' ∈ c) : (scanQuoted '\'' true (doubling '\'' c ++ '\'' :: rest)).text ≠ c := by
  induction c with
  | nil => simp at hc
  | cons a as ih =>
    by_cases hb : a = '\\'
    · subst hb
      have hlag := scanQuoted_lags hrest
      intro he
      cases as with
      | nil => simp [doubling, scanQuoted, Quoted.shift] at he
      | cons x xs =>
        by_cases hx : x = '\''
        · subst hx
          rw [doubling, if_neg (by decide), doubling, if_pos rfl] at he
          simp [scanQuoted, Quoted.shift] at he
        · rw [doubling, if_neg (by decide), doubling, if_neg hx] at he
          simp only [List.cons_append, scanQuoted, Bool.true_and, decide_true, if_true, Quoted.shift,
            List.cons.injEq] at he
          obtain ⟨rfl, he⟩ := he
          exact hlag xs 0 he
    · have hmem : '\\' ∈ as := by
        rcases List.mem_cons.mp hc with h | h
        · exact absurd h.symm hb
        · exact h
      by_cases hq : a = '\''
      · subst hq
        rw [doubling, if_pos rfl, List.cons_append, List.cons_append]
        simpa [scanQuoted, Quoted.shift] using ih hmem
      · rw [doubling, if_neg hq, List.cons_append, scanQuoted_cons hq (by simp [hb]) (by simp)]
        simpa [Quoted.shift] using ih hmem

end StringLiterals

section Completion

/-- The builder that the completion engine shares per type; types without SQL of their own get
the last one. -/
def builderFor : DatabaseType → Builder
  | .S3 => createSQLBuilder .COCKROACHDB
  | type => createSQLBuilder type

def splitPath (path : Text) : List Text := if path = [] then [] else path.splitOn '.'

def upper (s : Text) : Text := s.map Char.toUpper

def reservedWords : List Text :=
  ["ALL", "AND", "ANY", "AS", "ASC", "BETWEEN", "BY", "CASE", "CHECK", "COLUMN", "CONSTRAINT",
    "CREATE", "CROSS", "CURRENT_DATE", "CURRENT_TIME", "CURRENT_TIMESTAMP", "CURRENT_USER",
    "DEFAULT", "DELETE", "DESC", "DISTINCT", "DROP", "ELSE", "END", "EXCEPT", "EXISTS", "FALSE",
    "FETCH", "FOR", "FOREIGN", "FROM", "FULL", "GRANT", "GROUP", "HAVING", "IN", "INDEX", "INNER",
    "INSERT", "INTERSECT", "INTO", "IS", "JOIN", "KEY", "LEFT", "LIKE", "LIMIT", "NATURAL", "NOT",
    "NULL", "OFFSET", "ON", "OR", "ORDER", "OUTER", "PRIMARY", "REFERENCES", "RIGHT", "SELECT",
    "SET", "SOME", "TABLE", "THEN", "TO", "TRUE", "UNION", "UNIQUE", "UPDATE", "USER", "USING",
    "VALUES", "WHEN", "WHERE", "WINDOW", "WITH"].map String.toList

def inSet (set : List Text) (word : Text) : Bool := set.contains (upper word)

def isupper (c : Char) : Bool := c.isUpper

def islower (c : Char) : Bool := c.isLower

/-- A byte for which the loop of `identifierNeedsQuoting` asks for quotes. -/
def byteNeedsQuoting (type : DatabaseType) (c : Char) : Bool :=
  !(isalnum c || c = '_' || 0x80 ≤ c.toNat) ||
    ((isPostgresFamily type || type = .CASSANDRA) && isupper c) || (type = .ORACLE && islower c)

def identifierNeedsQuoting (name : Text) (type : DatabaseType) : Bool :=
  match name with
  | [] => true
  | c :: _ =>
    !isIdentStartByte c || name.any (byteNeedsQuoting type) || inSet reservedWords name

def quoteIdentifierIfNeeded (name : Text) (type : DatabaseType) : Text :=
  if identifierNeedsQuoting name type then (builderFor type).quoteIdentifier name else name

structure Emitter where
  prefix_ : Text := []
  quoted : Bool := false
  type : DatabaseType
  deriving DecidableEq, Repr

namespace Emitter

/-- Quoted mode inserts names always quoted. -/
def name (e : Emitter) (n : Text) : Text :=
  if e.quoted then (builderFor e.type).quoteIdentifier n else quoteIdentifierIfNeeded n e.type

def path (e : Emitter) (schema n : Text) : Text :=
  if schema = [] then e.name n
  else (splitPath schema).flatMap (fun seg => e.name seg ++ ".".toList) ++ e.name n

end Emitter
end Completion

section ReadBack

variable {d : Dialect} {prev : Option Char}

/-- A text that no word goes into. -/
def WordStops (d : Dialect) (rest : Text) : Prop :=
  ∀ c ∈ rest.head?, isIdentByte c = false ∧ (d.hashIdent = true → c ≠ '#')

theorem scan_word {c : Char} {cs rest : Text} (hc : isIdentStartByte c = true)
    (hcs : ∀ ch ∈ cs, isIdentByte ch = true) (hrest : WordStops d rest) :
    scanToken d prev (c :: cs ++ rest) =
      some ({ kind := .word, text := c :: cs }, (c :: cs).length) := by
  obtain ⟨hs, hst⟩ := @startOf_identStart d prev c hc ((cs ++ rest).headD '\x00')
  have htail : wordTail d (cs ++ rest) = cs := by
    rw [wordTail, List.takeWhile_append_of_pos fun ch hch => by simp [hcs ch hch]]
    cases rest with
    | nil => simp
    | cons a as =>
      have ha := hrest a (by simp)
      cases hd : d.hashIdent with
      | false => simp [ha.1]
      | true => simp [ha.1, ha.2 hd]
  rw [List.cons_append, scanToken_eq_some, hst, readFrom, htail, List.length_cons, Nat.add_comm]
  exact ⟨hs, rfl⟩

/-- An identifier token with a given text. -/
structure IsName (t : TokInfo) (n : Text) : Prop where
  kind : t.kind = .word ∨ t.kind = .quotedIdent
  closed : t.closed = true
  text : t.text = n

theorem isName_identInfo (n : Text) : IsName (identInfo n) n := ⟨.inr rfl, rfl, rfl⟩

theorem quotes_builderFor (type : DatabaseType) :
    QuotesWith (builderFor type) (dialectFor type) := by
  cases type <;> rfl

/-- The token that an emitted name becomes. -/
def nameInfo (quoted : Bool) (type : DatabaseType) (n : Text) : TokInfo :=
  if quoted || identifierNeedsQuoting n type then identInfo n else { kind := .word, text := n }

theorem isName_nameInfo (quoted : Bool) (type : DatabaseType) (n : Text) :
    IsName (nameInfo quoted type n) n := by
  unfold nameInfo
  split
  · exact isName_identInfo n
  · exact ⟨.inl rfl, rfl, rfl⟩

theorem bytes_of_unquoted {type : DatabaseType} {n : Text}
    (h : identifierNeedsQuoting n type = false) :
    ∃ c cs, n = c :: cs ∧ isIdentStartByte c = true ∧ ∀ ch ∈ cs, isIdentByte ch = true := by
  cases n with
  | nil => simp [identifierNeedsQuoting] at h
  | cons c cs =>
    simp only [identifierNeedsQuoting, Bool.or_eq_false_iff, Bool.not_eq_false'] at h
    refine ⟨c, cs, rfl, h.1.1, fun ch hch => ?_⟩
    have hb := List.any_eq_false.mp h.1.2 ch (List.mem_cons_of_mem _ hch)
    have hin : (isalnum ch || ch = '_' || 0x80 ≤ ch.toNat) = true := by
      by_contra hne
      exact hb (by simp [byteNeedsQuoting, Bool.eq_false_iff.mpr hne])
    simp only [Bool.or_eq_true] at hin
    simp only [isIdentByte, Bool.or_eq_true]
    tauto

/-- What is inserted for a name is one token of that name. -/
theorem scan_name (e : Emitter) (n : Text) {rest : Text}
    (hclose : rest.head? ≠ some (builderFor e.type).closeQuote)
    (hword : WordStops (dialectFor e.type) rest) :
    scanToken (dialectFor e.type) prev (e.name n ++ rest) =
      some (nameInfo e.quoted e.type n, (e.name n).length) := by
  have hquote := scan_quoteIdentifier (quotes_builderFor e.type) prev n hclose
  unfold Emitter.name quoteIdentifierIfNeeded nameInfo
  by_cases hquoted : e.quoted = true
  · rw [if_pos hquoted, if_pos (by simp [hquoted])]
    exact hquote
  · by_cases hn : identifierNeedsQuoting n e.type = true
    · rw [if_neg hquoted, if_pos hn, if_pos (by simp [hn])]
      exact hquote
    · rw [if_neg hquoted, if_neg hn, if_neg (by simp [hquoted, hn])]
      obtain ⟨c, cs, rfl, hc, hcs⟩ := bytes_of_unquoted (by simpa using hn)
      exact scan_word hc hcs hword

/-- What may stand behind an emitted name: nothing, or the dot of a path. -/
def EndOrDot (rest : Text) : Prop := ∀ c ∈ rest.head?, c = '.'

theorem infosFrom_name (e : Emitter) (n : Text) {rest : Text} (hrest : EndOrDot rest) :
    ∃ p, infosFrom (dialectFor e.type) prev (e.name n ++ rest) =
      nameInfo e.quoted e.type n :: infosFrom (dialectFor e.type) p rest := by
  refine ⟨_, infosFrom_scan (scan_name e n (fun h => ?_) fun a ha => ?_)⟩
  · have := hrest _ h
    cases hb : builderFor e.type <;> simp [hb, Builder.closeQuote] at this
  · rw [hrest a ha]
    exact ⟨by decide, fun _ => by decide⟩

theorem head_name (e : Emitter) (n : Text) (rest : Text) :
    isdigit ((e.name n ++ rest).headD '\x00') = false := by
  have hq : isdigit (((builderFor e.type).quoteIdentifier n ++ rest).headD '\x00') = false := by
    simp only [Builder.quoteIdentifier, List.cons_append, List.headD_cons]
    cases builderFor e.type <;> decide
  unfold Emitter.name quoteIdentifierIfNeeded
  split_ifs with h1 h2
  · exact hq
  · exact hq
  · obtain ⟨c, cs, rfl, hc, -⟩ := bytes_of_unquoted (by simpa using h2)
    exact isdigit_of_start hc

theorem infosFrom_path (e : Emitter) (segs : List Text) (n : Text) :
    infosFrom (dialectFor e.type) prev (segs.flatMap (fun seg => e.name seg ++ ".".toList) ++ e.name n) =
      ((segs ++ [n]).map (nameInfo e.quoted e.type)).intersperse dotInfo := by
  induction segs generalizing prev with
  | nil =>
    obtain ⟨p, hp⟩ := @infosFrom_name prev e n [] (by simp [EndOrDot])
    rw [List.append_nil] at hp
    simpa using hp
  | cons seg segs ih =>
    obtain ⟨x, xs, hx⟩ := List.exists_cons_of_ne_nil (List.append_ne_nil_of_right_ne_nil segs
      (List.cons_ne_nil n []))
    have hnext : isdigit ((segs.flatMap (fun seg => e.name seg ++ ".".toList) ++ e.name n).headD
        '\x00') = false := by
      cases segs with
      | nil => simpa using head_name e n []
      | cons s ss =>
        rw [List.flatMap_cons, List.append_assoc, List.append_assoc]
        exact head_name e s _
    obtain ⟨p, hp⟩ := @infosFrom_name prev e seg
      ('.' :: (segs.flatMap (fun seg => e.name seg ++ ".".toList) ++ e.name n))
      (by simp [EndOrDot])
    have hdot : ∀ v : Text, ".".toList ++ v = '.' :: v := fun _ => rfl
    rw [List.flatMap_cons, List.append_assoc, List.append_assoc, hdot, hp, infosFrom_dot hnext, ih, List.cons_append, hx, List.map_cons, List.map_cons,
      List.map_cons, List.intersperse_cons_cons]

/-- Quoted names and paths tokenize to the names they were made of. -/
theorem quoting_reads_back (type : DatabaseType) (name : Text) :
    (∃ t, infos (dialectFor type) (quoteIdentifierIfNeeded name type) = [t] ∧ IsName t name) ∧
    (∃ t, infos (dialectFor type) ((builderFor type).quoteIdentifier name) = [t] ∧ IsName t name) ∧
    ∀ (typed : Text) (quoted : Bool) (schema : Text),
      ∃ ids, infos (dialectFor type) (Emitter.path ⟨typed, quoted, type⟩ schema name) =
          ids.intersperse dotInfo ∧
        List.Forall₂ IsName ids (splitPath schema ++ [name]) := by
  have hpath : ∀ (e : Emitter) (segs : List Text), e.type = type →
      infos (dialectFor type) (segs.flatMap (fun seg => e.name seg ++ ".".toList) ++ e.name name) =
          ((segs ++ [name]).map (nameInfo e.quoted type)).intersperse dotInfo := by
    rintro e segs rfl
    exact infosFrom_path e segs name
  refine ⟨?_, ?_, fun typed quoted schema => ?_⟩
  · exact ⟨_, hpath ⟨[], false, type⟩ [] rfl, isName_nameInfo _ _ _⟩
  · exact ⟨_, hpath ⟨[], true, type⟩ [] rfl, isName_nameInfo _ _ _⟩
  · refine ⟨(splitPath schema ++ [name]).map (nameInfo quoted type), ?_, ?_⟩
    · rw [← hpath ⟨typed, quoted, type⟩ _ rfl]
      unfold Emitter.path
      split_ifs with h
      · simp [splitPath, h]
      · rfl
    · rw [List.forall₂_map_left_iff]
      exact List.forall₂_same.mpr fun n _ => isName_nameInfo _ _ n

end ReadBack
end DearSql
