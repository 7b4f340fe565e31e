import DearSql.Lexing
import DearSql.Text

/-! The SQL tokenizer of the completion engine, for every dialect, and the statement
bounds computed from its tokens. -/
namespace DearSql
open Lexing

inductive DatabaseType
  | SQLITE | POSTGRESQL | MYSQL | MARIADB | REDIS | MONGODB | MSSQL | ORACLE | REDSHIFT
  | CASSANDRA | DUCKDB | TIDB | COCKROACHDB | S3
  deriving DecidableEq, Repr

structure Dialect where
  backtickIdent : Bool := false
  bracketIdent : Bool := false
  doubleQuoteIdent : Bool := true
  dollarQuote : Bool := false
  hashComment : Bool := false
  backslashEscape : Bool := false
  hashIdent : Bool := false
  deriving DecidableEq, Repr

def dialectFor : DatabaseType → Dialect
  | .MYSQL | .MARIADB | .TIDB =>
    { backtickIdent := true, doubleQuoteIdent := false, hashComment := true
      backslashEscape := true }
  | .SQLITE => { backtickIdent := true, bracketIdent := true }
  | .MSSQL => { bracketIdent := true, hashIdent := true }
  | .POSTGRESQL | .REDSHIFT | .COCKROACHDB | .DUCKDB | .CASSANDRA => { dollarQuote := true }
  | .REDIS | .MONGODB | .ORACLE | .S3 => {}

def isIdentStartByte (c : Char) : Bool := isalpha c || c = '_' || 0x80 ≤ c.toNat

def isIdentByte (c : Char) : Bool := isalnum c || c = '_' || c = '$' || 0x80 ≤ c.toNat

inductive Tok
  | word | quotedIdent | string | number | comment | param | punct | op
  deriving DecidableEq, Repr

/-- A `Token` without its range, which the lexeme holds. -/
structure TokInfo where
  kind : Tok
  closed : Bool := true
  lineComment : Bool := false
  text : Text := []
  deriving DecidableEq, Repr

abbrev Token := Lexeme TokInfo

/-- What `scanQuoted` finds after the opening quote. -/
structure Quoted where
  len : ℕ
  closed : Bool
  text : Text
  deriving DecidableEq, Repr

def Quoted.shift (q : Quoted) (n : ℕ) (c : Char) : Quoted := ⟨q.len + n, q.closed, c :: q.text⟩

/-- The loop of `scanQuoted`: a doubled quote stands for one, a backslash (where the
dialect has it) takes the next byte along. -/
def scanQuoted (close : Char) (backslash : Bool) : Text → Quoted
  | [] => ⟨0, false, []⟩
  | [ch] => if ch = close then ⟨1, true, []⟩ else ⟨1, false, [ch]⟩
  | ch :: d :: cs =>
    if backslash && ch = '\\' then (scanQuoted close backslash cs).shift 2 d
    else if ch = close then
      if d = close then (scanQuoted close backslash cs).shift 2 close else ⟨1, true, []⟩
    else (scanQuoted close backslash (d :: cs)).shift 1 ch

def quotedToken (kind : Tok) (close : Char) (backslash : Bool) (rest : Text) : TokInfo × ℕ :=
  let q := scanQuoted close backslash rest
  ({ kind := kind, closed := q.closed, text := q.text }, 1 + q.len)

/-- `-- …` or `# …`, up to the line feed. -/
def lineCommentToken (s : Text) : TokInfo × ℕ :=
  ({ kind := .comment, lineComment := true }, (s.takeWhile (· ≠ '\n')).length)

/-- `/* … */`; `rest` follows the slash. -/
def blockCommentToken (rest : Text) : TokInfo × ℕ :=
  match find "*/".toList (rest.drop 1) with
  | some e => ({ kind := .comment }, 2 + e + 2)
  | none => ({ kind := .comment, closed := false }, 1 + rest.length)

/-- `$tag$ … $tag$`, or a lone dollar sign; `rest` follows the first dollar sign. -/
def dollarToken (rest : Text) : TokInfo × ℕ :=
  let body := rest.takeWhile fun ch => ch ≠ '$' && isIdentByte ch
  match rest.drop body.length with
  | '$' :: after =>
    let tag := '$' :: body ++ ['$']
    match find tag after with
    | some e => ({ kind := .string }, tag.length + e + tag.length)
    | none => ({ kind := .string, closed := false }, 1 + rest.length)
  | _ => ({ kind := .op, text := ['$'] }, 1)

/-- Further bytes of a number after the byte `prev`; a sign belongs to an exponent. -/
def numberRest : Char → Text → ℕ
  | _, [] => 0
  | prev, ch :: cs =>
    if isalnum ch || ch = '_' || ch = '.' then 1 + numberRest ch cs
    else if (ch = '+' || ch = '-') && (prev = 'e' || prev = 'E') && isdigit (cs.headD '\x00') then
      1 + numberRest ch cs
    else 0

def startsNumber (prev : Option Char) (c next : Char) : Bool :=
  isdigit c || (c = '.' && isdigit next &&
    match prev with
    | none => true
    | some p => !isIdentByte p && p ≠ '"' && p ≠ '`' && p ≠ ']' && p ≠ ')')

def startsParam (prev : Option Char) (c next : Char) : Bool :=
  c = '@' || c = '?' || (c = ':' && isIdentStartByte next && prev ≠ some ':') ||
    (c = '$' && isdigit next)

def isPunctByte (c : Char) : Bool := c = '(' || c = ')' || c = ',' || c = ';' || c = '.'

def scanToken (d : Dialect) (prev : Option Char) : Text → Option (TokInfo × ℕ)
  | [] => none
  | c :: rest =>
    let next := rest.headD '\x00'
    if isspace c then none
    else if (c = '-' && next = '-') || (c = '#' && d.hashComment) then
      some (lineCommentToken (c :: rest))
    else if c = '/' && next = '*' then some (blockCommentToken rest)
    else if c = '\'' then some (quotedToken .string '\'' d.backslashEscape rest)
    else if c = '"' then
      some (quotedToken (if d.doubleQuoteIdent then .quotedIdent else .string) '"'
        (!d.doubleQuoteIdent && d.backslashEscape) rest)
    else if c = '`' && d.backtickIdent then some (quotedToken .quotedIdent '`' false rest)
    else if c = '[' && d.bracketIdent then some (quotedToken .quotedIdent ']' false rest)
    else if c = '$' && d.dollarQuote && (next = '$' || isIdentStartByte next) then
      some (dollarToken rest)
    else if startsNumber prev c next then some ({ kind := .number }, 1 + numberRest c rest)
    else if isIdentStartByte c || (c = '#' && d.hashIdent) then
      let tail := rest.takeWhile fun ch => isIdentByte ch || (d.hashIdent && ch = '#')
      some ({ kind := .word, text := c :: tail }, 1 + tail.length)
    else if startsParam prev c next then
      some ({ kind := .param }, 1 + (rest.takeWhile fun ch => ch = '@' || isIdentByte ch).length)
    else if isPunctByte c then some ({ kind := .punct, text := [c] }, 1)
    else some ({ kind := .op, text := [c] }, 1)

def tokenize (s : Text) (d : Dialect) : List Token := lex (scanToken d) s

def TokInfo.isSemi (t : TokInfo) : Bool := t.kind = .punct && t.text = [';']

structure StatementSpan where
  start : ℕ := 0
  stop : ℕ := 0
  firstTok : ℕ := 0
  lastTok : ℕ := 0
  deriving DecidableEq, Repr

/-- The loop of `statementAt` from token `i` on. -/
def statementAtFrom (offset : ℕ) : ℕ → List Token → StatementSpan → StatementSpan
  | _, [], span => span
  | i, t :: ts, span =>
    if t.kind.isSemi then
      if t.stop ≤ offset then
        statementAtFrom offset (i + 1) ts { span with start := t.stop, firstTok := i + 1 }
      else { span with stop := t.start, lastTok := i }
    else statementAtFrom offset (i + 1) ts span

def statementAt (all : List Token) (offset length : ℕ) : StatementSpan :=
  statementAtFrom offset 0 all { start := 0, stop := length, firstTok := 0, lastTok := all.length }

def slice (s : Text) (b e : ℕ) : Text := (s.drop b).take (e - b)

def statementRangeAt (sql : Text) (offset : ℕ) (type : DatabaseType) : ℕ × ℕ :=
  let tokens := tokenize sql (dialectFor type)
  let span := statementAt tokens (min offset sql.length) sql.length
  let start := span.start + ((slice sql span.start span.stop).takeWhile isspace).length
  let stop := start + ((slice sql start span.stop).reverse.dropWhile isspace).length
  (start, stop)

example : statementRangeAt "  SELECT 1 ; x".toList 0 .POSTGRESQL = (2, 10) := by decide

end DearSql
