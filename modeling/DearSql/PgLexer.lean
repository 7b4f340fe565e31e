import DearSql.Tokenizer

/-! PostgreSQL's own lexical rules, with `standard_conforming_strings` on: block
comments nest, `E'…'` has backslash escapes and goes on in the next literal after a line
break, a line comment ends at either line break, a dollar quote needs a tag. -/
namespace DearSql.Pg
open Lexing

inductive PgTok
  | comment | literal | quotedIdent | number | semi | other
  | word (text : Text)
  deriving DecidableEq, Repr

def isNewline (c : Char) : Bool := c = '\n' || c = '\r'

/-- Bytes up to the end of a literal or quoted identifier; a doubled quote stays inside. -/
def quotedLen (q : Char) : Text → ℕ
  | [] => 0
  | [_] => 1
  | c :: d :: cs =>
    if c = q then if d = q then 2 + quotedLen q cs else 1
    else 1 + quotedLen q (d :: cs)

/-- Bytes up to and with the quote that continues a literal: white space and line
comments with a line break among them. -/
def continuation : Bool → Bool → Text → Option ℕ
  | _, _, [] => none
  | newline, comment, c :: cs =>
    if comment then
      (continuation (newline || isNewline c) (!isNewline c) cs).map (· + 1)
    else if c = '\'' then if newline then some 1 else none
    else if c = '-' && cs.head? = some '-' then (continuation newline true cs).map (· + 1)
    else if isspace c then (continuation (newline || isNewline c) false cs).map (· + 1)
    else none

/-- Bytes up to the end of an `E'…'` literal; the first `skip` are its continuation. -/
def escapedLen : ℕ → Text → ℕ
  | _, [] => 0
  | skip + 1, _ :: cs => 1 + escapedLen skip cs
  | 0, [_] => 1
  | 0, c :: d :: cs =>
    if c = '\\' then 2 + escapedLen 0 cs
    else if c = '\'' then
      if d = '\'' then 2 + escapedLen 0 cs
      else match continuation false false (d :: cs) with
        | some n => 1 + escapedLen n (d :: cs)
        | none => 1
    else 1 + escapedLen 0 (d :: cs)

/-- Bytes up to the end of a block comment with `depth` more comments open around. -/
def blockLen : ℕ → Text → ℕ
  | _, [] => 0
  | _, [_] => 1
  | depth, c :: d :: cs =>
    if c = '*' && d = '/' then if depth = 0 then 2 else 2 + blockLen (depth - 1) cs
    else if c = '/' && d = '*' then 2 + blockLen (depth + 1) cs
    else 1 + blockLen depth (d :: cs)

/-- `$tag$ … $tag$` after its first dollar sign, if that opens one. -/
def dollarLen (rest : Text) : Option ℕ :=
  let body := rest.takeWhile fun ch => ch ≠ '$' && isIdentByte ch
  match body.head?.all isIdentStartByte, rest.drop body.length with
  | true, '$' :: after =>
    let tag := '$' :: body ++ ['$']
    some ((find tag after).elim (1 + rest.length) fun e => tag.length + e + tag.length)
  | _, _ => none

/-- One lexeme; white space is passed over. -/
def scanPg (_ : Option Char) : Text → Option (PgTok × ℕ)
  | [] => none
  | c :: rest =>
    if isspace c then none
    else if c = ';' then some (.semi, 1)
    else if (c = 'e' || c = 'E') && rest.head? = some '\'' then
      some (.literal, 2 + escapedLen 0 (rest.drop 1))
    else if isIdentStartByte c then
      some (.word (c :: rest.takeWhile isIdentByte), 1 + (rest.takeWhile isIdentByte).length)
    else if c = '\'' then some (.literal, 1 + quotedLen '\'' rest)
    else if c = '"' then some (.quotedIdent, 1 + quotedLen '"' rest)
    else if c = '-' && rest.head? = some '-' then
      some (.comment, 1 + (rest.takeWhile fun ch => !isNewline ch).length)
    else if c = '/' && rest.head? = some '*' then
      some (.comment, 2 + blockLen 0 (rest.drop 1))
    else if c = '$' then
      match dollarLen rest with
      | some n => some (.literal, n)
      | none => some (.other, 1)
    else if isdigit c then some (.number, 1 + (rest.takeWhile isdigit).length)
    else some (.other, 1)

def pgTokens (sql : Text) : List (Lexeme PgTok) := lex scanPg (cstr sql)

def isComment (x : Lexeme PgTok) : Bool := x.kind = .comment

def isSemi (x : Lexeme PgTok) : Bool := x.kind = .semi

def pgStatements (sql : Text) : List (List (Lexeme PgTok)) :=
  groups isComment isSemi (pgTokens sql)

def pgCode (sql : Text) : List (Lexeme PgTok) := (pgTokens sql).filter fun x => !isComment x

def isRead : List (Lexeme PgTok) → Bool
  | ⟨.word t, _, _⟩ :: _ =>
    lower t = "select".toList || lower t = "table".toList || lower t = "values".toList
  | _ => false

def oneRead (sql : Text) : Bool :=
  match pgStatements sql with
  | [g] => isRead g
  | _ => false

/-- Every command of the grammar starts with a word of letters only, where it starts
with a word at all. -/
def startsCommand (sql : Text) : Bool :=
  match pgCode sql with
  | ⟨.word t, _, _⟩ :: _ => t.all isalpha
  | _ => true

section Scan
variable {prev : Option Char} {c : Char} {rest : Text}

theorem scanPg_space (h : isspace c = true) : scanPg prev (c :: rest) = none := by
  simp [scanPg, h]

theorem scanPg_semi : scanPg prev (';' :: rest) = some (.semi, 1) := by
  simp [scanPg, isspace]

theorem scanPg_word (hs : isalpha c = true) (he : c ≠ 'e' ∧ c ≠ 'E') :
    scanPg prev (c :: rest) =
      some (.word (c :: rest.takeWhile isIdentByte), 1 + (rest.takeWhile isIdentByte).length) := by
  have hsp := isspace_ne_of_isalpha hs
  have hsemi : c ≠ ';' := by
    rintro rfl
    exact absurd hs (by decide)
  simp [scanPg, hsp, hsemi, he.1, he.2, isIdentStartByte, hs]

end Scan

example : (pgStatements "SELECT E'\\''; /* /* */ ; */ x --'".toList).length = 2 := by decide

end DearSql.Pg
