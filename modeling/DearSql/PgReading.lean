import DearSql.PgLexer
import DearSql.Statements

/-! The semicolons of the tokenizer beside those of PostgreSQL's lexer. Both walk the same
text; where a lexeme of the server starts, the tokenizer may still be in a number, a
parameter or a line comment of its own, which swallows the bytes it runs over. -/
namespace DearSql.Pg
open Lexing

section Condition

/-- What the tokenizer is still reading. -/
inductive Glue
  | free | number | param | comment
  deriving DecidableEq, Repr

def paramByte (ch : Char) : Bool := ch = '@' || isIdentByte ch

/-- How many more bytes it takes along. -/
def Glue.skip (g : Glue) (prev : Option Char) (s : Text) : ℕ :=
  match g with
  | .free => 0
  | .number => numberRest (prev.getD '\x00') s
  | .param => (s.takeWhile paramByte).length
  | .comment => (s.takeWhile fun ch => ch ≠ '\n').length

def numberByte (ch : Char) : Bool := isalnum ch || ch = '_'

/-- A word behind the letters, digits and underscores that a number before it swallows. -/
def numberTail (s : Text) : Text := s.dropWhile numberByte

def Glue.afterWord (g : Glue) (s : Text) : Glue :=
  match g with
  | .param => .param
  | .number =>
    match numberTail s with
    | [] => .number
    | c :: r =>
      if c = '$' then if isdigit (r.headD '\x00') then .param else .free
      else if isIdentByte c then .free else .number
  | _ => .free

def Glue.afterByte (g : Glue) (prev : Option Char) (s : Text) : Glue :=
  if 0 < g.skip prev s then g
  else match s with
  | [] => .free
  | c :: rest =>
    if startsNumber prev c (rest.headD '\x00') then .number
    else if startsParam prev c (rest.headD '\x00') then .param
    else .free

/-- What it is reading behind a lexeme that starts at `s`. -/
def Glue.after (g : Glue) (prev : Option Char) (s : Text) : PgTok → Glue
  | .comment => if s.head? = some '-' then .comment else .free
  | .literal | .quotedIdent | .semi => .free
  | .word _ => g.afterWord s
  | .number | .other => g.afterByte prev s

/-- Between two parts of a literal a quote or a dash is none in a comment of the tokenizer
(`inComment`), which a carriage return does not end as it ends the server's (`comment`). -/
def gapAlike : Bool → Bool → Text → Bool
  | _, _, [] => true
  | inComment, comment, c :: cs =>
    if comment then gapAlike (c ≠ '\n') (!isNewline c) cs
    else if isspace c then gapAlike (inComment && c ≠ '\n') false cs
    else if inComment then false
    else if c = '-' && cs.head? = some '-' then gapAlike true true cs
    else true

/-- An `E'…'` literal without a quote behind a backslash. -/
def escapeAlike : ℕ → Text → Bool
  | _, [] => true
  | skip + 1, _ :: cs => escapeAlike skip cs
  | 0, [_] => true
  | 0, c :: d :: cs =>
    if c = '\\' then d ≠ '\'' && escapeAlike 0 cs
    else if c = '\'' then
      if d = '\'' then escapeAlike 0 cs
      else match continuation false false (d :: cs) with
        | some n => gapAlike false false (d :: cs) && escapeAlike n (d :: cs)
        | none => true
    else escapeAlike 0 (d :: cs)

/-- A block comment to its first `*/`. -/
def flatLen (body : Text) : ℕ := (find "*/".toList body).elim body.length (· + 2)

/-- The tokenizer takes the lexeme that starts at `s` as the server does. -/
def alike (g : Glue) (s : Text) : PgTok → Bool
  | .comment => s.head? = some '-' || blockLen 0 (s.drop 2) = flatLen (s.drop 2)
  | .literal =>
    if s.head? = some '$' then g ≠ .param
    else s.head? = some '\'' || escapeAlike 0 (s.drop 2)
  | .word _ =>
    g ≠ .number || (numberTail s).head? ≠ some '$' || (dollarLen ((numberTail s).drop 1)).isNone
  | .quotedIdent | .semi | .number | .other => true

/-- Every lexeme of the server starts outside the tokenizer's comments and is taken alike. -/
def wellReadFrom : Glue → Option Char → ℕ → Text → Bool
  | _, _, _, [] => true
  | g, _, skip + 1, c :: cs => wellReadFrom g (some c) skip cs
  | g, prev, 0, c :: cs =>
    match scanPg prev (c :: cs) with
    | none => wellReadFrom (if g = .comment ∧ c ≠ '\n' then g else .free) (some c) 0 cs
    | some (t, n) =>
      g ≠ .comment && alike g (c :: cs) t &&
        wellReadFrom (g.after prev (c :: cs) t) (some c) (n - 1) cs

def WellRead (s : Text) : Prop := wellReadFrom .free none 0 s = true

instance (s : Text) : Decidable (WellRead s) := inferInstanceAs (Decidable (_ = true))

example : WellRead "SELECT 1e+5, E'a\\\\'--\r\n 'b' /* ' */, a1$x$;\t$x$ ; $x$ --;".toList := by decide

example : ¬WellRead "SELECT E'\\''".toList ∧ ¬WellRead "/* /* */ */".toList ∧
    ¬WellRead "-- a\r b".toList ∧ ¬WellRead "@$a$ ; $a$".toList ∧
    ¬WellRead "1a$b$ ; $b$".toList := by decide

end Condition

section Server

theorem quotedLen_eq (q : Char) (s : Text) : quotedLen q s = (scanQuoted q false s).len := by
  fun_induction quotedLen q s with
  | case1 => rfl
  | case2 c =>
    rw [scanQuoted]
    split_ifs <;> rfl
  | case3 cs ih => simp [scanQuoted, ih, Quoted.shift, Nat.add_comm]
  | case4 d cs hd => simp [scanQuoted, hd]
  | case5 c d cs hc ih => simp [scanQuoted, hc, ih, Quoted.shift, Nat.add_comm]

theorem continuation_le {newline comment : Bool} {s : Text} {n : ℕ}
    (h : continuation newline comment s = some n) : 0 < n ∧ n ≤ s.length := by
  induction s generalizing newline comment n with
  | nil => simp [continuation] at h
  | cons c cs ih =>
    have hmap : ∀ {b b' : Bool}, (continuation b b' cs).map (· + 1) = some n →
        0 < n ∧ n ≤ (c :: cs).length := by
      intro b b' hm
      obtain ⟨m, hm, he⟩ := Option.map_eq_some_iff.mp hm
      have := ih hm
      simp only [List.length_cons]
      omega
    rw [continuation] at h
    split_ifs at h
    · exact hmap h
    · cases h
      simp
    · exact hmap h
    · exact hmap h

theorem escapedLen_skip {k : ℕ} {s : Text} (h : k ≤ s.length) :
    escapedLen k s = k + escapedLen 0 (s.drop k) := by
  induction s generalizing k with
  | nil =>
    obtain rfl : k = 0 := Nat.le_zero.mp h
    rfl
  | cons c cs ih =>
    cases k with
    | zero => simp
    | succ k =>
      rw [escapedLen, ih (by simpa using h), List.drop_succ_cons]
      omega

theorem escapedLen_le (k : ℕ) (s : Text) : escapedLen k s ≤ s.length := by
  fun_induction escapedLen k s with
  | case1 => simp
  | case2 | case3 | case4 | case5 | case6 | case7 | case8 =>
    simp only [List.length_cons, List.length_nil] at *
    omega

theorem blockLen_le (depth : ℕ) (s : Text) : blockLen depth s ≤ s.length := by
  fun_induction blockLen depth s with
  | case1 => simp
  | case2 | case3 | case4 | case5 | case6 =>
    simp only [List.length_cons, List.length_nil] at *
    omega

theorem dollarLen_eq (rest : Text) :
    dollarLen rest =
      let body := rest.takeWhile isTagByte
      let tag := '$' :: body ++ ['$']
      if body.head?.all isIdentStartByte ∧ (rest.drop body.length).head? = some '$' then
        some ((find tag (rest.drop (body.length + 1))).elim (1 + rest.length) fun e =>
          tag.length + e + tag.length)
      else none := by
  have hbody : (rest.takeWhile fun ch => ch ≠ '$' && isIdentByte ch) = rest.takeWhile isTagByte :=
    rfl
  simp only [dollarLen, hbody, ← List.drop_drop]
  generalize rest.takeWhile isTagByte = body
  cases hw : rest.drop body.length with
  | nil => simp
  | cons a after =>
    by_cases ha : a = '$'
    · subst ha
      by_cases hb : body.head?.all isIdentStartByte = true <;> simp [hb]
    · simp [ha]

theorem dollarLen_bound {rest : Text} {n : ℕ} (h : dollarLen rest = some n) :
    0 < n ∧ n ≤ 1 + rest.length := by
  rw [dollarLen_eq] at h
  simp only at h
  split_ifs at h
  cases h
  cases hf : find ('$' :: rest.takeWhile isTagByte ++ ['$'])
      (rest.drop ((rest.takeWhile isTagByte).length + 1)) with
  | none => simp
  | some e =>
    have := find_bound hf
    simp only [Option.elim_some, List.length_drop, List.length_append, List.length_cons,
      List.length_nil] at this ⊢
    omega

/-- Which lexeme the first byte and the bytes after it open. -/
inductive Opens (c : Char) (rest : Text) : PgTok → ℕ → Prop
  | semi (h : c = ';') : Opens c rest .semi 1
  | escape (hc : c = 'e' ∨ c = 'E') (body : Text) (h : rest = '\'' :: body) :
    Opens c rest .literal (2 + escapedLen 0 body)
  | word (h : isIdentStartByte c = true) :
    Opens c rest (.word (c :: rest.takeWhile isIdentByte)) (1 + (rest.takeWhile isIdentByte).length)
  | string (h : c = '\'') : Opens c rest .literal (1 + quotedLen '\'' rest)
  | ident (h : c = '"') : Opens c rest .quotedIdent (1 + quotedLen '"' rest)
  | line (hc : c = '-') (body : Text) (h : rest = '-' :: body) :
    Opens c rest .comment (1 + (rest.takeWhile fun ch => !isNewline ch).length)
  | block (hc : c = '/') (body : Text) (h : rest = '*' :: body) :
    Opens c rest .comment (2 + blockLen 0 body)
  | dollar (hc : c = '$') (n : ℕ) (h : dollarLen rest = some n) : Opens c rest .literal n
  | number (h : isdigit c = true) : Opens c rest .number (1 + (rest.takeWhile isdigit).length)
  | other (hsemi : c ≠ ';') (hw : isIdentStartByte c = false) (hq : c ≠ '\'' ∧ c ≠ '"')
    (hl : c = '-' → rest.head? ≠ some '-') (hb : c = '/' → rest.head? ≠ some '*')
    (hd : c = '$' → dollarLen rest = none) (hn : isdigit c = false) : Opens c rest .other 1

theorem scanPg_opens {prev : Option Char} {c : Char} {rest : Text} {t : PgTok} {n : ℕ}
    (h : scanPg prev (c :: rest) = some (t, n)) : isspace c = false ∧ Opens c rest t n := by
  have hhead : ∀ {a : Char}, rest.head? = some a → rest = a :: rest.drop 1 := by
    intro a ha
    cases rest with
    | nil => simp at ha
    | cons b bs => simpa using ha
  rw [scanPg] at h
  split_ifs at h with h0 h1 h2 h3 h4 h5 h6 h7 h8 h9
  · cases h
    exact ⟨by simpa using h0, .semi h1⟩
  · cases h
    simp only [Bool.and_eq_true, Bool.or_eq_true, decide_eq_true_eq] at h2
    exact ⟨by simpa using h0, .escape h2.1 _ (hhead h2.2)⟩
  · cases h
    exact ⟨by simpa using h0, .word h3⟩
  · cases h
    exact ⟨by simpa using h0, .string h4⟩
  · cases h
    exact ⟨by simpa using h0, .ident h5⟩
  · cases h
    simp only [Bool.and_eq_true, decide_eq_true_eq] at h6
    exact ⟨by simpa using h0, .line h6.1 _ (hhead h6.2)⟩
  · cases h
    simp only [Bool.and_eq_true, decide_eq_true_eq] at h7
    exact ⟨by simpa using h0, .block h7.1 _ (hhead h7.2)⟩
  · cases hd : dollarLen rest with
    | some m =>
      rw [hd] at h
      cases h
      exact ⟨by simpa using h0, .dollar h8 _ hd⟩
    | none =>
      rw [hd] at h
      cases h
      subst h8
      exact ⟨by simpa using h0, .other (by decide) (by decide) (by decide) (by simp) (by simp)
        (fun _ => hd) (by decide)⟩
  · cases h
    exact ⟨by simpa using h0, .number h9⟩
  · cases h
    refine ⟨by simpa using h0, .other h1 (by simpa using h3) ⟨h4, h5⟩ ?_ ?_ (fun hc => absurd hc h8)
      (by simpa using h9)⟩
    · simpa using h6
    · simpa using h7

theorem scanPg_eq_none {prev : Option Char} {c : Char} {rest : Text} :
    scanPg prev (c :: rest) = none ↔ isspace c = true := by
  refine ⟨fun h => ?_, fun h => scanPg_space h⟩
  by_contra h0
  rw [scanPg, if_neg h0] at h
  split_ifs at h
  cases hd : dollarLen rest <;> simp [hd] at h

theorem bounded_scanPg : Bounded scanPg := by
  intro p s t n h
  cases s with
  | nil => simp [scanPg] at h
  | cons c rest =>
    have htake : ∀ q : Char → Bool, (rest.takeWhile q).length ≤ rest.length := fun q =>
      (List.takeWhile_sublist q).length_le
    rw [List.length_cons]
    cases (scanPg_opens h).2 with
    | semi | other => omega
    | escape hc body hr =>
      have := escapedLen_le 0 body
      rw [hr, List.length_cons]
      omega
    | word | line | number =>
      have := htake isIdentByte
      have := htake isdigit
      have := htake fun ch => !isNewline ch
      omega
    | string | ident =>
      rw [quotedLen_eq]
      have := scanQuoted_len_le '\'' false rest
      have := scanQuoted_len_le '"' false rest
      omega
    | block hc body hr =>
      have := blockLen_le 0 body
      rw [hr, List.length_cons]
      omega
    | dollar hc n hd =>
      have := dollarLen_bound hd
      omega

end Server

section Walk

/-- The tokens from a place on where the tokenizer may still be reading. -/
def tokensFrom (g : Glue) (prev : Option Char) (pos : ℕ) (s : Text) : List Token :=
  lexFrom (scanToken (dialectFor .POSTGRESQL)) prev pos (g.skip prev s) s

variable {g g' : Glue} {prev : Option Char} {pos : ℕ} {s : Text}

theorem numberRest_drop {p : Char} {k m : ℕ} (h : numberRest p s = k + m) :
    numberRest ((lastOf (some p) (s.take k)).getD '\x00') (s.drop k) = m := by
  induction s generalizing p k with
  | nil =>
    have h0 : k = 0 ∧ m = 0 := by simpa [numberRest] using h.symm
    simp [h0.1, h0.2, numberRest]
  | cons c cs ih =>
    cases k with
    | zero => simpa using h
    | succ k =>
      rw [List.take_succ_cons, List.drop_succ_cons, lastOf_cons]
      refine ih ?_
      rw [numberRest] at h
      split_ifs at h <;> omega

theorem takeWhile_drop {α : Type*} {p : α → Bool} {l : List α} {k m : ℕ}
    (h : (l.takeWhile p).length = k + m) : ((l.drop k).takeWhile p).length = m := by
  induction l generalizing k with
  | nil =>
    have h0 : k = 0 ∧ m = 0 := by simpa using h.symm
    simp [h0.2]
  | cons c cs ih =>
    cases k with
    | zero => simpa using h
    | succ k =>
      rw [List.takeWhile_cons] at h
      split_ifs at h
      · exact ih (by simp only [List.length_cons] at h; omega)
      · simp only [List.length_nil] at h
        omega

theorem takeWhile_length_mono {α : Type*} {p q : α → Bool} (h : ∀ a, p a = true → q a = true)
    (l : List α) : (l.takeWhile p).length ≤ (l.takeWhile q).length := by
  induction l with
  | nil => simp
  | cons a as ih =>
    rw [List.takeWhile_cons, List.takeWhile_cons]
    by_cases hp : p a = true
    · rw [if_pos hp, if_pos (h a hp)]
      exact Nat.succ_le_succ ih
    · rw [if_neg hp]
      exact Nat.zero_le _

theorem skip_drop {k m : ℕ} (h : g.skip prev s = k + m) :
    g.skip (lastOf prev (s.take k)) (s.drop k) = m := by
  cases g with
  | free =>
    simp only [Glue.skip] at h ⊢
    omega
  | number =>
    cases prev with
    | some p => exact numberRest_drop h
    | none =>
      cases s with
      | nil =>
        have h0 : k = 0 ∧ m = 0 := by simpa [Glue.skip, numberRest] using h.symm
        simp [h0.1, h0.2, Glue.skip, numberRest]
      | cons c cs =>
        have := numberRest_drop h
        cases k <;> exact this
  | param | comment => exact takeWhile_drop h

/-- A lexeme of the server inside what the tokenizer is reading. -/
theorem tokensFrom_inside {n : ℕ} (h : n ≤ g.skip prev s) :
    tokensFrom g prev pos s =
      tokensFrom g (lastOf prev (s.take n)) (pos + n) (s.drop n) := by
  have he := Nat.add_sub_cancel' h
  rw [tokensFrom, tokensFrom, ← he, lexFrom_part, skip_drop he.symm]

variable {c : Char} {rest : Text} {i : TokInfo}

/-- The tokenizer starts a token here and goes on reading it. -/
theorem tokensFrom_enter (h0 : g.skip prev (c :: rest) = 0)
    (h : scanToken (dialectFor .POSTGRESQL) prev (c :: rest) =
      some (i, 1 + g'.skip (some c) rest)) :
    tokensFrom g prev pos (c :: rest) =
      ⟨i, pos, pos + (1 + g'.skip (some c) rest)⟩ :: tokensFrom g' (some c) (pos + 1) rest := by
  rw [tokensFrom, h0, lexFrom_take h, Nat.max_eq_left (Nat.le_add_right _ _), Nat.add_sub_cancel_left]
  rfl

/-- The tokenizer starts a token here that ends where the lexeme does. -/
theorem tokensFrom_whole {n : ℕ} (h0 : g.skip prev s = 0)
    (h : scanToken (dialectFor .POSTGRESQL) prev s = some (i, n)) :
    tokensFrom g prev pos s =
      ⟨i, pos, pos + n⟩ :: tokensFrom .free (lastOf prev (s.take n)) (pos + n) (s.drop n) := by
  rw [tokensFrom, h0, lexFrom_step (bounded_scanToken _) h]
  rfl

theorem tokensFrom_pass (h0 : g.skip prev (c :: rest) = 0) (hc : isspace c = true) :
    tokensFrom g prev pos (c :: rest) = tokensFrom .free (some c) (pos + 1) rest := by
  rw [tokensFrom, h0, lexFrom_pass (scanToken_eq_none.mpr hc)]
  rfl

end Walk

section Escape

variable {prev : Option Char} {pos : ℕ} {s : Text}

def gapGlue (inComment : Bool) : Glue := if inComment then .comment else .free

theorem gap_pass {inComment : Bool} {c : Char} {cs : Text} (h : inComment = true ∨ isspace c = true) :
    tokensFrom (gapGlue inComment) prev pos (c :: cs) =
      tokensFrom (gapGlue (inComment && c ≠ '\n')) (some c) (pos + 1) cs := by
  cases inComment with
  | false => exact tokensFrom_pass rfl (h.resolve_left (by decide))
  | true =>
    by_cases hc : c = '\n'
    · subst hc
      exact tokensFrom_pass (by simp [gapGlue, Glue.skip]) (by decide)
    · rw [tokensFrom_inside (n := 1) (by simp [gapGlue, Glue.skip, hc])]
      simp [hc]

theorem gap_skip_le {inComment : Bool} {c : Char} {cs : Text} {p : Option Char} {k : ℕ}
    (h : (gapGlue (inComment && c ≠ '\n')).skip p cs ≤ k) :
    (gapGlue inComment).skip prev (c :: cs) ≤ k + 1 := by
  cases inComment with
  | false => simp [gapGlue, Glue.skip]
  | true =>
    by_cases hc : c = '\n'
    · simp [gapGlue, Glue.skip, hc]
    · simpa [gapGlue, Glue.skip, hc] using h

/-- The `n` bytes up to and with the quote that goes on with a literal: the tokenizer reads
comments before that quote and stops at it. -/
def GapRead (inComment : Bool) (prev : Option Char) (pos : ℕ) (s : Text) (n : ℕ) : Prop :=
  ∃ gap rest ts, s = gap ++ '\'' :: rest ∧ n = gap.length + 1 ∧
    (gapGlue inComment).skip prev s ≤ gap.length ∧
    tokensFrom (gapGlue inComment) prev pos s =
      ts ++ tokensFrom .free (lastOf prev gap) (pos + gap.length) ('\'' :: rest) ∧
    ∀ t ∈ ts, t.kind.kind = .comment ∧ pos ≤ t.start ∧ t.stop ≤ pos + gap.length

/-- A byte passed over leaves the rest of the gap. -/
theorem GapRead.pass {inComment : Bool} {c : Char} {cs : Text} {m : ℕ}
    (hc : inComment = true ∨ isspace c = true)
    (h : GapRead (inComment && c ≠ '\n') (some c) (pos + 1) cs m) :
    GapRead inComment prev pos (c :: cs) (m + 1) := by
  obtain ⟨gap, rest, ts, h1, h2, h3, h4, h5⟩ := h
  refine ⟨c :: gap, rest, ts, by rw [h1]; rfl, by rw [h2]; rfl, gap_skip_le h3, ?_, ?_⟩
  · rw [gap_pass hc, h4, List.length_cons, lastOf_cons, Nat.add_assoc, Nat.add_comm 1]
  · intro t ht
    have := h5 t ht
    rw [List.length_cons]
    exact ⟨this.1, by omega, by omega⟩

/-- A line comment of both. -/
theorem GapRead.lineComment {cs : Text} {m : ℕ} (hcs : cs.head? = some '-')
    (h : GapRead true (some '-') (pos + 1) cs m) : GapRead false prev pos ('-' :: cs) (m + 1) := by
  obtain ⟨gap, rest, ts, h1, h2, h3, h4, h5⟩ := h
  have hhead : cs.headD '\x00' = '-' := by simp [hcs]
  have hscan : scanToken (dialectFor .POSTGRESQL) prev ('-' :: cs) =
      some ({ kind := .comment, lineComment := true }, 1 + Glue.comment.skip (some '-') cs) := by
    rw [scanToken_cons, if_neg (by decide), hhead]
    simp [startOf, readFrom, lineCommentToken, Glue.skip, Nat.add_comm]
  have hskip : Glue.comment.skip (some '-') cs ≤ gap.length := h3
  have hfree : gapGlue false = .free := rfl
  have h4' : tokensFrom .comment (some '-') (pos + 1) cs = _ := h4
  have htok := @tokensFrom_enter .free .comment prev pos _ _ _ rfl hscan
  rw [h4', ← List.cons_append] at htok
  refine ⟨'-' :: gap, rest, ⟨{ kind := .comment, lineComment := true }, pos,
    pos + (1 + Glue.comment.skip (some '-') cs)⟩ :: ts, by rw [h1]; rfl, by rw [h2]; rfl, ?_, ?_, ?_⟩
  · rw [hfree]
    exact Nat.zero_le _
  · rw [hfree, htok, List.length_cons, lastOf_cons, Nat.add_assoc pos, Nat.add_comm 1 gap.length]
  · intro t ht
    rw [List.length_cons]
    rcases List.mem_cons.mp ht with rfl | ht
    · exact ⟨rfl, le_rfl, by simp only; omega⟩
    · have := h5 t ht
      exact ⟨this.1, by omega, by omega⟩

theorem gapRead {newline comment inComment : Bool} {n : ℕ} (hin : comment = true → inComment = true)
    (h : continuation newline comment s = some n) (ha : gapAlike inComment comment s = true) :
    GapRead inComment prev pos s n := by
  induction s generalizing newline comment inComment prev pos n with
  | nil => simp [continuation] at h
  | cons c cs ih =>
    rw [continuation] at h
    rw [gapAlike] at ha
    by_cases hcom : comment = true
    · rw [if_pos hcom] at h ha
      obtain rfl := hin hcom
      obtain ⟨m, hm, rfl⟩ := Option.map_eq_some_iff.mp h
      rw [← Bool.true_and (decide (c ≠ '\n'))] at ha
      refine .pass (.inl rfl) (ih (fun hb => ?_) hm ha)
      simp only [isNewline, Bool.not_eq_true', Bool.or_eq_false_iff, decide_eq_false_iff_not] at hb
      simpa using hb.1
    rw [if_neg hcom] at h ha
    by_cases hq : c = '\''
    · subst hq
      rw [if_pos rfl] at h
      rw [if_neg (by decide)] at ha
      by_cases hic : inComment = true
      · simp [hic] at ha
      split_ifs at h
      cases h
      refine ⟨[], cs, [], rfl, rfl, ?_, ?_, by simp⟩
      · simp [gapGlue, hic, Glue.skip]
      · simp [gapGlue, hic]
    rw [if_neg hq] at h
    by_cases hd : (decide (c = '-') && decide (cs.head? = some '-')) = true
    · rw [if_pos hd] at h
      obtain ⟨hc, hcs⟩ := Bool.and_eq_true_iff.mp hd
      obtain rfl := of_decide_eq_true hc
      rw [if_neg (by decide)] at ha
      split_ifs at ha with hic
      obtain ⟨m, hm, rfl⟩ := Option.map_eq_some_iff.mp h
      rw [Bool.eq_false_iff.mpr hic]
      exact .lineComment (of_decide_eq_true hcs) (ih (fun _ => rfl) hm ha)
    · rw [if_neg hd] at h
      split_ifs at h ha with hsp
      obtain ⟨m, hm, rfl⟩ := Option.map_eq_some_iff.mp h
      exact .pass (.inr hsp) (ih (by simp) hm ha)

theorem escapeAlike_skip {k : ℕ} {s : Text} (h : k ≤ s.length) :
    escapeAlike k s = escapeAlike 0 (s.drop k) := by
  induction s generalizing k with
  | nil =>
    obtain rfl : k = 0 := Nat.le_zero.mp h
    rfl
  | cons c cs ih =>
    cases k with
    | zero => rfl
    | succ k =>
      rw [escapeAlike, ih (by simpa using h), List.drop_succ_cons]

theorem tokensFrom_quote (prev : Option Char) (pos : ℕ) (rest : Text) :
    ∃ v : Token, v.start = pos ∧ v.kind.kind = .string ∧
      tokensFrom .free prev pos ('\'' :: rest) =
        v :: lexFrom (scanToken (dialectFor .POSTGRESQL)) (some '\'') (pos + 1)
          (scanQuoted '\'' false rest).len rest := by
  have hscan : scanToken (dialectFor .POSTGRESQL) prev ('\'' :: rest) =
      some ((quotedToken .string '\'' false rest).1, 1 + (scanQuoted '\'' false rest).len) := by
    rw [scanToken_cons]
    rfl
  rw [tokensFrom, Glue.skip, lexFrom_take hscan, Nat.add_sub_cancel_left]
  exact ⟨_, rfl, rfl, rfl⟩

/-- Behind the opening quote of an `E'…'` literal, with `n` bytes of it left: the tokenizer's
string and, where the literal goes on, comments and strings. -/
def EscapeRead (prev : Option Char) (pos : ℕ) (body : Text) (n : ℕ) : Prop :=
  ∃ ts, lexFrom (scanToken (dialectFor .POSTGRESQL)) prev pos (scanQuoted '\'' false body).len body =
      ts ++ tokensFrom .free (lastOf prev (body.take n)) (pos + n) (body.drop n) ∧
    (∀ t ∈ ts, pos ≤ t.start ∧ t.kind.isSemi = false) ∧
    ∀ t ∈ ts, t.kind.kind = .comment →
      ∃ v ∈ ts, v.kind.ordinary = true ∧ t.stop ≤ v.start ∧ v.start < pos + n

/-- Bytes inside a part of the literal. -/
theorem EscapeRead.move {front body : Text} {n : ℕ}
    (hlen : (scanQuoted '\'' false (front ++ body)).len =
      front.length + (scanQuoted '\'' false body).len)
    (h : EscapeRead (lastOf prev front) (pos + front.length) body n) :
    EscapeRead prev pos (front ++ body) (front.length + n) := by
  obtain ⟨ts, h1, h2, h3⟩ := h
  refine ⟨ts, ?_, fun t ht => ⟨by have := (h2 t ht).1; omega, (h2 t ht).2⟩, ?_⟩
  · rw [hlen, lexFrom_part, List.take_left, List.drop_left, h1, List.take_length_add_append,
      List.drop_length_add_append, lastOf_append, Nat.add_assoc]
  · rw [← Nat.add_assoc]
    exact h3

/-- The literal goes on behind a gap. -/
theorem EscapeRead.continued {d : Char} {cs : Text} {n : ℕ} (hd : d ≠ '\'')
    (hcont : continuation false false (d :: cs) = some n)
    (hgap : gapAlike false false (d :: cs) = true)
    (hnext : ∀ p pos, EscapeRead p pos ((d :: cs).drop n) (escapedLen 0 ((d :: cs).drop n))) :
    EscapeRead prev pos ('\'' :: d :: cs) (1 + escapedLen n (d :: cs)) := by
  have hlen : (scanQuoted '\'' false ('\'' :: d :: cs)).len = 1 := by simp [scanQuoted, hd]
  have htok : lexFrom (scanToken (dialectFor .POSTGRESQL)) prev pos 1 ('\'' :: d :: cs) =
      tokensFrom (gapGlue false) (some '\'') (pos + 1) (d :: cs) := rfl
  obtain ⟨gap, rest, ts, h1, h2, -, h4, h5⟩ :=
    @gapRead (some '\'') (pos + 1) _ _ _ _ _ (by simp) hcont hgap
  have hdrop : (d :: cs).drop n = rest := by
    rw [h1, h2, List.drop_length_add_append]
    rfl
  have hL : 1 + escapedLen n (d :: cs) = gap.length + 2 + escapedLen 0 rest := by
    rw [escapedLen_skip (continuation_le hcont).2, hdrop, h2]
    omega
  obtain ⟨v, hv1, hv2, hv3⟩ :=
    tokensFrom_quote (lastOf (some '\'') gap) (pos + 1 + gap.length) rest
  have hvk : v.kind.kind ≠ .comment ∧ v.kind.isSemi = false := by simp [hv2, TokInfo.isSemi]
  rw [hdrop] at hnext
  obtain ⟨us, h6, h7, h8⟩ := hnext (some '\'') (pos + 1 + gap.length + 1)
  rw [hL]
  refine ⟨ts ++ v :: us, ?_, ?_, ?_⟩
  · have hpos : pos + 1 + gap.length + 1 + escapedLen 0 rest =
        pos + (gap.length + 2 + escapedLen 0 rest) := by omega
    have hfront : ('\'' :: d :: cs : Text) = ('\'' :: gap ++ ['\'']) ++ rest := by
      rw [h1]
      simp
    have hfl : gap.length + 2 = ('\'' :: gap ++ ['\'']).length := by simp
    rw [hlen, htok, h4, hv3, h6, hpos, hfront, hfl, List.take_length_add_append,
      List.drop_length_add_append, lastOf_append]
    simp
  · intro t ht
    rcases List.mem_append.mp ht with ht | ht
    · have := h5 t ht
      exact ⟨by omega, by simp [TokInfo.isSemi, this.1]⟩
    · rcases List.mem_cons.mp ht with rfl | ht
      · exact ⟨by omega, hvk.2⟩
      · exact ⟨by have := (h7 t ht).1; omega, (h7 t ht).2⟩
  · intro t ht hk
    rcases List.mem_append.mp ht with ht | ht
    · -- a comment before the quote that goes on with the literal
      have := h5 t ht
      exact ⟨v, by simp, ordinary_iff.mpr hvk, by omega, by omega⟩
    · rcases List.mem_cons.mp ht with rfl | ht
      · exact absurd hk hvk.1
      · obtain ⟨w, hw, h9, h10, h11⟩ := h8 t ht hk
        exact ⟨w, by simp [hw], h9, h10, by omega⟩

theorem escapeRead {body : Text} (ha : escapeAlike 0 body = true) :
    EscapeRead prev pos body (escapedLen 0 body) := by
  induction hl : body.length using Nat.strong_induction_on generalizing prev pos body with
  | _ l ih =>
    subst hl
    match body with
    | [] => exact ⟨[], by simp [scanQuoted, escapedLen, tokensFrom, Glue.skip], by simp, by simp⟩
    | [c] =>
      have hlen : (scanQuoted '\'' false [c]).len = 1 := by
        rw [scanQuoted]
        split_ifs <;> rfl
      exact ⟨[], by rw [hlen]; rfl, by simp, by simp⟩
    | c :: d :: cs =>
      rw [escapeAlike] at ha
      rw [escapedLen]
      by_cases hb : c = '\\'
      · subst hb
        rw [if_pos rfl, Bool.and_eq_true, decide_eq_true_eq] at ha
        rw [if_pos rfl]
        refine @EscapeRead.move prev pos ['\\', d] cs _ ?_ (ih _ (by simp) ha.2 rfl)
        cases cs with
        | nil => simp [scanQuoted, Quoted.shift, ha.1]
        | cons e es =>
          simp [scanQuoted, Quoted.shift, ha.1]
          omega
      rw [if_neg hb] at ha ⊢
      by_cases hq : c = '\''
      · subst hq
        rw [if_pos rfl] at ha ⊢
        by_cases hd : d = '\''
        · subst hd
          rw [if_pos rfl] at ha ⊢
          exact @EscapeRead.move prev pos ['\'', '\''] cs _
            (by simp [scanQuoted, Quoted.shift]; omega) (ih _ (by simp) ha rfl)
        rw [if_neg hd] at ha ⊢
        cases hcont : continuation false false (d :: cs) with
        | none =>
          have hlen : (scanQuoted '\'' false ('\'' :: d :: cs)).len = 1 := by simp [scanQuoted, hd]
          exact ⟨[], by rw [hlen]; rfl, by simp, by simp⟩
        | some n =>
          rw [hcont] at ha
          obtain ⟨hgap, hrest⟩ := Bool.and_eq_true_iff.mp ha
          obtain ⟨hn0, hn⟩ := continuation_le hcont
          rw [escapeAlike_skip hn] at hrest
          refine EscapeRead.continued hd hcont hgap fun p q => ih _ ?_ hrest rfl
          rw [List.length_drop]
          simp only [List.length_cons]
          omega
      · rw [if_neg hq] at ha ⊢
        exact @EscapeRead.move prev pos [c] (d :: cs) _
          (by simp [scanQuoted, hq, Quoted.shift]; omega) (ih _ (by simp) ha rfl)

end Escape

end DearSql.Pg
