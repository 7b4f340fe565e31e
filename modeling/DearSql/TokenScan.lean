import DearSql.Tokenizer
import DearSql.LexRuns

/-! What one step of the tokenizer reads: the first byte and its neighbours choose the
scanner, the scanner stays inside the text, and bytes after a token matter only where a
token could go on. -/
namespace DearSql
open Lexing

/-- The scanner that the first byte of a token chooses. -/
inductive Start
  | lineComment | blockComment | string | doubleQuote | backtick | bracket | dollar | number
  | word | param | punct | op
  deriving DecidableEq, Repr

def startOf (d : Dialect) (prev : Option Char) (c next : Char) : Start :=
  if (c = '-' && next = '-') || (c = '#' && d.hashComment) then .lineComment
  else if c = '/' && next = '*' then .blockComment
  else if c = '\'' then .string
  else if c = '"' then .doubleQuote
  else if c = '`' && d.backtickIdent then .backtick
  else if c = '[' && d.bracketIdent then .bracket
  else if c = '$' && d.dollarQuote && (next = '$' || isIdentStartByte next) then .dollar
  else if startsNumber prev c next then .number
  else if isIdentStartByte c || (c = '#' && d.hashIdent) then .word
  else if startsParam prev c next then .param
  else if isPunctByte c then .punct
  else .op

def wordTail (d : Dialect) (rest : Text) : Text :=
  rest.takeWhile fun ch => isIdentByte ch || (d.hashIdent && ch = '#')

def readFrom (d : Dialect) (c : Char) (rest : Text) : Start → TokInfo × ℕ
  | .lineComment => lineCommentToken (c :: rest)
  | .blockComment => blockCommentToken rest
  | .string => quotedToken .string '\'' d.backslashEscape rest
  | .doubleQuote =>
    quotedToken (if d.doubleQuoteIdent then .quotedIdent else .string) '"'
      (!d.doubleQuoteIdent && d.backslashEscape) rest
  | .backtick => quotedToken .quotedIdent '`' false rest
  | .bracket => quotedToken .quotedIdent ']' false rest
  | .dollar => dollarToken rest
  | .number => ({ kind := .number }, 1 + numberRest c rest)
  | .word => ({ kind := .word, text := c :: wordTail d rest }, 1 + (wordTail d rest).length)
  | .param => ({ kind := .param }, 1 + (rest.takeWhile fun ch => ch = '@' || isIdentByte ch).length)
  | .punct => ({ kind := .punct, text := [c] }, 1)
  | .op => ({ kind := .op, text := [c] }, 1)

theorem scanToken_cons (d : Dialect) (prev : Option Char) (c : Char) (rest : Text) :
    scanToken d prev (c :: rest) =
      if isspace c then none
      else some (readFrom d c rest (startOf d prev c (rest.headD '\x00'))) := by
  simp only [scanToken, startOf, apply_ite (readFrom d c rest), apply_ite some]
  rfl

theorem scanToken_eq_none {d : Dialect} {prev : Option Char} {c : Char} {rest : Text} :
    scanToken d prev (c :: rest) = none ↔ isspace c = true := by
  rw [scanToken_cons]
  split_ifs with h <;> simp [h]

theorem scanToken_eq_some {d : Dialect} {prev : Option Char} {c : Char} {rest : Text}
    {r : TokInfo × ℕ} :
    scanToken d prev (c :: rest) = some r ↔
      isspace c = false ∧ readFrom d c rest (startOf d prev c (rest.headD '\x00')) = r := by
  rw [scanToken_cons]
  split_ifs with h <;> simp [h]

section Find

theorem find_bound {pat s : Text} {e : ℕ} (h : find pat s = some e) :
    e + pat.length ≤ s.length := by
  induction s generalizing e with
  | nil =>
    rw [find] at h
    split_ifs at h with hp
    cases h
    simp [hp]
  | cons c cs ih =>
    rw [find] at h
    split_ifs at h with hp
    · cases h
      simpa using (List.isPrefixOf_iff_prefix.mp hp).length_le
    · obtain ⟨m, hm, rfl⟩ := Option.map_eq_some_iff.mp h
      have := ih hm
      rw [List.length_cons]
      omega

/-- A match that ends in the front part is found there. -/
theorem find_append {pat r : Text} (v : Text) {e : ℕ} (he : e + pat.length ≤ r.length) :
    find pat (r ++ v) = some e ↔ find pat r = some e := by
  induction r generalizing e with
  | nil =>
    have hpat : pat = [] := List.length_eq_zero_iff.mp (by rw [List.length_nil] at he; omega)
    have he0 : e = 0 := by rw [List.length_nil] at he; omega
    subst hpat he0
    cases v <;> simp [find]
  | cons c cs ih =>
    have hpre : pat.length ≤ (c :: cs).length → (pat.isPrefixOf (c :: cs ++ v) =
        pat.isPrefixOf (c :: cs)) := by
      intro hl
      rw [Bool.eq_iff_iff, List.isPrefixOf_iff_prefix, List.isPrefixOf_iff_prefix]
      exact ⟨fun h => List.prefix_of_prefix_length_le h (List.prefix_append _ _) hl,
        fun h => h.trans (List.prefix_append _ _)⟩
    rw [List.cons_append, find, find, ← List.cons_append, hpre (by omega)]
    split_ifs with hp
    · rfl
    · cases e with
      | zero => simp
      | succ e =>
        simp only [Option.map_eq_some_iff, Nat.add_right_cancel_iff, exists_eq_right]
        exact ih (by simp at he; omega)

end Find

section Quoted

theorem scanQuoted_len_le (close : Char) (backslash : Bool) :
    ∀ s, (scanQuoted close backslash s).len ≤ s.length
  | [] => by simp [scanQuoted]
  | [ch] => by
    rw [scanQuoted]
    split_ifs <;> simp
  | ch :: d :: cs => by
    have h1 := scanQuoted_len_le close backslash cs
    have h2 := scanQuoted_len_le close backslash (d :: cs)
    rw [scanQuoted]
    split_ifs <;> simp only [Quoted.shift, List.length_cons] at * <;> omega

theorem scanQuoted_open (close : Char) (backslash : Bool) :
    ∀ s, (scanQuoted close backslash s).closed = false →
      (scanQuoted close backslash s).len = s.length
  | [], _ => by simp [scanQuoted]
  | [ch], h => by
    rw [scanQuoted] at h ⊢
    split_ifs at h ⊢
    rfl
  | ch :: d :: cs, h => by
    have h1 := scanQuoted_open close backslash cs
    have h2 := scanQuoted_open close backslash (d :: cs)
    rw [scanQuoted] at h ⊢
    split_ifs at h ⊢ <;> simp only [Quoted.shift, List.length_cons] at * <;>
      first | exact absurd h (by decide) | simp [h1 h] | simp [h2 h]

/-- The closing quote ends the token unless another quote follows. -/
theorem scanQuoted_swap {close : Char} (hc : close ≠ '\\') (backslash : Bool) {v v' : Text}
    (hv : ∀ c ∈ v'.head?, c = close → v.head? = some close) :
    ∀ r, (scanQuoted close backslash (r ++ v)).len ≤ r.length →
      (scanQuoted close backslash (r ++ v)).closed = true →
      scanQuoted close backslash (r ++ v') = scanQuoted close backslash (r ++ v)
  | [], hlen, hcl => by
    cases v with
    | nil => simp [scanQuoted] at hcl
    | cons a v =>
      cases v with
      | nil =>
        simp only [List.nil_append, scanQuoted] at hlen
        split_ifs at hlen <;> simp at hlen
      | cons b v =>
        simp only [List.nil_append, scanQuoted] at hlen
        split_ifs at hlen <;> simp [Quoted.shift] at hlen
  | [ch], hlen, hcl => by
    have hclose : ch = close := by
      by_contra hne
      cases v with
      | nil => simp [scanQuoted, hne] at hcl
      | cons b v =>
        simp only [List.cons_append, List.nil_append, scanQuoted, if_neg hne] at hlen hcl
        split_ifs at hlen hcl with hb
        · simp [Quoted.shift] at hlen
        · simp only [Quoted.shift, List.length_singleton] at hlen hcl
          have h0 : (scanQuoted close backslash (b :: v)).len = 0 := by omega
          cases v <;> simp only [scanQuoted] at h0 <;> split_ifs at h0 <;>
            simp [Quoted.shift] at h0
    subst hclose
    have hstop : ∀ w : Text, (∀ c ∈ w.head?, c ≠ ch) →
        scanQuoted ch backslash ([ch] ++ w) = ⟨1, true, []⟩ := by
      intro w hw
      cases w with
      | nil => simp [scanQuoted]
      | cons b w => simp [scanQuoted, hc, hw b (by simp)]
    have hlone : ∀ c ∈ v.head?, c ≠ ch := by
      intro b hb heq
      subst heq
      cases v with
      | nil => simp at hb
      | cons b' v =>
        obtain rfl : b' = b := by simpa using hb
        simp [scanQuoted, hc, Quoted.shift] at hlen
    rw [hstop v' fun c hcv heq => hlone ch (hv c hcv heq) rfl, hstop v hlone]
  | ch :: d :: cs, hlen, hcl => by
    have h1 := @scanQuoted_swap close hc backslash v v' hv cs
    have h2 := @scanQuoted_swap close hc backslash v v' hv (d :: cs)
    simp only [List.cons_append, scanQuoted] at hlen hcl h1 h2 ⊢
    split_ifs at hlen hcl ⊢ <;>
      simp only [Quoted.shift, List.length_cons, Nat.add_le_add_iff_right] at hlen hcl h1 h2 ⊢
    · rw [h1 (by omega) hcl]
    · rw [h1 (by omega) hcl]
    · rw [h2 (by omega) hcl]

end Quoted

section Stop

/-- Bytes at which a word, a number or a parameter ends and no other scanner goes on. -/
def isBreak (c : Char) : Bool := isspace c || c = ',' || c = ';' || c = '(' || c = ')' || c = '='

/-- The text ends or goes on with a break. -/
def Stops (v : Text) : Prop := ∀ c ∈ v.head?, isBreak c = true

theorem Stops.nil : Stops [] := by simp [Stops]

theorem stops_cons {c : Char} {v : Text} : Stops (c :: v) ↔ isBreak c = true := by simp [Stops]

/-- A byte that follows a stop is none of the bytes a scanner looks for. -/
structure Quiet (c : Char) : Prop where
  ident : isIdentByte c = false
  start : isIdentStartByte c = false
  alnum : isalnum c = false
  digit : isdigit c = false
  other : c ≠ '$' ∧ c ≠ '-' ∧ c ≠ '*' ∧ c ≠ '+' ∧ c ≠ '_' ∧ c ≠ '.' ∧ c ≠ '@' ∧ c ≠ '#'
  quotes : c ≠ '\'' ∧ c ≠ '"' ∧ c ≠ '`' ∧ c ≠ ']'

theorem quiet_of_isBreak {c : Char} (h : isBreak c = true) : Quiet c := by
  simp only [isBreak, isspace, Bool.or_eq_true, decide_eq_true_eq] at h
  rcases h with (((((((((rfl | rfl) | rfl) | rfl) | rfl) | rfl) | rfl) | rfl) | rfl) | rfl) | rfl <;>
    constructor <;> decide

/-- A byte that no scanner but that of a quoted text goes on with. -/
structure Calm (c : Char) : Prop where
  ident : isIdentByte c = false
  start : isIdentStartByte c = false
  alnum : isalnum c = false
  digit : isdigit c = false
  other : c ≠ '$' ∧ c ≠ '-' ∧ c ≠ '*' ∧ c ≠ '+' ∧ c ≠ '_' ∧ c ≠ '.' ∧ c ≠ '@' ∧ c ≠ '#'

theorem Quiet.calm {c : Char} (h : Quiet c) : Calm c := ⟨h.ident, h.start, h.alnum, h.digit, h.other⟩

/-- The text `v'` ends or goes on with a calm byte, with a quote only where `v` does. -/
def Parts (v v' : Text) : Prop :=
  ∀ c ∈ v'.head?, Calm c ∧ (c = '\'' ∨ c = '"' ∨ c = '`' ∨ c = ']' → v.head? = some c)

theorem Stops.parts {v' : Text} (h : Stops v') (v : Text) : Parts v v' := fun c hc => by
  have hq := quiet_of_isBreak (h c hc)
  obtain ⟨h1, h2, h3, h4⟩ := hq.quotes
  exact ⟨hq.calm, fun hor => by simp_all⟩

theorem calm_headD {v v' : Text} (h : Parts v v') : Calm (v'.headD '\x00') := by
  cases v' with
  | nil => constructor <;> decide
  | cons c v' => exact (h c rfl).1

theorem takeWhile_swap {p : Char → Bool} {r v v' : Text}
    (hlen : ((r ++ v).takeWhile p).length ≤ r.length)
    (hv : ((r ++ v).takeWhile p).length = r.length → ∀ c ∈ v'.head?, p c = false) :
    (r ++ v').takeWhile p = (r ++ v).takeWhile p := by
  induction r with
  | nil =>
    have h0 : v.takeWhile p = [] := List.length_eq_zero_iff.mp (Nat.le_zero.mp hlen)
    have hv' := hv (by simp [h0])
    cases v' with
    | nil => simp [h0]
    | cons c v' => simp [h0, hv' c (by simp)]
  | cons c cs ih =>
    rw [List.cons_append, List.takeWhile_cons] at hlen hv
    rw [List.cons_append, List.cons_append, List.takeWhile_cons, List.takeWhile_cons]
    by_cases hc : p c = true
    · rw [if_pos hc] at hlen hv
      rw [if_pos hc, if_pos hc, ih (by simpa using hlen) fun he => hv (by simp [he])]
    · rw [if_neg hc, if_neg hc]

theorem takeWhile_all {p : Char → Bool} {r v : Text}
    (h : r.length ≤ ((r ++ v).takeWhile p).length) : ∀ c ∈ r, p c = true := fun _ hc =>
  List.mem_takeWhile_imp ((List.prefix_of_prefix_length_le (List.prefix_append r v)
    (List.takeWhile_prefix p) h).subset hc)

theorem numberRest_le (prev : Char) (s : Text) : numberRest prev s ≤ s.length := by
  induction s generalizing prev with
  | nil => simp [numberRest]
  | cons c cs ih =>
    have := ih c
    rw [numberRest, List.length_cons]
    split_ifs <;> omega

theorem numberRest_swap {prev : Char} {r v v' : Text} (hv : Parts v v')
    (hlen : numberRest prev (r ++ v) ≤ r.length) :
    numberRest prev (r ++ v') = numberRest prev (r ++ v) := by
  induction r generalizing prev with
  | nil =>
    have h0 : numberRest prev v = 0 := Nat.le_zero.mp hlen
    cases v' with
    | nil => simp [h0, numberRest]
    | cons c v' =>
      have hq := (hv c rfl).1
      obtain ⟨-, h1, -, h2, h3, h4, -⟩ := hq.other
      simp [h0, numberRest, hq.alnum, h1, h2, h3, h4]
  | cons c cs ih =>
    rw [List.cons_append, numberRest] at hlen
    rw [List.cons_append, List.cons_append, numberRest, numberRest]
    split_ifs at hlen ⊢ with h1 h2 h3 h3 <;> try rfl
    · rw [ih (by rw [List.length_cons] at hlen; omega)]
    · rw [ih (by rw [List.length_cons] at hlen; omega)]
    · exfalso
      cases cs with
      | cons e es => exact h3 h2
      | nil =>
        have hd := (Bool.and_eq_true_iff.mp h2).2
        rw [List.nil_append, (calm_headD hv).digit] at hd
        exact absurd hd (by decide)
    · -- the digit after the sign is behind the seam, so the number goes over it
      exfalso
      cases cs with
      | cons e es => exact h2 h3
      | nil =>
        cases v with
        | nil => simp [isdigit] at h3
        | cons e v =>
          have he : isdigit e = true := by simpa using (Bool.and_eq_true_iff.mp h3).2
          simp [numberRest, isalnum, he] at hlen

theorem blockCommentToken_swap {r v v' : Text} {t : TokInfo} {n : ℕ}
    (h : blockCommentToken (r ++ v) = (t, n)) (hn : n ≤ 1 + r.length) (hcl : t.closed = true) :
    blockCommentToken (r ++ v') = (t, n) := by
  unfold blockCommentToken at h ⊢
  cases he : find "*/".toList ((r ++ v).drop 1) with
  | none =>
    rw [he] at h
    cases h
    exact absurd hcl (by decide)
  | some e =>
    rw [he] at h
    have h2 : 2 + e + 2 = n := congrArg Prod.snd h
    have hr : 1 ≤ r.length := by omega
    have hle : e + "*/".toList.length ≤ (r.drop 1).length := by
      rw [List.length_drop]
      simp only [String.length_toList, show "*/".length = 2 from rfl]
      omega
    rw [List.drop_append_of_le_length hr] at he ⊢
    rw [(find_append v' hle).mpr ((find_append v hle).mp he)]
    exact h

/-- A byte of a dollar quote's tag. -/
def isTagByte (ch : Char) : Bool := ch ≠ '$' && isIdentByte ch

theorem dollarToken_eq (rest : Text) :
    dollarToken rest =
      let body := rest.takeWhile isTagByte
      let tag := '$' :: body ++ ['$']
      if (rest.drop body.length).head? = some '$' then
        match find tag (rest.drop (body.length + 1)) with
        | some e => ({ kind := .string }, tag.length + e + tag.length)
        | none => ({ kind := .string, closed := false }, 1 + rest.length)
      else ({ kind := .op, text := ['$'] }, 1) := by
  have hbody : (rest.takeWhile fun ch => ch ≠ '$' && isIdentByte ch) = rest.takeWhile isTagByte := rfl
  rw [dollarToken, hbody]
  simp only [← List.drop_drop]
  generalize rest.drop (rest.takeWhile isTagByte).length = w
  cases w with
  | nil => rfl
  | cons c u =>
    by_cases hc : c = '$'
    · rw [hc]
      rfl
    · rw [List.head?_cons, if_neg (by simpa using hc)]
      split
      · next h => exact absurd (List.cons.inj h).1 hc
      · rfl

theorem Calm.tagByte {c : Char} (h : Calm c) : isTagByte c = false := by
  simp [isTagByte, h.ident]

theorem dollarToken_swap {r v v' : Text} {t : TokInfo} {n : ℕ}
    (hv : ∀ c ∈ v'.head?, isIdentByte c = false) (h : dollarToken (r ++ v) = (t, n))
    (hn : n ≤ 1 + r.length) (hcl : t.closed = true) : dollarToken (r ++ v') = (t, n) := by
  rw [dollarToken_eq] at h ⊢
  simp only at h ⊢
  have htag : ∀ c ∈ v'.head?, isTagByte c = false := fun c hc => by simp [isTagByte, hv c hc]
  by_cases hin : ((r ++ v).takeWhile isTagByte).length < r.length
  · rw [takeWhile_swap hin.le fun _ => htag]
    generalize hbody : (r ++ v).takeWhile isTagByte = body at h hin ⊢
    rw [List.drop_append_of_le_length hin.le, List.head?_append_of_ne_nil _ (by simp [hin])] at h ⊢
    rw [List.drop_append_of_le_length hin] at h ⊢
    split_ifs at h ⊢ with hd
    · cases he : find ('$' :: body ++ ['$']) (r.drop (body.length + 1) ++ v) with
      | none =>
        rw [he] at h
        cases h
        exact absurd hcl (by decide)
      | some e =>
        rw [he] at h
        have h2 := congrArg Prod.snd h
        simp only [List.length_append, List.length_cons, List.length_nil] at h2
        have hle : e + ('$' :: body ++ ['$']).length ≤ (r.drop (body.length + 1)).length := by
          simp only [List.length_drop, List.length_append, List.length_cons, List.length_nil]
          omega
        rw [(find_append v' hle).mpr ((find_append v hle).mp he)]
        exact h
    · exact h
  · -- the tag's bytes reach the seam: no dollar sign can close the tag before it
    have hr := takeWhile_all (Nat.not_lt.mp hin)
    have hbody : (r ++ v').takeWhile isTagByte = r := by
      rw [List.takeWhile_append_of_pos hr]
      cases v' with
      | nil => simp
      | cons c v' => simp [htag c (by simp)]
    have hd' : ((r ++ v').drop r.length).head? ≠ some '$' := by
      rw [List.drop_left]
      intro hc
      exact absurd (hv _ hc) (by decide)
    rw [hbody, if_neg hd']
    split_ifs at h with hd
    · split at h
      · have h2 := congrArg Prod.snd h
        simp only [List.length_append, List.length_cons, List.length_nil] at h2
        omega
      · cases h
        exact absurd hcl (by decide)
    · exact h

end Stop

/-- A token that text after it leaves alone. -/
def TokInfo.whole (t : TokInfo) : Prop := t.closed = true ∧ t.lineComment = false

instance : DecidablePred TokInfo.whole := fun t =>
  inferInstanceAs (Decidable (t.closed = true ∧ t.lineComment = false))

theorem quotedToken_open {kind : Tok} {close : Char} {backslash : Bool} {rest : Text}
    (h : (quotedToken kind close backslash rest).1.closed = false) :
    (quotedToken kind close backslash rest).2 = 1 + rest.length := by
  rw [quotedToken, scanQuoted_open _ _ _ h]

theorem blockCommentToken_open {rest : Text} (h : (blockCommentToken rest).1.closed = false) :
    (blockCommentToken rest).2 = 1 + rest.length := by
  unfold blockCommentToken at h ⊢
  split at h
  · simp at h
  · rfl

theorem dollarToken_open {rest : Text} (h : (dollarToken rest).1.closed = false) :
    (dollarToken rest).2 = 1 + rest.length := by
  rw [dollarToken_eq] at h ⊢
  simp only at h ⊢
  split_ifs at h ⊢ with hd
  split at h
  · simp at h
  · rfl

/-- An open token takes the rest of the text. -/
theorem readFrom_open {d : Dialect} {c : Char} {rest : Text} {st : Start}
    (h : (readFrom d c rest st).1.closed = false) : (readFrom d c rest st).2 = 1 + rest.length := by
  cases st with
  | string | doubleQuote | backtick | bracket => exact quotedToken_open h
  | blockComment => exact blockCommentToken_open h
  | dollar => exact dollarToken_open h
  | lineComment | number | word | param | punct | op => exact absurd h (by simp [readFrom, lineCommentToken])

theorem blockCommentToken_bound (rest : Text) :
    0 < (blockCommentToken rest).2 ∧ (blockCommentToken rest).2 ≤ 1 + rest.length := by
  unfold blockCommentToken
  split
  · rename_i e he
    have := find_bound he
    rw [List.length_drop] at this
    simp only [String.length_toList, show "*/".length = 2 from rfl] at this
    exact ⟨by simp, by simp only; omega⟩
  · simp

theorem dollarToken_bound (rest : Text) :
    0 < (dollarToken rest).2 ∧ (dollarToken rest).2 ≤ 1 + rest.length := by
  rw [dollarToken_eq]
  simp only
  split_ifs with hd
  · split
    · rename_i e he
      have := find_bound he
      simp only [List.length_drop, List.length_append, List.length_cons, List.length_nil] at this ⊢
      omega
    · simp
  · simp

theorem readFrom_bound (d : Dialect) {c : Char} (hc : isspace c = false) (rest : Text) (st : Start) :
    0 < (readFrom d c rest st).2 ∧ (readFrom d c rest st).2 ≤ 1 + rest.length := by
  cases st with
  | string | doubleQuote | backtick | bracket =>
    simp only [readFrom, quotedToken]
    exact ⟨by omega, Nat.add_le_add_left (scanQuoted_len_le _ _ _) _⟩
  | blockComment => exact blockCommentToken_bound rest
  | dollar => exact dollarToken_bound rest
  | lineComment =>
    have hn : c ≠ '\n' := by
      rintro rfl
      exact absurd hc (by decide)
    have : (rest.takeWhile fun ch => decide (ch ≠ '\n')).length ≤ rest.length :=
      (List.takeWhile_sublist _).length_le
    simp only [readFrom, lineCommentToken, List.takeWhile_cons, decide_eq_true hn, if_true,
      List.length_cons]
    omega
  | number =>
    have := numberRest_le c rest
    simp only [readFrom]
    omega
  | word => exact ⟨by simp [readFrom], Nat.add_le_add_left (List.takeWhile_sublist _).length_le _⟩
  | param => exact ⟨by simp [readFrom], Nat.add_le_add_left (List.takeWhile_sublist _).length_le _⟩
  | punct | op => simp [readFrom]

theorem bounded_scanToken (d : Dialect) : Bounded (scanToken d) := by
  intro p s t n h
  cases s with
  | nil => simp [scanToken] at h
  | cons c rest =>
    obtain ⟨hc, hr⟩ := scanToken_eq_some.mp h
    have := readFrom_bound d hc rest (startOf d p c (rest.headD '\x00'))
    rw [hr] at this
    rw [List.length_cons, Nat.add_comm]
    exact this

section Swap

/-- The text behind a token may go on differently: it stops or breaks there, and a token that
reaches the seam could not go over it. -/
def KeepsEnd (v v' : Text) (t : TokInfo) : Prop := v' = [] ∨ v.head? = v'.head? ∨ t.whole

theorem readFrom_swap (d : Dialect) {c : Char} {r v v' : Text} {st : Start} {t : TokInfo} {n : ℕ}
    (hv : Parts v v') (h : readFrom d c (r ++ v) st = (t, n)) (hn : n ≤ 1 + r.length)
    (hend : n = 1 + r.length → KeepsEnd v v' t) : readFrom d c (r ++ v') st = (t, n) := by
  have hcl : v' = v ∨ t.closed = true := by
    refine or_iff_not_imp_right.mpr fun ho => ?_
    have hopen := @readFrom_open d c (r ++ v) st (by rw [h]; simpa using ho)
    rw [h, List.length_append] at hopen
    have hv0 : v = [] := List.length_eq_zero_iff.mp (by omega)
    subst hv0
    rcases hend (by simpa using hopen) with h1 | h1 | h1
    · exact h1
    · exact List.head?_eq_none_iff.mp h1.symm
    · exact absurd h1.1 ho
  rcases hcl with rfl | hcl
  · exact h
  have hcalm : ∀ ch ∈ v'.head?, Calm ch := fun ch hch => (hv ch hch).1
  have hquoted : ∀ {kind : Tok} {close : Char} {backslash : Bool}, close ≠ '\\' →
      (∀ ch ∈ v'.head?, ch = close → v.head? = some close) → quotedToken kind close backslash (r ++ v) = (t, n) →
      quotedToken kind close backslash (r ++ v') = (t, n) := by
    intro kind close backslash hc hne hq
    have h1 := congrArg Prod.fst hq
    have h2 := congrArg Prod.snd hq
    simp only [quotedToken] at h1 h2
    have hlen : (scanQuoted close backslash (r ++ v)).len ≤ r.length := by omega
    rw [← h1] at hcl
    rw [← hq, quotedToken, quotedToken, scanQuoted_swap hc backslash hne r hlen hcl]
  cases st with
  | string | doubleQuote | backtick | bracket =>
    refine hquoted (by decide) (fun ch hch he => ?_) h
    rw [← he]
    exact (hv ch hch).2 (by simp [he])
  | blockComment => exact blockCommentToken_swap h hn hcl
  | dollar => exact dollarToken_swap (fun ch hch => (hcalm ch hch).ident) h hn hcl
  | punct | op => exact h
  | number =>
    have h2 := congrArg Prod.snd h
    simp only [readFrom] at h2
    have hlen : numberRest c (r ++ v) ≤ r.length := by omega
    rw [← h, readFrom, readFrom, numberRest_swap hv hlen]
  | word =>
    have h2 := congrArg Prod.snd h
    simp only [readFrom, wordTail] at h2
    have hlen := Nat.le_of_add_le_add_left (h2.trans_le hn)
    rw [← h, readFrom, readFrom, wordTail, wordTail, takeWhile_swap hlen]
    intro _ ch hch
    simp [(hcalm ch hch).ident, (hcalm ch hch).other.2.2.2.2.2.2.2]
  | param =>
    have h2 := congrArg Prod.snd h
    simp only [readFrom] at h2
    have hlen := Nat.le_of_add_le_add_left (h2.trans_le hn)
    rw [← h, readFrom, readFrom, takeWhile_swap hlen]
    intro _ ch hch
    simp [(hcalm ch hch).ident, (hcalm ch hch).other.2.2.2.2.2.2.1]
  | lineComment =>
    have h1 := congrArg Prod.fst h
    have h2 := congrArg Prod.snd h
    simp only [readFrom, lineCommentToken] at h1 h2
    rw [← h, readFrom, readFrom, lineCommentToken, lineCommentToken, ← List.cons_append,
      ← List.cons_append]
    rw [← List.cons_append] at h2
    have hle : ((c :: r ++ v).takeWhile fun ch => decide (ch ≠ '\n')).length ≤ (c :: r).length := by
      rw [List.length_cons]
      omega
    rw [takeWhile_swap hle]
    intro hlen ch hch
    rw [List.length_cons] at hlen
    rcases hend (by omega) with h3 | h3 | h3
    · simp [h3] at hch
    · -- the comment reaches the seam, so the line feed is right behind it
      have hall := @takeWhile_all (fun ch => decide (ch ≠ '\n')) (c :: r) v
        (by rw [List.length_cons]; omega)
      rw [List.takeWhile_append_of_pos hall] at hlen
      cases v with
      | nil => simp [← h3] at hch
      | cons a v =>
        have ha : a = ch := by
          rw [← h3] at hch
          simpa using hch
        subst ha
        have hlf : a = '\n' := by simpa using hlen
        simp [hlf]
    · rw [← h1] at h3
      exact absurd h3.2 (by decide)

/-- With a calm byte next to it the first byte alone chooses the scanner. -/
theorem startOf_calm (d : Dialect) (prev : Option Char) (c : Char) {next : Char} (hq : Calm next) :
    startOf d prev c next =
      if c = '#' && d.hashComment then .lineComment
      else if c = '\'' then .string
      else if c = '"' then .doubleQuote
      else if c = '`' && d.backtickIdent then .backtick
      else if c = '[' && d.bracketIdent then .bracket
      else if isdigit c then .number
      else if isIdentStartByte c || (c = '#' && d.hashIdent) then .word
      else if c = '@' || c = '?' then .param
      else if isPunctByte c then .punct
      else .op := by
  obtain ⟨h1, h2, h3, -⟩ := hq.other
  simp [startOf, startsNumber, startsParam, h1, h2, h3, hq.start, hq.digit]

theorem isIdentByte_of_start {c : Char} (h : isIdentStartByte c = true) : isIdentByte c = true := by
  simp only [isIdentStartByte, isIdentByte, isalnum, Bool.or_eq_true] at h ⊢
  tauto

theorem headD_eq {v : Text} {c : Char} (hc : c ≠ '\x00') (h : v.headD '\x00' = c) :
    ∃ w, v = c :: w := by
  cases v with
  | nil => exact absurd h.symm hc
  | cons a w => exact ⟨w, by rw [← h]; rfl⟩

/-- A first byte that chooses its scanner by the byte next to it reads that byte too, a dollar
sign apart. -/
theorem readFrom_seam (d : Dialect) {prev : Option Char} {c : Char} {v v' : Text} (hv : Parts v v')
    (hn : (readFrom d c v (startOf d prev c (v.headD '\x00'))).2 ≤ 1) :
    readFrom d c v' (startOf d prev c (v'.headD '\x00')) =
      readFrom d c v' (startOf d prev c (v.headD '\x00')) := by
  have hq := calm_headD hv
  rw [startOf_calm d prev c hq]
  generalize hnext : v.headD '\x00' = next at hn ⊢
  have hcons : next ≠ '\x00' → ∃ w, v = next :: w := fun h => headD_eq h hnext
  have hword : (isalnum next = true ∨ isIdentByte next = true) → ∃ w, v = next :: w := by
    refine fun h => hcons ?_
    rintro rfl
    exact absurd h (by decide)
  by_cases hdash : c = '-' ∧ next = '-'
  · obtain ⟨rfl, rfl⟩ := hdash
    obtain ⟨w, rfl⟩ := hcons (by decide)
    simp [startOf, readFrom, lineCommentToken] at hn
  by_cases hslash : c = '/' ∧ next = '*'
  · obtain ⟨rfl, rfl⟩ := hslash
    obtain ⟨w, rfl⟩ := hcons (by decide)
    have : 2 ≤ (blockCommentToken ('*' :: w)).2 := by
      unfold blockCommentToken
      split <;> simp only [List.length_cons] <;> omega
    simp [startOf, readFrom] at hn
    omega
  by_cases hdollar : c = '$' ∧ d.dollarQuote ∧ (next = '$' ∨ isIdentStartByte next)
  · obtain ⟨rfl, h1, h2⟩ := hdollar
    have hop : dollarToken v' = ({ kind := .op, text := ['$'] }, 1) := by
      rw [dollarToken_eq]
      cases v' with
      | nil => rfl
      | cons b v' =>
        have hb := (hv b rfl).1
        simp [hb.tagByte, hb.other.1]
    have hst : startOf d prev '$' next = .dollar := by simp [startOf, h1, h2]
    rw [hst]
    exact hop.symm
  by_cases hdot : startsNumber prev c next = true ∧ isdigit c = false
  · obtain ⟨hs, hd⟩ := hdot
    obtain ⟨rfl, hdig⟩ : c = '.' ∧ isdigit next = true := by
      simp only [startsNumber, hd, Bool.false_or, Bool.and_eq_true, decide_eq_true_eq] at hs
      exact hs.1
    obtain ⟨w, rfl⟩ := hword (.inl (by simp [isalnum, hdig]))
    simp [startOf, hs, readFrom, numberRest, isalnum, hdig] at hn
  have h1 : (decide (c = '-') && decide (next = '-')) = false := by simpa using hdash
  have h2 : (decide (c = '/') && decide (next = '*')) = false := by simpa using hslash
  have h3 : (decide (c = '$') && d.dollarQuote && (decide (next = '$') || isIdentStartByte next)) =
      false := by
    simpa [and_assoc] using hdollar
  have hnumber : startsNumber prev c next = isdigit c := by
    by_cases hd : isdigit c = true
    · simp [startsNumber, hd]
    · simpa [hd] using hdot
  by_cases hpar : startsParam prev c next = true ∧ c ≠ '@' ∧ c ≠ '?'
  · obtain ⟨hs, hat, hq⟩ := hpar
    have hcase : (c = ':' ∨ c = '$') ∧ isIdentByte next = true := by
      simp only [startsParam, hat, hq, decide_false, Bool.false_or, Bool.or_eq_true,
        Bool.and_eq_true, decide_eq_true_eq] at hs
      rcases hs with ⟨⟨hc, hi⟩, -⟩ | ⟨hc, hi⟩
      · exact ⟨.inl hc, isIdentByte_of_start hi⟩
      · exact ⟨.inr hc, by simp [isIdentByte, isalnum, hi]⟩
    obtain ⟨w, rfl⟩ := hword (.inr hcase.2)
    have hst : startOf d prev c next = .param := by
      rw [startOf, h1, h2, h3, hnumber, hs]
      rcases hcase.1 with rfl | rfl <;> rfl
    simp [hst, readFrom, hcase.2] at hn
  have hparam : startsParam prev c next = (decide (c = '@') || decide (c = '?')) := by
    by_cases h : c = '@' ∨ c = '?'
    · rcases h with rfl | rfl <;> simp [startsParam]
    · rw [not_or] at h
      simpa [h] using fun hs => hpar ⟨hs, h⟩
  rw [startOf, h1, h2, h3, hnumber, hparam]
  simp

/-- A token is the same before `v'` as before `v`, unless it could go over the seam. -/
theorem swap_parts (d : Dialect) {v v' : Text} (hv : Parts v v') :
    Swap (scanToken d) (KeepsEnd v v') v v' := by
  intro p r hr
  cases r with
  | nil => exact absurd rfl hr
  | cons c r =>
    refine ⟨fun h => ?_, fun t n h hn hend => ?_⟩
    · rw [List.cons_append, scanToken_eq_none] at h ⊢
      exact h
    · rw [List.cons_append, scanToken_eq_some] at h ⊢
      rw [List.length_cons, Nat.add_comm] at hn hend
      obtain ⟨hc, h⟩ := h
      refine ⟨hc, ?_⟩
      cases r with
      | cons e es => exact readFrom_swap d hv h hn hend
      | nil =>
        have hsame := @readFrom_swap d c [] v v' _ t n hv h hn hend
        rw [List.nil_append] at h hsame ⊢
        rw [readFrom_seam d hv (by rw [h]; simpa using hn)]
        exact hsame

theorem swap_scanToken (d : Dialect) {v v' : Text} (hv : Stops v') :
    Swap (scanToken d) (KeepsEnd v v') v v' := swap_parts d (hv.parts v)

/-- A byte that is no sign and in no word or tag. -/
structure Ends (c : Char) : Prop where
  ident : isIdentByte c = false
  sign : c ≠ '+' ∧ c ≠ '-'

theorem numberRest_same {z prev : Char} (hz : Ends z) {r v v' : Text}
    (hlen : numberRest prev (r ++ z :: v) ≤ r.length) :
    numberRest prev (r ++ z :: v') = numberRest prev (r ++ z :: v) := by
  induction r generalizing prev with
  | nil =>
    obtain ⟨h1, h2⟩ := hz.sign
    rw [List.nil_append, numberRest] at hlen
    rw [List.nil_append, List.nil_append, numberRest, numberRest]
    simp only [h1, h2, decide_false, Bool.or_self, Bool.false_and, Bool.false_eq_true, if_false] at hlen ⊢
    split_ifs at hlen ⊢
    · simp at hlen
    · rfl
  | cons c cs ih =>
    have hnext : (cs ++ z :: v').headD '\x00' = (cs ++ z :: v).headD '\x00' := by
      cases cs <;> rfl
    rw [List.cons_append, numberRest, List.length_cons] at hlen
    rw [List.cons_append, List.cons_append, numberRest, numberRest, hnext]
    split_ifs at hlen ⊢
    · rw [ih (by omega)]
    · rw [ih (by omega)]
    · rfl

theorem readFrom_same (d : Dialect) {c z : Char} (hz : Ends z) {r v v' : Text} {st : Start}
    {t : TokInfo} {n : ℕ} (h : readFrom d c (r ++ z :: v) st = (t, n)) (hn : n ≤ 1 + r.length) :
    readFrom d c (r ++ z :: v') st = (t, n) := by
  have hcl : t.closed = true := by
    by_contra ho
    have hopen := @readFrom_open d c (r ++ z :: v) st (by rw [h]; simpa using ho)
    rw [h, List.length_append, List.length_cons] at hopen
    simp only at hopen
    omega
  have hquoted : ∀ {kind : Tok} {close : Char} {backslash : Bool}, close ≠ '\\' →
      quotedToken kind close backslash (r ++ z :: v) = (t, n) →
      quotedToken kind close backslash (r ++ z :: v') = (t, n) := by
    intro kind close backslash hc hq
    have h1 := congrArg Prod.fst hq
    have h2 := congrArg Prod.snd hq
    simp only [quotedToken] at h1 h2
    have hlen : (scanQuoted close backslash (r ++ z :: v)).len ≤ r.length := by omega
    rw [← h1] at hcl
    have hne : ∀ ch ∈ (z :: v').head?, ch = close → (z :: v).head? = some close := by
      rintro ch hch rfl
      exact hch
    rw [← hq, quotedToken, quotedToken, scanQuoted_swap hc backslash hne r hlen hcl]
  -- what goes on by single bytes has stopped before `z` or at it
  have hwhile : ∀ {p : Char → Bool} {u : Text}, ((u ++ z :: v).takeWhile p).length ≤ u.length →
      (u ++ z :: v').takeWhile p = (u ++ z :: v).takeWhile p := by
    intro p u hlen
    refine takeWhile_swap hlen fun hall ch hch => ?_
    obtain rfl : z = ch := by simpa using hch
    have hu := takeWhile_all hall.ge
    rw [List.takeWhile_append_of_pos hu] at hall
    by_contra hp
    simp [List.takeWhile_cons, hp] at hall
  cases st with
  | string | doubleQuote | backtick | bracket => exact hquoted (by decide) h
  | blockComment => exact blockCommentToken_swap h hn hcl
  | dollar =>
    refine dollarToken_swap (fun ch hch => ?_) h hn hcl
    obtain rfl : z = ch := by simpa using hch
    exact hz.ident
  | punct | op => exact h
  | number =>
    have h2 := congrArg Prod.snd h
    simp only [readFrom] at h2
    have hlen : numberRest c (r ++ z :: v) ≤ r.length := by omega
    rw [← h, readFrom, readFrom, numberRest_same hz hlen]
  | word =>
    have h2 := congrArg Prod.snd h
    simp only [readFrom, wordTail] at h2
    rw [← h, readFrom, readFrom, wordTail, wordTail, hwhile (by omega)]
  | param =>
    have h2 := congrArg Prod.snd h
    simp only [readFrom] at h2
    rw [← h, readFrom, readFrom, hwhile (by omega)]
  | lineComment =>
    have h2 := congrArg Prod.snd h
    simp only [readFrom, lineCommentToken, ← List.cons_append] at h2
    rw [← h, readFrom, readFrom, lineCommentToken, lineCommentToken, ← List.cons_append,
      ← List.cons_append, hwhile (by rw [List.length_cons]; omega)]

/-- A token that ends at the byte `z` or before it is the same whatever comes after that byte. -/
theorem swap_same (d : Dialect) {z : Char} (hz : Ends z) (v v' : Text) :
    Swap (scanToken d) (fun _ => True) (z :: v) (z :: v') := by
  intro p r hr
  cases r with
  | nil => exact absurd rfl hr
  | cons c r =>
    refine ⟨fun h => ?_, fun t n h hn _ => ?_⟩
    · rw [List.cons_append, scanToken_eq_none] at h ⊢
      exact h
    · rw [List.cons_append, scanToken_eq_some] at h ⊢
      rw [List.length_cons, Nat.add_comm] at hn
      have hnext : (r ++ z :: v').headD '\x00' = (r ++ z :: v).headD '\x00' := by
        cases r <;> rfl
      rw [hnext]
      exact ⟨h.1, readFrom_same d hz h.2 hn⟩

end Swap

section Neutral

/-- A byte that changes nothing about the token after it. -/
def Neutral (prev : Option Char) : Prop :=
  ∀ p ∈ prev, isIdentByte p = false ∧ p ≠ '"' ∧ p ≠ '`' ∧ p ≠ ']' ∧ p ≠ ')' ∧ p ≠ ':'

theorem scanToken_neutral {d : Dialect} {prev : Option Char} (h : Neutral prev) (s : Text) :
    scanToken d prev s = scanToken d none s := by
  cases prev with
  | none => rfl
  | some p =>
    obtain ⟨h1, h2, h3, h4, h5, h6⟩ := h p rfl
    cases s with
    | nil => rfl
    | cons c rest =>
      simp [scanToken_cons, startOf, startsNumber, startsParam, h1, h2, h3, h4, h5, h6]

theorem scanToken_break {d : Dialect} (prev : Option Char) {c : Char} (h : isBreak c = true)
    (s : Text) : scanToken d prev (c :: s) = scanToken d none (c :: s) := by
  have hq := quiet_of_isBreak h
  have hc : c ≠ ':' := by
    rintro rfl
    exact absurd h (by decide)
  simp [scanToken_cons, startOf, startsNumber, startsParam, hq.digit, hq.other, hc]

theorem lexFrom_neutral (d : Dialect) {prev : Option Char} (h : Neutral prev) (pos : ℕ) (s : Text) :
    lexFrom (scanToken d) prev pos 0 s = (tokenize s d).map (Lexeme.shift pos) := by
  rw [lexFrom_congr (scanToken_neutral h s), lexFrom_eq_shift]
  rfl

theorem neutral_none : Neutral none := by simp [Neutral]

theorem neutral_of_isspace {c : Char} (h : isspace c = true) : Neutral (some c) := by
  have hq := @quiet_of_isBreak c (by simp [isBreak, h])
  rintro p ⟨⟩
  refine ⟨hq.ident, hq.quotes.2.1, hq.quotes.2.2.1, hq.quotes.2.2.2, ?_, ?_⟩ <;> rintro rfl <;>
    exact absurd h (by decide)

end Neutral

section Last

theorem find_prefix {pat s : Text} {e : ℕ} (h : find pat s = some e) : pat <+: s.drop e := by
  induction s generalizing e with
  | nil =>
    rw [find] at h
    split_ifs at h with hp
    simp [hp]
  | cons c cs ih =>
    rw [find] at h
    split_ifs at h with hp
    · cases h
      exact List.isPrefixOf_iff_prefix.mp hp
    · obtain ⟨m, hm, rfl⟩ := Option.map_eq_some_iff.mp h
      exact ih hm

theorem find_getElem? {pat s : Text} {e i : ℕ} (h : find pat s = some e) (hi : i < pat.length) :
    s[e + i]? = some pat[i] := by
  obtain ⟨t, ht⟩ := find_prefix h
  rw [← List.getElem?_drop, ← ht, List.getElem?_append_left hi, List.getElem?_eq_getElem hi]

theorem scanQuoted_last (close : Char) (backslash : Bool) :
    ∀ s, (scanQuoted close backslash s).closed = true →
      (c : Char) → (c :: s)[(scanQuoted close backslash s).len]? = some close
  | [], h, _ => by simp [scanQuoted] at h
  | [ch], h, c => by
    rw [scanQuoted] at h ⊢
    split_ifs at h ⊢ with hc
    simp [hc]
  | ch :: d :: cs, h, c => by
    have h1 := scanQuoted_last close backslash cs
    have h2 := scanQuoted_last close backslash (d :: cs)
    rw [scanQuoted] at h ⊢
    split_ifs at h ⊢ with hb hc hd
    · exact h1 h d
    · exact h1 h d
    · simp [hc]
    · exact h2 h ch

theorem takeWhile_last {p : Char → Bool} {c : Char} (hc : isspace c = false)
    (hp : ∀ ch, p ch = true → isspace ch = false) (s : Text) :
    ∃ ch, (c :: s)[(s.takeWhile p).length]? = some ch ∧ isspace ch = false := by
  induction s generalizing c with
  | nil => exact ⟨c, rfl, hc⟩
  | cons a as ih =>
    by_cases ha : p a = true
    · rw [List.takeWhile_cons, if_pos ha]
      exact ih (hp a ha)
    · exact ⟨c, by rw [List.takeWhile_cons, if_neg ha]; rfl, hc⟩

theorem numberRest_last {c : Char} (hc : isspace c = false) (prev : Char) (s : Text) :
    ∃ ch, (c :: s)[numberRest prev s]? = some ch ∧ isspace ch = false := by
  induction s generalizing c prev with
  | nil => exact ⟨c, rfl, hc⟩
  | cons a as ih =>
    have hstep : isspace a = false → ∃ ch, (c :: a :: as)[1 + numberRest a as]? = some ch ∧
        isspace ch = false := fun ha => by
      rw [Nat.add_comm]
      exact ih ha a
    have hns : isspace a = true → Quiet a := fun h => quiet_of_isBreak (by simp [isBreak, h])
    rw [numberRest]
    split_ifs with h1 h2
    · refine hstep (Bool.eq_false_iff.mpr fun h => ?_)
      have hq := hns h
      simp [hq.alnum, hq.other] at h1
    · refine hstep (Bool.eq_false_iff.mpr fun h => ?_)
      have hq := hns h
      simp [hq.other] at h2
    · exact ⟨c, rfl, hc⟩

theorem isspace_of_ident {c : Char} (h : isIdentByte c = true) : isspace c = false := by
  refine Bool.eq_false_iff.mpr fun hs => ?_
  have hq := @quiet_of_isBreak c (by simp [isBreak, hs])
  simp [hq.ident] at h

/-- A closed block comment ends in a slash, and no other whole token ends in a blank. -/
theorem readFrom_last {d : Dialect} {c : Char} (hc : isspace c = false) {rest : Text} {st : Start}
    (h : (readFrom d c rest st).1.whole) :
    ∃ ch, (c :: rest)[(readFrom d c rest st).2 - 1]? = some ch ∧ isspace ch = false ∧
      ((readFrom d c rest st).1.kind = .comment → ch = '/') := by
  have hquoted : ∀ {kind : Tok} {close : Char} {backslash : Bool}, isspace close = false →
      kind ≠ .comment → (quotedToken kind close backslash rest).1.whole →
      ∃ ch, (c :: rest)[(quotedToken kind close backslash rest).2 - 1]? = some ch ∧
        isspace ch = false ∧ ((quotedToken kind close backslash rest).1.kind = .comment → ch = '/') := by
    intro kind close backslash hcl hk hw
    refine ⟨close, ?_, hcl, fun h => absurd h hk⟩
    rw [quotedToken, Nat.add_sub_cancel_left]
    exact scanQuoted_last close backslash rest hw.1 c
  cases st with
  | string => exact hquoted (by decide) (by decide) h
  | doubleQuote =>
    refine hquoted (by decide) ?_ h
    split_ifs <;> decide
  | backtick => exact hquoted (by decide) (by decide) h
  | bracket => exact hquoted (by decide) (by decide) h
  | lineComment => exact absurd h.2 (by simp [readFrom, lineCommentToken])
  | punct | op => exact ⟨c, rfl, hc, by simp [readFrom]⟩
  | number =>
    obtain ⟨ch, h1, h2⟩ := numberRest_last hc c rest
    refine ⟨ch, ?_, h2, by simp [readFrom]⟩
    rw [readFrom, Nat.add_sub_cancel_left]
    exact h1
  | word =>
    obtain ⟨ch, h1, h2⟩ := takeWhile_last hc (p := fun ch => isIdentByte ch || (d.hashIdent && ch = '#'))
      (fun ch hch => by
        rcases Bool.or_eq_true_iff.mp hch with h3 | h3
        · exact isspace_of_ident h3
        · rw [(Bool.and_eq_true_iff.mp h3).2 |> of_decide_eq_true]
          decide) rest
    refine ⟨ch, ?_, h2, by simp [readFrom]⟩
    rw [readFrom, Nat.add_sub_cancel_left]
    exact h1
  | param =>
    obtain ⟨ch, h1, h2⟩ := takeWhile_last hc (p := fun ch => ch = '@' || isIdentByte ch)
      (fun ch hch => by
        rcases Bool.or_eq_true_iff.mp hch with h3 | h3
        · rw [of_decide_eq_true h3]
          decide
        · exact isspace_of_ident h3) rest
    refine ⟨ch, ?_, h2, by simp [readFrom]⟩
    rw [readFrom, Nat.add_sub_cancel_left]
    exact h1
  | blockComment =>
    simp only [readFrom] at h ⊢
    unfold blockCommentToken at h ⊢
    split at h
    · rename_i e he
      have hget := find_getElem? (i := 1) he (by decide)
      rw [List.getElem?_drop] at hget
      refine ⟨'/', ?_, by decide, fun _ => rfl⟩
      rw [show 2 + e + 2 - 1 = 1 + (e + 1) + 1 by omega, List.getElem?_cons_succ]
      exact hget
    · exact absurd h.1 (by simp)
  | dollar =>
    simp only [readFrom] at h ⊢
    rw [dollarToken_eq] at h ⊢
    simp only at h ⊢
    split_ifs at h ⊢ with hd
    · split at h
      · rename_i e he
        have hget : (rest.drop ((rest.takeWhile isTagByte).length + 1))[e +
            ((rest.takeWhile isTagByte).length + 1)]? = some '$' := by
          rw [find_getElem? he (by simp)]
          simp
        rw [List.getElem?_drop] at hget
        refine ⟨'$', ?_, by decide, by simp⟩
        simp only [List.length_append, List.length_cons, List.length_nil]
        generalize (rest.takeWhile isTagByte).length = m at hget ⊢
        rw [show m + 1 + (0 + 1) + e + (m + 1 + (0 + 1)) - 1 = m + 1 + (e + (m + 1)) + 1 by omega,
          List.getElem?_cons_succ, hget]
      · exact absurd h.1 (by simp)
    · exact ⟨c, rfl, hc, by simp⟩

end Last

theorem isdigit_of_start {c : Char} (h : isIdentStartByte c = true) : isdigit c = false := by
  refine Bool.eq_false_iff.mpr fun hd => ?_
  simp only [isIdentStartByte, isalpha, Bool.or_eq_true, decide_eq_true_eq, Char.isAlpha,
    Char.isUpper, Char.isLower, UInt32.le_iff_toNat_le, Bool.and_eq_true] at h
  simp only [isdigit, Char.isDigit, UInt32.le_iff_toNat_le, Bool.and_eq_true,
    decide_eq_true_eq] at hd
  obtain ⟨h1, h2⟩ := hd
  rcases h with ((⟨h3, h4⟩ | ⟨h3, h4⟩) | rfl) | h3
  · simp at h1 h2 h3 h4
    omega
  · simp at h1 h2 h3 h4
    omega
  · exact absurd h2 (by decide)
  · have : c.toNat = c.val.toNat := rfl
    simp at h1 h2
    omega

theorem startOf_identStart {d : Dialect} {prev : Option Char} {c : Char}
    (h : isIdentStartByte c = true) (next : Char) :
    isspace c = false ∧ startOf d prev c next = .word := by
  have hne : ∀ x, isIdentStartByte x = false → c ≠ x := by
    rintro x hx rfl
    rw [h] at hx
    exact absurd hx (by decide)
  have hs : isspace c = false := by
    simp [isspace, hne ' ' (by decide), hne '\t' (by decide), hne '\n' (by decide),
      hne '\x0b' (by decide), hne '\x0c' (by decide), hne '\r' (by decide)]
  refine ⟨hs, ?_⟩
  simp [startOf, startsNumber, h, isdigit_of_start h, hne '-' (by decide), hne '#' (by decide),
    hne '/' (by decide), hne '\'' (by decide), hne '"' (by decide), hne '`' (by decide),
    hne '[' (by decide), hne '$' (by decide), hne '.' (by decide)]

/-- The scan at a token's first byte. -/
theorem token_scan {s : Text} {d : Dialect} {t : Token} (ht : t ∈ tokenize s d) :
    ∃ p c rest, s.drop t.start = c :: rest ∧ isspace c = false ∧
      readFrom d c rest (startOf d p c (rest.headD '\x00')) = (t.kind, t.stop - t.start) := by
  have h := scan_of_mem (bounded_scanToken d) ht
  rw [Nat.sub_zero] at h
  cases hd : s.drop t.start with
  | nil => simp [hd, scanToken] at h
  | cons c rest =>
    rw [hd, scanToken_eq_some] at h
    exact ⟨_, c, rest, rfl, h.1, h.2⟩

end DearSql
