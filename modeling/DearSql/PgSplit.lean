import DearSql.PgReading

/-! What one lexeme of the server is to the tokenizer, and from that a whole text: the same
semicolons, and no statement cut inside a lexeme. -/
namespace DearSql.Pg
open Lexing

section Step

variable {g : Glue} {prev : Option Char} {pos n : ℕ} {s : Text} {c : Char} {rest : Text}

/-- What the tokens `ts` of one lexeme are, with `reach` more bytes in the last of them. -/
structure Took (t : PgTok) (pos n : ℕ) (ts : List Token) (reach : ℕ) : Prop where
  semis : (ts.filter fun u => u.kind.isSemi).map Lexeme.start = if t = .semi then [pos] else []
  comment : t = .comment → ∃ u ∈ ts, u.kind.kind = .comment ∧ u.start = pos ∧ pos + n ≤ u.stop
  comments : ∀ u ∈ ts, u.kind.kind = .comment →
    (t = .comment ∧ u.start = pos ∧ u.stop = pos + n + reach) ∨
    (t ≠ .comment ∧ pos < u.start ∧
      ∃ v ∈ ts, v.kind.ordinary = true ∧ u.stop ≤ v.start ∧ v.start < pos + n)

/-- The tokenizer keeps up with the server over one lexeme. -/
def Step (g : Glue) (prev : Option Char) (pos : ℕ) (s : Text) (t : PgTok) (n : ℕ) : Prop :=
  ∃ ts, tokensFrom g prev pos s =
      ts ++ tokensFrom (g.after prev s t) (lastOf prev (s.take n)) (pos + n) (s.drop n) ∧
    Took t pos n ts ((g.after prev s t).skip (lastOf prev (s.take n)) (s.drop n))

theorem took_ordinary {t : PgTok} {ts : List Token} {reach : ℕ} (ht : t ≠ .semi ∧ t ≠ .comment)
    (hts : ∀ u ∈ ts, u.kind.ordinary = true) : Took t pos n ts reach where
  semis := by
    rw [if_neg ht.1, List.map_eq_nil_iff, List.filter_eq_nil_iff]
    exact fun u hu => by simp [(ordinary_iff.mp (hts u hu)).2]
  comment h := absurd h ht.2
  comments u hu hk := absurd hk (ordinary_iff.mp (hts u hu)).1

/-- The tokenizer goes over `n` bytes with tokens that are neither comments nor semicolons. -/
def Walks (g g' : Glue) (prev : Option Char) (pos : ℕ) (s : Text) (n : ℕ) : Prop :=
  ∃ ts : List Token, (∀ u ∈ ts, u.kind.ordinary = true) ∧
    tokensFrom g prev pos s = ts ++ tokensFrom g' (lastOf prev (s.take n)) (pos + n) (s.drop n)

theorem Walks.trans {g g' g'' : Glue} {k m : ℕ} (h : Walks g g' prev pos s k)
    (h' : Walks g' g'' (lastOf prev (s.take k)) (pos + k) (s.drop k) m) :
    Walks g g'' prev pos s (k + m) := by
  obtain ⟨ts, h1, h2⟩ := h
  obtain ⟨us, h3, h4⟩ := h'
  refine ⟨ts ++ us, fun u hu => (List.mem_append.mp hu).elim (h1 u) (h3 u), ?_⟩
  rw [h2, h4, List.append_assoc, List.take_add, lastOf_append, List.drop_drop, Nat.add_assoc]

theorem walks_inside (h : n ≤ g.skip prev s) : Walks g g prev pos s n :=
  ⟨[], by simp, tokensFrom_inside h⟩

theorem walks_enter {i : TokInfo} {g' : Glue} (hi : i.ordinary = true)
    (h0 : g.skip prev (c :: rest) = 0)
    (h : scanToken (dialectFor .POSTGRESQL) prev (c :: rest) = some (i, 1 + g'.skip (some c) rest)) :
    Walks g g' prev pos (c :: rest) 1 :=
  ⟨[⟨i, pos, pos + (1 + g'.skip (some c) rest)⟩], by simpa using hi, tokensFrom_enter h0 h⟩

theorem walks_whole {i : TokInfo} (hi : i.ordinary = true) (h0 : g.skip prev s = 0)
    (h : scanToken (dialectFor .POSTGRESQL) prev s = some (i, n)) :
    Walks g .free prev pos s n :=
  ⟨[⟨i, pos, pos + n⟩], by simpa using hi, tokensFrom_whole h0 h⟩

theorem walks_zero (h0 : g.skip prev s = 0) : Walks g .free prev pos s 0 := by
  refine ⟨[], by simp, ?_⟩
  rw [tokensFrom, h0]
  rfl

theorem Walks.step {t : PgTok} {g' : Glue} (ht : t ≠ .semi ∧ t ≠ .comment)
    (hafter : g.after prev s t = g') (h : Walks g g' prev pos s n) : Step g prev pos s t n := by
  obtain ⟨ts, h1, h2⟩ := h
  exact ⟨ts, by rw [hafter, h2], took_ordinary ht h1⟩

theorem skip_eq_zero (hg : g ≠ .comment) (hpar : g = .param → paramByte c = false)
    (hc : isalnum c = false ∧ c ≠ '_' ∧ c ≠ '.')
    (hsign : c = '+' ∨ c = '-' → isdigit (rest.headD '\x00') = false) :
    g.skip prev (c :: rest) = 0 := by
  cases g with
  | free => rfl
  | comment => exact absurd rfl hg
  | param => simp [Glue.skip, hpar rfl]
  | number =>
    rw [Glue.skip, numberRest, if_neg (by simp [hc]), if_neg]
    simp only [Bool.and_eq_true, Bool.or_eq_true, decide_eq_true_eq]
    rintro ⟨⟨h, -⟩, hd⟩
    rw [hsign h] at hd
    exact absurd hd (by decide)

theorem step_semi (hg : g ≠ .comment) : Step g prev pos (';' :: rest) .semi 1 := by
  have h0 : g.skip prev (';' :: rest) = 0 :=
    skip_eq_zero hg (fun _ => by decide) (by decide) (by simp)
  have hscan : scanToken (dialectFor .POSTGRESQL) prev (';' :: rest) =
      some ({ kind := .punct, text := [';'] }, 1) := by
    rw [scanToken_cons]
    rfl
  refine ⟨[⟨{ kind := .punct, text := [';'] }, pos, pos + 1⟩], by rw [tokensFrom_whole h0 hscan]; rfl,
    rfl, by simp, by simp⟩

theorem step_string (hg : g ≠ .comment) :
    Step g prev pos ('\'' :: rest) .literal (1 + quotedLen '\'' rest) := by
  have h0 : g.skip prev ('\'' :: rest) = 0 :=
    skip_eq_zero hg (fun _ => by decide) (by decide) (by simp)
  refine (walks_whole (i := (quotedToken .string '\'' false rest).1) ?_ h0 ?_).step (by simp) rfl
  · exact ordinary_iff.mpr ⟨by simp [quotedToken], rfl⟩
  · rw [scanToken_cons, quotedLen_eq]
    rfl

theorem step_ident (hg : g ≠ .comment) :
    Step g prev pos ('"' :: rest) .quotedIdent (1 + quotedLen '"' rest) := by
  have h0 : g.skip prev ('"' :: rest) = 0 :=
    skip_eq_zero hg (fun _ => by decide) (by decide) (by simp)
  refine (walks_whole (i := (quotedToken .quotedIdent '"' false rest).1) ?_ h0 ?_).step (by simp) rfl
  · exact ordinary_iff.mpr ⟨by simp [quotedToken], rfl⟩
  · rw [scanToken_cons, quotedLen_eq]
    rfl

theorem step_line (hg : g ≠ .comment) {body : Text} :
    Step g prev pos ('-' :: '-' :: body) .comment
      (1 + (('-' :: body).takeWhile fun ch => !isNewline ch).length) := by
  have hg' : g.after prev ('-' :: '-' :: body) .comment = .comment := rfl
  have h0 : g.skip prev ('-' :: '-' :: body) = 0 :=
    skip_eq_zero hg (fun _ => by decide) (by decide) (fun _ => rfl)
  have hscan : scanToken (dialectFor .POSTGRESQL) prev ('-' :: '-' :: body) =
      some ({ kind := .comment, lineComment := true },
        1 + Glue.comment.skip (some '-') ('-' :: body)) := by
    rw [scanToken_cons]
    simp [isspace, startOf, readFrom, lineCommentToken, Glue.skip, Nat.add_comm]
  have hle : (('-' :: body).takeWhile fun ch => !isNewline ch).length ≤
      Glue.comment.skip (some '-') ('-' :: body) :=
    takeWhile_length_mono (fun ch hch => by
      simp only [isNewline, Bool.not_eq_true', Bool.or_eq_false_iff] at hch
      simpa using hch.1) _
  generalize hm : (('-' :: body).takeWhile fun ch => !isNewline ch).length = m at hle ⊢
  refine ⟨[⟨{ kind := .comment, lineComment := true }, pos,
    pos + (1 + Glue.comment.skip (some '-') ('-' :: body))⟩], ?_, ?_⟩
  · rw [tokensFrom_enter h0 hscan, tokensFrom_inside hle, Nat.add_comm 1 m, List.take_succ_cons,
      List.drop_succ_cons, lastOf_cons, Nat.add_assoc pos 1 m, Nat.add_comm 1 m]
    rfl
  · have he := Nat.add_sub_cancel' hle
    have hreach := skip_drop (m := Glue.comment.skip (some '-') ('-' :: body) - m) he.symm
    rw [hg', Nat.add_comm 1 m, List.take_succ_cons, List.drop_succ_cons, lastOf_cons, hreach]
    refine ⟨rfl, fun _ => ⟨_, List.mem_singleton_self _, rfl, rfl, by simp only; omega⟩, ?_⟩
    exact fun u hu _ => .inl ⟨rfl, by rw [List.mem_singleton.mp hu],
      by rw [List.mem_singleton.mp hu]; simp only; omega⟩

theorem step_block (hg : g ≠ .comment) {body : Text} (h : blockLen 0 body = flatLen body) :
    Step g prev pos ('/' :: '*' :: body) .comment (2 + blockLen 0 body) := by
  have h0 : g.skip prev ('/' :: '*' :: body) = 0 :=
    skip_eq_zero hg (fun _ => by decide) (by decide) (by simp)
  have hscan : ∃ i : TokInfo, i.kind = .comment ∧
      scanToken (dialectFor .POSTGRESQL) prev ('/' :: '*' :: body) = some (i, 2 + flatLen body) := by
    have hread : scanToken (dialectFor .POSTGRESQL) prev ('/' :: '*' :: body) =
        some (blockCommentToken ('*' :: body)) := by
      rw [scanToken_cons]
      simp [isspace, startOf, readFrom]
    rw [hread, blockCommentToken, flatLen, List.drop_one, List.tail_cons]
    cases find "*/".toList body with
    | none => exact ⟨_, rfl, by simp only [Option.elim_none, List.length_cons]; congr 2; omega⟩
    | some e => exact ⟨_, rfl, by simp only [Option.elim_some]; rfl⟩
  obtain ⟨i, hi, hscan⟩ := hscan
  rw [h]
  refine ⟨[⟨i, pos, pos + (2 + flatLen body)⟩], by rw [tokensFrom_whole h0 hscan]; rfl, ?_⟩
  refine ⟨by simp [TokInfo.isSemi, hi],
    fun _ => ⟨_, List.mem_singleton_self _, hi, rfl, le_rfl⟩, ?_⟩
  exact fun u hu _ => .inl ⟨rfl, by rw [List.mem_singleton.mp hu], by rw [List.mem_singleton.mp hu]; rfl⟩

theorem wordTail_pg (rest : Text) : wordTail (dialectFor .POSTGRESQL) rest = rest.takeWhile isIdentByte := by
  simp [wordTail, dialectFor]

theorem scanToken_word (h : isIdentStartByte c = true) :
    scanToken (dialectFor .POSTGRESQL) prev (c :: rest) =
      some ({ kind := .word, text := c :: rest.takeWhile isIdentByte },
        1 + (rest.takeWhile isIdentByte).length) := by
  obtain ⟨hs, hst⟩ :=
    @startOf_identStart (dialectFor .POSTGRESQL) prev c h (rest.headD '\x00')
  rw [scanToken_eq_some, hst, readFrom, wordTail_pg]
  exact ⟨hs, rfl⟩

theorem step_escape (hg : g ≠ .comment) (hc : c = 'e' ∨ c = 'E') {body : Text}
    (ha : escapeAlike 0 body = true) :
    Step g prev pos (c :: '\'' :: body) .literal (2 + escapedLen 0 body) := by
  have hfront : Walks g .free prev pos (c :: '\'' :: body) 1 := by
    have hstart : isIdentStartByte c = true := by rcases hc with rfl | rfl <;> decide
    by_cases h0 : g.skip prev (c :: '\'' :: body) = 0
    · exact walks_whole rfl h0 (scanToken_word hstart)
    · exact (walks_inside (Nat.pos_of_ne_zero h0)).trans
        (walks_zero (skip_eq_zero hg (fun _ => by decide) (by decide) (by simp)))
  obtain ⟨ts, h1, h2⟩ := hfront
  obtain ⟨v, hv1, hv2, hv3⟩ := tokensFrom_quote (some c) (pos + 1) body
  obtain ⟨us, h3, h4, h5⟩ := @escapeRead (some '\'') (pos + 1 + 1) body ha
  have hvk : v.kind.ordinary = true := ordinary_iff.mpr (by simp [hv2, TokInfo.isSemi])
  refine ⟨ts ++ v :: us, ?_, ⟨?_, by simp, fun u hu hk => .inr ⟨by simp, ?_⟩⟩⟩
  · have htake : (c :: '\'' :: body).take (2 + escapedLen 0 body) =
        c :: '\'' :: body.take (escapedLen 0 body) := by
      rw [Nat.add_comm]
      rfl
    have hdrop : (c :: '\'' :: body).drop (2 + escapedLen 0 body) =
        body.drop (escapedLen 0 body) := by
      rw [Nat.add_comm]
      rfl
    have hpos : pos + 1 + 1 + escapedLen 0 body = pos + (2 + escapedLen 0 body) := by omega
    rw [List.take_succ_cons, List.take_zero, List.drop_succ_cons, List.drop_zero, lastOf_cons,
      lastOf_nil, hv3, h3] at h2
    rw [h2, htake, hdrop, hpos]
    simp [Glue.after]
  · simp only [List.filter_append, List.map_append, List.filter_cons, (ordinary_iff.mp hvk).2]
    rw [List.filter_eq_nil_iff.mpr fun u hu => by simp [(ordinary_iff.mp (h1 u hu)).2],
      List.filter_eq_nil_iff.mpr fun u hu => by simp [(h4 u hu).2]]
    rfl
  · rcases List.mem_append.mp hu with hu | hu
    · exact absurd hk (ordinary_iff.mp (h1 u hu)).1
    rcases List.mem_cons.mp hu with rfl | hu
    · exact absurd hk (ordinary_iff.mp hvk).1
    obtain ⟨w, hw, h6, h7, h8⟩ := h5 u hu hk
    have := (h4 u hu).1
    exact ⟨by omega, w, by simp [hw], h6, h7, by omega⟩

theorem step_dollar (hg : g ≠ .comment) (hpar : g ≠ .param) (h : dollarLen rest = some n) :
    Step g prev pos ('$' :: rest) .literal n := by
  have h0 : g.skip prev ('$' :: rest) = 0 :=
    skip_eq_zero hg (fun hp => absurd hp hpar) (by decide) (by simp)
  rw [dollarLen_eq] at h
  simp only at h
  split_ifs at h with hopen
  have hnext : rest.headD '\x00' = '$' ∨ isIdentStartByte (rest.headD '\x00') = true := by
    cases rest with
    | nil => simp at hopen
    | cons a r =>
      by_cases ha : isTagByte a = true
      · exact .inr (by simpa [ha] using hopen.1)
      · exact .inl (by simpa [ha] using hopen.2)
  have hscan : scanToken (dialectFor .POSTGRESQL) prev ('$' :: rest) = some (dollarToken rest) := by
    have hst : startOf (dialectFor .POSTGRESQL) prev '$' (rest.headD '\x00') = .dollar := by
      rcases hnext with h1 | h1 <;> simp only [startOf, h1] <;> simp [dialectFor]
    rw [scanToken_cons, hst]
    rfl
  rw [dollarToken_eq] at hscan
  simp only [if_pos hopen.2] at hscan
  cases hf : find ('$' :: rest.takeWhile isTagByte ++ ['$'])
      (rest.drop ((rest.takeWhile isTagByte).length + 1)) with
  | none =>
    rw [hf] at h hscan
    obtain rfl := Option.some_inj.mp h
    exact (walks_whole rfl h0 hscan).step (by simp) rfl
  | some e =>
    rw [hf] at h hscan
    obtain rfl := Option.some_inj.mp h
    exact (walks_whole rfl h0 hscan).step (by simp) rfl

theorem scanToken_number (h : startsNumber prev c (rest.headD '\x00') = true) :
    scanToken (dialectFor .POSTGRESQL) prev (c :: rest) =
      some ({ kind := .number }, 1 + Glue.number.skip (some c) rest) := by
  have hc : isdigit c = true ∨ c = '.' := by
    simp only [startsNumber, Bool.or_eq_true, Bool.and_eq_true, decide_eq_true_eq] at h
    exact h.imp_right fun h => h.1.1
  have hne : ∀ a : Char, isdigit a = false ∧ a ≠ '.' → c ≠ a := by
    rintro a ⟨h1, h2⟩ rfl
    simp [h1, h2] at hc
  have hst : startOf (dialectFor .POSTGRESQL) prev c (rest.headD '\x00') = .number := by
    simp only [startOf, h, if_true]
    simp [dialectFor, hne '-' (by decide), hne '/' (by decide), hne '\'' (by decide),
      hne '"' (by decide), hne '$' (by decide)]
  have hs : isspace c = false := by
    simp [isspace, hne ' ' (by decide), hne '\t' (by decide), hne '\n' (by decide),
      hne '\x0b' (by decide), hne '\x0c' (by decide), hne '\r' (by decide)]
  rw [scanToken_eq_some, hst]
  exact ⟨hs, rfl⟩

theorem scanToken_param (h : startsParam prev c (rest.headD '\x00') = true) :
    scanToken (dialectFor .POSTGRESQL) prev (c :: rest) =
      some ({ kind := .param }, 1 + Glue.param.skip (some c) rest) := by
  have hread : isspace c = false ∧
      startOf (dialectFor .POSTGRESQL) prev c (rest.headD '\x00') = .param := by
    generalize rest.headD '\x00' = next at h ⊢
    have hcolon : isIdentStartByte ':' = false ∧ isIdentStartByte '$' = false := by decide
    have hdigit : isdigit ':' = false ∧ isdigit '$' = false := by decide
    simp only [startsParam, Bool.or_eq_true, Bool.and_eq_true, decide_eq_true_eq] at h
    rcases h with ((rfl | rfl) | ⟨⟨rfl, h1⟩, h2⟩) | ⟨rfl, h1⟩
    · exact ⟨by decide, rfl⟩
    · exact ⟨by decide, rfl⟩
    · exact ⟨by decide, by simp [startOf, startsNumber, startsParam, hcolon, hdigit, h1, h2]⟩
    · have h2 : isIdentStartByte next = false := Bool.eq_false_iff.mpr fun h => by
        simp [isdigit_of_start h] at h1
      have h3 : next ≠ '$' := by
        rintro rfl
        exact absurd h1 (by decide)
      exact ⟨by decide, by simp [startOf, startsNumber, startsParam, hcolon, hdigit, h1, h2, h3]⟩
  rw [scanToken_eq_some, hread.2]
  exact ⟨hread.1, rfl⟩

theorem numberRest_ge (p : Char) (s : Text) :
    (s.takeWhile numberByte).length ≤ numberRest p s := by
  induction s generalizing p with
  | nil => simp
  | cons a as ih =>
    rw [List.takeWhile_cons]
    split_ifs with ha
    · have := ih a
      rw [numberByte] at ha
      rw [numberRest, if_pos (by simp [ha]), List.length_cons]
      omega
    · exact Nat.zero_le _

theorem digit_skip (p : Option Char) (hg : g ≠ .comment) (hfree : g ≠ .free) (s : Text) :
    (s.takeWhile isdigit).length ≤ g.skip p s := by
  cases g with
  | free => exact absurd rfl hfree
  | comment => exact absurd rfl hg
  | param =>
    exact takeWhile_length_mono (fun ch h => by simp [paramByte, isIdentByte, isalnum, h]) s
  | number =>
    exact (takeWhile_length_mono (fun ch h => by simp [numberByte, isalnum, h]) s).trans (numberRest_ge _ s)

theorem step_number (hg : g ≠ .comment) (hc : isdigit c = true) :
    Step g prev pos (c :: rest) .number (1 + (rest.takeWhile isdigit).length) := by
  have htake : ((c :: rest).takeWhile isdigit).length = 1 + (rest.takeWhile isdigit).length := by
    rw [List.takeWhile_cons, if_pos hc, List.length_cons, Nat.add_comm]
  by_cases hfree : g = .free
  · subst hfree
    have hst : startsNumber prev c (rest.headD '\x00') = true := by simp [startsNumber, hc]
    have hafter : Glue.free.after prev (c :: rest) .number = .number := by
      rw [Glue.after, Glue.afterByte, if_neg (by simp [Glue.skip])]
      simp [hc, startsNumber]
    exact ((walks_enter rfl rfl (scanToken_number hst)).trans
      (walks_inside (digit_skip _ (by simp) (by simp) rest))).step (by simp) hafter
  · have hle := digit_skip prev hg hfree (c :: rest)
    rw [htake] at hle
    refine (walks_inside hle).step (by simp) ?_
    rw [Glue.after, Glue.afterByte, if_pos (by omega)]

theorem dollarToken_op (h : dollarLen rest = none) (hnext : rest.headD '\x00' = '$' ∨
    isIdentStartByte (rest.headD '\x00') = true) :
    dollarToken rest = ({ kind := .op, text := ['$'] }, 1) := by
  rw [dollarLen_eq] at h
  simp only at h
  split_ifs at h with hopen
  rw [dollarToken_eq]
  simp only
  rw [if_neg]
  refine fun hd => hopen ⟨?_, hd⟩
  cases rest with
  | nil => rfl
  | cons a r =>
    rcases hnext with h1 | h1
    · have ha : isTagByte a = false := by simp [show a = '$' from h1, isTagByte]
      simp [ha]
    · by_cases ha : isTagByte a = true
      · simpa [ha] using h1
      · simp [ha]

/-- A byte that opens neither a literal nor a word. -/
theorem scanToken_byte (hs : isspace c = false) (h : Opens c rest .other 1)
    (hnum : startsNumber prev c (rest.headD '\x00') = false)
    (hpar : startsParam prev c (rest.headD '\x00') = false) :
    ∃ i : TokInfo, i.ordinary = true ∧
      scanToken (dialectFor .POSTGRESQL) prev (c :: rest) = some (i, 1) := by
  cases h with
  | other hsemi hw hq hl hb hd hn =>
    have hhead : ∀ a : Char, a ≠ '\x00' → (rest.headD '\x00' = a ↔ rest.head? = some a) := by
      intro a ha
      cases rest with
      | nil => simp [ha.symm]
      | cons b bs => simp
    have h1 : ¬(c = '-' ∧ rest.headD '\x00' = '-') := fun h => hl h.1 ((hhead _ (by decide)).mp h.2)
    have h2 : ¬(c = '/' ∧ rest.headD '\x00' = '*') := fun h => hb h.1 ((hhead _ (by decide)).mp h.2)
    by_cases hdol : c = '$' ∧ (rest.headD '\x00' = '$' ∨ isIdentStartByte (rest.headD '\x00') = true)
    · obtain ⟨rfl, hnext⟩ := hdol
      have hst : startOf (dialectFor .POSTGRESQL) prev '$' (rest.headD '\x00') = .dollar := by
        rcases hnext with h1 | h1 <;> simp only [startOf, h1] <;> simp [dialectFor]
      refine ⟨{ kind := .op, text := ['$'] }, rfl, ?_⟩
      rw [scanToken_eq_some, hst, readFrom, dollarToken_op (hd rfl) hnext]
      exact ⟨hs, rfl⟩
    · have hst : startOf (dialectFor .POSTGRESQL) prev c (rest.headD '\x00') =
          if isPunctByte c then .punct else .op := by
        generalize rest.headD '\x00' = next at *
        have h3 : (decide (c = '$') && (decide (next = '$') || isIdentStartByte next)) = false := by
          simpa using hdol
        simp [startOf, dialectFor, h1, h2, h3, hq, hnum, hpar, hw]
      refine ⟨(readFrom (dialectFor .POSTGRESQL) c rest (if isPunctByte c then .punct else .op)).1,
        ?_, ?_⟩
      · split_ifs <;> simp [readFrom, TokInfo.ordinary, TokInfo.isSemi, hsemi]
      · rw [scanToken_eq_some, hst]
        refine ⟨hs, ?_⟩
        split_ifs <;> rfl

theorem step_other (hs : isspace c = false) (h : Opens c rest .other 1) :
    Step g prev pos (c :: rest) .other 1 := by
  by_cases h0 : g.skip prev (c :: rest) = 0
  · have hafter : g.after prev (c :: rest) .other =
        if startsNumber prev c (rest.headD '\x00') then .number
        else if startsParam prev c (rest.headD '\x00') then .param
        else .free := by
      rw [Glue.after, Glue.afterByte, if_neg (by omega)]
    by_cases hnum : startsNumber prev c (rest.headD '\x00') = true
    · exact (walks_enter rfl h0 (scanToken_number hnum)).step (by simp) (by rw [hafter, if_pos hnum])
    by_cases hpar : startsParam prev c (rest.headD '\x00') = true
    · exact (walks_enter rfl h0 (scanToken_param hpar)).step (by simp)
        (by rw [hafter, if_neg hnum, if_pos hpar])
    obtain ⟨i, hi, hscan⟩ :=
      @scanToken_byte prev c rest hs h (by simpa using hnum) (by simpa using hpar)
    exact (walks_whole hi h0 hscan).step (by simp) (by rw [hafter, if_neg hnum, if_neg hpar])
  · refine (walks_inside (Nat.pos_of_ne_zero h0)).step (by simp) ?_
    rw [Glue.after, Glue.afterByte, if_pos (Nat.pos_of_ne_zero h0)]

theorem walks_word (hw : ∀ b ∈ rest.head?, isIdentByte b = true → isIdentStartByte b = true) :
    Walks .free .free prev pos rest (rest.takeWhile isIdentByte).length := by
  cases rest with
  | nil => exact walks_zero rfl
  | cons b bs =>
    rw [List.takeWhile_cons]
    split_ifs with hb
    · rw [List.length_cons, Nat.add_comm]
      exact walks_whole rfl rfl (scanToken_word (hw b rfl hb))
    · exact walks_zero rfl

/-- The rest of a word behind a number that swallowed its front. -/
theorem walks_tail {a : Char} {r : Text} (hp : numberByte a = false)
    (hi : isIdentByte a = true) (hd : a = '$' → dollarLen r = none) :
    Walks .number ((Glue.number).afterWord (a :: r)) prev pos (a :: r)
      (1 + (r.takeWhile isIdentByte).length) := by
  have htail : numberTail (a :: r) = a :: r := by simp [numberTail, hp]
  simp only [numberByte, Bool.or_eq_false_iff, decide_eq_false_iff_not] at hp
  have hdot : a ≠ '.' := by
    rintro rfl
    exact absurd hi (by decide)
  have hsign : ¬(a = '+' ∨ a = '-') := by
    rintro (rfl | rfl) <;> exact absurd hi (by decide)
  have h0 : Glue.number.skip prev (a :: r) = 0 :=
    skip_eq_zero (by simp) (by simp) ⟨hp.1, hp.2, hdot⟩ (fun h => absurd h hsign)
  by_cases hdol : a = '$'
  · subst hdol
    have hnone := hd rfl
    by_cases hdig : isdigit (r.headD '\x00') = true
    · have hafter : Glue.number.afterWord ('$' :: r) = .param := by
        simp only [Glue.afterWord, htail, if_true, hdig]
      have hpar : startsParam prev '$' (r.headD '\x00') = true := by simp only [startsParam, hdig]; simp
      rw [hafter]
      exact (walks_enter rfl h0 (scanToken_param hpar)).trans
        (walks_inside (takeWhile_length_mono (fun ch h => by simp [paramByte, h]) r))
    · have hafter : Glue.number.afterWord ('$' :: r) = .free := by
        simp only [Glue.afterWord, htail, if_true, if_neg hdig]
      have hnum : startsNumber prev '$' (r.headD '\x00') = false := by simp [startsNumber, isdigit]
      have hpar : startsParam prev '$' (r.headD '\x00') = false := by
        simp only [startsParam, hdig]
        simp
      obtain ⟨i, hi, hscan⟩ := scanToken_byte (by decide)
        (.other (by decide) (by decide) (by decide) (by simp) (by simp) hd (by decide)) hnum hpar
      rw [hafter]
      refine (walks_whole hi h0 hscan).trans (walks_word ?_)
      intro b hb hib
      cases r with
      | nil => simp at hb
      | cons b' bs =>
        obtain rfl : b' = b := by simpa using hb
        have hbd : b' ≠ '$' := by
          rintro rfl
          simp [dollarLen_eq, isTagByte] at hnone
        have hbn : isdigit b' = false := by simpa using hdig
        simpa [isIdentByte, isalnum, isIdentStartByte, hbd, hbn] using hib
  · have hstart : isIdentStartByte a = true := by
      simp only [isIdentByte, hp.1, decide_eq_false hp.2, decide_eq_false hdol, Bool.false_or] at hi
      simp [isIdentStartByte, hi]
    have hafter : Glue.number.afterWord (a :: r) = .free := by
      simp only [Glue.afterWord, htail, if_neg hdol, if_pos hi]
    rw [hafter]
    exact walks_whole rfl h0 (scanToken_word hstart)

theorem identByte_of_number (ch : Char) (h : numberByte ch = true) : isIdentByte ch = true := by
  simp only [numberByte, Bool.or_eq_true, decide_eq_true_eq] at h
  rcases h with h | h <;> simp [isIdentByte, h]

theorem drop_numberBytes (s : Text) : s.drop (s.takeWhile numberByte).length = numberTail s := by
  have h := congrArg (List.drop (s.takeWhile numberByte).length)
    (List.takeWhile_append_dropWhile (p := numberByte) (l := s))
  rw [List.drop_left] at h
  exact h.symm

theorem numberTail_head {a : Char} {r : Text} (h : numberTail s = a :: r) : numberByte a = false := by
  have hne : s.dropWhile numberByte ≠ [] := by
    rw [numberTail] at h
    simp [h]
  have := List.head_dropWhile_not numberByte hne
  rw [numberTail] at h
  simpa [h] using this

theorem step_word (hg : g ≠ .comment) (hw : isIdentStartByte c = true) {t : Text}
    (ha : alike g (c :: rest) (.word t) = true) :
    Step g prev pos (c :: rest) (.word t) (1 + (rest.takeWhile isIdentByte).length) := by
  have htake : ((c :: rest).takeWhile isIdentByte).length =
      1 + (rest.takeWhile isIdentByte).length := by
    rw [List.takeWhile_cons, if_pos (isIdentByte_of_start hw), List.length_cons, Nat.add_comm]
  cases g with
  | comment => exact absurd rfl hg
  | free => exact (walks_whole rfl rfl (scanToken_word hw)).step (by simp) rfl
  | param =>
    refine (walks_inside ?_).step (by simp) rfl
    rw [← htake]
    exact takeWhile_length_mono (fun ch h => by simp [paramByte, h]) _
  | number =>
    rw [← htake]
    generalize hs : c :: rest = s at ha ⊢
    -- the number swallows the word's front of letters, digits and underscores
    have hk : (s.takeWhile numberByte).length ≤ Glue.number.skip prev s := numberRest_ge _ s
    have hinside := @walks_inside .number prev pos _ s hk
    have hmono := takeWhile_length_mono identByte_of_number s
    have hlen := takeWhile_drop (Nat.add_sub_cancel' hmono).symm
    rw [drop_numberBytes] at hlen
    rw [← Nat.add_sub_cancel' hmono, ← hlen]
    have hafter : Glue.number.after prev s (.word t) = Glue.number.afterWord (numberTail s) := by
      simp only [Glue.after, Glue.afterWord, numberTail, List.dropWhile_idempotent]
    cases ht : numberTail s with
    | nil => exact hinside.step (by simp) (by rw [hafter, ht]; rfl)
    | cons a r =>
      rw [ht] at hafter
      have hp := numberTail_head ht
      by_cases hi : isIdentByte a = true
      · have htail : Walks .number (Glue.number.afterWord (a :: r))
            (lastOf prev (s.take (s.takeWhile numberByte).length))
            (pos + (s.takeWhile numberByte).length) (a :: r) (1 + (r.takeWhile isIdentByte).length) := by
          refine walks_tail hp hi fun hd => ?_
          subst hd
          simpa [alike, ht] using ha
        rw [List.takeWhile_cons, if_pos hi, List.length_cons, Nat.add_comm _ 1]
        rw [← ht, ← drop_numberBytes] at htail
        refine (hinside.trans htail).step (by simp) ?_
        rw [hafter, drop_numberBytes, ht]
      · rw [List.takeWhile_cons, if_neg hi]
        have hne : a ≠ '$' := by
          rintro rfl
          exact hi (by decide)
        refine hinside.step (by simp) ?_
        rw [hafter]
        simp [Glue.afterWord, numberTail, hp, hne, hi]

theorem lexeme_step {t : PgTok} (h : scanPg prev s = some (t, n)) (hg : g ≠ .comment)
    (ha : alike g s t = true) : Step g prev pos s t n := by
  cases s with
  | nil => simp [scanPg] at h
  | cons c rest =>
    obtain ⟨hs, hopen⟩ := scanPg_opens h
    cases hopen with
    | semi hc =>
      subst hc
      exact step_semi hg
    | escape hc body hr =>
      subst hr
      refine step_escape hg hc ?_
      rcases hc with rfl | rfl <;> simpa [alike] using ha
    | word hw => exact step_word hg hw ha
    | string hc =>
      subst hc
      exact step_string hg
    | ident hc =>
      subst hc
      exact step_ident hg
    | line hc body hr =>
      subst hc hr
      exact step_line hg
    | block hc body hr =>
      subst hc hr
      exact step_block hg (by simpa [alike] using ha)
    | dollar hc n hd =>
      subst hc
      exact step_dollar hg (by simpa [alike] using ha) hd
    | number hc => exact step_number hg hc
    | other h1 h2 h3 h4 h5 h6 h7 => exact step_other hs (.other h1 h2 h3 h4 h5 h6 h7)

end Step

section Run

variable {g : Glue} {prev : Option Char} {pos : ℕ} {s : Text}

theorem wellReadFrom_skip (g : Glue) (prev : Option Char) (k : ℕ) (s : Text) :
    wellReadFrom g prev k s = wellReadFrom g (lastOf prev (s.take k)) 0 (s.drop k) := by
  induction s generalizing prev k with
  | nil => cases k <;> simp [wellReadFrom]
  | cons c cs ih =>
    cases k with
    | zero => rfl
    | succ k =>
      rw [wellReadFrom, ih]
      rfl

theorem wellReadFrom_take {t : PgTok} {n : ℕ} (h : scanPg prev s = some (t, n)) :
    wellReadFrom g prev 0 s = (g ≠ .comment && alike g s t &&
      wellReadFrom (g.after prev s t) (lastOf prev (s.take n)) 0 (s.drop n)) := by
  obtain ⟨hpos, hle⟩ := bounded_scanPg _ _ _ _ h
  cases s with
  | nil => simp [scanPg] at h
  | cons c cs =>
    obtain ⟨m, rfl⟩ : ∃ m, n = m + 1 := ⟨n - 1, by omega⟩
    rw [wellReadFrom, h]
    simp only [Nat.add_sub_cancel]
    rw [wellReadFrom_skip _ _ m]
    rfl

theorem comment_skip_cons {c : Char} {cs : Text} :
    Glue.comment.skip prev (c :: cs) =
      if c = '\n' then 0 else 1 + Glue.comment.skip (some c) cs := by
  simp only [Glue.skip, List.takeWhile_cons]
  by_cases hc : c = '\n' <;> simp [hc, Nat.add_comm]

/-- While the tokenizer is in a line comment no lexeme starts. -/
theorem comment_skip_le (h : wellReadFrom .comment prev 0 s = true) :
    ∀ y ∈ lexFrom scanPg prev pos 0 s, pos + Glue.comment.skip prev s ≤ y.start := by
  induction s generalizing prev pos with
  | nil => simp [lexFrom_nil]
  | cons c cs ih =>
    cases hs : scanPg prev (c :: cs) with
    | some r => simp [wellReadFrom_take hs] at h
    | none =>
      rw [lexFrom_pass hs]
      rw [wellReadFrom, hs] at h
      intro y hy
      rw [comment_skip_cons]
      by_cases hc : c = '\n'
      · have := start_ge hy
        rw [if_pos hc]
        omega
      · simp only [hc, not_false_eq_true, ne_eq, and_self, if_true] at h
        have := ih h y hy
        rw [if_neg hc]
        omega

/-- The two lists of lexemes agree on their semicolons and on what is a comment. -/
structure InStep (ts : List Token) (xs : List (Lexeme PgTok)) : Prop where
  semis : (ts.filter fun u => u.kind.isSemi).map Lexeme.start = (xs.filter isSemi).map Lexeme.start
  commented : ∀ x ∈ xs, x.kind = .comment →
    ∃ u ∈ ts, u.kind.kind = .comment ∧ u.start = x.start ∧ x.stop ≤ u.stop
  comments : ∀ u ∈ ts, u.kind.kind = .comment → ∃ x ∈ xs,
    (x.kind = .comment ∧ u.start = x.start ∧ ∀ y ∈ xs, x.start < y.start → u.stop ≤ y.start) ∨
    (x.kind ≠ .comment ∧ x.start < u.start ∧
      ∃ v ∈ ts, v.kind.ordinary = true ∧ u.stop ≤ v.start ∧ v.start < x.stop)

theorem InStep.cons {t : PgTok} {n reach : ℕ} {ts us : List Token} {xs : List (Lexeme PgTok)}
    (hn : 0 < n) (h : Took t pos n ts reach) (h' : InStep us xs) (hxs : ∀ y ∈ xs, pos + n ≤ y.start)
    (hreach : t = .comment → ∀ y ∈ xs, pos + n + reach ≤ y.start) :
    InStep (ts ++ us) (⟨t, pos, pos + n⟩ :: xs) where
  semis := by
    rw [List.filter_append, List.map_append, h.semis, h'.semis, List.filter_cons]
    by_cases ht : t = .semi <;> simp [isSemi, ht]
  commented := by
    intro x hx hk
    rcases List.mem_cons.mp hx with rfl | hx
    · obtain ⟨u, hu, h1, h2, h3⟩ := h.comment hk
      exact ⟨u, by simp [hu], h1, h2, h3⟩
    · obtain ⟨u, hu, h1⟩ := h'.commented x hx hk
      exact ⟨u, by simp [hu], h1⟩
  comments := by
    intro u hu hk
    rcases List.mem_append.mp hu with hu | hu
    · refine ⟨_, List.mem_cons_self, ?_⟩
      rcases h.comments u hu hk with ⟨h1, h2, h3⟩ | ⟨h1, h2, v, hv, h3, h4, h5⟩
      · refine .inl ⟨h1, h2, fun y hy hlt => ?_⟩
        rcases List.mem_cons.mp hy with rfl | hy
        · exact absurd hlt (lt_irrefl _)
        · rw [h3]
          exact hreach h1 y hy
      · exact .inr ⟨h1, h2, v, by simp [hv], h3, h4, h5⟩
    · obtain ⟨x, hx, h1⟩ := h'.comments u hu hk
      refine ⟨x, by simp [hx], ?_⟩
      rcases h1 with ⟨h2, h3, h4⟩ | ⟨h2, h3, v, hv, h4⟩
      · refine .inl ⟨h2, h3, fun y hy hlt => ?_⟩
        rcases List.mem_cons.mp hy with rfl | hy
        · have := hxs x hx
          simp only at hlt
          omega
        · exact h4 y hy hlt
      · exact .inr ⟨h2, h3, v, by simp [hv], h4⟩

theorem tokensFrom_blank {c : Char} {cs : Text} (hc : isspace c = true) :
    tokensFrom g prev pos (c :: cs) =
      tokensFrom (if g = .comment ∧ c ≠ '\n' then g else .free) (some c) (pos + 1) cs := by
  by_cases hg : g = .comment ∧ c ≠ '\n'
  · obtain ⟨rfl, hn⟩ := hg
    rw [tokensFrom_inside (n := 1) (by rw [comment_skip_cons, if_neg hn]; omega)]
    simp [hn]
  · rw [if_neg hg]
    refine tokensFrom_pass ?_ hc
    by_cases hcom : g = .comment
    · have hn : c = '\n' := by simpa [hcom] using hg
      rw [hcom, comment_skip_cons, if_pos hn]
    · have hq := @quiet_of_isBreak c (by simp [isBreak, hc])
      obtain ⟨-, h1, -, h2, h3, h4, h5, -⟩ := hq.other
      exact skip_eq_zero hcom (fun _ => by simp [paramByte, h5, hq.ident]) ⟨hq.alnum, h3, h4⟩
        fun h => absurd h (by simp [h1, h2])

theorem inStep (h : wellReadFrom g prev 0 s = true) :
    InStep (tokensFrom g prev pos s) (lexFrom scanPg prev pos 0 s) := by
  induction prev, s using bounded_scanPg.induct generalizing g pos with
  | nil prev => exact ⟨by simp [tokensFrom, lexFrom_nil], by simp [lexFrom_nil], by simp [tokensFrom, lexFrom_nil]⟩
  | pass prev c cs hs ih =>
    have hc := scanPg_eq_none.mp hs
    rw [wellReadFrom, hs] at h
    rw [lexFrom_pass hs, tokensFrom_blank hc]
    exact ih h
  | take prev s t n hs hpos hle ih =>
    rw [wellReadFrom_take hs, Bool.and_eq_true, Bool.and_eq_true, decide_eq_true_eq] at h
    obtain ⟨⟨hg, ha⟩, hrest⟩ := h
    obtain ⟨ts, h1, h2⟩ := @lexeme_step g prev pos n s t hs hg ha
    rw [h1, lexFrom_step bounded_scanPg hs]
    refine InStep.cons hpos h2 (ih hrest) (fun y hy => start_ge hy) fun ht y hy => ?_
    subst ht
    by_cases hline : s.head? = some '-'
    · have hafter : g.after prev s .comment = .comment := by simp [Glue.after, hline]
      rw [hafter] at hrest ⊢
      exact comment_skip_le hrest y hy
    · have hafter : g.after prev s .comment = .free := by simp [Glue.after, hline]
      rw [hafter]
      exact start_ge hy

end Run
section Split

/-- A stretch holds a lexeme, or does not meet it. The blanks at the end of a lexeme may be trimmed
with those of the statement. -/
def Keeps (s : Text) (r : ℕ × ℕ) (x : Lexeme PgTok) : Prop :=
  (r.1 ≤ x.start ∧ ∀ i (hi : i < s.length), r.2 ≤ i → i < x.stop → isspace s[i] = true) ∨
    x.stop ≤ r.1 ∨ r.2 ≤ x.start

/-- The semicolons are the server's, and no statement is cut inside one of its lexemes. -/
structure SplitsLikeServer (s : Text) : Prop where
  semis : ((tokenize s (dialectFor .POSTGRESQL)).filter fun u => u.kind.isSemi).map Lexeme.start =
    ((lex scanPg s).filter isSemi).map Lexeme.start
  ranges : ∀ r ∈ statementRanges s .POSTGRESQL, ∀ x ∈ lex scanPg s, isSemi x = false → Keeps s r x
  rangeAt : ∀ o, ∀ x ∈ lex scanPg s, isSemi x = false →
    Keeps s (statementRangeAt s o .POSTGRESQL) x

variable {s : Text} {x y : Lexeme PgTok} {u : Token}

theorem lexemes_apart (hx : x ∈ lex scanPg s) (hy : y ∈ lex scanPg s) :
    x = y ∨ x.stop ≤ y.start ∨ y.stop ≤ x.start :=
  pairwise_cases (stop_le_start bounded_scanPg none 0 s) hx hy

theorem lexeme_first (hx : x ∈ lex scanPg s) :
    ∃ h : x.start < s.length, isspace s[x.start] = false := by
  obtain ⟨p, c, rest, n, hd, hscan⟩ := scan_at_start_lex hx
  have hlen := congrArg List.length hd
  rw [List.length_drop, List.length_cons] at hlen
  have hlt : x.start < s.length := by omega
  refine ⟨hlt, ?_⟩
  rw [List.drop_eq_getElem_cons hlt] at hd
  rw [(List.cons.inj hd).1]
  exact (scanPg_opens hscan).1

variable (h : InStep (tokenize s (dialectFor .POSTGRESQL)) (lex scanPg s))
include h

/-- A semicolon token is no part of another lexeme of the server. -/
theorem semi_outside (hu : u ∈ tokenize s (dialectFor .POSTGRESQL)) (hus : u.kind.isSemi = true)
    (hx : x ∈ lex scanPg s) (hxs : isSemi x = false) : u.stop ≤ x.start ∨ x.stop ≤ u.start := by
  have hmem : u.start ∈ ((lex scanPg s).filter isSemi).map Lexeme.start := by
    rw [← h.semis]
    exact List.mem_map_of_mem (List.mem_filter.mpr ⟨hu, hus⟩)
  obtain ⟨y, hy, hstart⟩ := List.mem_map.mp hmem
  obtain ⟨hy, hys⟩ := List.mem_filter.mp hy
  obtain ⟨-, hstop, -⟩ := semi_scan hu hus
  have hlt := start_lt_stop hy
  rcases lexemes_apart hx hy with rfl | h1 | h1
  · rw [hxs] at hys
    exact absurd hys (by decide)
  · omega
  · omega

/-- The first byte of a lexeme is in no comment of the tokenizer, unless the lexeme is one. -/
theorem first_ordinary (hx : x ∈ lex scanPg s) (hxs : isSemi x = false) (hk : x.kind ≠ .comment) :
    ∃ u ∈ tokenize s (dialectFor .POSTGRESQL), u.holds x.start ∧ u.kind.ordinary = true := by
  obtain ⟨hlt, hns⟩ := lexeme_first hx
  obtain ⟨u, ⟨hu, hold⟩, -⟩ := (tokenize_partitions s (dialectFor .POSTGRESQL)).once x.start hlt hns
  refine ⟨u, hu, hold, ordinary_iff.mpr ⟨fun hc => ?_, Bool.eq_false_iff.mpr fun hs => ?_⟩⟩
  · have h1 := hold.1
    have h2 := hold.2
    have h3 := start_lt_stop hx
    obtain ⟨y, hy, ⟨hyk, he, hlater⟩ | ⟨-, hlt', v, -, -, h4, h5⟩⟩ := h.comments u hu hc
    · have h6 := start_lt_stop hy
      rcases lexemes_apart hx hy with rfl | h7 | h7
      · exact hk hyk
      · omega
      · have := hlater x hx (by omega)
        omega
    · rcases lexemes_apart hx hy with rfl | h7 | h7 <;> omega
  · have h1 := hold.1
    have h2 := hold.2
    have h3 := start_lt_stop hx
    rcases semi_outside h hu hs hx hxs with h4 | h4 <;> omega

theorem keeps_range {r : ℕ × ℕ} (hr : r ∈ statementRanges s .POSTGRESQL) (hx : x ∈ lex scanPg s)
    (hxs : isSemi x = false) : Keeps s r x := by
  have hro := rangesOf_statements s .POSTGRESQL
  have hp := tokenize_partitions s (dialectFor .POSTGRESQL)
  obtain ⟨f, hf, hfo, hfe⟩ := hro.first r hr
  obtain ⟨l, hl, hlo, hle⟩ := hro.last r hr
  have hxlt := start_lt_stop hx
  refine or_iff_not_imp_right.mpr fun hmeet => ?_
  rw [not_or, Nat.not_le, Nat.not_le] at hmeet
  by_cases hk : x.kind = .comment
  · -- the whole comment is one token, and a range starts and ends at tokens of another kind
    obtain ⟨u, hu, huk, h1, h2⟩ := h.commented x hx hk
    have hne : ∀ t ∈ tokenize s (dialectFor .POSTGRESQL), t.kind.ordinary = true →
        t.stop ≤ u.start ∨ u.stop ≤ t.start := by
      intro t ht hto
      rcases tokens_apart ht hu with rfl | h3
      · exact absurd huk (ordinary_iff.mp hto).1
      · exact h3
    have hflt := start_lt_stop hf
    have hllt := start_lt_stop hl
    refine ⟨?_, fun i _ h3 h4 => ?_⟩
    · rcases hne f hf hfo with h3 | h3 <;> omega
    · rcases hne l hl hlo with h5 | h5 <;> omega
  · obtain ⟨u, hu, hold, huo⟩ := first_ordinary h hx hxs hk
    obtain ⟨ru, hru, h1, h2⟩ := hro.covers u hu huo
    have hold1 := hold.1
    have hold2 := hold.2
    have hu1 := start_lt_stop hu
    -- a semicolon between two ranges is none inside the lexeme
    have hsame : r = ru := by
      rcases pairwise_cases hro.apart hr hru with h3 | ⟨w, hw, hws, h3, h4⟩ | ⟨w, hw, hws, h3, h4⟩
      · exact h3
      · have := start_lt_stop hw
        omega
      · have := start_lt_stop hw
        rcases semi_outside h hw hws hx hxs with h5 | h5 <;> omega
    subst hsame
    have hnone : ∀ t ∈ tokenize s (dialectFor .POSTGRESQL), t.kind.ordinary = true →
        ∀ j, t.holds j → r.2 ≤ j → j < x.stop → False := by
      rintro t ht hto j ⟨h3, h4⟩ h5 h6
      obtain ⟨rt, hrt, h7, h8⟩ := hro.covers t ht hto
      rcases pairwise_cases hro.apart hr hrt with rfl | ⟨w, hw, hws, h9, h10⟩ | ⟨w, hw, hws, h9, h10⟩
      · omega
      · have := start_lt_stop hw
        rcases semi_outside h hw hws hx hxs with h11 | h11 <;> omega
      · have := start_lt_stop hw
        have := hro.nonempty r hr
        omega
    refine ⟨h1.trans hold1, fun i hi h3 h4 => ?_⟩
    rcases byte_cases (dialectFor .POSTGRESQL) hi with hb | ⟨w, hw, hwold⟩
    · exact hb
    exfalso
    have h5 := hwold.1
    have h6 := hwold.2
    by_cases hws : w.kind.isSemi = true
    · rcases semi_outside h hw hws hx hxs with h7 | h7 <;> omega
    by_cases hwk : w.kind.kind = .comment
    · obtain ⟨y, hy, ⟨hyk, he, hlater⟩ | ⟨-, hlt', v, hv, hvo, h7, h8⟩⟩ := h.comments w hw hwk
      · have := start_lt_stop hy
        rcases lexemes_apart hx hy with rfl | h9 | h9
        · exact hk hyk
        · omega
        · have := hlater x hx (by omega)
          omega
      · have := start_lt_stop hv
        rcases lexemes_apart hx hy with rfl | h9 | h9
        · exact hnone v hv hvo v.start ⟨le_rfl, this⟩ (by omega) h8
        · omega
        · omega
    · exact hnone w hw (ordinary_iff.mpr ⟨hwk, by simpa using hws⟩) i hwold h3 h4

/-- The stretch under a cursor lies between two semicolons, and its bounds are trimmed. -/
theorem keeps_rangeAt (o : ℕ) (hx : x ∈ lex scanPg s) (hxs : isSemi x = false) :
    Keeps s (statementRangeAt s o .POSTGRESQL) x := by
  have hsp := spanOf_spanAt s .POSTGRESQL o
  have htr := trims_statementRangeAt s .POSTGRESQL o
  obtain ⟨hlt, hns⟩ := lexeme_first hx
  have h1 := htr.start_ge
  have h2 := htr.stop_le
  have h3 := start_lt_stop hx
  have hxle : x.stop ≤ s.length := by simpa using stop_le bounded_scanPg hx
  by_cases hbefore : x.start < (spanAt s .POSTGRESQL o).start
  · refine .inr (.inl ?_)
    rcases hsp.start with h4 | ⟨t, ht, hts, h4, -⟩
    · omega
    · have := start_lt_stop ht
      rcases semi_outside h ht hts hx hxs with h5 | h5 <;> omega
  by_cases hafter : (spanAt s .POSTGRESQL o).stop ≤ x.start
  · exact .inr (.inr (h2.trans hafter))
  have hin : x.stop ≤ (spanAt s .POSTGRESQL o).stop := by
    rcases hsp.stop with h4 | ⟨t, ht, hts, h4, -⟩
    · omega
    · rcases semi_outside h ht hts hx hxs with h5 | h5
      · have := start_lt_stop ht
        omega
      · omega
  have hkeep := htr.keeps x.start hlt (by omega) (by omega) hns
  refine .inl ⟨hkeep.1, fun i hi h4 h5 => ?_⟩
  by_contra hnb
  have := htr.keeps i hi (by omega) (by omega) (by simpa using hnb)
  omega

omit h

/-- A text in which the tokenizer takes each lexeme of the server as the server does is split as
the server splits it. -/
theorem wellRead_splits (s : Text) (h : WellRead s) : SplitsLikeServer s := by
  have hstep : InStep (tokenize s (dialectFor .POSTGRESQL)) (lex scanPg s) := inStep h
  exact ⟨hstep.semis, fun r hr x hx hxs => keeps_range hstep hr hx hxs,
    fun o x hx hxs => keeps_rangeAt hstep o hx hxs⟩

theorem wellRead_splits_escape : SplitsLikeServer "SELECT E'\\n;' ; -- ;".toList :=
  wellRead_splits _ (by decide)

/-- The server reads one literal up to the last quote; the tokenizer ends it at the quote behind
the backslash and finds a semicolon. -/
theorem escaped_quote_splits : ¬SplitsLikeServer "SELECT E'\\'; DELETE FROM t --'".toList := by
  intro h
  have hsemis := h.semis
  have h1 : ((tokenize "SELECT E'\\'; DELETE FROM t --'".toList (dialectFor .POSTGRESQL)).filter
      fun u => u.kind.isSemi).map Lexeme.start = [11] := by decide
  have h2 : ((lex scanPg "SELECT E'\\'; DELETE FROM t --'".toList).filter isSemi).map Lexeme.start =
      [] := by decide
  rw [h1, h2] at hsemis
  exact absurd hsemis (by decide)

end Split
end DearSql.Pg
