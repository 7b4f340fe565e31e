import DearSql.ReplaceRange
import DearSql.SameView
import DearSql.Quoting

/-! A name that goes in behind a dot: the tokens in front of it are read as before, and the name is
the next token of the statement. -/
namespace DearSql
open Lexing Loops

section Seam

variable {d : Dialect} {prev : Option Char} {m p v v' : Text} {t : TokInfo} {n : ℕ}

/-- A token that ends the same before any name: a dot, or a comment with an end of its own. -/
def TokInfo.Sealed (t : TokInfo) : Prop := t = dotInfo ∨ t.kind = .comment ∧ t.whole

theorem startOf_blockComment {c next : Char} (h : startOf d prev c next = .blockComment) :
    c = '/' ∧ next = '*' := by
  by_contra hno
  have hfalse : (decide (c = '/') && decide (next = '*')) = false := by simpa using hno
  simp only [startOf, hfalse, Bool.false_eq_true, if_false] at h
  repeat' split at h
  all_goals cases h

theorem readFrom_comment {c : Char} {rest : Text} {st : Start}
    (h : (readFrom d c rest st).1.kind = .comment) (hw : (readFrom d c rest st).1.whole) :
    st = .blockComment ∧ 4 ≤ (readFrom d c rest st).2 := by
  cases st with
  | lineComment => exact absurd hw.2 (by simp [readFrom, lineCommentToken])
  | blockComment =>
    refine ⟨rfl, ?_⟩
    simp only [readFrom, blockCommentToken] at hw ⊢
    split at hw
    · simp only
      omega
    · exact absurd hw.1 (by simp)
  | string | backtick | bracket => simp [readFrom, quotedToken] at h
  | doubleQuote =>
    simp only [readFrom, quotedToken] at h
    split_ifs at h
  | number | word | param | punct | op => simp [readFrom] at h
  | dollar =>
    simp only [readFrom, dollarToken_eq] at h
    split_ifs at h
    split at h <;> simp at h

/-- A sealed token is the same before any text that does not start with a digit. -/
theorem scan_sealed (h : scanToken d prev (m ++ v) = some (t, m.length)) (ht : t.Sealed)
    (hm : m ≠ []) (hv : isdigit (v'.headD '\x00') = false) :
    (∃ z ms, m = z :: ms ∧ Ends z) ∧ scanToken d prev (m ++ v') = some (t, m.length) := by
  cases m with
  | nil => exact absurd rfl hm
  | cons z ms =>
    rw [List.cons_append] at h ⊢
    obtain ⟨hz, hread⟩ := scanToken_eq_some.mp h
    rcases ht with rfl | ⟨hk, hw⟩
    · have hst := readFrom_punct (congrArg (fun r => r.1.kind) hread)
      rw [hst] at hread
      obtain ⟨htok, hlen⟩ := Prod.mk.inj hread
      obtain rfl : ms = [] := List.length_eq_zero_iff.mp (by simpa using hlen.symm)
      obtain rfl : z = '.' := by simpa [dotInfo] using htok
      exact ⟨⟨'.', [], rfl, by decide, by decide, by decide⟩, scan_dot hv⟩
    · have hcomment := readFrom_comment ((congrArg (fun r => r.1.kind) hread).trans hk)
        (by rw [hread]; exact hw)
      obtain ⟨hst, hlen⟩ := hcomment
      obtain ⟨rfl, -⟩ := startOf_blockComment hst
      rw [hread, List.length_cons] at hlen
      rw [hst] at hread
      refine ⟨⟨'/', ms, rfl, by decide, by decide, by decide⟩, scanToken_eq_some.mpr ⟨hz, ?_⟩⟩
      have hsame : (ms ++ v').headD '\x00' = (ms ++ v).headD '\x00' := by
        cases ms with
        | nil => simp at hlen
        | cons => rfl
      rw [hsame, hst]
      exact blockCommentToken_swap hread (by rw [List.length_cons]; omega) hw.1

/-- The tokens of `v` behind the text `p`. -/
def tokensBehind (p v : Text) (d : Dialect) : List Token :=
  lexFrom (scanToken d) (lastOf none p) p.length 0 v

theorem tokensBehind_start {x : Token} (hx : x ∈ tokensBehind p v d) : p.length ≤ x.start :=
  start_ge hx

theorem tokensBehind_step (h : scanToken d (lastOf none p) (m ++ v) = some (t, m.length)) :
    tokensBehind p (m ++ v) d =
      ⟨t, p.length, p.length + m.length⟩ :: tokensBehind (p ++ m) v d := by
  rw [tokensBehind, lexFrom_step (bounded_scanToken d) h, List.take_left, List.drop_left,
    tokensBehind, lastOf_append, List.length_append]

theorem tokensBehind_blank {z : Char} (h : isspace z = true) :
    tokensBehind p (z :: v) d = tokensBehind (p ++ [z]) v d := by
  rw [tokensBehind, lexFrom_pass (scanToken_eq_none.mpr h), tokensBehind, lastOf_append,
    List.length_append]
  rfl

/-- The tokens fall apart at a place that none of them goes over. -/
theorem tokens_apart_at
    (hseam : ∀ x ∈ tokenize (p ++ v) d, x.stop ≤ p.length ∨ p.length ≤ x.start) :
    ∃ xs, (∀ x ∈ xs, x.stop ≤ p.length) ∧ tokenize (p ++ v) d = xs ++ tokensBehind p v d := by
  have hat : SeamAt (fun _ => True) (0 + p.length)
      (lexFrom (scanToken d) none 0 0 (p ++ v)) := by
    rw [Nat.zero_add]
    exact fun x hx => ⟨hseam x hx, fun _ => trivial⟩
  obtain ⟨xs, hxs, h, -⟩ := lexFrom_swap (bounded_scanToken d) (Swap.refl _ v) hat
  rw [Nat.zero_add] at hxs h
  exact ⟨xs, hxs, h⟩

/-- Where the text in front of a place ends in a piece that is read the same before `v` and `v'`,
all of it is. -/
theorem tokens_piece {front : Text} {c : Char} {ms : Text} (hc : Ends c)
    (hseam : ∀ x ∈ tokenize (front ++ c :: ms ++ v) d,
      x.stop ≤ front.length ∨ front.length ≤ x.start) (ys : List Token)
    (hpiece : ∀ w ∈ [v, v'],
      tokensBehind front (c :: ms ++ w) d = ys ++ tokensBehind (front ++ c :: ms) w d) :
    ∃ xs, tokenize (front ++ c :: ms ++ v) d = xs ++ tokensBehind (front ++ c :: ms) v d ∧
      tokenize (front ++ c :: ms ++ v') d = xs ++ tokensBehind (front ++ c :: ms) v' d := by
  have hat : SeamAt (fun _ => True) (0 + front.length)
      (lexFrom (scanToken d) none 0 0 (front ++ c :: (ms ++ v))) := by
    rw [Nat.zero_add]
    exact fun x hx => ⟨hseam x (by rwa [List.append_assoc]), fun _ => trivial⟩
  obtain ⟨xs, -, h, h'⟩ :=
    lexFrom_swap (bounded_scanToken d) (swap_same d hc (ms ++ v) (ms ++ v')) hat
  rw [Nat.zero_add] at h h'
  have hv := hpiece v (by simp)
  have hv' := hpiece v' (by simp)
  refine ⟨xs ++ ys, ?_, ?_⟩
  · rw [List.append_assoc, List.append_assoc, ← hv]
    exact h
  · rw [List.append_assoc, List.append_assoc, ← hv']
    exact h'

theorem TokInfo.Sealed.whole (h : t.Sealed) : t.whole := by
  rcases h with rfl | ⟨-, h⟩
  · exact ⟨rfl, rfl⟩
  · exact h

/-- The text in front of a place ends in a blank, which no sealed token does. -/
theorem tokens_blank {q : Text} {z : Char} (hz : isspace z = true)
    (hseam : ∀ x ∈ tokenize (q ++ [z] ++ v) d, x.stop ≤ q.length + 1 ∨ q.length + 1 ≤ x.start)
    (hsealed : ∀ x ∈ tokenize (q ++ [z] ++ v) d, x.stop = q.length + 1 → x.kind.Sealed) :
    ∃ xs, tokenize (q ++ [z] ++ v) d = xs ++ tokensBehind (q ++ [z]) v d ∧
      tokenize (q ++ [z] ++ v') d = xs ++ tokensBehind (q ++ [z]) v' d := by
  have hq := @quiet_of_isBreak z (by simp [isBreak, hz])
  refine @tokens_piece d v v' q z [] ⟨hq.ident, hq.other.2.2.2.1, hq.other.2.1⟩
    (fun x hx => ?_) [] fun w _ => tokensBehind_blank hz
  rcases hseam x hx with hle | hle
  · refine .inl ?_
    by_contra hgt
    have hstop : x.stop = q.length + 1 := by omega
    obtain ⟨hb, hns, -⟩ := token_last hx (hsealed x hx hstop).whole
    have hlt : q.length < (q ++ [z] ++ v).length := by simp
    have hget : (q ++ [z] ++ v)[q.length] = z := by simp
    simp only [hstop, Nat.add_sub_cancel, hget, hz] at hns
    exact absurd hns (by decide)
  · exact .inr (by omega)

/-- The text in front of a place ends in a sealed token. -/
theorem tokens_sealed {front : Text} {x : Token} (hx : x ∈ tokenize (front ++ m ++ v) d)
    (hstart : x.start = front.length) (hstop : x.stop = front.length + m.length)
    (hsealed : x.kind.Sealed) (hv : isdigit (v'.headD '\x00') = false) :
    ∃ xs, tokenize (front ++ m ++ v) d = xs ++ tokensBehind (front ++ m) v d ∧
      tokenize (front ++ m ++ v') d = xs ++ tokensBehind (front ++ m) v' d := by
  have hlt := start_lt_stop hx
  have hscan : scanToken d (lastOf none front) (m ++ v) = some (x.kind, m.length) := by
    have h := scan_of_mem (bounded_scanToken d) hx
    rwa [Nat.sub_zero, hstart, hstop, List.append_assoc, List.take_left, List.drop_left,
      Nat.add_sub_cancel_left] at h
  obtain ⟨⟨c, ms, rfl, hc⟩, hscan'⟩ := scan_sealed hscan hsealed
    (fun h => by rw [h, List.length_nil] at hstop; omega) hv
  refine @tokens_piece d v v' front c ms hc (fun y hy => ?_)
    [⟨x.kind, front.length, front.length + (c :: ms).length⟩] fun w hw => ?_
  · rcases tokens_apart hy hx with rfl | h | h
    · exact .inr hstart.ge
    · exact .inl (by omega)
    · have := start_lt_stop hy
      exact .inr (by omega)
  · rcases List.mem_pair.mp hw with rfl | rfl
    · exact tokensBehind_step hscan
    · exact tokensBehind_step hscan'

/-- What the tokens in front of a place are does not depend on the text behind it, where the last
one of them is sealed and no number goes on there. -/
theorem tokens_front
    (hseam : ∀ x ∈ tokenize (p ++ v) d, x.stop ≤ p.length ∨ p.length ≤ x.start)
    (hsealed : ∀ x ∈ tokenize (p ++ v) d, x.stop = p.length → x.kind.Sealed)
    (hv : isdigit (v'.headD '\x00') = false) :
    ∃ xs, tokenize (p ++ v) d = xs ++ tokensBehind p v d ∧
      tokenize (p ++ v') d = xs ++ tokensBehind p v' d := by
  rcases List.eq_nil_or_concat p with rfl | ⟨q, z, rfl⟩
  · exact ⟨[], rfl, rfl⟩
  rw [List.concat_eq_append] at hseam hsealed ⊢
  have hlen : (q ++ [z]).length = q.length + 1 := by simp
  have hlt : q.length < (q ++ [z] ++ v).length := by simp
  have hget : (q ++ [z] ++ v)[q.length] = z := by simp
  rcases byte_cases d hlt with hblank | ⟨x, hx, hstart, hstop⟩
  · rw [hget] at hblank
    exact tokens_blank hblank (hlen ▸ hseam) (hlen ▸ hsealed)
  · have hend : x.stop = (q ++ [z]).length := by
      rcases hseam x hx with h | h <;> omega
    have hfront : ((q ++ [z]).take x.start).length = x.start := by
      rw [List.length_take]
      omega
    have hwhole := congrArg List.length (List.take_append_drop x.start (q ++ [z]))
    rw [List.length_append, hfront] at hwhole
    have hsealed := hsealed x hx hend
    rw [← List.take_append_drop x.start (q ++ [z])] at hx ⊢
    exact tokens_sealed hx hfront.symm (by rw [hfront, hwhole, hend]) hsealed hv

end Seam

section Segments

variable {offset o' : ℕ} {acc xs ys : List Token}

def notSemi (t : Token) : Bool := !t.kind.isSemi

theorem segmentFrom_append (hxs : ∀ t ∈ xs, t.stop ≤ offset) :
    segmentFrom offset acc (xs ++ ys) = segmentFrom offset (segmentFrom offset acc xs) ys := by
  induction xs generalizing acc with
  | nil => rfl
  | cons t xs ih =>
    obtain ⟨ht, hxs⟩ := List.forall_mem_cons.mp hxs
    rw [List.cons_append, segmentFrom, segmentFrom, if_pos ht]
    split_ifs
    · exact ih hxs
    · exact ih hxs

theorem segmentFrom_congr (hxs : ∀ t ∈ xs, t.stop ≤ offset) (hle : offset ≤ o') :
    segmentFrom o' acc xs = segmentFrom offset acc xs := by
  induction xs generalizing acc with
  | nil => rfl
  | cons t xs ih =>
    obtain ⟨ht, hxs⟩ := List.forall_mem_cons.mp hxs
    rw [segmentFrom, segmentFrom, if_pos ht, if_pos (ht.trans hle)]
    split_ifs
    · exact ih hxs
    · exact ih hxs

theorem segmentFrom_behind (hys : ∀ t ∈ ys, t.kind.isSemi = true → offset < t.stop) :
    segmentFrom offset acc ys = acc ++ ys.takeWhile notSemi := by
  induction ys generalizing acc with
  | nil => simp [segmentFrom]
  | cons t ys ih =>
    obtain ⟨ht, hys⟩ := List.forall_mem_cons.mp hys
    rw [segmentFrom, List.takeWhile_cons, notSemi]
    by_cases hsemi : t.kind.isSemi = true
    · rw [if_pos hsemi, if_neg (Nat.not_le.mpr (ht hsemi)), hsemi]
      simp
    · rw [if_neg hsemi, ih hys, Bool.eq_false_iff.mpr hsemi]
      simp

theorem mem_segmentFrom {t : Token} (ht : t ∈ segmentFrom offset acc xs) : t ∈ acc ∨ t ∈ xs := by
  induction xs generalizing acc with
  | nil => exact .inl ht
  | cons u xs ih =>
    rw [segmentFrom] at ht
    split_ifs at ht
    · exact .inr (List.mem_cons_of_mem _ ((ih ht).resolve_left (by simp)))
    · exact .inl ht
    · rcases ih ht with h | h
      · rcases List.mem_append.mp h with h | h
        · exact .inl h
        · exact .inr (by rw [List.mem_singleton.mp h]; exact List.mem_cons_self)
      · exact .inr (List.mem_cons_of_mem _ h)

end Segments
section Typing

variable {sql : Text} {cursor i : ℕ} {type : DatabaseType} {toks ts us : List Token}

/-- The loop stops at the token that is typed, or else at the first one from the cursor on. -/
theorem typedFrom_stops (toks : List Token) (i : ℕ) :
    ∃ ts us, toks = ts ++ us ∧ (typedFrom sql cursor i toks).cur = i + ts.length ∧
      (∀ t ∈ ts, t.start < cursor ∧ ¬TypedAt cursor t) ∧
      (((typedFrom sql cursor i toks).replaceStart = cursor ∧
          (typedFrom sql cursor i toks).replaceEnd = cursor ∧ ∀ t ∈ us.head?, cursor ≤ t.start) ∨
        ∃ t ∈ us.head?, TypedAt cursor t ∧ (typedFrom sql cursor i toks).replaceStart = t.start ∧
          (typedFrom sql cursor i toks).replaceEnd = t.stop) := by
  induction toks generalizing i with
  | nil => exact ⟨[], [], rfl, rfl, by simp, .inl ⟨rfl, rfl, by simp⟩⟩
  | cons t toks ih =>
    rw [typedFrom]
    split_ifs with hstart hword hquoted
    · exact ⟨[], t :: toks, rfl, rfl, by simp, .inl ⟨rfl, rfl, by simpa using hstart⟩⟩
    · exact ⟨[], t :: toks, rfl, rfl, by simp,
        .inr ⟨t, rfl, ⟨by omega, .inl hword⟩, rfl, rfl⟩⟩
    · exact ⟨[], t :: toks, rfl, rfl, by simp,
        .inr ⟨t, rfl, ⟨by omega, .inr ⟨hquoted.1, hquoted.2.symm⟩⟩, rfl, rfl⟩⟩
    · obtain ⟨ts, us, rfl, hcur, hts, hrest⟩ := ih (i + 1)
      refine ⟨t :: ts, us, rfl, by rw [hcur, List.length_cons]; omega, ?_, hrest⟩
      refine List.forall_mem_cons.mpr ⟨⟨by omega, fun h => ?_⟩, hts⟩
      obtain ⟨-, h | ⟨hk, h⟩⟩ := h
      · exact hword h
      · exact hquoted ⟨hk, h.symm⟩

end Typing

section Place

variable {sql : Text} {d : Dialect} {cursor : ℕ} {x : Token}

theorem stop_of_byte (hx : x ∈ tokenize sql d) (hk : x.kind.kind = .punct ∨ x.kind.kind = .op) :
    x.stop = x.start + 1 := by
  obtain ⟨p, c, rest, -, -, hread⟩ := token_scan hx
  have hlt := start_lt_stop hx
  have hk : (readFrom d c rest (startOf d p c (rest.headD '\x00'))).1.kind = .punct ∨
      (readFrom d c rest (startOf d p c (rest.headD '\x00'))).1.kind = .op := by
    rw [hread]
    exact hk
  have hone : (readFrom d c rest (startOf d p c (rest.headD '\x00'))).2 = 1 := by
    cases hst : startOf d p c (rest.headD '\x00') with
    | punct | op => rfl
    | dollar =>
      rw [hst] at hk
      simp only [readFrom, dollarToken_eq] at hk ⊢
      split_ifs at hk ⊢
      · split at hk <;> simp at hk
      · rfl
    | doubleQuote =>
      rw [hst] at hk
      simp only [readFrom, quotedToken] at hk
      split_ifs at hk <;> simp at hk
    | blockComment =>
      rw [hst] at hk
      simp only [readFrom, blockCommentToken] at hk
      split at hk <;> simp at hk
    | lineComment | string | backtick | bracket | number | word | param =>
      rw [hst] at hk
      simp [readFrom, quotedToken, lineCommentToken] at hk
  rw [hread] at hone
  simp only at hone
  omega

/-- The tokens of a text but for its comments, in order. -/
theorem apart_filter (sql : Text) (d : Dialect) :
    ((tokenize sql d).filter notComment).Pairwise fun t u => t.stop ≤ u.start :=
  (tokenize_partitions sql d).disjoint.sublist List.filter_sublist

/-- A token around a place belongs to the statement there. -/
theorem mem_statementTokens (hx : x ∈ tokenize sql d) (hk : x.kind.kind ≠ .comment)
    (hsemi : x.kind.isSemi = false) (hstart : x.start < cursor) (hstop : cursor < x.stop) :
    x ∈ statementTokens (tokenize sql d) cursor sql.length := by
  have hmem : x ∈ (tokenize sql d).filter notComment :=
    List.mem_filter.mpr ⟨hx, by simpa [notComment] using hk⟩
  obtain ⟨before, after, hall⟩ := List.append_of_mem hmem
  have hapart := apart_filter sql d
  rw [hall] at hapart
  obtain ⟨-, hafter, hbefore⟩ := List.pairwise_append.mp hapart
  have hbehind : ∀ t ∈ x :: after, t.kind.isSemi = true → cursor < t.stop := by
    intro t ht _
    rcases List.mem_cons.mp ht with rfl | ht
    · exact hstop
    · have hle := (List.pairwise_cons.mp hafter).1 t ht
      have hmem : t ∈ (tokenize sql d).filter notComment := by
        rw [hall]
        simp [ht]
      have := start_lt_stop (List.mem_filter.mp hmem).1
      omega
  rw [statementTokens_eq, hall, segmentFrom_append fun t ht =>
    ((hbefore t ht x List.mem_cons_self).trans hstart.le), segmentFrom_behind hbehind,
    List.takeWhile_cons, if_pos (by simp [notSemi, hsemi])]
  simp

theorem bars_false (hlit : insideLiteral cursor (tokenize sql d) = false)
    (hx : x ∈ tokenize sql d) (hstart : x.start < cursor) : barsCursor cursor x = false := by
  by_contra hbars
  have hin := insideLiteral_of_bars (tokenize_partitions sql d).increasing hx hstart
    (by simpa using hbars)
  rw [hlit] at hin
  exact absurd hin (by decide)

/-- Where no literal is, a token around the cursor is one that is typed. -/
theorem typed_around (hlit : insideLiteral cursor (tokenize sql d) = false)
    (hx : x ∈ tokenize sql d) (hstart : x.start < cursor) (hstop : cursor < x.stop) :
    TypedAt cursor x ∧ x ∈ statementTokens (tokenize sql d) cursor sql.length := by
  have hbars := bars_false hlit hx hstart
  have hlen := mt (stop_of_byte hx) (by omega : ¬x.stop = x.start + 1)
  have hword : x.kind.kind = .word ∨ x.kind.kind = .quotedIdent := by
    unfold barsCursor at hbars
    cases hk : x.kind.kind with
    | word | quotedIdent => simp
    | punct | op => exact absurd (by simp [hk]) hlen
    | comment =>
      simp only [hk] at hbars
      split_ifs at hbars <;> simp [hstop.le, hstop] at hbars
    | string | number | param => simp [hk, hstop, hstop.le] at hbars
  constructor
  · rcases hword with hk | hk
    · exact ⟨hstart, .inl ⟨hk, hstop.le⟩⟩
    · exact ⟨hstart, .inr ⟨hk, .inr hstop⟩⟩
  · exact mem_statementTokens hx (by rcases hword with hk | hk <;> simp [hk])
      (by rcases hword with hk | hk <;> simp [TokInfo.isSemi, hk]) hstart hstop

/-- What is typed at the cursor. -/
def typedPlace (sql : Text) (cursor : ℕ) (d : Dialect) : Typed :=
  typedFrom sql cursor 0 (statementTokens (tokenize sql d) cursor sql.length)

theorem typedPlace_stops (sql : Text) (cursor : ℕ) (d : Dialect) :
    ∃ ts us, statementTokens (tokenize sql d) cursor sql.length = ts ++ us ∧
      (typedPlace sql cursor d).cur = ts.length ∧
      (∀ t ∈ ts, t.start < cursor ∧ ¬TypedAt cursor t) ∧
      (((typedPlace sql cursor d).replaceStart = cursor ∧
          (typedPlace sql cursor d).replaceEnd = cursor ∧ ∀ t ∈ us.head?, cursor ≤ t.start) ∨
        ∃ t ∈ us.head?, TypedAt cursor t ∧ (typedPlace sql cursor d).replaceStart = t.start ∧
          (typedPlace sql cursor d).replaceEnd = t.stop) := by
  obtain ⟨ts, us, htoks, hcur, h⟩ :=
    @typedFrom_stops sql cursor (statementTokens (tokenize sql d) cursor sql.length) 0
  rw [Nat.zero_add] at hcur
  exact ⟨ts, us, htoks, hcur, h⟩

/-- What is typed is a token of the text, or else nothing. -/
theorem typedPlace_cases (sql : Text) (cursor : ℕ) (d : Dialect) :
    ((typedPlace sql cursor d).replaceStart = cursor ∧
        (typedPlace sql cursor d).replaceEnd = cursor) ∨
      ∃ t ∈ tokenize sql d, TypedAt cursor t ∧ (typedPlace sql cursor d).replaceStart = t.start ∧
        (typedPlace sql cursor d).replaceEnd = t.stop :=
  (typedFrom_range sql cursor 0 _).imp_right fun ⟨t, ht, h⟩ => ⟨t, mem_of_statementTokens ht, h⟩

theorem typedPlace_start_le (sql : Text) (cursor : ℕ) (d : Dialect) :
    (typedPlace sql cursor d).replaceStart ≤ cursor := by
  rcases typedPlace_cases sql cursor d with ⟨h, -⟩ | ⟨t, -, ht, h, -⟩
  · exact h.le
  · exact h.trans_le ht.1.le

theorem inOrder_statement (sql : Text) (cursor : ℕ) (d : Dialect) :
    (statementTokens (tokenize sql d) cursor sql.length).Pairwise fun t u => t.stop ≤ u.start :=
  (tokenize_partitions sql d).disjoint.sublist
    (List.filter_sublist.trans ((List.drop_sublist _ _).trans (List.take_sublist _ _)))

/-- Where nothing is replaced, no token of the statement is typed. -/
theorem nothing_typed (h : (typedPlace sql cursor d).replaceStart = cursor)
    (hx : x ∈ statementTokens (tokenize sql d) cursor sql.length) : ¬TypedAt cursor x := by
  obtain ⟨ts, us, htoks, -, hts, ⟨-, -, hus⟩ | ⟨t, -, ht, hstart, -⟩⟩ :=
    typedPlace_stops sql cursor d
  · have hapart := inOrder_statement sql cursor d
    have hin : ∀ t ∈ ts ++ us, t.start < t.stop := fun t ht =>
      start_lt_stop (mem_of_statementTokens (htoks ▸ ht))
    rw [htoks] at hx hapart
    rcases List.mem_append.mp hx with hx | hx
    · exact (hts x hx).2
    · cases us with
      | nil => cases hx
      | cons u us =>
        have hu := hus u rfl
        rintro ⟨hstart, -⟩
        rcases List.mem_cons.mp hx with rfl | hx
        · omega
        · have hle := (List.pairwise_cons.mp (List.pairwise_append.mp hapart).2.1).1 x hx
          have := hin u (by simp)
          omega
  · have := ht.1
    omega

/-- No token goes over the start of what is replaced. -/
theorem seam_typed (hlit : insideLiteral cursor (tokenize sql d) = false)
    (hx : x ∈ tokenize sql d) :
    x.stop ≤ (typedPlace sql cursor d).replaceStart ∨
      (typedPlace sql cursor d).replaceStart ≤ x.start := by
  rcases typedPlace_cases sql cursor d with ⟨hrs, -⟩ | ⟨t, ht, -, hrs, -⟩
  · by_contra hno
    rw [hrs] at hno
    obtain ⟨htyped, hmem⟩ := typed_around hlit hx (by omega) (by omega)
    exact nothing_typed hrs hmem htyped
  · rw [hrs]
    rcases tokens_apart hx ht with rfl | h | h
    · exact .inr le_rfl
    · exact .inl h
    · have := start_lt_stop ht
      exact .inr (by omega)

end Place

section Front

variable {sql : Text} {d : Dialect} {cursor : ℕ} {x : Token}

theorem TypedAt.not_semi {t : Token} (h : TypedAt cursor t) : t.kind.isSemi = false := by
  obtain ⟨-, ⟨hk, -⟩ | ⟨hk, -⟩⟩ := h <;> simp [TokInfo.isSemi, hk]

/-- A semicolon behind the start of what is replaced is behind the cursor. -/
theorem semi_behind (hc : cursor ≤ sql.length) (hx : x ∈ tokenize sql d)
    (hsemi : x.kind.isSemi = true) (hstart : (typedPlace sql cursor d).replaceStart ≤ x.start) :
    cursor < x.stop := by
  have hlt := start_lt_stop hx
  rcases typedPlace_cases sql cursor d with ⟨h, -⟩ | ⟨t, ht, htyped, h, -⟩
  · omega
  · rcases tokens_apart hx ht with rfl | hle | hle
    · rw [htyped.not_semi] at hsemi
      cases hsemi
    · omega
    · have := (typedAt_bounds hc ht htyped).2.1
      omega

/-- The loop stops at the first token from the start of what is replaced on. -/
theorem typedPlace_cur {rs : ℕ} (hrs : (typedPlace sql cursor d).replaceStart = rs)
    {front back : List Token}
    (hsplit : statementTokens (tokenize sql d) cursor sql.length = front ++ back)
    (hfront : ∀ x ∈ front, x.stop ≤ rs) (hback : ∀ x ∈ back, rs ≤ x.start) :
    (typedPlace sql cursor d).cur = front.length := by
  obtain ⟨ts, us, htoks, hcur, hts, hus⟩ := typedPlace_stops sql cursor d
  have hapart := inOrder_statement sql cursor d
  have hpos : ∀ t ∈ ts ++ us, t.start < t.stop := fun t ht =>
    start_lt_stop (mem_of_statementTokens (htoks ▸ ht))
  rw [htoks] at hsplit hapart
  rw [hrs] at hus
  rw [hcur]
  rcases List.append_eq_append_iff.mp hsplit with ⟨as, h1, h2⟩ | ⟨bs, h1, h2⟩
  · -- it does not stop before
    cases as with
    | nil => simp [h1]
    | cons u as =>
      exfalso
      have hu : u ∈ us.head? := by simp [h2]
      have hstop := hfront u (by rw [h1]; simp)
      have hlt := hpos u (by rw [h2]; simp)
      rcases hus with ⟨rfl, -, hus⟩ | ⟨t, ht, -, rfl, -⟩
      · have := hus u hu
        omega
      · obtain rfl := Option.some_inj.mp (hu.symm.trans ht)
        omega
  · -- nor behind
    cases bs with
    | nil => simp [h1]
    | cons b bs =>
      exfalso
      have hb : b ∈ ts := by rw [h1]; simp
      have hstart := hback b (by rw [h2]; simp)
      rcases hus with ⟨rfl, -, -⟩ | ⟨t, ht, -, rfl, -⟩
      · have := (hts b hb).1
        omega
      · have hle := (List.pairwise_append.mp hapart).2.2 b hb t (List.mem_of_mem_head? ht)
        have := hpos b (List.mem_append_left _ hb)
        omega

/-- The tokens in front of what is replaced, and those of them in the statement. -/
theorem statement_front {rs : ℕ} (hrs : (typedPlace sql cursor d).replaceStart = rs)
    (hc : cursor ≤ sql.length) (hlit : insideLiteral cursor (tokenize sql d) = false) :
    ∃ xs back, (∀ x ∈ xs, x.stop ≤ rs) ∧
      tokenize sql d = xs ++ tokensBehind (sql.take rs) (sql.drop rs) d ∧
      statementTokens (tokenize sql d) cursor sql.length =
        segmentFrom rs [] (xs.filter notComment) ++ back ∧
      (typedPlace sql cursor d).cur = (segmentFrom rs [] (xs.filter notComment)).length := by
  have hle := hrs ▸ typedPlace_start_le sql cursor d
  have hlen : (sql.take rs).length = rs := by
    rw [List.length_take]
    omega
  obtain ⟨xs, hxs, hall⟩ := @tokens_apart_at d (sql.take rs) (sql.drop rs) fun x hx => by
    rw [hlen, ← hrs]
    exact seam_typed hlit (by rwa [List.take_append_drop] at hx)
  rw [hlen] at hxs
  rw [List.take_append_drop] at hall
  set ys := tokensBehind (sql.take rs) (sql.drop rs) d with hys
  have hstart : ∀ y ∈ ys, rs ≤ y.start := fun y hy => hlen ▸ tokensBehind_start hy
  have hfront : ∀ x ∈ xs.filter notComment, x.stop ≤ rs := fun x hx =>
    hxs x (List.mem_filter.mp hx).1
  have hsplit : statementTokens (tokenize sql d) cursor sql.length =
      segmentFrom rs [] (xs.filter notComment) ++ (ys.filter notComment).takeWhile notSemi := by
    rw [statementTokens_eq, hall, List.filter_append,
      segmentFrom_append fun x hx => (hfront x hx).trans hle, segmentFrom_congr hfront hle,
      segmentFrom_behind]
    intro y hy hsemi
    have hy := (List.mem_filter.mp hy).1
    refine semi_behind hc ?_ hsemi (hrs ▸ hstart y hy)
    rw [hall]
    exact List.mem_append_right _ hy
  refine ⟨xs, _, hxs, hall, hsplit, typedPlace_cur hrs hsplit (fun x hx => ?_) fun y hy => ?_⟩
  · exact hfront x ((mem_segmentFrom hx).resolve_left (by simp))
  · exact hstart y (List.mem_filter.mp (List.takeWhile_sublist _ |>.subset hy)).1

end Front

section Inserted

variable {sql p u w : Text} {d : Dialect} {cursor : ℕ} {xs ys : List Token} {x y : Token}
  {t : TokInfo}

/-- A comment that ends where the replaced text starts has an end of its own: a line comment would
go on to the end of its line. -/
theorem comment_whole (hc : cursor ≤ sql.length)
    (hlit : insideLiteral cursor (tokenize sql d) = false) (hx : x ∈ tokenize sql d)
    (hk : x.kind.kind = .comment) (hend : x.stop = (typedPlace sql cursor d).replaceStart) :
    x.kind.whole := by
  have hle := typedPlace_start_le sql cursor d
  have hlt := start_lt_stop hx
  have hbars := bars_false hlit hx (by omega)
  constructor
  · by_contra hopen
    have hstop := stop_of_open hx (by simpa using hopen)
    simp only [barsCursor, hk] at hbars
    split_ifs at hbars
    · simp at hbars
      omega
    · simp [hopen] at hbars
  · rw [Bool.eq_false_iff]
    intro hline
    simp only [barsCursor, hk, hline, if_true, decide_eq_false_iff_not] at hbars
    rcases typedPlace_cases sql cursor d with ⟨h, -⟩ | ⟨v, hv, -, h, -⟩
    · omega
    · -- a token does not start with the end of the line
      obtain ⟨hlen, hns⟩ := token_first hv
      have hnl := lineComment_stop hx hline (by omega)
      rw [hend, h, List.getElem?_eq_getElem hlen] at hnl
      rw [Option.some_inj.mp hnl] at hns
      exact absurd hns (by decide)

/-- A token that ends at the offset is the last one of the segment there. -/
theorem last_of_segment {offset : ℕ} (hx : x ∈ xs) (hend : x.stop = offset)
    (hapart : xs.Pairwise fun t u => t.stop ≤ u.start)
    (hpos : ∀ t ∈ xs, t.start < t.stop ∧ t.stop ≤ offset)
    (hlast : (segmentFrom offset [] xs).getLast? = some y) : x = y := by
  obtain ⟨before, after, rfl⟩ := List.append_of_mem hx
  cases after with
  | nil =>
    rw [segmentFrom_append fun t ht => (hpos t (by simp [ht])).2, segmentFrom,
      if_pos hend.le] at hlast
    split_ifs at hlast
    · cases hlast
    · rw [segmentFrom, List.getLast?_append] at hlast
      simpa using hlast
  | cons z after =>
    have hz := hpos z (by simp)
    have := (List.pairwise_cons.mp (List.pairwise_append.mp hapart).2.1).1 z List.mem_cons_self
    omega

/-- Behind a dot that is the statement's last token before it, the start of what is replaced comes
after that dot, a comment or a blank. -/
theorem sealed_front {rs : ℕ} (hrs : (typedPlace sql cursor d).replaceStart = rs)
    (hc : cursor ≤ sql.length) (hlit : insideLiteral cursor (tokenize sql d) = false)
    (hxs : ∀ x ∈ xs, x.stop ≤ rs) (hys : ∀ x ∈ ys, rs ≤ x.start)
    (hall : tokenize sql d = xs ++ ys)
    (hlast : (segmentFrom rs [] (xs.filter notComment)).getLast? = some y) (hy : y.kind = dotInfo)
    (hx : x ∈ tokenize sql d) (hend : x.stop = rs) : x.kind.Sealed := by
  have hlt := start_lt_stop hx
  by_cases hk : x.kind.kind = .comment
  · exact .inr ⟨hk, comment_whole hc hlit hx hk (hend.trans hrs.symm)⟩
  have hmem : x ∈ xs.filter notComment := by
    rw [hall] at hx
    rcases List.mem_append.mp hx with hx | hx
    · exact List.mem_filter.mpr ⟨hx, by simpa [notComment] using hk⟩
    · have := hys x hx
      omega
  have hapart : (xs.filter notComment).Pairwise fun t u => t.stop ≤ u.start := by
    have h := apart_filter sql d
    rw [hall, List.filter_append] at h
    exact (List.pairwise_append.mp h).1
  have hpos : ∀ t ∈ xs.filter notComment, t.start < t.stop ∧ t.stop ≤ rs := fun t ht => by
    have ht := (List.mem_filter.mp ht).1
    have hin : t ∈ tokenize sql d := by
      rw [hall]
      exact List.mem_append_left _ ht
    exact ⟨start_lt_stop hin, hxs t ht⟩
  obtain rfl := last_of_segment hmem hend hapart hpos hlast
  exact .inl hy

/-- The statement with a token `u` behind the text `p`. -/
theorem statement_inserted
    (hxs : ∀ x ∈ xs, x.stop ≤ p.length)
    (hnew : tokenize (p ++ (u ++ w)) d = xs ++ tokensBehind p (u ++ w) d)
    (hscan : ∀ prev, scanToken d prev (u ++ w) = some (t, u.length)) (hsemi : t.isSemi = false)
    (hk : t.kind ≠ .comment) :
    ∃ us, statementTokens (tokenize (p ++ (u ++ w)) d) p.length (p ++ (u ++ w)).length =
      segmentFrom p.length [] (xs.filter notComment) ++
        ⟨t, p.length, p.length + u.length⟩ :: us := by
  have hstep := @tokensBehind_step d u p w t (hscan (lastOf none p))
  have hin : ∀ y ∈ tokensBehind p (u ++ w) d, y ∈ tokenize (p ++ (u ++ w)) d := fun y hy => by
    rw [hnew]
    exact List.mem_append_right _ hy
  rw [statementTokens_eq, hnew, List.filter_append,
    segmentFrom_append fun x hx => hxs x (List.mem_filter.mp hx).1, segmentFrom_behind]
  · rw [hstep, List.filter_cons_of_pos (by simpa [notComment] using hk), List.takeWhile_cons,
      if_pos (by simp [notSemi, hsemi])]
    exact ⟨_, rfl⟩
  · intro y hy _
    have hy := (List.mem_filter.mp hy).1
    have := start_lt_stop (hin y hy)
    have := tokensBehind_start hy
    omega

end Inserted

section Edited

variable {sql : Text} {cursor : ℕ}

theorem scan_name_stops (e : Emitter) (n : Text) {rest : Text} (hrest : Stops rest)
    (prev : Option Char) : scanToken (dialectFor e.type) prev (e.name n ++ rest) =
      some (nameInfo e.quoted e.type n, (e.name n).length) := by
  refine scan_name e n (stops_ne_close hrest) fun a ha => ?_
  have hquiet := quiet_of_isBreak (hrest a ha)
  exact ⟨hquiet.ident, fun _ => hquiet.other.2.2.2.2.2.2.2⟩

theorem last_of_dot {front rest : List Token}
    (h : isPunct (syms (front ++ rest)) ((front.length : ℤ) - 1) '.' = true) :
    ∃ y, front.getLast? = some y ∧ y.kind.sym = .punct '.' := by
  rcases List.eq_nil_or_concat front with rfl | ⟨init, y, rfl⟩
  · simp [isPunct, at?_neg] at h
  · refine ⟨y, by simp, ?_⟩
    rw [List.concat_eq_append, List.length_append, List.length_singleton, Nat.cast_add,
      Nat.cast_one, add_sub_cancel_right, isPunct, at?_ofNat, syms, List.getElem?_map,
      List.append_assoc,
      List.getElem?_append_right le_rfl] at h
    simpa using h

theorem dotInfo_of_sym {d : Dialect} {y : Token} (hy : y ∈ tokenize sql d)
    (h : y.kind.sym = .punct '.') : y.kind = dotInfo := by
  obtain ⟨p, c, rest, -, -, hread⟩ := token_scan hy
  have hk : y.kind.kind = .punct := by
    unfold TokInfo.sym at h
    split at h <;> first | assumption | cases h
  have hst := @readFrom_punct d c rest (startOf d p c (rest.headD '\x00')) (by rw [hread]; exact hk)
  rw [hst, readFrom, Prod.mk.injEq] at hread
  rw [← hread.1] at h ⊢
  obtain rfl : c = '.' := by simpa [TokInfo.sym] using h
  rfl

/-- The statement before and after a name has gone in behind a dot: the same tokens stand in front
of it. -/
theorem statement_edited {type : DatabaseType} {rs : ℕ}
    (hrs : (typedPlace sql cursor (dialectFor type)).replaceStart = rs) (hc : cursor ≤ sql.length)
    (hlit : insideLiteral cursor (tokenize sql (dialectFor type)) = false)
    (hdot : isPunct (syms (statementTokens (tokenize sql (dialectFor type)) cursor sql.length))
      (((typedPlace sql cursor (dialectFor type)).cur : ℤ) - 1) '.' = true) (e : Emitter)
    (he : e.type = type) (n : Text) {rest : Text} (hrest : Stops rest) :
    ∃ front back us,
      statementTokens (tokenize sql (dialectFor type)) cursor sql.length = front ++ back ∧
      (typedPlace sql cursor (dialectFor type)).cur = front.length ∧
      statementTokens (tokenize (sql.take rs ++ (e.name n ++ rest)) (dialectFor type)) rs
          (sql.take rs ++ (e.name n ++ rest)).length =
        front ++ ⟨nameInfo e.quoted type n, rs, rs + (e.name n).length⟩ :: us ∧
      ∀ x ∈ front, x.start < rs ∧ x.stop ≤ rs ∧ ¬TypedAt rs x := by
  subst he
  obtain ⟨xs, back, hxs, hall, htoks, hcur⟩ := statement_front hrs hc hlit
  have hle := hrs ▸ typedPlace_start_le sql cursor (dialectFor e.type)
  have hlen : (sql.take rs).length = rs := by
    rw [List.length_take]
    omega
  rw [hcur, htoks] at hdot
  obtain ⟨y, hlast, hsym⟩ := last_of_dot hdot
  set front := segmentFrom rs [] (xs.filter notComment) with hfront
  have hmem : ∀ x ∈ front, x ∈ xs := fun x hx =>
    (List.mem_filter.mp ((mem_segmentFrom hx).resolve_left (by simp))).1
  have hin : ∀ x ∈ front, x ∈ tokenize sql (dialectFor e.type) := fun x hx => by
    rw [hall]
    exact List.mem_append_left _ (hmem x hx)
  have hsealed : ∀ x ∈ tokenize sql (dialectFor e.type), x.stop = rs → x.kind.Sealed :=
    fun x hx => sealed_front hrs hc hlit hxs (fun x hx => hlen ▸ tokensBehind_start hx) hall hlast
      (dotInfo_of_sym (hin y (List.mem_of_getLast? hlast)) hsym) hx
  obtain ⟨xs', hold, hnew⟩ := @tokens_front (dialectFor e.type) (sql.take rs) (sql.drop rs)
    (e.name n ++ rest) (by rw [List.take_append_drop, hlen, ← hrs]; exact fun x => seam_typed hlit)
    (by rwa [List.take_append_drop, hlen]) (head_name e n rest)
  rw [List.take_append_drop, hall] at hold
  obtain rfl := List.append_cancel_right hold
  have hident := (isName_nameInfo e.quoted e.type n).kind
  obtain ⟨us, hus⟩ := statement_inserted (by rwa [hlen]) hnew (scan_name_stops e n hrest)
    (by rcases hident with h | h <;> simp [TokInfo.isSemi, h])
    (by rcases hident with h | h <;> simp [h])
  rw [hlen] at hus
  refine ⟨front, back, us, htoks, hcur, hus, fun x hx => ?_⟩
  have hlt := start_lt_stop (hin x hx)
  have hstop := hxs x (hmem x hx)
  refine ⟨by omega, hstop, ?_⟩
  -- what ends at the place is a dot or a comment
  have hends : x.stop = rs → x.kind.kind ≠ .word ∧ x.kind.kind ≠ .quotedIdent := by
    intro hend
    rcases hsealed x (hin x hx) hend with h | ⟨h, -⟩
    · rw [h]
      decide
    · simp [h]
  rintro ⟨-, ⟨hk, h⟩ | ⟨hk, h | h⟩⟩
  · exact (hends (by omega)).1 hk
  · have := stop_of_open (hin x hx) h
    exact (hends (by omega)).2 hk
  · omega

end Edited
end DearSql
