import DearSql.TokenScan

/-! The tokens take a text apart; the statements of a text, listed and under an offset. -/
namespace DearSql
open Lexing

section Partition

def Lexing.Lexeme.holds {τ : Type*} (t : Lexeme τ) (i : ℕ) : Prop := t.start ≤ i ∧ i < t.stop

/-- Tokens that lie in a text, apart and in order, with only blanks outside them. -/
structure Partitions (s : Text) (ts : List Token) : Prop where
  nonempty : ∀ t ∈ ts, t.start < t.stop
  inside : ∀ t ∈ ts, t.stop ≤ s.length
  increasing : ts.Pairwise fun t u => t.start < u.start
  disjoint : ts.Pairwise fun t u => t.stop ≤ u.start
  outside : ∀ i (hi : i < s.length), (∀ t ∈ ts, ¬t.holds i) → isspace s[i] = true
  once : ∀ i (hi : i < s.length), isspace s[i] = false → ∃! t, t ∈ ts ∧ t.holds i
  open_last : ∀ t ∈ ts, t.kind.closed = false → t.stop = s.length ∧ ts.getLast? = some t

theorem stop_of_open {s : Text} {d : Dialect} {t : Token} (ht : t ∈ tokenize s d)
    (ho : t.kind.closed = false) : t.stop = s.length := by
  obtain ⟨p, c, rest, hdrop, -, hread⟩ := token_scan ht
  have hopen := @readFrom_open d c rest (startOf d p c (rest.headD '\x00')) (by rw [hread]; exact ho)
  rw [hread] at hopen
  have hlen := congrArg List.length hdrop
  have hlt := start_lt_stop ht
  rw [List.length_drop, List.length_cons] at hlen
  simp only at hopen
  omega

theorem token_first {s : Text} {d : Dialect} {t : Token} (ht : t ∈ tokenize s d) :
    ∃ h : t.start < s.length, isspace s[t.start] = false := by
  obtain ⟨p, c, rest, hdrop, hc, -⟩ := token_scan ht
  have hlen := congrArg List.length hdrop
  rw [List.length_drop, List.length_cons] at hlen
  have hget : s[t.start]? = some c := by
    rw [← Nat.add_zero t.start, ← List.getElem?_drop, hdrop]
    rfl
  have hlt : t.start < s.length := by omega
  rw [List.getElem?_eq_getElem hlt, Option.some_inj] at hget
  exact ⟨hlt, hget ▸ hc⟩

theorem token_last {s : Text} {d : Dialect} {t : Token} (ht : t ∈ tokenize s d)
    (hw : t.kind.whole) :
    ∃ h : t.stop - 1 < s.length, isspace s[t.stop - 1] = false ∧
      (t.kind.kind = .comment → s[t.stop - 1] = '/') := by
  obtain ⟨p, c, rest, hdrop, hc, hread⟩ := token_scan ht
  obtain ⟨ch, hget, hns, hcom⟩ :=
    @readFrom_last d c hc rest (startOf d p c (rest.headD '\x00')) (by rw [hread]; exact hw)
  have hlt := start_lt_stop ht
  rw [hread, ← hdrop, List.getElem?_drop] at hget
  simp only at hget
  rw [show t.start + (t.stop - t.start - 1) = t.stop - 1 by omega] at hget
  obtain ⟨hi, he⟩ := List.getElem?_eq_some_iff.mp hget
  rw [hread] at hcom
  exact ⟨hi, he ▸ hns, fun hk => he.trans (hcom hk)⟩

theorem readFrom_lineComment {d : Dialect} {c : Char} {rest : Text} {st : Start}
    (h : (readFrom d c rest st).1.lineComment = true) : st = .lineComment := by
  cases st with
  | lineComment => rfl
  | string | doubleQuote | backtick | bracket => simp [readFrom, quotedToken] at h
  | number | word | param | punct | op => simp [readFrom] at h
  | blockComment =>
    simp only [readFrom, blockCommentToken] at h
    split at h <;> simp at h
  | dollar =>
    simp only [readFrom, dollarToken_eq] at h
    split_ifs at h
    split at h <;> simp at h

theorem whole_of_not_comment {s : Text} {d : Dialect} {t : Token} (ht : t ∈ tokenize s d)
    (hk : t.kind.kind ≠ .comment) (hcl : t.kind.closed = true) : t.kind.whole := by
  obtain ⟨p, c, rest, -, -, hread⟩ := token_scan ht
  refine ⟨hcl, Bool.eq_false_iff.mpr fun hl => ?_⟩
  have hst := @readFrom_lineComment d c rest (startOf d p c (rest.headD '\x00'))
    (by rw [hread]; exact hl)
  rw [hst] at hread
  exact hk (congrArg (fun r => r.1.kind) hread).symm

theorem readFrom_punct {d : Dialect} {c : Char} {rest : Text} {st : Start}
    (h : (readFrom d c rest st).1.kind = .punct) : st = .punct := by
  cases st with
  | punct => rfl
  | string | backtick | bracket => simp [readFrom, quotedToken] at h
  | doubleQuote =>
    simp only [readFrom, quotedToken] at h
    split_ifs at h
  | lineComment => simp [readFrom, lineCommentToken] at h
  | number | word | param | op => simp [readFrom] at h
  | blockComment =>
    simp only [readFrom, blockCommentToken] at h
    split at h <;> simp at h
  | dollar =>
    simp only [readFrom, dollarToken_eq] at h
    split_ifs at h
    split at h <;> simp at h

/-- A semicolon token is one semicolon byte. -/
theorem semi_scan {s : Text} {d : Dialect} {t : Token} (ht : t ∈ tokenize s d)
    (hs : t.kind.isSemi = true) :
    t.kind = { kind := .punct, text := [';'] } ∧ t.stop = t.start + 1 ∧ s[t.start]? = some ';' := by
  obtain ⟨p, c, rest, hdrop, -, hread⟩ := token_scan ht
  simp only [TokInfo.isSemi, Bool.and_eq_true, decide_eq_true_eq] at hs
  have hst := @readFrom_punct d c rest (startOf d p c (rest.headD '\x00')) (by rw [hread]; exact hs.1)
  rw [hst, readFrom, Prod.mk.injEq] at hread
  have hc : c = ';' := by
    have := hs.2
    rw [← hread.1] at this
    simpa using this
  have hlt := start_lt_stop ht
  refine ⟨by rw [← hread.1, hc], by omega, ?_⟩
  rw [← Nat.add_zero t.start, ← List.getElem?_drop, hdrop, hc]
  rfl

theorem whole_of_isSemi {s : Text} {d : Dialect} {t : Token} (ht : t ∈ tokenize s d)
    (hs : t.kind.isSemi = true) : t.kind.whole := by
  rw [(semi_scan ht hs).1]
  exact ⟨rfl, rfl⟩

theorem takeWhile_stop {α : Type*} {p : α → Bool} {l : List α}
    (h : (l.takeWhile p).length < l.length) :
    ∃ x, l[(l.takeWhile p).length]? = some x ∧ p x = false := by
  induction l with
  | nil => simp at h
  | cons a as ih =>
    by_cases ha : p a = true
    · rw [List.takeWhile_cons, if_pos ha] at h ⊢
      exact ih (by simpa using h)
    · exact ⟨a, by simp [ha], by simpa using ha⟩

theorem lineComment_stop {s : Text} {d : Dialect} {t : Token} (ht : t ∈ tokenize s d)
    (hl : t.kind.lineComment = true) (hlt : t.stop < s.length) : s[t.stop]? = some '\n' := by
  obtain ⟨p, c, rest, hdrop, -, hread⟩ := token_scan ht
  have hst := @readFrom_lineComment d c rest (startOf d p c (rest.headD '\x00'))
    (by rw [hread]; exact hl)
  rw [hst, readFrom, lineCommentToken, Prod.mk.injEq] at hread
  have hlen := congrArg List.length hdrop
  rw [List.length_drop] at hlen
  have hpos := start_lt_stop ht
  obtain ⟨x, hx, hp⟩ := takeWhile_stop (p := fun ch : Char => decide (ch ≠ '\n')) (l := c :: rest)
    (by omega)
  rw [hread.2, ← hdrop, List.getElem?_drop, Nat.add_sub_cancel' hpos.le] at hx
  rw [hx]
  simpa using hp

theorem byte_cases {s : Text} (d : Dialect) {i : ℕ} (hi : i < s.length) :
    isspace s[i] = true ∨ ∃ t ∈ tokenize s d, t.holds i := by
  rcases @covered _ _ _ (bounded_scanToken d) (fun c => isspace c = true)
    (fun _ _ _ h => scanToken_eq_none.mp h) none 0 s i hi with h | ⟨t, ht, h⟩
  · exact .inl h
  · rw [Nat.zero_add] at h
    exact .inr ⟨t, ht, h⟩

theorem tokens_apart {s : Text} {d : Dialect} {t u : Token} (ht : t ∈ tokenize s d)
    (hu : u ∈ tokenize s d) : t = u ∨ t.stop ≤ u.start ∨ u.stop ≤ t.start :=
  pairwise_cases (stop_le_start (bounded_scanToken d) none 0 s) ht hu

theorem tokenize_partitions (s : Text) (d : Dialect) : Partitions s (tokenize s d) where
  nonempty _ ht := start_lt_stop ht
  inside t ht := by simpa using stop_le (bounded_scanToken d) ht
  increasing := starts_increasing none 0 0 s
  disjoint := stop_le_start (bounded_scanToken d) none 0 s
  outside i hi hout := by
    rcases byte_cases d hi with h | ⟨t, ht, h⟩
    · exact h
    · exact absurd h (hout t ht)
  once i hi hns := by
    rcases byte_cases d hi with h | ⟨t, ht, h⟩
    · simp [hns] at h
    · refine ⟨t, ⟨ht, h⟩, fun u ⟨hu, hold⟩ => ?_⟩
      rcases tokens_apart hu ht with h1 | h1 | h1
      · exact h1
      · exact absurd (hold.2.trans_le h1) (Nat.not_lt.mpr h.1)
      · exact absurd (h.2.trans_le h1) (Nat.not_lt.mpr hold.1)
  open_last t ht ho :=
    ⟨stop_of_open ht ho,
      getLast?_of_stop (bounded_scanToken d) ht (by rw [stop_of_open ht ho, Nat.zero_add])⟩

example : (tokenize "a.5 /* x".toList (dialectFor .SQLITE)).map (fun t => (t.start, t.stop)) =
    [(0, 1), (1, 2), (2, 3), (4, 8)] := by decide

end Partition

section Ranges

/-- `flush` of `statementRanges`. -/
def flushRange (first : Option ℕ) (last : ℕ) : List (ℕ × ℕ) :=
  match first with
  | some b => [(b, last)]
  | none => []

/-- The loop of `statementRanges`. -/
def statementRangesFrom : Option ℕ → ℕ → List Token → List (ℕ × ℕ)
  | first, last, [] => flushRange first last
  | first, last, t :: ts =>
    if t.kind.isSemi then flushRange first last ++ statementRangesFrom none last ts
    else if t.kind.kind ≠ .comment then
      statementRangesFrom (some (first.getD t.start)) t.stop ts
    else statementRangesFrom first last ts

def statementRanges (sql : Text) (type : DatabaseType) : List (ℕ × ℕ) :=
  statementRangesFrom none 0 (tokenize sql (dialectFor type))

/-- A token that is neither a comment nor a semicolon. -/
def TokInfo.ordinary (t : TokInfo) : Bool := !t.isSemi && t.kind ≠ .comment

theorem not_ordinary {t : TokInfo} (h : t.isSemi = false) :
    t.ordinary = false ↔ t.kind = .comment := by
  simp [TokInfo.ordinary, h]

def ordinaries (seg : List Token) : List Token := seg.filter fun t => t.kind.ordinary

theorem ordinaries_cons_of_pos {t : Token} (h : t.kind.ordinary = true) (ts : List Token) :
    ordinaries (t :: ts) = t :: ordinaries ts := by
  simp [ordinaries, h]

theorem ordinaries_cons_of_neg {t : Token} (h : t.kind.ordinary = false) (ts : List Token) :
    ordinaries (t :: ts) = ordinaries ts := by
  simp [ordinaries, h]

/-- From the first ordinary token of a stretch to the last one. -/
def segRange (seg : List Token) : List (ℕ × ℕ) :=
  match ordinaries seg with
  | [] => []
  | t :: ts => [(t.start, (ts.getLastD t).stop)]

theorem rangesFrom_last (l l' : ℕ) (ts : List Token) :
    statementRangesFrom none l ts = statementRangesFrom none l' ts := by
  induction ts with
  | nil => rfl
  | cons t ts ih =>
    rw [statementRangesFrom, statementRangesFrom]
    split_ifs
    · rw [ih]
      rfl
    · rfl
    · exact ih

theorem rangesFrom_some {seg : List Token} (hseg : ∀ t ∈ seg, t.kind.isSemi = false) (b : ℕ)
    (t : Token) (rest : List Token) :
    statementRangesFrom (some b) t.stop (seg ++ rest) =
      statementRangesFrom (some b) ((ordinaries seg).getLastD t).stop rest := by
  induction seg generalizing t with
  | nil => rfl
  | cons u us ih =>
    have hu := hseg u (by simp)
    have hus : ∀ v ∈ us, v.kind.isSemi = false := fun v hv => hseg v (by simp [hv])
    rw [List.cons_append, statementRangesFrom, if_neg (by simp [hu])]
    by_cases hc : u.kind.kind = .comment
    · rw [if_neg (by simp [hc]), ih hus, ordinaries_cons_of_neg ((not_ordinary hu).mpr hc)]
    · have ho : u.kind.ordinary = true := by simpa using mt (not_ordinary hu).mp hc
      rw [if_pos hc, Option.getD_some, ih hus, ordinaries_cons_of_pos ho, List.getLastD_cons]

theorem rangesFrom_flush (b l : ℕ) {rest : List Token}
    (hrest : ∀ t ∈ rest.head?, t.kind.isSemi = true) :
    statementRangesFrom (some b) l rest = (b, l) :: statementRangesFrom none l rest := by
  cases rest with
  | nil => rfl
  | cons t ts =>
    rw [statementRangesFrom, statementRangesFrom, if_pos (hrest t (by simp)),
      if_pos (hrest t (by simp))]
    rfl

theorem rangesFrom_seg {seg : List Token} (hseg : ∀ t ∈ seg, t.kind.isSemi = false) (l : ℕ)
    {rest : List Token} (hrest : ∀ t ∈ rest.head?, t.kind.isSemi = true) :
    statementRangesFrom none l (seg ++ rest) = segRange seg ++ statementRangesFrom none l rest := by
  induction seg with
  | nil => rfl
  | cons t ts ih =>
    have ht := hseg t (by simp)
    have hts : ∀ u ∈ ts, u.kind.isSemi = false := fun u hu => hseg u (by simp [hu])
    rw [List.cons_append, statementRangesFrom, if_neg (by simp [ht])]
    by_cases hc : t.kind.kind = .comment
    · rw [if_neg (by simp [hc]), ih hts, segRange, segRange,
        ordinaries_cons_of_neg ((not_ordinary ht).mpr hc)]
    · have ho : t.kind.ordinary = true := by simpa using mt (not_ordinary ht).mp hc
      rw [if_pos hc, rangesFrom_some hts, rangesFrom_flush _ _ hrest, rangesFrom_last _ l, segRange,
        ordinaries_cons_of_pos ho]
      rfl

theorem rangesFrom_semi {t : Token} (ht : t.kind.isSemi = true) (l : ℕ) (ts : List Token) :
    statementRangesFrom none l (t :: ts) = statementRangesFrom none 0 ts := by
  rw [statementRangesFrom, if_pos ht, rangesFrom_last l 0]
  rfl

/-- Tokens in order and apart. -/
structure InOrder (ts : List Token) : Prop where
  nonempty : ∀ t ∈ ts, t.start < t.stop
  apart : ts.Pairwise fun t u => t.stop ≤ u.start

theorem inOrder_tokenize (s : Text) (d : Dialect) : InOrder (tokenize s d) :=
  ⟨(tokenize_partitions s d).nonempty, (tokenize_partitions s d).disjoint⟩

theorem InOrder.sublist {ts us : List Token} (h : InOrder ts) (hs : us.Sublist ts) : InOrder us :=
  ⟨fun t ht => h.nonempty t (hs.subset ht), h.apart.sublist hs⟩

theorem InOrder.getLastD {t : Token} {ts : List Token} (h : InOrder (t :: ts)) :
    ts.getLastD t ∈ t :: ts ∧
      ∀ u ∈ t :: ts, t.start ≤ u.start ∧ u.stop ≤ (ts.getLastD t).stop := by
  induction ts generalizing t with
  | nil => simp
  | cons x xs ih =>
    obtain ⟨hmem, hle⟩ := ih (h.sublist (List.sublist_cons_self t _))
    have htx := (List.pairwise_cons.mp h.apart).1
    rw [List.getLastD_cons]
    refine ⟨List.mem_cons_of_mem _ hmem, fun u hu => ?_⟩
    rcases List.mem_cons.mp hu with rfl | hu
    · have h1 := htx x (by simp)
      have h2 := h.nonempty x (by simp)
      have h3 := (hle x (by simp)).2
      exact ⟨le_rfl, by omega⟩
    · have h1 := h.nonempty t (by simp)
      have h2 := htx u hu
      exact ⟨by omega, (hle u hu).2⟩

/-- What the ranges of a list of tokens are: each from an ordinary token to an ordinary token,
no semicolon in one and some semicolon between two, and no ordinary token left out. -/
structure RangesOf (ts : List Token) (rs : List (ℕ × ℕ)) : Prop where
  first : ∀ r ∈ rs, ∃ t ∈ ts, t.kind.ordinary = true ∧ t.start = r.1
  last : ∀ r ∈ rs, ∃ t ∈ ts, t.kind.ordinary = true ∧ t.stop = r.2
  nonempty : ∀ r ∈ rs, r.1 < r.2
  apart : rs.Pairwise fun r r' => ∃ t ∈ ts, t.kind.isSemi = true ∧ r.2 ≤ t.start ∧ t.stop ≤ r'.1
  semi : ∀ r ∈ rs, ∀ t ∈ ts, t.kind.isSemi = true → t.stop ≤ r.1 ∨ r.2 ≤ t.start
  covers : ∀ t ∈ ts, t.kind.ordinary = true → ∃ r ∈ rs, r.1 ≤ t.start ∧ t.stop ≤ r.2

theorem rangesOf_seg {seg : List Token} (h : InOrder seg)
    (hseg : ∀ t ∈ seg, t.kind.isSemi = false) : RangesOf seg (segRange seg) := by
  have hmem : ∀ t, t ∈ ordinaries seg ↔ t ∈ seg ∧ t.kind.ordinary = true := fun t =>
    List.mem_filter
  have hord : InOrder (ordinaries seg) := h.sublist List.filter_sublist
  have hsemi : ∀ t ∈ seg, t.kind.isSemi = true → False := fun t ht hs => by simp [hseg t ht] at hs
  unfold segRange
  cases he : ordinaries seg with
  | nil =>
    rw [he] at hmem
    refine ⟨by simp, by simp, by simp, by simp, by simp, fun t ht ho => ?_⟩
    have := (hmem t).mpr ⟨ht, ho⟩
    simp at this
  | cons x xs =>
    rw [he] at hord hmem
    obtain ⟨hin, hle⟩ := hord.getLastD
    have hx := (hmem x).mp (by simp)
    have hl := (hmem _).mp hin
    have hlt : x.start < (xs.getLastD x).stop := (hord.nonempty x (by simp)).trans_le (hle x (by simp)).2
    constructor
    · exact List.forall_mem_singleton.mpr ⟨x, hx.1, hx.2, rfl⟩
    · exact List.forall_mem_singleton.mpr ⟨_, hl.1, hl.2, rfl⟩
    · exact List.forall_mem_singleton.mpr hlt
    · exact List.pairwise_singleton _ _
    · exact fun r _ t ht hs => (hsemi t ht hs).elim
    · exact fun t ht ho => ⟨_, List.mem_singleton_self _, hle t ((hmem t).mpr ⟨ht, ho⟩)⟩

theorem RangesOf.bounds {ts : List Token} {rs : List (ℕ × ℕ)} (h : RangesOf ts rs) {lo hi : ℕ}
    (hts : ∀ t ∈ ts, lo ≤ t.start ∧ t.stop ≤ hi) : ∀ r ∈ rs, lo ≤ r.1 ∧ r.2 ≤ hi := by
  intro r hr
  obtain ⟨t, ht, -, h1⟩ := h.first r hr
  obtain ⟨u, hu, -, h2⟩ := h.last r hr
  exact ⟨h1 ▸ (hts t ht).1, h2 ▸ (hts u hu).2⟩

theorem rangesOf_semi {seg rest : List Token} {x : Token} {rs rs' : List (ℕ × ℕ)}
    (hord : InOrder (seg ++ x :: rest)) (hx : x.kind.isSemi = true) (h : RangesOf seg rs)
    (h' : RangesOf rest rs') : RangesOf (seg ++ x :: rest) (rs ++ rs') := by
  have hp := List.pairwise_append.mp hord.apart
  have hxr := List.pairwise_cons.mp hp.2.1
  have hxlt := hord.nonempty x (by simp)
  have hb : ∀ r ∈ rs, r.2 ≤ x.start := fun r hr => by
    obtain ⟨u, hu, -, h2⟩ := h.last r hr
    exact h2 ▸ hp.2.2 u hu x (by simp)
  have hb' : ∀ r ∈ rs', x.stop ≤ r.1 := fun r hr => by
    obtain ⟨u, hu, -, h2⟩ := h'.first r hr
    exact h2 ▸ hxr.1 u hu
  have hcross : ∀ t ∈ rest, ∀ r ∈ rs, r.2 ≤ t.start := fun t ht r hr =>
    (hb r hr).trans (hxlt.le.trans (hxr.1 t ht))
  have hback : ∀ t ∈ seg, ∀ r ∈ rs', t.stop ≤ r.1 := fun t ht r hr =>
    (hp.2.2 t ht x (by simp)).trans (hxlt.le.trans (hb' r hr))
  have hseg : ∀ t ∈ seg, t ∈ seg ++ x :: rest := fun t ht => by simp [ht]
  have hrest : ∀ t ∈ rest, t ∈ seg ++ x :: rest := fun t ht => by simp [ht]
  constructor
  · rintro r hr
    rcases List.mem_append.mp hr with hr | hr
    · exact (h.first r hr).imp fun t ht => ⟨hseg t ht.1, ht.2⟩
    · exact (h'.first r hr).imp fun t ht => ⟨hrest t ht.1, ht.2⟩
  · rintro r hr
    rcases List.mem_append.mp hr with hr | hr
    · exact (h.last r hr).imp fun t ht => ⟨hseg t ht.1, ht.2⟩
    · exact (h'.last r hr).imp fun t ht => ⟨hrest t ht.1, ht.2⟩
  · rintro r hr
    rcases List.mem_append.mp hr with hr | hr
    · exact h.nonempty r hr
    · exact h'.nonempty r hr
  · refine List.pairwise_append.mpr ⟨h.apart.imp ?_, h'.apart.imp ?_, fun r hr r' hr' => ?_⟩
    · exact fun ⟨t, ht, hs⟩ => ⟨t, hseg t ht, hs⟩
    · exact fun ⟨t, ht, hs⟩ => ⟨t, hrest t ht, hs⟩
    · exact ⟨x, by simp, hx, hb r hr, hb' r' hr'⟩
  · rintro r hr t ht hs
    rcases List.mem_append.mp hr with hr | hr <;> rcases List.mem_append.mp ht with ht | ht
    · exact h.semi r hr t ht hs
    · rcases List.mem_cons.mp ht with rfl | ht
      · exact .inr (hb r hr)
      · exact .inr (hcross t ht r hr)
    · exact .inl (hback t ht r hr)
    · rcases List.mem_cons.mp ht with rfl | ht
      · exact .inl (hb' r hr)
      · exact h'.semi r hr t ht hs
  · rintro t ht ho
    rcases List.mem_append.mp ht with ht | ht
    · exact (h.covers t ht ho).imp fun r hr => ⟨List.mem_append_left _ hr.1, hr.2⟩
    · rcases List.mem_cons.mp ht with rfl | ht
      · simp [TokInfo.ordinary, hx] at ho
      · exact (h'.covers t ht ho).imp fun r hr => ⟨List.mem_append_right _ hr.1, hr.2⟩

theorem rangesOf_tokens {ts : List Token} (h : InOrder ts) :
    RangesOf ts (statementRangesFrom none 0 ts) := by
  induction ts using @sep_induct _ fun t : Token => t.kind.isSemi with
  | last seg hseg =>
    have he := @rangesFrom_seg seg hseg 0 [] (by simp)
    rw [List.append_nil] at he
    rw [he, statementRangesFrom, flushRange, List.append_nil]
    exact rangesOf_seg h hseg
  | sep seg x rest hseg hx ih =>
    rw [rangesFrom_seg hseg 0 (by simpa using hx), rangesFrom_semi hx]
    have hs := h.sublist (List.sublist_append_left seg _)
    have hr := h.sublist ((List.sublist_cons_self x rest).trans (List.sublist_append_right seg _))
    exact rangesOf_semi h hx (rangesOf_seg hs hseg) (ih hr)

end Ranges

section Span

/-- The stretch between the semicolons next to an offset. -/
structure SpanOf (ts : List Token) (offset length : ℕ) (sp : StatementSpan) : Prop where
  start : sp.start = 0 ∨ ∃ t ∈ ts, t.kind.isSemi = true ∧ t.stop = sp.start ∧ t.stop ≤ offset
  stop : sp.stop = length ∨ ∃ t ∈ ts, t.kind.isSemi = true ∧ t.start = sp.stop ∧ offset < t.stop
  clear : ∀ t ∈ ts, t.kind.isSemi = true → t.stop ≤ sp.start ∨ sp.stop ≤ t.start
  le : sp.start ≤ sp.stop
  inside : sp.stop ≤ length

theorem spanOf_from {offset length : ℕ} {done rest : List Token} (h : InOrder (done ++ rest))
    (hlen : ∀ t ∈ done ++ rest, t.stop ≤ length) {i : ℕ} {sp : StatementSpan}
    (hstart : sp.start = 0 ∨ ∃ t ∈ done, t.kind.isSemi = true ∧ t.stop = sp.start ∧ t.stop ≤ offset)
    (hclear : ∀ t ∈ done, t.kind.isSemi = true → t.stop ≤ sp.start) (hstop : sp.stop = length) :
    SpanOf (done ++ rest) offset length (statementAtFrom offset i rest sp) := by
  induction rest generalizing done i sp with
  | nil =>
    have hle : sp.start ≤ length := by
      rcases hstart with h0 | ⟨t, ht, -, h1, -⟩
      · omega
      · exact h1 ▸ hlen t (by simp [ht])
    refine ⟨hstart.imp_right ?_, .inl hstop, fun t ht hs => .inl (hclear t (by simpa using ht) hs),
      by rw [statementAtFrom, hstop]; exact hle, hstop.le⟩
    exact fun ⟨t, ht, h1⟩ => ⟨t, by simpa using ht, h1⟩
  | cons x xs ih =>
    have hassoc : done ++ x :: xs = (done ++ [x]) ++ xs := by simp
    have hp := List.pairwise_append.mp h.apart
    have hx := List.pairwise_cons.mp hp.2.1
    have hxlt := h.nonempty x (by simp)
    rw [statementAtFrom]
    by_cases hs : x.kind.isSemi = true
    · rw [if_pos hs]
      by_cases ho : x.stop ≤ offset
      · rw [if_pos ho, hassoc]
        rw [hassoc] at h hlen
        refine ih h hlen (.inr ⟨x, by simp, hs, rfl, ho⟩) (fun t ht _ => ?_) hstop
        rcases List.mem_append.mp ht with ht | ht
        · exact (hp.2.2 t ht x (by simp)).trans hxlt.le
        · rw [List.mem_singleton.mp ht]
      · rw [if_neg ho]
        refine ⟨hstart.imp_right fun ⟨t, ht, h1⟩ => ⟨t, by simp [ht], h1⟩,
          .inr ⟨x, by simp, hs, rfl, Nat.lt_of_not_le ho⟩, fun t ht hts => ?_, ?_, ?_⟩
        · rcases List.mem_append.mp ht with ht | ht
          · exact .inl (hclear t ht hts)
          · rcases List.mem_cons.mp ht with rfl | ht
            · exact .inr le_rfl
            · exact .inr (hxlt.le.trans (hx.1 t ht))
        · rcases hstart with h0 | ⟨t, ht, -, h1, -⟩
          · simp [h0]
          · exact h1 ▸ hp.2.2 t ht x (by simp)
        · exact hxlt.le.trans (hlen x (by simp))
    · rw [if_neg hs, hassoc]
      rw [hassoc] at h hlen
      refine ih h hlen (hstart.imp_right fun ⟨t, ht, h1⟩ => ⟨t, by simp [ht], h1⟩)
        (fun t ht hts => ?_) hstop
      rcases List.mem_append.mp ht with ht | ht
      · exact hclear t ht hts
      · rw [List.mem_singleton.mp ht] at hts
        exact absurd hts hs

theorem spanOf_statementAt {ts : List Token} (h : InOrder ts) {length : ℕ}
    (hlen : ∀ t ∈ ts, t.stop ≤ length) (offset : ℕ) :
    SpanOf ts offset length (statementAt ts offset length) :=
  @spanOf_from offset length [] ts h hlen 0 _ (.inl rfl) (by simp) rfl

end Span

section Trim

theorem takeWhile_length_le {α : Type*} {p : α → Bool} {l : List α} {k : ℕ} (hk : k < l.length)
    (hp : p l[k] = false) : (l.takeWhile p).length ≤ k := by
  by_contra hlt
  have hk' : k < (l.takeWhile p).length := Nat.lt_of_not_le hlt
  have hin : p (l.takeWhile p)[k] = true := List.mem_takeWhile_imp (List.getElem_mem hk')
  rw [(List.takeWhile_prefix p).getElem hk', hp] at hin
  exact absurd hin (by decide)

theorem lt_trimEnd_length {α : Type*} {p : α → Bool} {l : List α} {k : ℕ} (hk : k < l.length)
    (hp : p l[k] = false) : k < (l.reverse.dropWhile p).length := by
  have hlt : l.length - 1 - k < l.reverse.length := by
    rw [List.length_reverse]
    omega
  have hrev : l.reverse[l.length - 1 - k] = l[k] := by
    rw [List.getElem_reverse]
    congr 1
    omega
  have hle := takeWhile_length_le (p := p) (l := l.reverse) (k := l.length - 1 - k) (by simp; omega)
    (by rw [hrev]; exact hp)
  have hsum := congrArg List.length (List.takeWhile_append_dropWhile (p := p) (l := l.reverse))
  rw [List.length_append, List.length_reverse] at hsum
  omega

theorem slice_length {s : Text} {b e : ℕ} (he : e ≤ s.length) : (slice s b e).length = e - b := by
  rw [slice, List.length_take, List.length_drop]
  omega

theorem lt_of_slice {s : Text} {b e k : ℕ} (hk : k < (slice s b e).length) : b + k < s.length := by
  rw [slice, List.length_take, List.length_drop] at hk
  omega

theorem slice_getElem {s : Text} {b e k : ℕ} (hk : k < (slice s b e).length) :
    (slice s b e)[k] = s.get ⟨b + k, lt_of_slice hk⟩ := by
  simp [slice]

/-- Trimming a stretch keeps its non-blank bytes, and what it keeps ends in one. -/
structure Trims (s : Text) (lo hi : ℕ) (r : ℕ × ℕ) : Prop where
  start_ge : lo ≤ r.1
  le : r.1 ≤ r.2
  stop_le : r.2 ≤ hi
  keeps : ∀ j (hj : j < s.length), lo ≤ j → j < hi → isspace s[j] = false → r.1 ≤ j ∧ j < r.2
  last : r.1 < r.2 → ∃ h : r.2 - 1 < s.length, isspace s[r.2 - 1] = false

theorem trims_slice {s : Text} {lo hi : ℕ} (hle : lo ≤ hi) (hhi : hi ≤ s.length) :
    let start := lo + ((slice s lo hi).takeWhile isspace).length
    Trims s lo hi (start, start + ((slice s start hi).reverse.dropWhile isspace).length) := by
  intro start
  have hlen := slice_length (b := lo) hhi
  have hlen' := slice_length (b := start) hhi
  have htake : ((slice s lo hi).takeWhile isspace).length ≤ hi - lo :=
    (List.takeWhile_sublist _).length_le.trans hlen.le
  have htrim : ((slice s start hi).reverse.dropWhile isspace).length ≤ hi - start :=
    ((List.dropWhile_sublist _).length_le.trans (by simp)).trans hlen'.le
  have hstart : lo ≤ start ∧ start ≤ hi := ⟨Nat.le_add_right _ _, by omega⟩
  refine ⟨hstart.1, Nat.le_add_right _ _, by simp only; omega, fun j hj h1 h2 hns => ?_, fun hlt => ?_⟩
  · have hjs : start ≤ j := by
      have := @takeWhile_length_le _ isspace (slice s lo hi) (j - lo) (by omega)
        (by rw [slice_getElem]; simpa [Nat.add_sub_cancel' h1] using hns)
      omega
    have := @lt_trimEnd_length _ isspace (slice s start hi) (j - start) (by omega)
      (by rw [slice_getElem]; simpa [Nat.add_sub_cancel' hjs] using hns)
    simp only
    omega
  · -- the trimmed stretch reversed starts with a byte that is no blank
    simp only at hlt ⊢
    obtain ⟨c, cs, hcs⟩ : ∃ c cs, (slice s start hi).reverse.dropWhile isspace = c :: cs := by
      cases h : (slice s start hi).reverse.dropWhile isspace with
      | nil => simp [h] at hlt
      | cons c cs => exact ⟨c, cs, rfl⟩
    have hc : isspace c = false := by
      have := List.head_dropWhile_not isspace (l := (slice s start hi).reverse) (by simp [hcs])
      simpa [hcs] using this
    have hpre : cs.reverse ++ [c] <+: slice s start hi := by
      have := (List.dropWhile_suffix isspace (l := (slice s start hi).reverse)).reverse
      rwa [hcs, List.reverse_reverse, List.reverse_cons] at this
    have hk : cs.length < (slice s start hi).length := by
      have := hpre.length_le
      simp at this
      omega
    have hget : (slice s start hi)[cs.length] = c := by
      have := hpre.getElem (i := cs.length) (by simp)
      simpa using this.symm
    rw [slice_getElem, List.get_eq_getElem] at hget
    have hpos : start + ((slice s start hi).reverse.dropWhile isspace).length - 1 =
        start + cs.length := by
      rw [hcs]
      rfl
    refine ⟨by omega, ?_⟩
    simp only [hpos, hget, hc]

end Trim

section Law

/-- A byte that is a blank or lies in a comment. -/
def BlankOrComment (s : Text) (type : DatabaseType) (i : ℕ) : Prop :=
  (∃ hi : i < s.length, isspace s[i] = true) ∨
    ∃ t ∈ tokenize s (dialectFor type), t.kind.kind = .comment ∧ t.holds i

/-- A byte between statements: a blank, or in a comment or a semicolon token. -/
def BetweenStatements (s : Text) (type : DatabaseType) (i : ℕ) : Prop :=
  BlankOrComment s type i ∨
    ∃ t ∈ tokenize s (dialectFor type), t.kind.isSemi = true ∧ t.holds i

/-- What the list of ranges promises. -/
structure RangesLaw (s : Text) (type : DatabaseType) : Prop where
  nonempty : ∀ r ∈ statementRanges s type, r.1 < r.2 ∧ r.2 ≤ s.length
  disjoint : (statementRanges s type).Pairwise fun r r' => r.2 ≤ r'.1
  once : ∀ t ∈ tokenize s (dialectFor type), t.kind.kind ≠ .comment → t.kind.isSemi = false →
    ∃! r, r ∈ statementRanges s type ∧ r.1 ≤ t.start ∧ t.stop ≤ r.2
  gaps : ∀ i < s.length, (∀ r ∈ statementRanges s type, ¬(r.1 ≤ i ∧ i < r.2)) →
    BetweenStatements s type i
  semi : (statementRanges s type).IsChain fun r r' =>
    ∃ t ∈ tokenize s (dialectFor type), t.kind.isSemi = true ∧ r.2 ≤ t.start ∧ t.stop ≤ r'.1

/-- What the range under an offset promises where that offset is in a listed range. -/
def AgreesInside (s : Text) (type : DatabaseType) : Prop :=
  ∀ r ∈ statementRanges s type, ∀ o, r.1 ≤ o → o ≤ r.2 →
    let r' := statementRangeAt s o type
    r'.1 ≤ r.1 ∧ r.2 ≤ r'.2 ∧
      ∀ i, (r'.1 ≤ i ∧ i < r.1) ∨ (r.2 ≤ i ∧ i < r'.2) → BlankOrComment s type i

/-- What it promises everywhere. -/
def AgreesEverywhere (s : Text) (type : DatabaseType) : Prop :=
  ∀ o, let r' := statementRangeAt s o type
    (∀ t ∈ tokenize s (dialectFor type), t.kind.isSemi = true → ∀ i, t.holds i →
      ¬(r'.1 ≤ i ∧ i < r'.2)) ∧
    ∀ r₁ ∈ statementRanges s type, ∀ r₂ ∈ statementRanges s type,
      (∃ i, r₁.1 ≤ i ∧ i < r₁.2 ∧ r'.1 ≤ i ∧ i < r'.2) →
      (∃ i, r₂.1 ≤ i ∧ i < r₂.2 ∧ r'.1 ≤ i ∧ i < r'.2) → r₁ = r₂

theorem rangesOf_statements (s : Text) (type : DatabaseType) :
    RangesOf (tokenize s (dialectFor type)) (statementRanges s type) :=
  rangesOf_tokens (inOrder_tokenize _ _)

theorem ordinary_iff {t : TokInfo} : t.ordinary = true ↔ t.kind ≠ .comment ∧ t.isSemi = false := by
  simp [TokInfo.ordinary, and_comm]

theorem rangesLaw (s : Text) (type : DatabaseType) : RangesLaw s type := by
  have h := rangesOf_statements s type
  have hp := tokenize_partitions s (dialectFor type)
  have hapart := h.apart.imp (S := fun r r' => r.2 ≤ r'.1) fun ⟨t, ht, _, h1, h2⟩ =>
    h1.trans ((hp.nonempty t ht).le.trans h2)
  constructor
  · exact fun r hr => ⟨h.nonempty r hr,
      (h.bounds fun t ht => ⟨Nat.zero_le t.start, hp.inside t ht⟩) r hr |>.2⟩
  · exact hapart
  · intro t ht hk hs
    obtain ⟨r, hr, h1, h2⟩ := h.covers t ht (ordinary_iff.mpr ⟨hk, hs⟩)
    refine ⟨r, ⟨hr, h1, h2⟩, fun r' ⟨hr', h3, h4⟩ => ?_⟩
    have hlt := hp.nonempty t ht
    by_contra hne
    rcases pairwise_cases hapart hr hr' with h5 | h5 | h5
    · exact hne h5.symm
    · omega
    · omega
  · intro i hi hout
    rcases byte_cases (dialectFor type) hi with hb | ⟨t, ht, hold⟩
    · exact .inl (.inl ⟨hi, hb⟩)
    · by_cases hs : t.kind.isSemi = true
      · exact .inr ⟨t, ht, hs, hold⟩
      · by_cases hk : t.kind.kind = .comment
        · exact .inl (.inr ⟨t, ht, hk, hold⟩)
        · obtain ⟨r, hr, h1, h2⟩ := h.covers t ht (ordinary_iff.mpr ⟨hk, by simpa using hs⟩)
          exact absurd ⟨h1.trans hold.1, hold.2.trans_le h2⟩ (hout r hr)
  · exact h.apart.isChain

variable (s : Text) (type : DatabaseType) (o : ℕ)

/-- The span that `statementRangeAt` trims. -/
def spanAt : StatementSpan :=
  statementAt (tokenize s (dialectFor type)) (min o s.length) s.length

theorem spanOf_spanAt :
    SpanOf (tokenize s (dialectFor type)) (min o s.length) s.length (spanAt s type o) :=
  spanOf_statementAt (inOrder_tokenize _ _) (tokenize_partitions _ _).inside _

theorem trims_statementRangeAt :
    Trims s (spanAt s type o).start (spanAt s type o).stop (statementRangeAt s o type) :=
  trims_slice (spanOf_spanAt s type o).le (spanOf_spanAt s type o).inside

theorem agreesEverywhere : AgreesEverywhere s type := by
  intro o
  have hsp := spanOf_spanAt s type o
  have htr := trims_statementRangeAt s type o
  refine ⟨fun t ht hs i hold hin => ?_, fun r₁ h1 r₂ h2 ⟨i, hi⟩ ⟨j, hj⟩ => ?_⟩
  · have h1 := htr.start_ge
    have h2 := htr.stop_le
    have h3 := hold.1
    have h4 := hold.2
    rcases hsp.clear t ht hs with h | h <;> omega
  · -- a semicolon between two ranges is outside the span
    have key : ∀ r r' : ℕ × ℕ, (∃ t ∈ tokenize s (dialectFor type), t.kind.isSemi = true ∧
        r.2 ≤ t.start ∧ t.stop ≤ r'.1) → ∀ i j, i < r.2 → (statementRangeAt s o type).1 ≤ i →
        r'.1 ≤ j → j < (statementRangeAt s o type).2 → False := by
      intro r r' ⟨t, ht, hs, ht1, ht2⟩ i j hi hi' hj hj'
      have h1 := htr.start_ge
      have h2 := htr.stop_le
      have h3 := (tokenize_partitions s (dialectFor type)).nonempty t ht
      rcases hsp.clear t ht hs with h | h <;> omega
    rcases pairwise_cases (rangesOf_statements s type).apart h1 h2 with h | h | h
    · exact h
    · exact (key r₁ r₂ h i j hi.2.1 hi.2.2.1 hj.1 hj.2.2.2).elim
    · exact (key r₂ r₁ h j i hj.2.1 hj.2.2.1 hi.1 hi.2.2.2).elim

variable {s type o}

/-- The span under an offset in a listed range holds that range. -/
theorem span_holds_range {r : ℕ × ℕ} (hr : r ∈ statementRanges s type) (h1 : r.1 ≤ o)
    (h2 : o ≤ r.2) : (spanAt s type o).start ≤ r.1 ∧ r.2 ≤ (spanAt s type o).stop := by
  have hsp := spanOf_spanAt s type o
  have h := rangesOf_statements s type
  have hp := tokenize_partitions s (dialectFor type)
  have hin := (rangesLaw s type).nonempty r hr
  have hmin : min o s.length = o := min_eq_left (h2.trans hin.2)
  rw [hmin] at hsp
  constructor
  · rcases hsp.start with h0 | ⟨t, ht, hs, h3, h4⟩
    · omega
    · have := hp.nonempty t ht
      rcases h.semi r hr t ht hs with h5 | h5 <;> omega
  · rcases hsp.stop with h0 | ⟨t, ht, hs, h3, h4⟩
    · omega
    · rcases h.semi r hr t ht hs with h5 | h5 <;> omega

/-- Inside the span of a listed range, what lies outside the range is blank or comment. -/
theorem span_blank {r : ℕ × ℕ} (hr : r ∈ statementRanges s type) (h1 : r.1 ≤ o) (h2 : o ≤ r.2)
    {i : ℕ} (hi : (spanAt s type o).start ≤ i ∧ i < (spanAt s type o).stop)
    (hout : i < r.1 ∨ r.2 ≤ i) : BlankOrComment s type i := by
  have hsp := spanOf_spanAt s type o
  have h := rangesOf_statements s type
  have hp := tokenize_partitions s (dialectFor type)
  have hhold := span_holds_range hr h1 h2
  have hrlt := h.nonempty r hr
  have his : i < s.length := hi.2.trans_le hsp.inside
  rcases byte_cases (dialectFor type) his with hb | ⟨t, ht, hold⟩
  · exact .inl ⟨his, hb⟩
  by_cases hk : t.kind.kind = .comment
  · exact .inr ⟨t, ht, hk, hold⟩
  exfalso
  have hold1 := hold.1
  have hold2 := hold.2
  by_cases hs : t.kind.isSemi = true
  · rcases hsp.clear t ht hs with h3 | h3 <;> omega
  · -- the token is in a range, and a semicolon between that range and `r` is in the span
    obtain ⟨r', hr', h3, h4⟩ := h.covers t ht (ordinary_iff.mpr ⟨hk, by simpa using hs⟩)
    rcases pairwise_cases h.apart hr hr' with h5 | ⟨u, hu, hus, h5, h6⟩ | ⟨u, hu, hus, h5, h6⟩
    · subst h5
      omega
    · have := hp.nonempty u hu
      rcases hsp.clear u hu hus with h7 | h7 <;> omega
    · have := hp.nonempty u hu
      rcases hsp.clear u hu hus with h7 | h7 <;> omega

/-- A text that ends in a blank inside a string or a quoted identifier. -/
def EndsBlankInside (s : Text) (type : DatabaseType) : Prop :=
  (∃ t, (tokenize s (dialectFor type)).getLast? = some t ∧ t.kind.kind ≠ .comment ∧
    t.kind.closed = false) ∧ ∃ c, s.getLast? = some c ∧ isspace c = true

theorem last_of_range {r : ℕ × ℕ} (hr : r ∈ statementRanges s type)
    (hend : ¬EndsBlankInside s type) : ∃ h : r.2 - 1 < s.length, isspace s[r.2 - 1] = false := by
  obtain ⟨t, ht, ho, he⟩ := (rangesOf_statements s type).last r hr
  obtain ⟨hk, -⟩ := ordinary_iff.mp ho
  rw [← he]
  by_cases hcl : t.kind.closed = true
  · exact (token_last ht (whole_of_not_comment ht hk hcl)).imp fun _ h => h.1
  · have hlast := (tokenize_partitions s _).open_last t ht (by simpa using hcl)
    have hlt := start_lt_stop ht
    have hne : s ≠ [] := by
      rintro rfl
      simp [hlast.1] at hlt
    refine ⟨by omega, Bool.eq_false_iff.mpr fun hsp => hend ⟨⟨t, hlast.2, hk, by simpa using hcl⟩, ?_⟩⟩
    refine ⟨_, List.getLast?_eq_some_getLast hne, ?_⟩
    rw [List.getLast_eq_getElem]
    simpa [hlast.1] using hsp

theorem agreesInside (hend : ¬EndsBlankInside s type) : AgreesInside s type := by
  intro r hr o h1 h2
  have htr := trims_statementRangeAt s type o
  have hspan := span_holds_range hr h1 h2
  have hlt := (rangesOf_statements s type).nonempty r hr
  have hin := (rangesLaw s type).nonempty r hr
  obtain ⟨t, ht, -, hte⟩ := (rangesOf_statements s type).first r hr
  obtain ⟨hf1, hf2⟩ := token_first ht
  obtain ⟨hl1, hl2⟩ := last_of_range hr hend
  have hfirst := htr.keeps t.start hf1 (by omega) (by omega) hf2
  have hlast := htr.keeps (r.2 - 1) hl1 (by omega) (by omega) hl2
  refine ⟨by omega, by omega, fun i hi => ?_⟩
  have h3 := htr.start_ge
  have h4 := htr.stop_le
  exact span_blank hr h1 h2 (by omega) (by omega)

theorem not_agreesInside (hend : EndsBlankInside s type) : ¬AgreesInside s type := by
  obtain ⟨⟨t, hlast, hk, hcl⟩, c, hc, hblank⟩ := hend
  have ht : t ∈ tokenize s (dialectFor type) := List.mem_of_getLast? hlast
  have hstop := stop_of_open ht hcl
  have hsemi : t.kind.isSemi = false :=
    Bool.eq_false_iff.mpr fun hs => absurd (whole_of_isSemi ht hs).1 (by simp [hcl])
  obtain ⟨r, hr, h1, h2⟩ := (rangesOf_statements s type).covers t ht (ordinary_iff.mpr ⟨hk, hsemi⟩)
  have hin := (rangesLaw s type).nonempty r hr
  intro hag
  obtain ⟨h3, h4, -⟩ := hag r hr r.1 le_rfl hin.1.le
  have htr := trims_statementRangeAt s type r.1
  obtain ⟨hl1, hl2⟩ := htr.last (by omega)
  have hsp := spanOf_spanAt s type r.1
  have h5 := htr.stop_le
  have h6 := hsp.inside
  have hpos : (statementRangeAt s r.1 type).2 - 1 = s.length - 1 := by omega
  rw [List.getLast?_eq_getElem?, List.getElem?_eq_getElem (by omega), Option.some_inj] at hc
  simp only [hpos, hc, hblank] at hl2
  exact absurd hl2 (by decide)

/-- The list of statements and the statement under the cursor agree, unless the text ends in a
blank inside a literal. -/
theorem statementRanges_law (s : Text) (type : DatabaseType) :
    (RangesLaw s type ∧ AgreesInside s type ∧ AgreesEverywhere s type) ↔
      ¬EndsBlankInside s type := by
  refine ⟨fun h hend => not_agreesInside hend h.2.1, fun hend => ?_⟩
  exact ⟨rangesLaw s type, agreesInside hend, agreesEverywhere s type⟩

/-- `SELECT 'a ` is listed as all ten bytes, and under the cursor it is the first nine. -/
theorem unclosed_literal_trimmed :
    statementRanges "SELECT 'a ".toList .SQLITE = [(0, 10)] ∧
      statementRangeAt "SELECT 'a ".toList 0 .SQLITE = (0, 9) ∧
      ¬AgreesInside "SELECT 'a ".toList .SQLITE := by
  have h1 : statementRanges "SELECT 'a ".toList .SQLITE = [(0, 10)] := by decide
  have h2 : statementRangeAt "SELECT 'a ".toList 0 .SQLITE = (0, 9) := by decide
  refine ⟨h1, h2, fun h => ?_⟩
  have h3 := (h (0, 10) (by rw [h1]; simp) 0 le_rfl (Nat.zero_le _)).2.1
  rw [h2] at h3
  exact absurd h3 (by decide)

end Law

section Alone

variable {s : Text} {type : DatabaseType}

/-- No token goes over a place where an ordinary token of a listed range ends or starts. -/
theorem seam_start {d : Dialect} {t : Token} (ht : t ∈ tokenize s d) :
    SeamAt (fun _ => True) t.start (tokenize s d) := fun x hx => by
  have h1 := start_lt_stop hx
  have h2 := start_lt_stop ht
  rcases tokens_apart hx ht with rfl | h | h
  · exact ⟨.inr le_rfl, fun _ => trivial⟩
  · exact ⟨.inl h, fun _ => trivial⟩
  · exact ⟨.inr (by omega), fun _ => trivial⟩

theorem seam_stop {d : Dialect} {t : Token} (ht : t ∈ tokenize s d) :
    SeamAt (fun _ => True) t.stop (tokenize s d) := fun x hx => by
  have h1 := start_lt_stop hx
  have h2 := start_lt_stop ht
  rcases tokens_apart hx ht with rfl | h | h
  · exact ⟨.inl le_rfl, fun _ => trivial⟩
  · exact ⟨.inl (by omega), fun _ => trivial⟩
  · exact ⟨.inr h, fun _ => trivial⟩

theorem lastOf_eq_getLast? {α : Type*} (r : List α) (prev : Option α) :
    lastOf prev r = r.getLast?.or prev := by
  induction r generalizing prev with
  | nil => rfl
  | cons c cs ih => rw [lastOf_cons, ih, List.getLast?_cons]; cases cs.getLast? <;> rfl

/-- What stands before a listed range changes nothing about its first token. -/
theorem neutral_before {r : ℕ × ℕ} (hr : r ∈ statementRanges s type) :
    Neutral (lastOf none (s.take r.1)) := by
  have h := rangesOf_statements s type
  have hin := (rangesLaw s type).nonempty r hr
  obtain ⟨f, hf, -, hfe⟩ := h.first r hr
  rcases Nat.eq_zero_or_pos r.1 with h0 | hpos
  · simpa [h0] using neutral_none
  have hi : r.1 - 1 < s.length := by omega
  have hlast : lastOf none (s.take r.1) = some s[r.1 - 1] := by
    rw [lastOf_eq_getLast?, List.getLast?_take, if_neg (by omega), List.getElem?_eq_getElem hi]
    rfl
  rw [hlast]
  rcases byte_cases (dialectFor type) hi with hb | ⟨t, ht, hold⟩
  · exact neutral_of_isspace hb
  have hstop : t.stop = r.1 := by
    have h1 := hold.1
    have h2 := hold.2
    have h4 := start_lt_stop hf
    rcases tokens_apart ht hf with rfl | h3 | h3 <;> omega
  have hget : t.stop - 1 = r.1 - 1 := by omega
  have hwhole : t.kind.whole → t.kind.kind = .comment → Neutral (some s[r.1 - 1]) := by
    intro hw hk
    obtain ⟨h1, -, h2⟩ := token_last ht hw
    have h3 := h2 hk
    simp only [hget] at h3
    rw [h3]
    rintro p ⟨⟩
    decide
  by_cases hs : t.kind.isSemi = true
  · obtain ⟨-, h1, h2⟩ := semi_scan ht hs
    have h3 : t.start = r.1 - 1 := by omega
    rw [h3, List.getElem?_eq_getElem hi, Option.some_inj] at h2
    rw [h2]
    rintro p ⟨⟩
    decide
  by_cases hk : t.kind.kind = .comment
  · refine hwhole ⟨?_, ?_⟩ hk
    · by_contra ho
      have := stop_of_open ht (by simpa using ho)
      omega
    · -- a line comment stops before a line feed, which starts no token
      refine Bool.eq_false_iff.mpr fun hl => ?_
      have hlf := lineComment_stop ht hl (by omega)
      obtain ⟨hf1, hf2⟩ := token_first hf
      rw [List.getElem?_eq_getElem (by omega), Option.some_inj] at hlf
      simp only [hstop] at hlf
      simp only [hfe, hlf] at hf2
      exact absurd hf2 (by decide)
  · obtain ⟨r', hr', h1, h2⟩ := h.covers t ht (ordinary_iff.mpr ⟨hk, by simpa using hs⟩)
    have h3 := start_lt_stop ht
    rcases pairwise_cases h.apart hr hr' with rfl | ⟨u, hu, hus, h4, h5⟩ | ⟨u, hu, hus, h4, h5⟩
    · omega
    · have := start_lt_stop hu
      omega
    · have := start_lt_stop hu
      omega

/-- The tokens of a listed range by itself are its own tokens. -/
theorem tokens_split {r : ℕ × ℕ} (hr : r ∈ statementRanges s type) :
    ∃ xs ys, (∀ x ∈ xs, x.stop ≤ r.1) ∧ (∀ y ∈ ys, r.2 ≤ y.start) ∧
      tokenize s (dialectFor type) =
        xs ++ (tokenize (slice s r.1 r.2) (dialectFor type)).map (Lexeme.shift r.1) ++ ys := by
  have h := rangesOf_statements s type
  have hin := (rangesLaw s type).nonempty r hr
  obtain ⟨f, hf, -, hfe⟩ := h.first r hr
  obtain ⟨l, hl, -, hle⟩ := h.last r hr
  have hs : s = s.take r.1 ++ slice s r.1 r.2 ++ s.drop r.2 := by
    rw [slice, List.append_assoc, show s.drop r.2 = (s.drop r.1).drop (r.2 - r.1) by
      rw [List.drop_drop]; congr 1; omega, List.take_append_drop, List.take_append_drop]
  have hu : (s.take r.1).length = r.1 := List.length_take_of_le (by omega)
  have hw : (s.take r.1 ++ slice s r.1 r.2).length = r.2 := by
    rw [List.length_append, hu, slice_length hin.2]
    omega
  have hstart := seam_start hf
  have hstop := seam_stop hl
  rw [hfe] at hstart
  rw [hle] at hstop
  obtain ⟨xs, ys, hxs, hys, hall⟩ := @lexFrom_slice _ _ (scanToken (dialectFor type))
    (bounded_scanToken _) none 0 (s.take r.1) (slice s r.1 r.2) (s.drop r.2)
    (fun p q hq => by
      have := swap_scanToken (dialectFor type) (v := s.drop r.2) Stops.nil p q hq
      exact ⟨this.1, fun t n h1 h2 _ => this.2 t n h1 h2 fun _ => .inl rfl⟩)
    (by rw [← hs, hu, Nat.zero_add]; exact hstart)
    (by rw [← hs, hw, Nat.zero_add]; exact hstop)
  rw [hu, Nat.zero_add] at hxs
  rw [hw, Nat.zero_add] at hys
  rw [← hs, hu, Nat.zero_add, lexFrom_neutral _ (neutral_before hr)] at hall
  exact ⟨xs, ys, hxs, hys, hall⟩

theorem filter_inside {xs ys : List Token} {ts : List Token} {b e : ℕ}
    (hxs : ∀ x ∈ xs, x.start < x.stop ∧ x.stop ≤ b) (hys : ∀ y ∈ ys, e ≤ y.start ∧ y.start < y.stop)
    (hts : ∀ t ∈ ts, b ≤ t.start ∧ t.stop ≤ e) :
    (xs ++ ts ++ ys).filter (fun t => b ≤ t.start ∧ t.stop ≤ e) = ts := by
  have h1 : xs.filter (fun t => decide (b ≤ t.start ∧ t.stop ≤ e)) = [] :=
    List.filter_eq_nil_iff.mpr fun x hx => by
      have := hxs x hx
      simp
      omega
  have h2 : ys.filter (fun t => decide (b ≤ t.start ∧ t.stop ≤ e)) = [] :=
    List.filter_eq_nil_iff.mpr fun y hy => by
      have := hys y hy
      simp
      omega
  have h3 : ts.filter (fun t => decide (b ≤ t.start ∧ t.stop ≤ e)) = ts :=
    List.filter_eq_self.mpr fun t ht => by simpa using hts t ht
  rw [List.filter_append, List.filter_append, h1, h2, h3, List.nil_append, List.append_nil]

def Lexing.Lexeme.unshift {τ : Type*} (k : ℕ) (x : Lexeme τ) : Lexeme τ :=
  ⟨x.kind, x.start - k, x.stop - k⟩

theorem Lexing.Lexeme.unshift_shift {τ : Type*} (k : ℕ) (x : Lexeme τ) :
    (x.shift k).unshift k = x := by
  cases x
  simp [Lexeme.shift, Lexeme.unshift]

theorem tokenize_range {r : ℕ × ℕ} (hr : r ∈ statementRanges s type) :
    (tokenize s (dialectFor type)).filter (fun t => r.1 ≤ t.start ∧ t.stop ≤ r.2) =
      (tokenize (slice s r.1 r.2) (dialectFor type)).map (Lexeme.shift r.1) := by
  have hin := (rangesLaw s type).nonempty r hr
  have hp := tokenize_partitions s (dialectFor type)
  have hp' := tokenize_partitions (slice s r.1 r.2) (dialectFor type)
  obtain ⟨xs, ys, hxs, hys, hall⟩ := tokens_split hr
  rw [hall]
  have hmem : ∀ t ∈ xs ++ (tokenize (slice s r.1 r.2) (dialectFor type)).map (Lexeme.shift r.1) ++ ys,
      t.start < t.stop := fun t ht => hp.nonempty t (by rw [hall]; exact ht)
  refine filter_inside (fun x hx => ⟨hmem x (by simp [hx]), hxs x hx⟩)
    (fun y hy => ⟨hys y hy, hmem y (by simp [hy])⟩) fun t ht => ?_
  obtain ⟨u, hu, rfl⟩ := List.mem_map.mp ht
  have := hp'.inside u hu
  rw [slice_length hin.2] at this
  simp only [Lexeme.shift_start, Lexeme.shift_stop]
  omega

theorem range_alone {r : ℕ × ℕ} (hr : r ∈ statementRanges s type) :
    statementRanges (slice s r.1 r.2) type = [(0, r.2 - r.1)] := by
  have h := rangesOf_statements s type
  have h' := rangesOf_statements (slice s r.1 r.2) type
  have hp := tokenize_partitions s (dialectFor type)
  have hlaw := (rangesLaw (slice s r.1 r.2) type).nonempty
  have hin := (rangesLaw s type).nonempty r hr
  have hlen := slice_length (b := r.1) hin.2
  have hfilter := tokenize_range hr
  -- a token of the range is one of the slice
  have hmove : ∀ t ∈ tokenize s (dialectFor type), r.1 ≤ t.start → t.stop ≤ r.2 →
      ∃ u ∈ tokenize (slice s r.1 r.2) (dialectFor type), u.shift r.1 = t := by
    intro t ht h1 h2
    have hmem : t ∈ (tokenize s (dialectFor type)).filter
        (fun t => r.1 ≤ t.start ∧ t.stop ≤ r.2) := by simp [ht, h1, h2]
    rw [hfilter] at hmem
    simpa using hmem
  have hback : ∀ u ∈ tokenize (slice s r.1 r.2) (dialectFor type),
      u.shift r.1 ∈ tokenize s (dialectFor type) ∧ (u.shift r.1).stop ≤ r.2 := by
    intro u hu
    have hmem := List.mem_map_of_mem (f := Lexeme.shift r.1) hu
    rw [← hfilter] at hmem
    obtain ⟨h1, h2⟩ := List.mem_filter.mp hmem
    exact ⟨h1, (of_decide_eq_true h2).2⟩
  obtain ⟨f, hf, hfo, hfe⟩ := h.first r hr
  obtain ⟨l, hl, hlo, hle⟩ := h.last r hr
  have hfl := hp.nonempty f hf
  have hll := hp.nonempty l hl
  have hlf : f.stop ≤ r.2 ∧ r.1 ≤ l.start := by
    rcases tokens_apart hf hl with rfl | h1 | h1 <;> omega
  obtain ⟨f', hf', hfs⟩ := hmove f hf hfe.ge hlf.1
  obtain ⟨l', hl', hls⟩ := hmove l hl hlf.2 hle.le
  obtain ⟨a, ha, ha1, -⟩ := h'.covers f' hf' (by rw [← Lexeme.shift_kind r.1, hfs]; exact hfo)
  obtain ⟨b, hb, -, hb2⟩ := h'.covers l' hl' (by rw [← Lexeme.shift_kind r.1, hls]; exact hlo)
  -- the range has no semicolon, so the slice has one range
  have hone : ∃ x, statementRanges (slice s r.1 r.2) type = [x] := by
    have happ := h'.apart
    cases hx : statementRanges (slice s r.1 r.2) type with
    | nil => simp [hx] at ha
    | cons x xs =>
      cases xs with
      | nil => exact ⟨x, rfl⟩
      | cons y ys =>
        rw [hx] at happ
        obtain ⟨u, hu, hus, -⟩ := (List.pairwise_cons.mp happ).1 y (by simp)
        obtain ⟨h1, h2⟩ := hback u hu
        have h3 := hp.nonempty _ h1
        rcases h.semi r hr _ h1 hus with h4 | h4 <;> simp only [Lexeme.shift_start, Lexeme.shift_stop] at * <;> omega
  obtain ⟨x, hx⟩ := hone
  rw [hx, List.mem_singleton] at ha hb
  subst ha hb
  have hfs' := congrArg Lexeme.start hfs
  have hls' := congrArg Lexeme.stop hls
  rw [Lexeme.shift_start] at hfs'
  rw [Lexeme.shift_stop] at hls'
  have hbound := hlaw b (by rw [hx]; simp)
  rw [hx]
  congr 1
  ext <;> simp only <;> omega

/-- A listed range tokenized by itself gives the tokens it has in the text, and is one statement. -/
theorem statement_alone (s : Text) (type : DatabaseType) (r : ℕ × ℕ)
    (hr : r ∈ statementRanges s type) :
    tokenize (slice s r.1 r.2) (dialectFor type) =
        ((tokenize s (dialectFor type)).filter fun t => r.1 ≤ t.start ∧ t.stop ≤ r.2).map
          (Lexeme.unshift r.1) ∧
      statementRanges (slice s r.1 r.2) type = [(0, r.2 - r.1)] := by
  refine ⟨?_, range_alone hr⟩
  rw [tokenize_range hr, List.map_map]
  simp only [Function.comp_def, Lexeme.unshift_shift, List.map_id']

theorem statement_alone_second :
    (3, 6) ∈ statementRanges "a; b.5;c".toList .POSTGRESQL ∧
      statementRanges (slice "a; b.5;c".toList 3 6) .POSTGRESQL = [(0, 3)] :=
  ⟨by decide, (statement_alone "a; b.5;c".toList .POSTGRESQL (3, 6) (by decide)).2⟩

end Alone
end DearSql
