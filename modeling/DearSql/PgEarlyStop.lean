import DearSql.PgExecute
import DearSql.PgLexer

/-! The early stop cancels a batch that `stoppableRead` takes for one read statement.
That is decided on the tokens of the completion engine; here it is compared with the
statements the server's own lexer finds. -/
namespace DearSql.Pg
open Lexing

/-- A separator the server sees where the repository's tokenizer sees none, with more of
the batch behind it. -/
def HiddenSeparator (sql : Text) : Prop :=
  ∃ x ∈ pgTokens sql, isSemi x = true ∧
    (∀ t ∈ tokenize sql (dialectFor .POSTGRESQL), t.kind.isSemi = true → t.start ≠ x.start) ∧
    ∃ y ∈ pgCode sql, isSemi y = false ∧ x.start < y.start

section Range

theorem statementAtFrom_zero (i : ℕ) (ts : List Token) (span : StatementSpan)
    (hpos : ∀ t ∈ ts, 0 < t.stop) (hinc : ts.Pairwise fun x y => x.start < y.start) :
    (statementAtFrom 0 i ts span).start = span.start ∧
      ∀ t ∈ ts, t.kind.isSemi = true → (statementAtFrom 0 i ts span).stop ≤ t.start := by
  induction ts generalizing i with
  | nil => simp [statementAtFrom]
  | cons t ts ih =>
    have hp := hpos t (by simp)
    rw [List.pairwise_cons] at hinc
    by_cases hs : t.kind.isSemi = true
    · have hne : ¬ t.stop ≤ 0 := by omega
      rw [statementAtFrom, if_pos hs, if_neg hne]
      refine ⟨rfl, fun u hu _ => ?_⟩
      rcases List.mem_cons.mp hu with rfl | hu
      · exact le_rfl
      · exact (hinc.1 u hu).le
    · simp only [statementAtFrom, hs]
      have h := ih (i + 1) (fun u hu => hpos u (by simp [hu])) hinc.2
      refine ⟨h.1, fun u hu husemi => ?_⟩
      rcases List.mem_cons.mp hu with rfl | hu
      · exact absurd husemi hs
      · exact h.2 u hu husemi

/-- What `stoppableRead` has seen: blanks, a read word, and after the first separator
nothing but blanks and separators. -/
structure StoppableShape (sql gap word tail : Text) (stop : ℕ) : Prop where
  text : sql = gap ++ (word ++ tail)
  blank : ∀ c ∈ gap, isspace c = true
  letters : ∀ c ∈ word, isalpha c = true
  tail_head : ∀ c cs, tail = c :: cs → isalpha c = false
  read : lower word = "select".toList ∨ lower word = "table".toList ∨ lower word = "values".toList
  rest : ∀ c ∈ sql.drop stop, c = ';' ∨ isspace c = true
  separators : ∀ t ∈ tokenize sql (dialectFor .POSTGRESQL), t.kind.isSemi = true → stop ≤ t.start

theorem stoppableShape {sql : Text} (h : stoppableRead sql = true) :
    ∃ gap word tail stop, StoppableShape sql gap word tail stop := by
  set ts := tokenize sql (dialectFor .POSTGRESQL) with hts
  set span := statementAt ts 0 sql.length with hspan
  obtain ⟨hstart, hstop⟩ := statementAtFrom_zero 0 ts
    { start := 0, stop := sql.length, firstTok := 0, lastTok := ts.length }
    (fun t ht => Nat.zero_lt_of_lt (start_lt_stop ht)) (starts_increasing none 0 0 sql)
  have hs0 : span.start = 0 := hstart
  set gap := (slice sql 0 span.stop).takeWhile isspace with hgap
  set body := ((slice sql gap.length span.stop).reverse.dropWhile isspace).length with hbody
  have hrange : statementRangeAt sql 0 .POSTGRESQL = (gap.length, gap.length + body) := by
    simp only [statementRangeAt, Nat.zero_min, ← hts, ← hspan, hs0, Nat.zero_add, ← hgap, ← hbody]
  simp only [stoppableRead, hrange, Bool.and_eq_true, Bool.or_eq_true, decide_eq_true_eq,
    List.all_eq_true] at h
  obtain ⟨hrest, hread⟩ := h
  have hpre : gap <+: sql :=
    (List.takeWhile_prefix _).trans (by simpa [slice] using List.take_prefix span.stop sql)
  have hdrop : sql = gap ++ sql.drop gap.length := by
    obtain ⟨t, ht⟩ := hpre
    rw [← ht]
    simp
  set part := slice sql gap.length (gap.length + body) with hpart
  have hsplit : sql.drop gap.length = part ++ sql.drop (gap.length + body) := by
    rw [hpart, slice, Nat.add_sub_cancel_left, ← List.drop_drop, List.take_append_drop]
  refine ⟨gap, part.takeWhile isalpha,
    part.dropWhile isalpha ++ sql.drop (gap.length + body), gap.length + body, ?_, ?_, ?_, ?_,
    ?_, hrest, ?_⟩
  · rw [← List.append_assoc (part.takeWhile _), List.takeWhile_append_dropWhile, ← hsplit,
      ← hdrop]
  · exact fun c hc => List.mem_takeWhile_imp hc
  · exact fun c hc => List.mem_takeWhile_imp hc
  · intro c cs ht
    cases hd : part.dropWhile isalpha with
    | nil =>
      rw [hd, List.nil_append] at ht
      rcases hrest c (by simp [ht]) with rfl | hsp
      · decide
      · by_contra ha
        rw [Bool.not_eq_false] at ha
        rw [isspace_ne_of_isalpha ha] at hsp
        exact Bool.false_ne_true hsp
    | cons d ds =>
      rw [hd, List.cons_append] at ht
      obtain ⟨rfl, _⟩ := List.cons.inj ht
      have hh := List.head?_dropWhile_not isalpha part
      simpa [hd] using hh
  · rcases hread with (h1 | h1) | h1
    · exact Or.inl h1
    · exact Or.inr (Or.inl h1)
    · exact Or.inr (Or.inr h1)
  · intro t ht hsemi
    have h1 : gap.length ≤ span.stop := by
      have hle : gap.length ≤ (slice sql 0 span.stop).length :=
        (List.takeWhile_prefix isspace).length_le
      simp only [slice, List.length_take, Nat.sub_zero] at hle
      omega
    have h2 : body ≤ span.stop - gap.length := by
      have hle : body ≤ (slice sql gap.length span.stop).reverse.length :=
        (List.dropWhile_suffix isspace).length_le
      simp only [List.length_reverse, slice, List.length_take] at hle
      omega
    have h3 : span.stop ≤ t.start := hstop t ht hsemi
    omega

end Range

section Agreement
variable {sql gap word tail : Text} {stop : ℕ}

theorem cstr_prefix_self (sql : Text) : cstr sql <+: sql := List.takeWhile_prefix _

theorem ne_nul_of_isspace {c : Char} (h : isspace c = true) : c ≠ '\x00' := by
  rintro rfl
  exact absurd h (by decide)

theorem ne_nul_of_isalpha {c : Char} (h : isalpha c = true) : c ≠ '\x00' := by
  rintro rfl
  exact absurd h (by decide)

theorem StoppableShape.first (h : StoppableShape sql gap word tail stop) :
    ∃ t n ls, pgTokens sql = ⟨.word t, gap.length, n⟩ :: ls ∧
      (t.all isalpha = true → t = word) := by
  have hne : word ≠ [] := by
    rintro rfl
    have := h.read
    simp [lower] at this
  obtain ⟨c, w, rfl⟩ := List.exists_cons_of_ne_nil hne
  have hcstr : cstr sql = gap ++ c :: (w ++ cstr tail) := by
    have h1 : ∀ d ∈ gap, (decide (d ≠ '\x00')) = true := fun d hd => by
      simpa using ne_nul_of_isspace (h.blank d hd)
    have h2 : ∀ d ∈ c :: w, (decide (d ≠ '\x00')) = true := fun d hd => by
      simpa using ne_nul_of_isalpha (h.letters d hd)
    rw [cstr, h.text, List.takeWhile_append_of_pos h1, List.takeWhile_append_of_pos h2]
    rfl
  have he : c ≠ 'e' ∧ c ≠ 'E' := by
    have hr := h.read
    constructor <;> rintro rfl <;> simp [lower] at hr
  obtain ⟨p, ls, hls⟩ := @lex_gap_cons _ _ scanPg gap (w ++ cstr tail) c _ _
    (fun p d ds hd => scanPg_space (h.blank d hd))
    (fun p => scanPg_word (h.letters c (by simp)) he)
  refine ⟨_, _, ls, by rw [pgTokens, hcstr, hls], ?_⟩
  intro hall
  have hw : ∀ d ∈ w, isIdentByte d = true := fun d hd => by
    simp [isIdentByte, isalnum, h.letters d (by simp [hd])]
  rw [List.takeWhile_append_of_pos hw] at hall ⊢
  have hnil : (cstr tail).takeWhile isIdentByte = [] := by
    cases ht : (cstr tail).takeWhile isIdentByte with
    | nil => rfl
    | cons d ds =>
      exfalso
      have hd : isalpha d = true := by
        rw [ht] at hall
        simp only [List.all_cons, List.all_append, Bool.and_eq_true] at hall
        exact hall.2.2.1
      obtain ⟨r, hr⟩ := ((List.takeWhile_prefix isIdentByte).trans (cstr_prefix_self tail) :
        (cstr tail).takeWhile isIdentByte <+: tail)
      rw [ht] at hr
      have := h.tail_head d (ds ++ r) hr.symm
      rw [hd] at this
      exact Bool.false_ne_true this.symm
  rw [hnil, List.append_nil]

/-- From the end of the client's statement on, the server finds separators only. -/
theorem StoppableShape.semi_of_le (h : StoppableShape sql gap word tail stop)
    {x : Lexeme PgTok} (hx : x ∈ pgTokens sql) (hle : stop ≤ x.start) : isSemi x = true := by
  obtain ⟨p, c, rest, n, hd, hscan⟩ := scan_at_start_lex hx
  have hc : c ∈ sql.drop stop := by
    have hmem : c ∈ sql.drop x.start := by
      have hp : (cstr sql).drop x.start <+: sql.drop x.start := (cstr_prefix_self sql).drop _
      exact hp.subset (by simp [hd])
    have : sql.drop x.start = (sql.drop stop).drop (x.start - stop) := by
      rw [List.drop_drop]
      congr 1
      omega
    rw [this] at hmem
    exact List.mem_of_mem_drop hmem
  rcases h.rest c hc with rfl | hsp
  · rw [scanPg_semi] at hscan
    have hk := congrArg Prod.fst (Option.some.inj hscan)
    simp only at hk
    simp [isSemi, ← hk]
  · rw [scanPg_space hsp] at hscan
    exact absurd hscan (by simp)

theorem pgCode_pairwise (sql : Text) :
    (pgCode sql).Pairwise fun x y => x.start < y.start :=
  (starts_increasing none 0 0 (cstr sql)).filter _

theorem mem_after {a b : List (Lexeme PgTok)} {x y : Lexeme PgTok}
    (hp : (a ++ x :: b).Pairwise fun x y => x.start < y.start) (hy : y ∈ a ++ x :: b) :
    x.start < y.start ↔ y ∈ b := by
  rw [List.pairwise_append, List.pairwise_cons] at hp
  constructor
  · intro hxy
    rcases List.mem_append.mp hy with hy | hy
    · have := hp.2.2 y hy x (by simp)
      omega
    · rcases List.mem_cons.mp hy with rfl | hy
      · omega
      · exact hy
  · exact fun hb => hp.2.1.1 y hb

theorem not_oneRead_of_hidden {first : Lexeme PgTok} {code : List (Lexeme PgTok)}
    (hcode : pgCode sql = first :: code) (hfirst : isSemi first = false)
    (h : HiddenSeparator sql) : oneRead sql = false := by
  obtain ⟨x, hx, hsx, -, y, hy, hsy, hxy⟩ := h
  have hxc : x ∈ pgCode sql := by
    refine List.mem_filter.mpr ⟨hx, ?_⟩
    simp only [isSemi, decide_eq_true_eq] at hsx
    simp [isComment, hsx]
  obtain ⟨a, b, hab⟩ := List.append_of_mem hxc
  have hyb : y ∈ b := (mem_after (hab ▸ pgCode_pairwise sql) (hab ▸ hy)).mp hxy
  have hfa : first ∈ a := by
    cases a with
    | nil =>
      rw [hcode, List.nil_append] at hab
      obtain ⟨rfl, _⟩ := List.cons.inj hab
      rw [hsx] at hfirst
      exact absurd hfirst Bool.true_eq_false_eq_False
    | cons d ds =>
      rw [hcode, List.cons_append] at hab
      obtain ⟨rfl, _⟩ := List.cons.inj hab
      simp
  have hno : ∀ g, pgStatements sql ≠ [g] := fun g =>
    groups_ne_singleton g hab hsx hfa hfirst hyb hsy
  unfold oneRead
  split
  · exact absurd ‹_› (hno _)
  · rfl

theorem StoppableShape.group (h : StoppableShape sql gap word tail stop)
    {first : Lexeme PgTok} {code : List (Lexeme PgTok)} (hcode : pgCode sql = first :: code)
    (hfirst : isSemi first = false) (hh : ¬ HiddenSeparator sql) :
    pgStatements sql = [first :: code.takeWhile fun x => !isSemi x] := by
  have hsplit : pgCode sql = first :: code.takeWhile (fun x => !isSemi x) ++
      code.dropWhile fun x => !isSemi x := by
    rw [hcode, List.cons_append, List.takeWhile_append_dropWhile]
  have hstmt : ∀ x ∈ first :: code.takeWhile (fun x => !isSemi x), isSemi x = false := by
    intro x hx
    rcases List.mem_cons.mp hx with rfl | hx
    · exact hfirst
    · simpa using List.mem_takeWhile_imp hx
  refine groups_eq_singleton hsplit (by simp) hstmt ?_
  intro y hy
  cases hd : code.dropWhile fun x => !isSemi x with
  | nil => simp [hd] at hy
  | cons x xs =>
    have hsx : isSemi x = true := by
      have := List.head?_dropWhile_not (fun x => !isSemi x) code
      simpa [hd] using this
    rw [hd] at hy hsplit
    rcases List.mem_cons.mp hy with rfl | hy
    · exact hsx
    by_contra hsy
    have hmemy : y ∈ pgCode sql := by
      rw [hsplit]
      simp [hy]
    have hxy : x.start < y.start :=
      (mem_after (hsplit ▸ pgCode_pairwise sql) (hsplit ▸ hmemy)).mpr hy
    have hylt : y.start < stop := by
      by_contra hge
      exact hsy (h.semi_of_le (List.mem_of_mem_filter hmemy) (by omega))
    have hmemx : x ∈ pgCode sql := by
      rw [hsplit]
      simp
    refine hh ⟨x, List.mem_of_mem_filter hmemx, hsx, ?_, y, hmemy, by simpa using hsy, hxy⟩
    intro u hu hsemi heq
    have := h.separators u hu hsemi
    omega

/-- A text that passes `stoppableRead` and starts a command is a single read exactly when
it hides no separator. -/
theorem oneRead_iff (hs : stoppableRead sql = true) (hc : startsCommand sql = true) :
    oneRead sql = true ↔ ¬ HiddenSeparator sql := by
  obtain ⟨gap, word, tail, stop, h⟩ := stoppableShape hs
  obtain ⟨t, n, ls, htok, htext⟩ := h.first
  have hcode : pgCode sql = ⟨.word t, gap.length, n⟩ :: ls.filter fun x => !isComment x := by
    rw [pgCode, htok]
    rfl
  constructor
  · intro h1 hh
    rw [not_oneRead_of_hidden hcode rfl hh] at h1
    exact Bool.false_ne_true h1
  · intro hh
    have hw : t = word := htext (by simpa [startsCommand, hcode] using hc)
    simp only [oneRead, h.group hcode rfl hh, isRead, hw, Bool.or_eq_true, decide_eq_true_eq]
    rcases h.read with hr | hr | hr
    · exact Or.inl (Or.inl hr)
    · exact Or.inl (Or.inr hr)
    · exact Or.inr hr

end Agreement

/-- The server streams rows only for a text that starts a command of its grammar. -/
def StreamsCommands (srv : Server) (db : PostgresDatabase) (sql : Text) (w : Wire) : Prop :=
  ∀ a ∈ ((db.session srv).roundTrip srv.dflt (srv.read sql) w.answers).2,
    ∀ p ∈ a.pieces, p.status = .tuplesChunk → startsCommand sql = true

def ReadsStatements (srv : Server) (sql : Text) : Prop :=
  (srv.read sql).length = (pgStatements sql).length

section Server

/-- A server that reads the spellings of `readPlainly` and takes any other text apart by
its lexer. -/
def lexServer : Server where
  dflt := []
  read sql :=
    if readPlainly sql = .other then (pgStatements sql).map fun _ => .other
    else [readPlainly sql]
  read_rollback := by decide
  read_currentSchema := by decide
  read_reset := by decide
  read_set n h := by
    rw [readPlainly_pathCommand h.1]
    rfl
  read_pathCommand n := by
    by_cases h : n = []
    · subst h
      exact ⟨.reset, by decide, rfl⟩
    · rw [readPlainly_pathCommand h]
      exact ⟨_, rfl, rfl⟩

theorem not_stoppable_set {sql : Text} (h : stoppableRead sql = true)
    (hp : "SET ".toList <+: sql) : False := by
  obtain ⟨gap, word, tail, stop, hs⟩ := stoppableShape h
  obtain ⟨t, rfl⟩ := hp
  have hgap : gap = [] := by
    cases gap with
    | nil => rfl
    | cons c cs =>
      have ht := hs.text
      rw [List.cons_append] at ht
      have hc : 'S' = c := (List.cons.inj ht).1
      have := hs.blank c (by simp)
      rw [← hc] at this
      exact absurd this (by decide)
  have hlen : 4 ≤ word.length := by
    rcases hs.read with hr | hr | hr
    all_goals
      have := congrArg List.length hr
      simp only [lower, List.length_map] at this
      rw [this]
      decide
  have hfour : word.take 4 = "SET ".toList := by
    have ht := congrArg (List.take 4) hs.text
    rw [hgap, List.nil_append, List.take_append_of_le_length hlen] at ht
    exact ht.symm
  have hmem : ' ' ∈ word := List.mem_of_mem_take (by rw [hfour]; decide)
  exact absurd (hs.letters ' ' hmem) (by decide)

theorem readPlainly_stoppable {sql : Text} (h : stoppableRead sql = true) :
    readPlainly sql = .other := by
  have hset : readSet sql = none := by
    by_contra hne
    apply not_stoppable_set h
    have hp : setPrefix <+: sql := by
      by_contra hn
      rw [← List.isPrefixOf_iff_prefix] at hn
      exact hne (by rw [readSet, if_neg hn])
    exact List.IsPrefix.trans ⟨"search_path TO \"".toList, rfl⟩ hp
  have hschema : readSchema sql = none := by
    by_contra hne
    apply not_stoppable_set h
    have hp : "SET SCHEMA '".toList <+: sql := by
      by_contra hn
      rw [← List.isPrefixOf_iff_prefix] at hn
      exact hne (by rw [readSchema, if_neg hn])
    exact List.IsPrefix.trans ⟨"SCHEMA '".toList, rfl⟩ hp
  have hfind : (spellings.find? fun p => p.1 = sql) = none := by
    rw [List.find?_eq_none]
    intro p hp heq
    have hs : ∀ p ∈ spellings, stoppableRead p.1 = false := by decide
    have := hs p hp
    rw [of_decide_eq_true heq, h] at this
    exact absurd this (by decide)
  simp only [readPlainly, hset, hschema, hfind, Option.map_none, Option.getD_none]

def streamedRows : Answer where
  set := .rows [] [[], []]
  pieces := [tuplesChunk [] [[]], tuplesChunk [] [[]], tuplesOk [] []]
  split := Split.rows [] [[[]], [[]]] []

theorem lexServer_cancelled {sql : Text} (h : stoppableRead sql = true)
    (hne : pgStatements sql ≠ []) :
    (run lexServer {} sql 1 { answers := [streamedRows] }).cancelled = true := by
  obtain ⟨g, gs, hg⟩ := List.exists_cons_of_ne_nil hne
  have hread : lexServer.read sql = .other :: gs.map fun _ => .other := by
    show (if readPlainly sql = .other then (pgStatements sql).map fun _ => Stmt.other
      else [readPlainly sql]) = _
    rw [if_pos (readPlainly_stoppable h), hg]
    rfl
  have hans : (((PostgresDatabase.mk none []).session lexServer).roundTrip lexServer.dflt
      (lexServer.read sql) [streamedRows]).2 =
      streamedRows :: (Session.execBatch lexServer.dflt
        ((Session.fresh lexServer.dflt).beginBatch) (gs.map fun _ => .other) []).2 := by
    rw [hread]
    rfl
  rw [run_sent (fun _ => rfl) rfl]
  simp only [sentRun, hans, h, List.flatMap_cons, collect_append]
  exact collect_stopped _ _ (by decide)

end Server

/-- For every text: each run in which the early stop fires on it finds a single read,
exactly when the text does not pass `stoppableRead` with a separator hidden in it. -/
theorem early_stop_one_read_iff (sql : Text) :
    (∀ (srv : Server) (db : PostgresDatabase) (rowLimit : ℤ) (w : Wire), 0 < rowLimit →
        ReadsStatements srv sql → StreamsCommands srv db sql w →
        (run srv db sql rowLimit w).cancelled = true → oneRead sql = true) ↔
      ¬ (stoppableRead sql = true ∧ startsCommand sql = true ∧ HiddenSeparator sql) := by
  constructor
  · rintro h ⟨hs, hc, hh⟩
    have hone := (oneRead_iff hs hc).not.mpr (not_not.mpr hh)
    obtain ⟨-, -, -, -, y, hy, hsy, -⟩ := hh
    have hne : pgStatements sql ≠ [] := exists_group hy hsy
    refine hone (h lexServer {} 1 { answers := [streamedRows] } one_pos ?_ (fun _ _ _ _ _ => hc)
      (lexServer_cancelled hs hne))
    show (if readPlainly sql = .other then (pgStatements sql).map fun _ => Stmt.other
      else [readPlainly sql]).length = _
    rw [if_pos (readPlainly_stoppable hs), List.length_map]
  · intro h srv db rowLimit w hl _ hstream hcan
    rcases run_cases srv db sql rowLimit w with ⟨_, _, hrun⟩ | ⟨_, hno, _⟩
    · rw [hrun] at hcan
      have hs := (idle_of_cancelled hcan).2
      have hc : startsCommand sql = true := by
        by_contra hne
        have hno : (sentRun srv db sql rowLimit w).cancelled = false := by
          apply collect_no_chunk _ _ rfl
          intro r hr hch
          obtain ⟨a, ha, hra⟩ := List.mem_flatMap.mp hr
          rw [Answer.delivered, if_pos hl] at hra
          exact hne (hstream a ha r hra hch)
        rw [hno] at hcan
        exact Bool.false_ne_true hcan
      exact (oneRead_iff hs hc).mpr fun hh => h ⟨hs, hc, hh⟩
    · rw [hno] at hcan
      exact absurd hcan Bool.false_ne_true

/-- `SELECT E'\'' ; DELETE FROM t --'`: to the tokenizer one string and one read, to the
server a read and a write. -/
def hiddenWrite : Text := "SELECT E'\\''; DELETE FROM t --'".toList

/-- The early stop fires on a batch whose second statement is a write. -/
theorem early_stop_cancels_write :
    ReadsStatements lexServer hiddenWrite ∧
      StreamsCommands lexServer {} hiddenWrite { answers := [streamedRows] } ∧
      (run lexServer {} hiddenWrite 1 { answers := [streamedRows] }).cancelled = true ∧
      oneRead hiddenWrite = false := by
  refine ⟨by rw [ReadsStatements]; decide, fun _ _ _ _ _ => by decide, by decide,
    by decide⟩

end DearSql.Pg
