import DearSql.Statements
import DearSql.Quoting

/-! Scripts of SQLite: the splitter cuts at every semicolon, a trigger holds semicolons. -/
namespace DearSql
open Lexing

section Check

structure SyntaxError where
  message : Text
  offset : ℕ
  deriving DecidableEq, Repr

/-- What `sqlite3_prepare_v2` leaves when it does not return `SQLITE_OK`. -/
structure PrepareError where
  message : Text
  offset : ℤ
  deriving DecidableEq, Repr

def isSqliteSyntaxError (msg : Text) : Bool :=
  "syntax error".toList.isSuffixOf msg || msg = "incomplete input".toList ||
    "unrecognized token".toList.isPrefixOf msg

variable (prepare : Text → Option PrepareError)

/-- One round of the loop of `checkSqlite`. -/
def checkRange (sql : Text) (r : ℕ × ℕ) : Option SyntaxError :=
  match prepare (slice sql r.1 r.2) with
  | none => none
  | some e =>
    if isSqliteSyntaxError e.message then
      some ⟨e.message, r.1 + if e.offset ≥ 0 then e.offset.toNat else 0⟩
    else none

/-- `db` is the in-memory database, when it could be opened. -/
def checkSqlite (db : Option (Text → Option PrepareError)) (sql : Text) : Option SyntaxError :=
  match db with
  | none => none
  | some prepare => (statementRanges sql .SQLITE).findSome? (checkRange prepare sql)

/-- A statement prepares without a syntax error. -/
def Accepts (stmt : Text) : Prop := ∀ e, prepare stmt = some e → isSqliteSyntaxError e.message = false

theorem checkRange_eq_none {sql : Text} {r : ℕ × ℕ} :
    checkRange prepare sql r = none ↔ Accepts prepare (slice sql r.1 r.2) := by
  unfold checkRange Accepts
  cases prepare (slice sql r.1 r.2) with
  | none => simp
  | some e => simp

theorem checkSqlite_eq_none {sql : Text} :
    checkSqlite (some prepare) sql = none ↔
      ∀ x ∈ (statementRanges sql .SQLITE).map fun r => slice sql r.1 r.2, Accepts prepare x := by
  rw [checkSqlite, List.findSome?_eq_none_iff]
  simp only [checkRange_eq_none, List.forall_mem_map]

end Check

section Join

/-- Every token of a text is left alone by text after it. -/
def Closed (x : Text) (d : Dialect) : Prop := ∀ t ∈ infos d x, t.whole

def NoSemicolon (x : Text) (d : Dialect) : Prop := ∀ t ∈ infos d x, t.isSemi = false

def shiftRange (k : ℕ) (r : ℕ × ℕ) : ℕ × ℕ := (r.1 + k, r.2 + k)

def semiAt (k : ℕ) : Token := ⟨{ kind := .punct, text := [';'] }, k, k + 1⟩

variable {d : Dialect} {x rest : Text}

theorem tokenize_append (hx : Closed x d) (hs : Stops rest) :
    tokenize (x ++ rest) d = tokenize x d ++
      lexFrom (scanToken d) (lastOf none x) x.length 0 rest := by
  have hsw : Swap (scanToken d) TokInfo.whole [] rest := fun q r hr => by
    have hswap := @swap_scanToken d [] rest hs q r hr
    exact ⟨hswap.1, fun t n h1 h2 h3 => hswap.2 t n h1 h2 fun he => .inr (.inr (h3 he))⟩
  obtain ⟨xs, -, h1, h2⟩ := @lexFrom_swap _ _ _ (bounded_scanToken d) TokInfo.whole [] rest hsw none 0 x
    (fun t ht => by
      rw [List.append_nil] at ht
      have := stop_le (bounded_scanToken d) ht
      exact ⟨.inl this, fun _ => hx _ (List.mem_map_of_mem ht)⟩)
  rw [lexFrom, List.append_nil, List.append_nil] at h1
  rw [Nat.zero_add] at h2
  rw [tokenize, lex, h2, ← h1]
  rfl

theorem tokenize_semi (hx : Closed x d) :
    tokenize (x ++ ';' :: rest) d =
      tokenize x d ++ semiAt x.length :: (tokenize rest d).map (Lexeme.shift (x.length + 1)) := by
  have hscan : scanToken d (lastOf none x) (';' :: rest) =
      some ({ kind := .punct, text := [';'] }, 1) := by
    rw [scanToken_break _ (by decide)]
    rfl
  have hneutral : Neutral (some ';') := by
    rintro p ⟨⟩
    decide
  rw [tokenize_append hx (stops_cons.mpr (by decide)), lexFrom_step (bounded_scanToken d) hscan]
  simp only [List.take_succ_cons, List.take_zero, List.drop_succ_cons, List.drop_zero, lastOf_cons,
    lastOf_nil]
  rw [lexFrom_neutral d hneutral]
  rfl

theorem statementRanges_single {type : DatabaseType} (hx : NoSemicolon x (dialectFor type)) :
    statementRanges x type = segRange (tokenize x (dialectFor type)) := by
  have hseg : ∀ t ∈ tokenize x (dialectFor type), t.kind.isSemi = false := fun t ht =>
    hx _ (List.mem_map_of_mem ht)
  have := @rangesFrom_seg _ hseg 0 [] (by simp)
  rw [List.append_nil] at this
  rw [statementRanges, this]
  exact List.append_nil _

theorem rangesFrom_shift (k l l' : ℕ) (first : Option ℕ) (ts : List Token)
    (hl : ∀ b, first = some b → l' = l + k) :
    statementRangesFrom (first.map (· + k)) l' (ts.map (Lexeme.shift k)) =
      (statementRangesFrom first l ts).map (shiftRange k) := by
  induction ts generalizing first l l' with
  | nil =>
    cases first with
    | none => rfl
    | some b => rw [hl b rfl]; rfl
  | cons t ts ih =>
    rw [List.map_cons, statementRangesFrom, statementRangesFrom, Lexeme.shift_kind]
    split_ifs
    · rw [List.map_append, ← ih l l' none (by simp)]
      cases first with
      | none => rfl
      | some b => rw [hl b rfl]; rfl
    · rw [← ih t.stop (t.stop + k) _ fun _ _ => rfl]
      cases first <;> rfl
    · exact ih l l' first hl

/-- A semicolon after closed text splits it off. -/
theorem statementRanges_semi {type : DatabaseType} (hx : Closed x (dialectFor type))
    (hns : NoSemicolon x (dialectFor type)) :
    statementRanges (x ++ ';' :: rest) type =
      segRange (tokenize x (dialectFor type)) ++
        (statementRanges rest type).map (shiftRange (x.length + 1)) := by
  have hseg : ∀ t ∈ tokenize x (dialectFor type), t.kind.isSemi = false := fun t ht =>
    hns _ (List.mem_map_of_mem ht)
  have hsemi : (semiAt x.length).kind.isSemi = true := by simp [semiAt, TokInfo.isSemi]
  rw [statementRanges, tokenize_semi hx,
    rangesFrom_seg hseg _ (by simpa using hsemi), rangesFrom_semi hsemi]
  exact congrArg _ (rangesFrom_shift (x.length + 1) 0 0 none _ (by simp))

theorem slice_append_left {b e : ℕ} (he : e ≤ x.length) : slice (x ++ rest) b e = slice x b e := by
  unfold slice
  by_cases hb : b ≤ x.length
  · rw [List.drop_append_of_le_length hb, List.take_append_of_le_length (by rw [List.length_drop]; omega)]
  · rw [show e - b = 0 by omega, List.take_zero, List.take_zero]

theorem slice_append_right (b e : ℕ) :
    slice (x ++ ';' :: rest) (b + (x.length + 1)) (e + (x.length + 1)) = slice rest b e := by
  have hleft : (x ++ ';' :: rest).drop (x.length + 1) = rest := by
    have := @List.drop_left _ (x ++ [';']) rest
    rwa [List.length_append, List.append_assoc] at this
  have hdrop : (x ++ ';' :: rest).drop (b + (x.length + 1)) = rest.drop b := by
    rw [Nat.add_comm, ← List.drop_drop, hleft]
  unfold slice
  rw [hdrop, Nat.add_sub_add_right]

end Join

section Segments

/-- Texts with semicolons between them. -/
def joinSegments (segs : List Text) : Text := [';'].intercalate segs

theorem joinSegments_cons (x y : Text) (ys : List Text) :
    joinSegments (x :: y :: ys) = x ++ ';' :: joinSegments (y :: ys) := by
  simp [joinSegments, List.intercalate]

/-- What a statement that `x` holds is cut to. -/
def trimmed (x : Text) : List Text :=
  (segRange (tokenize x (dialectFor .SQLITE))).map fun r => slice x r.1 r.2

def segSpans : ℕ → List Text → List (ℕ × ℕ)
  | _, [] => []
  | off, x :: xs => (segRange (tokenize x (dialectFor .SQLITE))).map (shiftRange off) ++
      segSpans (off + x.length + 1) xs

theorem segSpans_shift (off k : ℕ) (segs : List Text) :
    (segSpans off segs).map (shiftRange k) = segSpans (off + k) segs := by
  induction segs generalizing off with
  | nil => rfl
  | cons x xs ih =>
    have hcomp : shiftRange k ∘ shiftRange off = shiftRange (off + k) := by
      funext r
      simp only [Function.comp, shiftRange, Nat.add_assoc]
    rw [segSpans, segSpans, List.map_append, List.map_map, hcomp, ih]
    congr 2
    omega

theorem segRange_le {x : Text} {d : Dialect} {r : ℕ × ℕ} (hr : r ∈ segRange (tokenize x d)) :
    r.2 ≤ x.length := by
  unfold segRange at hr
  split at hr
  · simp at hr
  · rename_i t ts h
    obtain rfl := List.mem_singleton.mp hr
    have hmem : ts.getLastD t ∈ ordinaries (tokenize x d) := h ▸ List.getLastD_mem_cons
    have := stop_le (bounded_scanToken d) (List.mem_filter.mp hmem).1
    omega

theorem segSpans_zero (x : Text) (xs : List Text) :
    segSpans 0 (x :: xs) =
      segRange (tokenize x (dialectFor .SQLITE)) ++ segSpans (x.length + 1) xs := by
  have hshift : shiftRange 0 = id := rfl
  rw [segSpans, hshift, List.map_id, Nat.zero_add]

/-- Segments without semicolons are what the splitter cuts a script into. -/
theorem statementRanges_join {segs : List Text}
    (hclosed : ∀ x ∈ segs.dropLast, Closed x (dialectFor .SQLITE))
    (hns : ∀ x ∈ segs, NoSemicolon x (dialectFor .SQLITE)) :
    statementRanges (joinSegments segs) .SQLITE = segSpans 0 segs ∧
      (statementRanges (joinSegments segs) .SQLITE).map
        (fun r => slice (joinSegments segs) r.1 r.2) = segs.flatMap trimmed := by
  induction segs with
  | nil => exact ⟨rfl, rfl⟩
  | cons x xs ih =>
    have hx := hns x (by simp)
    cases xs with
    | nil =>
      have hjoin : joinSegments [x] = x := by simp [joinSegments, List.intercalate]
      rw [hjoin, statementRanges_single hx, segSpans_zero]
      simp [trimmed, segSpans]
    | cons y ys =>
      obtain ⟨h1, h2⟩ := ih (fun z hz => hclosed z (by simp [List.dropLast, hz]))
        fun z hz => hns z (by simp [hz])
      have hcl := hclosed x (by simp)
      rw [joinSegments_cons, statementRanges_semi hcl hx]
      constructor
      · rw [h1, segSpans_shift, segSpans_zero x, Nat.zero_add]
      · have hleft : ∀ r ∈ segRange (tokenize x (dialectFor .SQLITE)),
            slice (x ++ ';' :: joinSegments (y :: ys)) r.1 r.2 = slice x r.1 r.2 := fun r hr =>
          slice_append_left (segRange_le hr)
        have hright : (fun r : ℕ × ℕ => slice (x ++ ';' :: joinSegments (y :: ys)) r.1 r.2) ∘
            shiftRange (x.length + 1) = fun r => slice (joinSegments (y :: ys)) r.1 r.2 :=
          funext fun r => slice_append_right r.1 r.2
        rw [List.map_append, List.map_map, hright, h2, List.map_congr_left hleft]
        rfl

end Segments

section Scripts

/-- The tokens of a text but its comments and semicolons, words in upper case. -/
def code (x : Text) : List (Tok × Text) :=
  ((infos (dialectFor .SQLITE) x).filter TokInfo.ordinary).map fun t =>
    (t.kind, if t.kind = .word then upper t.text else t.text)

/-- `CREATE [TEMP] TRIGGER ... BEGIN`. -/
def opensTrigger (header : Text) : Bool :=
  (code header).getLast? = some (.word, "BEGIN".toList) &&
  match code header with
  | (.word, c) :: (.word, w) :: rest =>
    c = "CREATE".toList && (w = "TRIGGER".toList ||
      (w = "TEMP".toList || w = "TEMPORARY".toList) && rest.head? = some (.word, "TRIGGER".toList))
  | _ => false

/-- An item of a script. The body of a trigger is not empty. -/
inductive Item
  | ordinary (text : Text)
  | trigger (header : Text) (blank : Char) (first : Text) (rest : List Text) (tail : Text)
  deriving DecidableEq, Repr

namespace Item

def segments : Item → List Text
  | ordinary x => [x]
  | trigger header blank first rest tail => (header ++ blank :: first) :: (rest ++ [tail])

def text (i : Item) : Text := joinSegments i.segments

def isTrigger : Item → Bool
  | ordinary _ => false
  | trigger .. => true

/-- An ordinary statement: code without a semicolon. -/
def Ordinary (x : Text) : Prop := NoSemicolon x (dialectFor .SQLITE) ∧ code x ≠ []

def WellFormed : Item → Prop
  | ordinary x => Ordinary x
  | trigger header blank first rest tail =>
    opensTrigger header = true ∧ Closed header (dialectFor .SQLITE) ∧
      NoSemicolon header (dialectFor .SQLITE) ∧ isspace blank = true ∧
      (∀ x ∈ first :: rest, Ordinary x) ∧ code tail = [(.word, "END".toList)] ∧
      NoSemicolon tail (dialectFor .SQLITE)

end Item

def scriptSegments (script : List Item) : List Text := script.flatMap Item.segments

def scriptText (script : List Item) : Text := joinSegments (script.map Item.text)

/-- Items with semicolons that the lexer sees between them. -/
structure Script (script : List Item) : Prop where
  items : ∀ i ∈ script, i.WellFormed
  closed : ∀ x ∈ (scriptSegments script).dropLast, Closed x (dialectFor .SQLITE)

/-- Each top-level statement, from its first to its last token. -/
def topLevel : ℕ → List Item → List (ℕ × ℕ)
  | _, [] => []
  | off, i :: is => (segRange (tokenize i.text (dialectFor .SQLITE))).map (shiftRange off) ++
      topLevel (off + i.text.length + 1) is

/-- What is assumed of SQLite: a top-level statement prepares without a syntax error. -/
def Prepares (prepare : Text → Option PrepareError) (script : List Item) : Prop :=
  ∀ i ∈ script, ∀ x ∈ trimmed i.text, Accepts prepare x

theorem joinSegments_append {segs segs' : List Text} (h : segs ≠ []) (h' : segs' ≠ []) :
    joinSegments (segs ++ segs') = joinSegments segs ++ ';' :: joinSegments segs' := by
  induction segs with
  | nil => exact absurd rfl h
  | cons x xs ih =>
    cases xs with
    | nil =>
      obtain ⟨y, ys, rfl⟩ := List.exists_cons_of_ne_nil h'
      rw [List.singleton_append, joinSegments_cons]
      simp [joinSegments, List.intercalate]
    | cons y ys =>
      rw [List.cons_append, List.cons_append, joinSegments_cons, ← List.cons_append,
        ih (by simp), joinSegments_cons, List.append_assoc, List.cons_append]

theorem segments_ne (i : Item) : i.segments ≠ [] := by cases i <;> simp [Item.segments]

theorem scriptText_eq (script : List Item) :
    scriptText script = joinSegments (scriptSegments script) := by
  unfold scriptText scriptSegments
  induction script with
  | nil => rfl
  | cons i is ih =>
    cases is with
    | nil => simp [Item.text, joinSegments, List.intercalate]
    | cons j js =>
      have hne : (j :: js).flatMap Item.segments ≠ [] := by simp [segments_ne j]
      rw [List.flatMap_cons, joinSegments_append (segments_ne i) hne, ← ih]
      exact joinSegments_cons i.text j.text (js.map Item.text)

/-- A header and the first statement of the body are read one after the other. -/
theorem infos_header {d : Dialect} {header first : Text} {blank : Char} (h : Closed header d)
    (hb : isspace blank = true) : infos d (header ++ blank :: first) = infos d header ++ infos d first := by
  have hstop : Stops (blank :: first) := stops_cons.mpr (by simp [isBreak, hb])
  rw [infos_eq, reads_of_whole h none _ neutral_none hstop, infosFrom_blank hb,
    infosFrom_neutral (neutral_of_isspace hb)]
  rfl

theorem ordinaries_eq_nil {x : Text} (h : ordinaries (tokenize x (dialectFor .SQLITE)) = []) :
    code x = [] := by
  have : ((tokenize x (dialectFor .SQLITE)).map Lexeme.kind).filter TokInfo.ordinary = [] := by
    rw [List.filter_map]
    exact List.map_eq_nil_iff.mpr h
  rw [code, infos, this, List.map_nil]

theorem length_segRange_le (ts : List Token) : (segRange ts).length ≤ 1 := by
  unfold segRange
  split <;> simp

theorem length_segRange {x : Text} (h : code x ≠ []) :
    (segRange (tokenize x (dialectFor .SQLITE))).length = 1 := by
  unfold segRange
  split
  · exact absurd (ordinaries_eq_nil ‹_›) h
  · rfl

theorem segments_wellFormed {i : Item} (hi : i.WellFormed) :
    ∀ x ∈ i.segments, NoSemicolon x (dialectFor .SQLITE) ∧ code x ≠ [] := by
  cases i with
  | ordinary y =>
    intro x hx
    obtain rfl := List.mem_singleton.mp hx
    exact hi
  | trigger header blank first rest tail =>
    obtain ⟨-, hcl, hns, hb, hbody, hend, htail⟩ := hi
    intro x hx
    rcases List.mem_cons.mp hx with rfl | hx
    · have hinfos := @infos_header _ _ first _ hcl hb
      have hfirst := hbody first (by simp)
      constructor
      · intro t ht
        rw [hinfos, List.mem_append] at ht
        exact ht.elim (hns t) (hfirst.1 t)
      · intro h
        rw [code, hinfos, List.filter_append, List.map_append, List.append_eq_nil_iff] at h
        exact hfirst.2 h.2
    · rcases List.mem_append.mp hx with hx | hx
      · exact hbody x (by simp [hx])
      · obtain rfl := List.mem_singleton.mp hx
        exact ⟨htail, by simp [hend]⟩

/-- Every segment of a script becomes a range of its own. -/
theorem statementRanges_script {script : List Item} (h : Script script) :
    statementRanges (scriptText script) .SQLITE = segSpans 0 (scriptSegments script) ∧
      (statementRanges (scriptText script) .SQLITE).map
        (fun r => slice (scriptText script) r.1 r.2) = (scriptSegments script).flatMap trimmed := by
  rw [scriptText_eq]
  refine statementRanges_join h.closed fun x hx => ?_
  obtain ⟨i, hi, hx⟩ := List.mem_flatMap.mp hx
  exact (segments_wellFormed (h.items i hi) x hx).1

theorem length_segSpans {segs : List Text} (h : ∀ x ∈ segs, code x ≠ []) (off : ℕ) :
    (segSpans off segs).length = segs.length := by
  induction segs generalizing off with
  | nil => rfl
  | cons x xs ih =>
    rw [segSpans, List.length_append, List.length_map, length_segRange (h x (by simp)),
      ih (fun y hy => h y (by simp [hy])), List.length_cons, Nat.add_comm]

theorem length_topLevel_le (off : ℕ) (script : List Item) :
    (topLevel off script).length ≤ script.length := by
  induction script generalizing off with
  | nil => exact Nat.le_refl 0
  | cons i is ih =>
    have h1 := length_segRange_le (tokenize i.text (dialectFor .SQLITE))
    have h2 := ih (off + i.text.length + 1)
    rw [topLevel, List.length_append, List.length_map, List.length_cons]
    omega

theorem length_scriptSegments {script : List Item} {i : Item} (hi : i ∈ script)
    (ht : i.isTrigger = true) : script.length < (scriptSegments script).length := by
  have hpos : ∀ j : Item, 1 ≤ j.segments.length := fun j =>
    List.length_pos_iff.mpr (segments_ne j)
  have hle : ∀ is : List Item, is.length ≤ (scriptSegments is).length := fun is => by
    induction is with
    | nil => exact Nat.le_refl 0
    | cons j js ih =>
      have := hpos j
      rw [scriptSegments, List.flatMap_cons, List.length_append, List.length_cons]
      change _ ≤ _ + (scriptSegments js).length
      omega
  obtain ⟨before, after, rfl⟩ := List.append_of_mem hi
  have h1 := hle before
  have h2 := hle after
  have h3 : 2 ≤ i.segments.length := by
    cases i with
    | ordinary => simp [Item.isTrigger] at ht
    | trigger => simp [Item.segments]
  rw [scriptSegments, List.flatMap_append, List.flatMap_cons, List.length_append, List.length_append,
    List.length_append, List.length_cons]
  change _ < (scriptSegments before).length + (_ + (scriptSegments after).length)
  omega

theorem ordinary_segments {script : List Item} (h : ∀ i ∈ script, i.isTrigger = false) (off : ℕ) :
    segSpans off (scriptSegments script) = topLevel off script ∧
      scriptSegments script = script.map Item.text := by
  induction script generalizing off with
  | nil => exact ⟨rfl, rfl⟩
  | cons i is ih =>
    have hi := h i (by simp)
    cases i with
    | trigger => simp [Item.isTrigger] at hi
    | ordinary x =>
      obtain ⟨h1, h2⟩ := ih (fun j hj => h j (by simp [hj])) (off + x.length + 1)
      have htext : (Item.ordinary x).text = x := by simp [Item.text, Item.segments, joinSegments, List.intercalate]
      have hsegs : scriptSegments (.ordinary x :: is) = x :: scriptSegments is := rfl
      rw [hsegs, segSpans, topLevel, htext, h1, h2, List.map_cons, htext]
      exact ⟨rfl, rfl⟩

/-- The check passes exactly the scripts whose pieces all prepare without a syntax error. -/
theorem checkSqlite_script {script : List Item} (h : Script script)
    (prepare : Text → Option PrepareError) :
    checkSqlite (some prepare) (scriptText script) = none ↔
      ∀ x ∈ (scriptSegments script).flatMap trimmed, Accepts prepare x := by
  rw [checkSqlite_eq_none, (statementRanges_script h).2]

theorem split_iff {script : List Item} (h : Script script) :
    statementRanges (scriptText script) .SQLITE = topLevel 0 script ↔
      ∀ i ∈ script, i.isTrigger = false := by
  rw [(statementRanges_script h).1]
  refine ⟨fun heq i hi => ?_, fun hno => (ordinary_segments hno 0).1⟩
  by_contra ht
  have hcode : ∀ x ∈ scriptSegments script, code x ≠ [] := fun x hx => by
    obtain ⟨i, hi, hx⟩ := List.mem_flatMap.mp hx
    exact (segments_wellFormed (h.items i hi) x hx).2
  have h1 := length_scriptSegments hi (by simpa using ht)
  have h2 := length_topLevel_le 0 script
  rw [← heq, length_segSpans hcode] at h2
  omega

/-- A script is split where SQLite splits it, and so passes the check, exactly when it holds no
trigger. The check asks about the pieces of the split, whatever they are. -/
theorem script_split_iff {script : List Item} (h : Script script)
    {prepare : Text → Option PrepareError} (hp : Prepares prepare script) :
    ((statementRanges (scriptText script) .SQLITE = topLevel 0 script ∧
        checkSqlite (some prepare) (scriptText script) = none) ↔
      ∀ i ∈ script, i.isTrigger = false) ∧
    (checkSqlite (some prepare) (scriptText script) = none ↔
      ∀ x ∈ (scriptSegments script).flatMap trimmed, Accepts prepare x) := by
  refine ⟨⟨fun hs => (split_iff h).mp hs.1, fun hno => ⟨(split_iff h).mpr hno, ?_⟩⟩,
    checkSqlite_script h prepare⟩
  rw [checkSqlite_script h]
  intro x hx
  obtain ⟨y, hy, hx⟩ := List.mem_flatMap.mp hx
  rw [(ordinary_segments hno 0).2] at hy
  obtain ⟨i, hi, rfl⟩ := List.mem_map.mp hy
  exact hp i hi x hx

/-- What SQLite says over an empty database: a few statements name no table, `END` among
them; any other text stops at the table it does not find. -/
def prepareEmpty (stmt : Text) : Option PrepareError :=
  if stmt ∈ ["END".toList, "SELECT 1".toList, "SELECT 2".toList] then none
  else some ⟨"no such table: main.x".toList, -1⟩

theorem accepts_prepareEmpty (stmt : Text) : Accepts prepareEmpty stmt := by
  have hmsg : isSqliteSyntaxError "no such table: main.x".toList = false := by decide
  unfold Accepts prepareEmpty
  split_ifs with h
  · simp
  · simpa using hmsg

def twoSelects : List Item := [.ordinary "SELECT 1".toList, .ordinary " SELECT 2".toList]

theorem twoSelects_script : Script twoSelects where
  items := by
    have h : ∀ x ∈ ["SELECT 1".toList, " SELECT 2".toList],
        (∀ t ∈ infos (dialectFor .SQLITE) x, t.isSemi = false) ∧ code x ≠ [] := by decide
    intro i hi
    rcases List.mem_cons.mp hi with rfl | hi
    · exact h _ (by simp)
    · obtain rfl := List.mem_singleton.mp hi
      exact h _ (by simp)
  closed := by
    have h : ∀ t ∈ infos (dialectFor .SQLITE) "SELECT 1".toList, t.whole := by decide
    intro x hx
    obtain rfl := List.mem_singleton.mp hx
    exact h

theorem twoSelects_check :
    statementRanges (scriptText twoSelects) .SQLITE = topLevel 0 twoSelects ∧
      checkSqlite (some prepareEmpty) (scriptText twoSelects) = none :=
  (script_split_iff twoSelects_script fun _ _ x _ => accepts_prepareEmpty x).1.mpr (by decide)

def oneTrigger : List Item :=
  [.trigger "CREATE TRIGGER t AFTER INSERT ON x BEGIN".toList ' ' "DELETE FROM y".toList []
    " END".toList]

theorem oneTrigger_script : Script oneTrigger where
  items := by
    have h : opensTrigger "CREATE TRIGGER t AFTER INSERT ON x BEGIN".toList = true ∧
        (∀ t ∈ infos (dialectFor .SQLITE) "CREATE TRIGGER t AFTER INSERT ON x BEGIN".toList,
          t.whole) ∧
        (∀ t ∈ infos (dialectFor .SQLITE) "CREATE TRIGGER t AFTER INSERT ON x BEGIN".toList,
          t.isSemi = false) ∧ isspace ' ' = true ∧
        (∀ x ∈ ["DELETE FROM y".toList],
          (∀ t ∈ infos (dialectFor .SQLITE) x, t.isSemi = false) ∧ code x ≠ []) ∧
        code " END".toList = [(.word, "END".toList)] ∧
        ∀ t ∈ infos (dialectFor .SQLITE) " END".toList, t.isSemi = false := by decide
    intro i hi
    obtain rfl := List.mem_singleton.mp hi
    exact h
  closed := by
    have h : ∀ x ∈ (scriptSegments oneTrigger).dropLast,
        ∀ t ∈ infos (dialectFor .SQLITE) x, t.whole := by decide
    exact h

/-- The trigger is cut at the semicolon of its body. Over the empty database both pieces pass:
the first stops at its missing table, before its end, and `END` is a statement. -/
theorem trigger_cut :
    Script oneTrigger ∧ topLevel 0 oneTrigger = [(0, 59)] ∧
      statementRanges (scriptText oneTrigger) .SQLITE = [(0, 54), (56, 59)] ∧
      checkSqlite (some prepareEmpty) (scriptText oneTrigger) = none := by
  refine ⟨oneTrigger_script, ?_⟩
  decide

end Scripts
end DearSql
