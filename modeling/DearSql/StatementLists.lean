import DearSql.Scripts

/-! Statements written one to a line, each ended by a semicolon, and texts that can be put together
to statements. -/
namespace DearSql
open Lexing

section Fragments

/-- A text of code that text after it leaves alone: no comment, no semicolon of its own. -/
def Fragment (d : Dialect) (x : Text) : Prop := ∀ t ∈ infos d x, t.whole ∧ t.ordinary = true

instance (d : Dialect) (x : Text) : Decidable (Fragment d x) :=
  inferInstanceAs (Decidable (∀ t ∈ infos d x, _))

variable {d : Dialect} {p q : Text}

theorem Fragment.nil : Fragment d [] := by
  intro t ht
  simp [infos_eq] at ht

theorem Fragment.of_reads {ts : List TokInfo} (h : Reads d p ts)
    (hts : ∀ t ∈ ts, t.whole ∧ t.ordinary = true) : Fragment d p := by
  rwa [Fragment, h.infos]

theorem Fragment.reads (h : Fragment d p) : Reads d p (infos d p) :=
  reads_of_whole fun t ht => (h t ht).1

/-- Behind a fragment stands what starts with a break. -/
theorem Fragment.append (hp : Fragment d p) (hq : Fragment d q) (hs : Stops q) :
    Fragment d (p ++ q) :=
  .of_reads (hp.reads.append hq.reads hs) fun t ht =>
    (List.mem_append.mp ht).elim (hp t) (hq t)

/-- Behind a fragment that ends open stands anything. -/
theorem Fragment.lead (hp : Fragment d p) (hopen : endsOpen d p = true) (hq : Fragment d q) :
    Fragment d (p ++ q) :=
  .of_reads ((readsOn_of_endsOpen hopen).append hq.reads) fun t ht =>
    (List.mem_append.mp ht).elim (hp t) (hq t)

theorem Fragment.literal {c : Text} (hc : d.backslashEscape = true → '\\' ∉ c) :
    Fragment d (Builder.commentLiteral c) :=
  .of_reads (reads_commentLiteral hc) fun t ht => by
    obtain rfl := List.mem_singleton.mp ht
    exact ⟨⟨rfl, rfl⟩, rfl⟩

end Fragments

section Statements

variable {type : DatabaseType} {x rest : Text} {xs : List Text}

/-- The text begins, or ends, with a byte that is no blank. -/
def BeginsSolid (x : Text) : Prop := x.head?.any (fun c => !isspace c) = true

def EndsSolid (x : Text) : Prop := x.getLast?.any (fun c => !isspace c) = true

instance : DecidablePred BeginsSolid := fun _ => inferInstanceAs (Decidable (_ = _))

instance : DecidablePred EndsSolid := fun _ => inferInstanceAs (Decidable (_ = _))

theorem BeginsSolid.append {p : Text} (h : BeginsSolid p) (q : Text) : BeginsSolid (p ++ q) := by
  unfold BeginsSolid at *
  cases p with
  | nil => simp at h
  | cons c p => exact h

theorem EndsSolid.append {q : Text} (h : EndsSolid q) (p : Text) : EndsSolid (p ++ q) := by
  unfold EndsSolid at *
  rw [List.getLast?_append]
  cases hq : q.getLast? with
  | none => simp [hq] at h
  | some c => rwa [hq] at h

/-- A statement: a fragment with no blank at either end. -/
structure IsStatement (type : DatabaseType) (x : Text) : Prop where
  fragment : Fragment (dialectFor type) x
  first : BeginsSolid x
  last : EndsSolid x

instance : Decidable (IsStatement type x) :=
  decidable_of_iff (Fragment (dialectFor type) x ∧ BeginsSolid x ∧ EndsSolid x)
    ⟨fun h => ⟨h.1, h.2.1, h.2.2⟩, fun h => ⟨h.fragment, h.first, h.last⟩⟩

theorem IsStatement.nonempty (h : IsStatement type x) : x ≠ [] := by
  rintro rfl
  exact Bool.false_ne_true h.first

theorem IsStatement.closed (h : IsStatement type x) : Closed x (dialectFor type) :=
  fun t ht => (h.fragment t ht).1

theorem IsStatement.noSemicolon (h : IsStatement type x) : NoSemicolon x (dialectFor type) :=
  fun t ht => (ordinary_iff.mp (h.fragment t ht).2).2

/-- A statement goes from its first to its last token. -/
theorem IsStatement.segRange (h : IsStatement type x) :
    segRange (tokenize x (dialectFor type)) = [(0, x.length)] := by
  have hlen : 0 < x.length := List.length_pos_iff.mpr h.nonempty
  obtain ⟨u, hu, hfront⟩ : ∃ u ∈ tokenize x (dialectFor type), u.holds 0 := by
    refine (byte_cases (dialectFor type) hlen).resolve_left ?_
    have hfirst := h.first
    rw [BeginsSolid, List.head?_eq_getElem?, List.getElem?_eq_getElem hlen] at hfirst
    simpa using hfirst
  obtain ⟨v, hv, hback⟩ : ∃ v ∈ tokenize x (dialectFor type), v.holds (x.length - 1) := by
    have hlast := h.last
    have hlt : x.length - 1 < x.length := by omega
    refine (byte_cases (dialectFor type) hlt).resolve_left ?_
    rw [EndsSolid, List.getLast?_eq_getElem?, List.getElem?_eq_getElem hlt] at hlast
    simpa using hlast
  have hall : ordinaries (tokenize x (dialectFor type)) = tokenize x (dialectFor type) :=
    List.filter_eq_self.mpr fun t ht => (h.fragment _ (List.mem_map_of_mem ht)).2
  have horder := inOrder_tokenize x (dialectFor type)
  have hinside := (tokenize_partitions x (dialectFor type)).inside
  rw [DearSql.segRange, hall]
  cases hts : tokenize x (dialectFor type) with
  | nil =>
    rw [hts] at hu
    cases hu
  | cons t ts =>
    rw [hts] at horder hu hv hinside
    obtain ⟨hlast, hall⟩ := horder.getLastD
    have h1 := (hall u hu).1
    have h2 := (hall v hv).2
    have h3 := hinside _ hlast
    have h4 := hfront.1
    have h5 := hback.2
    have hstart : t.start = 0 := by omega
    have hstop : (ts.getLastD t).stop = x.length := by omega
    change [(t.start, (ts.getLastD t).stop)] = _
    rw [hstart, hstop]

/-- Each statement with its semicolon, one to a line. -/
def statementLines (xs : List Text) : Text := ['\n'].intercalate (xs.map (· ++ [';']))

theorem statementLines_cons (x y : Text) (ys : List Text) :
    statementLines (x :: y :: ys) = x ++ ';' :: '\n' :: statementLines (y :: ys) := by
  simp [statementLines, List.intercalate]

theorem statementLines_eq (x : Text) (xs : List Text) : statementLines (x :: xs) =
    x ++ ';' :: xs.flatMap fun y => '\n' :: (y ++ [';']) := by
  induction xs generalizing x with
  | nil => simp [statementLines]
  | cons y ys ih => rw [statementLines_cons, ih, List.flatMap_cons]; simp

/-- The lines of statements behind others. -/
theorem statementLines_behind (xs : List Text) :
    (if statementLines xs ≠ [] then '\n' :: statementLines xs else []) =
      xs.flatMap fun y => '\n' :: (y ++ [';']) := by
  cases xs with
  | nil => rfl
  | cons x xs => simp [statementLines_eq]

theorem statementRanges_newline :
    statementRanges ('\n' :: rest) type = (statementRanges rest type).map (shiftRange 1) := by
  have htokens : tokenize ('\n' :: rest) (dialectFor type) =
      (tokenize rest (dialectFor type)).map (Lexeme.shift 1) := by
    rw [tokenize, lex, lexFrom_pass (by rw [scanToken_break none (by decide)]; rfl)]
    exact lexFrom_neutral _ (neutral_of_isspace (by decide)) _ rest
  rw [statementRanges, htokens]
  exact rangesFrom_shift 1 0 0 none _ (by simp)

theorem slice_newline (b e : ℕ) : slice ('\n' :: rest) (b + 1) (e + 1) = slice rest b e := by
  simp [slice]

/-- A script of statements, one to a line, is split into these statements. -/
theorem statements_of_lines (h : ∀ x ∈ xs, IsStatement type x) :
    (statementRanges (statementLines xs) type).map
      (fun r => slice (statementLines xs) r.1 r.2) = xs := by
  induction xs with
  | nil => rfl
  | cons x xs ih =>
    obtain ⟨hx, hxs⟩ := List.forall_mem_cons.mp h
    have hfront (rest : Text) : slice (x ++ rest) 0 x.length = x := by
      simp [slice]
    cases xs with
    | nil =>
      have hlines : statementLines [x] = x ++ ';' :: [] := by simp [statementLines]
      rw [hlines, statementRanges_semi hx.closed hx.noSemicolon, hx.segRange]
      change [slice (x ++ [';']) 0 x.length] = [x]
      rw [hfront]
    | cons y ys =>
      have hback : ((fun r : ℕ × ℕ =>
          slice (x ++ ';' :: '\n' :: statementLines (y :: ys)) r.1 r.2) ∘
            shiftRange (x.length + 1)) ∘ shiftRange 1 =
          fun r => slice (statementLines (y :: ys)) r.1 r.2 := by
        funext r
        simp only [Function.comp, shiftRange, slice_append_right, slice_newline]
      rw [statementLines_cons, statementRanges_semi hx.closed hx.noSemicolon, hx.segRange,
        statementRanges_newline, List.map_append, List.map_map, List.map_map, hback, ih hxs]
      exact congrArg (fun z => z :: y :: ys) (hfront _)

end Statements

end DearSql
