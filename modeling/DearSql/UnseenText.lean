import DearSql.Quoting
import DearSql.SameView
import DearSql.Statements

/-! Comments and the content of strings do not matter to the completer. -/
namespace DearSql
open Lexing Loops

section Edit

variable {p q q' v : Text} {c : ℕ} {d : Dialect}

/-- The places of a text after its stretch `q` behind `p` has become `q'`. -/
def shiftPast (p q q' : Text) (x : ℕ) : ℕ := if x ≤ p.length then x else x + q'.length - q.length

def editViews (p q q' v : Text) (c : ℕ) : Views where
  sql := p ++ q ++ v
  cursor := c
  sql' := p ++ q' ++ v
  cursor' := shiftPast p q q' c
  move := shiftPast p q q'

/-- The cursor is not inside the stretch. -/
def OutsideEdit (p q : Text) (c : ℕ) : Prop := c ≤ p.length ∨ p.length + q.length ≤ c

theorem take_edit (q v : Text) {b e : ℕ} (he : e ≤ p.length) :
    slice (p ++ q ++ v) b e = slice p b e := by
  rw [slice, slice, ← List.drop_take, ← List.drop_take, List.append_assoc,
    List.take_append_of_le_length he]

/-- Where the cursor is after the edit. -/
theorem cursor_edit (q' v : Text) (hc : OutsideEdit p q c) (hq : q ≠ []) :
    (c ≤ p.length ∧ (editViews p q q' v c).cursor' = c) ∨
      (p.length + q.length ≤ c ∧
        (editViews p q q' v c).cursor' + q.length = c + q'.length) := by
  have h1 := List.length_pos_iff.mpr hq
  rcases hc with hc | hc
  · exact .inl ⟨hc, if_pos hc⟩
  · have he : (editViews p q q' v c).cursor' = c + q'.length - q.length := if_neg (by omega)
    exact .inr ⟨hc, by omega⟩

/-- A token before the edit stays. -/
theorem moved_before (hc : OutsideEdit p q c) (hq : q ≠ []) (hq' : q' ≠ []) {t : Token}
    (ht : t ∈ tokenize (p ++ q ++ v) d) (hstop : t.stop ≤ p.length) :
    (editViews p q q' v c).Moved t t := by
  have hlt := start_lt_stop ht
  have h1 := List.length_pos_iff.mpr hq
  have h2 := List.length_pos_iff.mpr hq'
  have hclosed : t.kind.closed = true := by
    by_contra hopen
    have := stop_of_open ht (by simpa using hopen)
    simp only [List.length_append] at this
    omega
  have hcursor := cursor_edit q' v hc hq
  have hmove : ∀ x ≤ p.length, (editViews p q q' v c).move x = x := fun x hx => if_pos hx
  have hview : (editViews p q q' v c).cursor = c := rfl
  refine ⟨.refl _, (hmove _ (by omega)).symm, (hmove _ hstop).symm, ?_, ?_, ?_, ?_,
    fun _ _ htyped => ?_⟩
  · omega
  · omega
  · omega
  · omega
  · rw [hclosed, hview] at htyped
    have hle : c ≤ t.stop := htyped.resolve_right (by decide)
    have hsame : (editViews p q q' v c).cursor' = c := by omega
    rw [hsame, hview]
    exact (take_edit q' v (by omega)).trans (take_edit q v (by omega)).symm

/-- A token behind the edit moves with the text. -/
theorem moved_behind (hc : OutsideEdit p q c) (hq : q ≠ []) (hq' : q' ≠ []) (t : Token) :
    (editViews p q q' v c).Moved (t.shift (p ++ q).length) (t.shift (p ++ q').length) := by
  have h1 := List.length_pos_iff.mpr hq
  have h2 := List.length_pos_iff.mpr hq'
  have hcursor := cursor_edit q' v hc hq
  have hview : (editViews p q q' v c).cursor = c := rfl
  have hmove : ∀ x, (editViews p q q' v c).move (x + (p ++ q).length) = x + (p ++ q').length := by
    intro x
    have he : (editViews p q q' v c).move (x + (p ++ q).length) =
        x + (p ++ q).length + q'.length - q.length :=
      if_neg (by rw [List.length_append]; omega)
    rw [he, List.length_append, List.length_append]
    omega
  refine ⟨.refl _, (hmove _).symm, (hmove _).symm, ?_, ?_, ?_, ?_, fun _ hs _ => ?_⟩
  · simp only [Lexeme.shift_start, List.length_append]
    omega
  · simp only [Lexeme.shift_start, List.length_append]
    omega
  · simp only [Lexeme.shift_stop, List.length_append]
    omega
  · simp only [Lexeme.shift_stop, List.length_append]
    omega
  · have hdrop : ∀ u : Text, (u ++ v).drop (t.start + u.length) = v.drop t.start := by
      intro u
      rw [Nat.add_comm, ← List.drop_drop, List.drop_left]
    simp only [Lexeme.shift_start, List.length_append, hview] at hs
    have hcut : (editViews p q q' v c).cursor' - (t.start + (p ++ q').length) =
        c - (t.start + (p ++ q).length) := by
      simp only [List.length_append]
      omega
    change slice (p ++ q' ++ v) _ _ = slice (p ++ q ++ v) _ c
    rw [slice, slice, Lexeme.shift_start, Lexeme.shift_start, hdrop, hdrop, hcut]

/-- An edit that keeps the tokens before and behind it, and what is seen of those in it. -/
theorem sameView_edit (xs mid mid' Y : List Token) (hc : OutsideEdit p q c)
    (hlen : c ≤ (p ++ q ++ v).length) (hq : q ≠ []) (hq' : q' ≠ []) (hxs : ∀ x ∈ xs, x.stop ≤ p.length)
    (htokens : tokenize (p ++ q ++ v) d = xs ++ mid ++ Y.map (Lexeme.shift (p ++ q).length))
    (htokens' : tokenize (p ++ q' ++ v) d = xs ++ mid' ++ Y.map (Lexeme.shift (p ++ q').length))
    (hmid : List.Forall₂ (editViews p q q' v c).Moved (mid.filter notComment)
      (mid'.filter notComment))
    (hbars : (mid'.any fun t => decide (t.start < (editViews p q q' v c).cursor') &&
        barsCursor (editViews p q q' v c).cursor' t) =
      mid.any fun t => decide (t.start < c) && barsCursor c t) :
    SameView (editViews p q q' v c) d := by
  have hcursor := cursor_edit q' v hc hq
  have hbefore : List.Forall₂ (editViews p q q' v c).Moved xs xs := List.forall₂_same.mpr
    fun x hx =>
      have hmem : x ∈ tokenize (p ++ q ++ v) d := by
        rw [htokens]
        simp [hx]
      moved_before hc hq hq' hmem (hxs x hx)
  have hbehind : ∀ ts : List Token, List.Forall₂ (editViews p q q' v c).Moved
      (ts.map (Lexeme.shift (p ++ q).length)) (ts.map (Lexeme.shift (p ++ q').length)) := by
    intro ts
    rw [List.forall₂_map_left_iff, List.forall₂_map_right_iff]
    exact List.forall₂_same.mpr fun t _ => moved_behind hc hq hq' t
  refine ⟨hlen, ?_, rfl, ?_, ?_⟩
  · change (editViews p q q' v c).cursor' ≤ (p ++ q' ++ v).length
    simp only [List.length_append] at hlen ⊢
    omega
  · change insideLiteral (editViews p q q' v c).cursor' (tokenize (p ++ q' ++ v) d) =
      insideLiteral c (tokenize (p ++ q ++ v) d)
    rw [insideLiteral_tokenize, insideLiteral_tokenize, htokens, htokens', List.any_append,
      List.any_append, List.any_append, List.any_append, hbars, Views.bars_moved hbefore,
      Views.bars_moved (hbehind Y)]
    rfl
  · have hkeep : ∀ (k : ℕ) (ts : List Token), (ts.map (Lexeme.shift k)).filter notComment =
        (ts.filter notComment).map (Lexeme.shift k) := fun k ts => List.filter_map
    change List.Forall₂ _ (statementTokens (tokenize (p ++ q ++ v) d) c (p ++ q ++ v).length)
      (statementTokens (tokenize (p ++ q' ++ v) d) (editViews p q q' v c).cursor'
        (p ++ q' ++ v).length)
    rw [statementTokens_eq, statementTokens_eq, htokens, htokens', List.filter_append,
      List.filter_append, List.filter_append, List.filter_append, hkeep, hkeep]
    have hfirst := List.rel_filter (p := notComment) (q := notComment)
      (fun _ _ h => by simp [notComment, h.like.kind]) hbefore
    exact Views.segment_moved .nil (List.rel_append (List.rel_append hfirst hmid) (hbehind _))

end Edit
section Comment

variable {d : Dialect} {body v : Text}

/-- A comment with blanks around it. -/
def commentText (body : Text) : Text := ' ' :: '/' :: '*' :: (body ++ ['*', '/', ' '])

/-- A comment ends where its text does not end it. -/
theorem find_end (h : ¬"*/".toList <:+: body) (v : Text) :
    find "*/".toList (body ++ '*' :: '/' :: v) = some body.length := by
  have hend : "*/".toList = ['*', '/'] := by decide
  rw [hend] at h ⊢
  induction body with
  | nil => simp [find]
  | cons x xs ih =>
    have hno : (['*', '/'].isPrefixOf (x :: (xs ++ '*' :: '/' :: v))) = false := by
      rw [Bool.eq_false_iff, ne_eq, List.isPrefixOf_iff_prefix]
      intro hpre
      obtain ⟨rfl, hslash⟩ := List.cons_prefix_cons.mp hpre
      cases xs with
      | nil => simp at hslash
      | cons y ys =>
        obtain ⟨rfl, -⟩ := List.cons_prefix_cons.mp hslash
        exact h ⟨[], ys, rfl⟩
    rw [List.cons_append, find, hno, ih fun hin => h (hin.trans (List.suffix_cons x xs).isInfix)]
    rfl

theorem scan_comment (prev : Option Char) (h : ¬"*/".toList <:+: body) (v : Text) :
    scanToken d prev ('/' :: '*' :: (body ++ '*' :: '/' :: v)) =
      some ({ kind := .comment }, body.length + 4) := by
  have hstart : scanToken d prev ('/' :: '*' :: (body ++ '*' :: '/' :: v)) =
      some (blockCommentToken ('*' :: (body ++ '*' :: '/' :: v))) := by
    rw [scanToken_cons]
    rfl
  rw [hstart, blockCommentToken, List.drop_one, List.tail_cons, find_end h]
  simp only [Option.some_inj, Prod.mk.injEq, true_and]
  omega

/-- The token of the comment that stands behind `n` bytes. -/
def commentToken (body : Text) (n : ℕ) : Token :=
  ⟨{ kind := .comment }, n + 1, n + 1 + (body.length + 4)⟩

theorem lex_comment {w : Char} (hw : isspace w = true) (h : ¬"*/".toList <:+: body)
    (prev : Option Char) (n : ℕ) (v : Text) :
    lexFrom (scanToken d) prev n 0 (w :: (commentText body ++ v)) =
      commentToken body (n + 1) ::
        (tokenize v d).map (Lexeme.shift (n + 1 + (commentText body).length)) := by
  have htext : commentText body ++ v = ' ' :: '/' :: '*' :: (body ++ '*' :: '/' :: ' ' :: v) := by
    simp [commentText]
  have hsplit : '/' :: '*' :: (body ++ '*' :: '/' :: ' ' :: v) =
      ('/' :: '*' :: (body ++ ['*', '/'])) ++ ' ' :: v := by
    simp
  have hlen : ('/' :: '*' :: (body ++ ['*', '/'])).length = body.length + 4 := by simp
  rw [htext, lexFrom_pass (scanToken_eq_none.mpr hw),
    lexFrom_pass (scanToken_eq_none.mpr (by decide)),
    lexFrom_step (bounded_scanToken d) (scan_comment _ h _), hsplit, ← hlen, List.take_left,
    List.drop_left, lexFrom_pass (scanToken_eq_none.mpr (by decide)),
    lexFrom_neutral d (neutral_of_isspace (by decide)), hlen, commentToken]
  congr 3
  simp only [commentText, List.length_cons, List.length_append, List.length_nil]
  omega

end Comment
section Content

variable {d : Dialect} {a v : Text}

/-- Behind the closing quote stands no other one. -/
theorem scanQuoted_next (close : Char) (backslash : Bool) :
    ∀ s, (scanQuoted close backslash s).closed = true →
      (s.drop (scanQuoted close backslash s).len).head? ≠ some close
  | [], h => by simp [scanQuoted] at h
  | [ch], h => by
    rw [scanQuoted] at h ⊢
    split_ifs at h ⊢
    simp
  | ch :: e :: cs, h => by
    have h1 := scanQuoted_next close backslash cs
    have h2 := scanQuoted_next close backslash (e :: cs)
    rw [scanQuoted] at h ⊢
    split_ifs at h ⊢ with hb hc he
    · exact h1 h
    · exact h1 h
    · simpa using he
    · exact h2 h

theorem doubling_plain {q : Char} (h : q ∉ a) : doubling q a = a := by
  induction a with
  | nil => rfl
  | cons c cs ih =>
    rw [List.mem_cons, not_or] at h
    rw [doubling, if_neg (Ne.symm h.1), ih h.2]

theorem scan_string (prev : Option Char) (ha : '\'' ∉ a ∧ '\\' ∉ a) (hv : v.head? ≠ some '\'') :
    scanToken d prev ('\'' :: (a ++ '\'' :: v)) =
      some ({ kind := .string, text := a }, a.length + 2) := by
  have hstart : scanToken d prev ('\'' :: (a ++ '\'' :: v)) =
      some (quotedToken .string '\'' d.backslashEscape (a ++ '\'' :: v)) := by
    rw [scanToken_cons]
    rfl
  have hq := @quotedToken_doubling .string '\'' (by decide) d.backslashEscape a (fun _ => ha.2) v hv
  rw [doubling_plain ha.1] at hq
  rw [hstart, hq]

/-- The tokens from a string on. -/
theorem lex_string {prev : Option Char} {k : TokInfo}
    (hread : scanToken d prev ('\'' :: (a ++ '\'' :: v)) = some (k, a.length + 2)) (n : ℕ) :
    lexFrom (scanToken d) prev n 0 ('\'' :: (a ++ '\'' :: v)) =
      ⟨k, n, n + (a.length + 2)⟩ ::
        (lexFrom (scanToken d) (some '\'') 0 0 v).map (Lexeme.shift (n + (a.length + 2))) := by
  have hsplit : '\'' :: (a ++ '\'' :: v) = ('\'' :: a ++ ['\'']) ++ v := by simp
  have hlen : ('\'' :: a ++ ['\'']).length = a.length + 2 := by simp
  have hlast : lastOf prev ('\'' :: a ++ ['\'']) = some '\'' := by
    rw [lastOf_append]
    rfl
  rw [lexFrom_step (bounded_scanToken d) hread, hsplit, ← hlen, List.take_left, List.drop_left, hlast,
    lexFrom_eq_shift]

end Content

section Unseen

variable {d : Dialect} {p q q' v : Text} {c : ℕ}

/-- A stretch of the text that the completer does not look at, and what may stand for it: a blank
outside the tokens and a comment behind it, or two strings, the first one without the cursor. -/
inductive Unseen (d : Dialect) (p v : Text) (c : ℕ) : Text → Text → Prop
  | comment {w : Char} {body : Text} (blank : isspace w = true)
    (outside : ∀ t ∈ tokenize (p ++ [w] ++ v) d, ¬t.holds p.length)
    (ends : ¬"*/".toList <:+: body) : Unseen d p v c [w] (w :: commentText body)
  | content {t : Token} {a a' : Text}
    (token : t ∈ tokenize (p ++ ('\'' :: (a ++ ['\''])) ++ v) d)
    (start : t.start = p.length) (stop : t.stop = p.length + a.length + 2)
    (closed : t.kind.closed = true) (plain : '\'' ∉ a' ∧ '\\' ∉ a')
    (cursor : c ≤ t.start ∨ t.stop ≤ c) :
    Unseen d p v c ('\'' :: (a ++ ['\''])) ('\'' :: (a' ++ ['\'']))

theorem sameView_comment {w : Char} {body : Text} (blank : isspace w = true)
    (outside : ∀ t ∈ tokenize (p ++ [w] ++ v) d, ¬t.holds p.length)
    (ends : ¬"*/".toList <:+: body) (hlen : c ≤ (p ++ [w] ++ v).length) :
    SameView (editViews p [w] (w :: commentText body) v c) d := by
  have hs : p ++ [w] ++ v = p ++ w :: v := by simp
  have hs' : p ++ (w :: commentText body) ++ v = p ++ w :: (commentText body ++ v) := by simp
  have hseam : SeamAt (KeepsEnd (w :: v) (w :: (commentText body ++ v))) (0 + p.length)
      (lexFrom (scanToken d) none 0 0 (p ++ w :: v)) := by
    rw [← hs, Nat.zero_add]
    intro x hx
    have hnot := outside x hx
    unfold Lexeme.holds at hnot
    exact ⟨by omega, fun _ => .inr (.inl rfl)⟩
  obtain ⟨xs, hxs, h1, h2⟩ := lexFrom_swap (bounded_scanToken d)
    (swap_scanToken d (stops_cons.mpr (by simp [isBreak, blank]))) hseam
  rw [Nat.zero_add] at hxs h1 h2
  rw [lexFrom_pass (scanToken_eq_none.mpr blank), lexFrom_neutral d (neutral_of_isspace blank),
    ← hs] at h1
  rw [lex_comment blank ends, ← hs'] at h2
  have hout : OutsideEdit p [w] c := by
    unfold OutsideEdit
    rw [List.length_singleton]
    omega
  have hcursor := cursor_edit (w :: commentText body) v hout (by simp)
  refine sameView_edit xs [] [commentToken body (p.length + 1)] (tokenize v d) hout hlen (by simp)
    (by simp) hxs ?_ ?_ ?_ ?_
  · rw [List.append_nil, List.length_append]
    exact h1
  · have hl : (p ++ w :: commentText body).length = p.length + 1 + (commentText body).length := by
      rw [List.length_append, List.length_cons]
      omega
    rw [hl, List.append_assoc xs]
    exact h2
  · simp [notComment, commentToken]
  · have htext : (commentText body).length = body.length + 6 := by simp [commentText]
    rw [List.any_nil, List.any_eq_false]
    intro x hx
    obtain rfl := List.mem_singleton.mp hx
    intro hbars
    obtain ⟨hstart, hbars⟩ := Bool.and_eq_true_iff.mp hbars
    have hlt := of_decide_eq_true hstart
    rcases Bool.or_eq_true_iff.mp hbars with hstop | hopen
    · have hstop := of_decide_eq_true hstop
      simp only [commentToken] at hlt hstop
      simp only [List.length_cons, List.length_nil] at hcursor
      omega
    · simp [commentToken] at hopen

/-- What a token that is the string `a` says about the scan and the text behind it. -/
theorem scan_of_string {t : Token} {a : Text}
    (token : t ∈ tokenize (p ++ ('\'' :: (a ++ ['\''])) ++ v) d) (start : t.start = p.length)
    (stop : t.stop = p.length + a.length + 2) (closed : t.kind.closed = true) :
    scanToken d (lastOf none p) ('\'' :: (a ++ '\'' :: v)) = some (t.kind, a.length + 2) ∧
      t.kind.kind = .string ∧ t.kind.lineComment = false ∧ v.head? ≠ some '\'' := by
  have hs : p ++ '\'' :: (a ++ ['\'']) ++ v = p ++ '\'' :: (a ++ '\'' :: v) := by simp
  have hread : scanToken d (lastOf none p) ('\'' :: (a ++ '\'' :: v)) =
      some (t.kind, a.length + 2) := by
    have h := scan_of_mem (bounded_scanToken d) token
    rw [Nat.sub_zero, hs, start, List.take_left, List.drop_left, stop,
      show p.length + a.length + 2 - p.length = a.length + 2 by omega] at h
    exact h
  have hstring : quotedToken .string '\'' d.backslashEscape (a ++ '\'' :: v) =
      (t.kind, a.length + 2) := by
    have h := hread
    rw [scanToken_cons] at h
    exact Option.some_inj.mp h
  have hfst : _ = t.kind := congrArg Prod.fst hstring
  refine ⟨hread, hfst ▸ rfl, hfst ▸ rfl, ?_⟩
  have h := scanQuoted_next '\'' d.backslashEscape (a ++ '\'' :: v) (by
    have := congrArg (fun r => r.1.closed) hstring
    exact this.trans closed)
  have hl : (scanQuoted '\'' d.backslashEscape (a ++ '\'' :: v)).len = a.length + 1 := by
    have := congrArg Prod.snd hstring
    simp only [quotedToken] at this
    omega
  rw [hl, ← List.drop_drop, List.drop_left] at h
  exact h

/-- A string without the cursor moves to the string that stands for it. -/
theorem moved_string {info : TokInfo} {a : Text} (a' : Text) (hkind : info.kind = .string)
    (hline : info.lineComment = false) (closed : info.closed = true)
    (hout : OutsideEdit p ('\'' :: (a ++ ['\''])) c) :
    (editViews p ('\'' :: (a ++ ['\''])) ('\'' :: (a' ++ ['\''])) v c).Moved
      ⟨info, p.length, p.length + (a.length + 2)⟩
      ⟨{ kind := .string, text := a' }, p.length, p.length + (a'.length + 2)⟩ := by
  have hcursor := cursor_edit ('\'' :: (a' ++ ['\''])) v hout (by simp)
  unfold OutsideEdit at hout
  simp only [List.length_cons, List.length_append, List.length_nil] at hcursor hout
  have hview : (editViews p ('\'' :: (a ++ ['\''])) ('\'' :: (a' ++ ['\''])) v c).cursor = c := rfl
  refine ⟨⟨hkind.symm, closed.symm, hline.symm, fun h => absurd hkind h⟩, ?_, ?_, ?_, ?_, ?_, ?_,
    fun h => ?_⟩
  · exact (if_pos le_rfl).symm
  · refine Eq.trans ?_ (if_neg (by dsimp only; omega)).symm
    simp only [List.length_cons, List.length_append, List.length_nil]
    omega
  · dsimp only
    omega
  · dsimp only
    omega
  · dsimp only
    omega
  · dsimp only
    omega
  · simp [hkind] at h

theorem sameView_string {t : Token} {a a' : Text}
    (token : t ∈ tokenize (p ++ ('\'' :: (a ++ ['\''])) ++ v) d) (start : t.start = p.length)
    (stop : t.stop = p.length + a.length + 2) (closed : t.kind.closed = true)
    (plain : '\'' ∉ a' ∧ '\\' ∉ a') (cursor : c ≤ t.start ∨ t.stop ≤ c)
    (hlen : c ≤ (p ++ ('\'' :: (a ++ ['\''])) ++ v).length) :
    SameView (editViews p ('\'' :: (a ++ ['\''])) ('\'' :: (a' ++ ['\''])) v c) d := by
  have hs : p ++ '\'' :: (a ++ ['\'']) ++ v = p ++ '\'' :: (a ++ '\'' :: v) := by simp
  have hs' : p ++ '\'' :: (a' ++ ['\'']) ++ v = p ++ '\'' :: (a' ++ '\'' :: v) := by simp
  have hparts : Parts ('\'' :: (a ++ '\'' :: v)) ('\'' :: (a' ++ '\'' :: v)) := by
    rintro ch ⟨⟩
    exact ⟨by constructor <;> decide, fun _ => rfl⟩
  have hseam : SeamAt (KeepsEnd ('\'' :: (a ++ '\'' :: v)) ('\'' :: (a' ++ '\'' :: v)))
      (0 + p.length) (lexFrom (scanToken d) none 0 0 (p ++ '\'' :: (a ++ '\'' :: v))) := by
    rw [← hs, Nat.zero_add, ← start]
    exact fun x hx => ⟨(seam_start token x hx).1, fun _ => .inr (.inl rfl)⟩
  obtain ⟨xs, hxs, h1, h2⟩ := lexFrom_swap (bounded_scanToken d) (swap_parts d hparts) hseam
  rw [Nat.zero_add] at hxs h1 h2
  obtain ⟨hread, hkind, hline, hnext⟩ := scan_of_string token start stop closed
  have hread' := @scan_string d a' v (lastOf none p) plain hnext
  rw [lex_string hread, ← hs] at h1
  rw [lex_string hread', ← hs'] at h2
  have hl : ∀ b : Text, (p ++ '\'' :: (b ++ ['\''])).length = p.length + (b.length + 2) := by
    intro b
    simp only [List.length_append, List.length_cons, List.length_nil]
  have hout : OutsideEdit p ('\'' :: (a ++ ['\''])) c := by
    unfold OutsideEdit
    simp only [List.length_cons, List.length_append, List.length_nil]
    omega
  have hmoved := @moved_string p v c t.kind a a' hkind hline closed hout
  refine sameView_edit xs [⟨t.kind, p.length, p.length + (a.length + 2)⟩]
    [⟨{ kind := .string, text := a' }, p.length, p.length + (a'.length + 2)⟩]
    (lexFrom (scanToken d) (some '\'') 0 0 v) hout hlen (by simp) (by simp) hxs ?_ ?_ ?_ ?_
  · rw [hl, List.append_assoc xs]
    exact h1
  · rw [hl, List.append_assoc xs]
    exact h2
  · rw [List.filter_cons_of_pos (by simp [notComment, hkind]),
      List.filter_cons_of_pos (by simp [notComment])]
    exact .cons hmoved .nil
  · exact Views.bars_moved (.cons hmoved .nil)

theorem sameView_unseen (h : Unseen d p v c q q') (hlen : c ≤ (p ++ q ++ v).length) :
    SameView (editViews p q q' v c) d := by
  cases h with
  | comment blank outside ends => exact sameView_comment blank outside ends hlen
  | content token start stop closed plain cursor =>
    exact sameView_string token start stop closed plain cursor hlen

/-- Comments and the content of strings change neither what is offered nor what a name stands
for. -/
theorem unseen_text {type : DatabaseType} (h : Unseen (dialectFor type) p v c q q')
    (hlen : c ≤ (p ++ q ++ v).length) (catalog : CompletionCatalog) :
    complete (p ++ q' ++ v) (shiftPast p q q' c) catalog type =
        (complete (p ++ q ++ v) c catalog type).map (CompletionResult.move (shiftPast p q q')) ∧
      resolveIdentifierAt (p ++ q' ++ v) (shiftPast p q q' c) catalog type =
        (resolveIdentifierAt (p ++ q ++ v) c catalog type).map
          (Option.map (ResolvedIdentifier.move (shiftPast p q q'))) :=
  ⟨complete_moved (sameView_unseen h hlen) catalog,
    resolveIdentifierAt_moved (sameView_unseen h hlen) catalog⟩

theorem unseen_text_blank :
    complete (['a'] ++ (' ' :: commentText ['z']) ++ ['b'])
        (shiftPast ['a'] [' '] (' ' :: commentText ['z']) 3) {} .POSTGRESQL =
      (complete (['a'] ++ [' '] ++ ['b']) 3 {} .POSTGRESQL).map
        (CompletionResult.move (shiftPast ['a'] [' '] (' ' :: commentText ['z']))) ∧
    resolveIdentifierAt (['a'] ++ (' ' :: commentText ['z']) ++ ['b'])
        (shiftPast ['a'] [' '] (' ' :: commentText ['z']) 3) {} .POSTGRESQL =
      (resolveIdentifierAt (['a'] ++ [' '] ++ ['b']) 3 {} .POSTGRESQL).map
        (Option.map (ResolvedIdentifier.move (shiftPast ['a'] [' '] (' ' :: commentText ['z'])))) := by
  have htokens : tokenize (['a'] ++ [' '] ++ ['b']) (dialectFor .POSTGRESQL) =
      [⟨{ kind := .word, text := ['a'] }, 0, 1⟩, ⟨{ kind := .word, text := ['b'] }, 2, 3⟩] := by
    decide
  have houtside : ∀ t ∈ tokenize (['a'] ++ [' '] ++ ['b']) (dialectFor .POSTGRESQL),
      ¬t.holds (['a'] : Text).length := by
    rw [htokens]
    simp [Lexeme.holds]
  exact unseen_text (.comment (by decide) houtside (by decide)) (by decide) {}

end Unseen
end DearSql
