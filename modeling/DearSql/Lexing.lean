import Mathlib

/-! Lexing by a scanner: at each position outside a lexeme the scanner sees the element
before it and the rest of the text, and either passes over one element or starts a
lexeme of a given length. -/
namespace DearSql.Lexing

variable {α τ : Type*}

abbrev Scanner (α τ : Type*) := Option α → List α → Option (τ × ℕ)

structure Lexeme (τ : Type*) where
  kind : τ
  start : ℕ
  stop : ℕ
  deriving DecidableEq, Repr

/-- The lexemes from position `pos` on; `skip` elements still belong to the last one.
A lexeme takes at least one element. -/
def lexFrom (scan : Scanner α τ) : Option α → ℕ → ℕ → List α → List (Lexeme τ)
  | _, _, _, [] => []
  | _, pos, skip + 1, c :: cs => lexFrom scan (some c) (pos + 1) skip cs
  | prev, pos, 0, c :: cs =>
    match scan prev (c :: cs) with
    | none => lexFrom scan (some c) (pos + 1) 0 cs
    | some (t, n) => ⟨t, pos, pos + max n 1⟩ :: lexFrom scan (some c) (pos + 1) (n - 1) cs

def lex (scan : Scanner α τ) (s : List α) : List (Lexeme τ) := lexFrom scan none 0 0 s

variable {scan : Scanner α τ}

theorem lexFrom_nil (prev : Option α) (pos skip : ℕ) : lexFrom scan prev pos skip [] = [] := rfl

theorem lexFrom_pass {prev : Option α} {pos : ℕ} {c : α} {cs : List α}
    (h : scan prev (c :: cs) = none) :
    lexFrom scan prev pos 0 (c :: cs) = lexFrom scan (some c) (pos + 1) 0 cs := by
  rw [lexFrom, h]

theorem lexFrom_take {prev : Option α} {pos n : ℕ} {c : α} {cs : List α} {t : τ}
    (h : scan prev (c :: cs) = some (t, n)) :
    lexFrom scan prev pos 0 (c :: cs) =
      ⟨t, pos, pos + max n 1⟩ :: lexFrom scan (some c) (pos + 1) (n - 1) cs := by
  rw [lexFrom, h]

theorem start_ge {prev : Option α} {pos skip : ℕ} {s : List α} {x : Lexeme τ}
    (hx : x ∈ lexFrom scan prev pos skip s) : pos ≤ x.start := by
  induction s generalizing prev pos skip with
  | nil => simp [lexFrom_nil] at hx
  | cons c cs ih =>
    cases skip with
    | succ k => exact (Nat.le_succ _).trans (ih hx)
    | zero =>
      cases hs : scan prev (c :: cs) with
      | none =>
        rw [lexFrom_pass hs] at hx
        exact (Nat.le_succ _).trans (ih hx)
      | some r =>
        rw [lexFrom_take hs] at hx
        rcases List.mem_cons.mp hx with rfl | hx
        · exact le_rfl
        · exact (Nat.le_succ _).trans (ih hx)

theorem start_lt_stop {prev : Option α} {pos skip : ℕ} {s : List α} {x : Lexeme τ}
    (hx : x ∈ lexFrom scan prev pos skip s) : x.start < x.stop := by
  induction s generalizing prev pos skip with
  | nil => simp [lexFrom_nil] at hx
  | cons c cs ih =>
    cases skip with
    | succ k => exact ih hx
    | zero =>
      cases hs : scan prev (c :: cs) with
      | none =>
        rw [lexFrom_pass hs] at hx
        exact ih hx
      | some r =>
        rw [lexFrom_take hs] at hx
        rcases List.mem_cons.mp hx with rfl | hx
        · simp only
          omega
        · exact ih hx

theorem starts_increasing (prev : Option α) (pos skip : ℕ) (s : List α) :
    (lexFrom scan prev pos skip s).Pairwise fun x y => x.start < y.start := by
  induction s generalizing prev pos skip with
  | nil => simp [lexFrom_nil]
  | cons c cs ih =>
    cases skip with
    | succ k => exact ih _ _ _
    | zero =>
      cases hs : scan prev (c :: cs) with
      | none =>
        rw [lexFrom_pass hs]
        exact ih _ _ _
      | some r =>
        rw [lexFrom_take hs]
        exact List.pairwise_cons.mpr ⟨fun y hy => start_ge hy, ih _ _ _⟩

/-- A lexeme is what the scanner says at its start. -/
theorem scan_at_start {prev : Option α} {pos skip : ℕ} {s : List α} {x : Lexeme τ}
    (hx : x ∈ lexFrom scan prev pos skip s) :
    ∃ p c rest n, s.drop (x.start - pos) = c :: rest ∧ scan p (c :: rest) = some (x.kind, n) := by
  induction s generalizing prev pos skip with
  | nil => simp [lexFrom_nil] at hx
  | cons c cs ih =>
    have tail : ∀ {p : Option α} {k : ℕ}, x ∈ lexFrom scan p (pos + 1) k cs →
        ∃ q d rest n, (c :: cs).drop (x.start - pos) = d :: rest ∧
          scan q (d :: rest) = some (x.kind, n) := by
      intro p k h
      have hle := start_ge h
      obtain ⟨q, d, rest, n, hd, hscan⟩ := ih h
      refine ⟨q, d, rest, n, ?_, hscan⟩
      have he : x.start - pos = x.start - (pos + 1) + 1 := by omega
      rwa [he, List.drop_succ_cons]
    cases skip with
    | succ k => exact tail hx
    | zero =>
      cases hs : scan prev (c :: cs) with
      | none =>
        rw [lexFrom_pass hs] at hx
        exact tail hx
      | some r =>
        rw [lexFrom_take hs] at hx
        rcases List.mem_cons.mp hx with rfl | hx
        · exact ⟨prev, c, cs, r.2, by simp, hs⟩
        · exact tail hx

theorem scan_at_start_lex {s : List α} {x : Lexeme τ} (hx : x ∈ lex scan s) :
    ∃ p c rest n, s.drop x.start = c :: rest ∧ scan p (c :: rest) = some (x.kind, n) := by
  simpa using scan_at_start hx

theorem lexFrom_pass_all {gap rest : List α} {prev : Option α} {pos : ℕ}
    (h : ∀ p c cs, c ∈ gap → scan p (c :: cs) = none) :
    ∃ p, lexFrom scan prev pos 0 (gap ++ rest) = lexFrom scan p (pos + gap.length) 0 rest := by
  induction gap generalizing prev pos with
  | nil => exact ⟨prev, rfl⟩
  | cons c cs ih =>
    obtain ⟨p, hp⟩ := @ih (some c) (pos + 1) fun p d ds hd => h p d ds (by simp [hd])
    refine ⟨p, ?_⟩
    rw [List.cons_append, lexFrom_pass (h prev c _ (by simp)), hp, List.length_cons,
      Nat.add_right_comm, Nat.add_assoc]

theorem lex_gap_cons {gap rest : List α} {c : α} {k : Option α → τ} {n : Option α → ℕ}
    (h : ∀ p d ds, d ∈ gap → scan p (d :: ds) = none)
    (hc : ∀ p, scan p (c :: rest) = some (k p, n p)) :
    ∃ p ls, lex scan (gap ++ c :: rest) =
      ⟨k p, gap.length, gap.length + max (n p) 1⟩ :: ls := by
  obtain ⟨p, hp⟩ := @lexFrom_pass_all _ _ scan gap (c :: rest) none 0 h
  refine ⟨p, lexFrom scan (some c) (gap.length + 1) (n p - 1) rest, ?_⟩
  rw [lex, hp, Nat.zero_add, lexFrom_take (hc p)]

section Groups

/-- The groups of elements between separators, blank elements dropped. -/
def groups (isBlank isSep : τ → Bool) (ls : List τ) : List (List τ) :=
  ((ls.filter fun x => !isBlank x).splitOnP isSep).filter fun g => !g.isEmpty

variable {isBlank isSep : τ → Bool}

theorem filter_splitOnP_seps (b : List τ) (hb : ∀ x ∈ b, isSep x = true) :
    ((b.splitOnP isSep).filter fun g => !g.isEmpty) = [] := by
  induction b with
  | nil => simp [List.splitOnP_nil]
  | cons x xs ih =>
    have hx := List.splitOnP_append_cons [] xs (hb x (by simp))
    rw [List.nil_append] at hx
    rw [hx, List.filter_append, ih fun y hy => hb y (by simp [hy])]
    simp [List.splitOnP_nil]

/-- Elements before the first separator and separators only after it: one group. -/
theorem groups_eq_singleton {ls a b : List τ} (h : ls.filter (fun x => !isBlank x) = a ++ b)
    (hne : a ≠ []) (ha : ∀ x ∈ a, isSep x = false) (hb : ∀ x ∈ b, isSep x = true) :
    groups isBlank isSep ls = [a] := by
  have hae : a.isEmpty = false := by simpa using hne
  unfold groups
  rw [h]
  cases b with
  | nil => simp [List.splitOnP_eq_singleton ha, hae]
  | cons x xs =>
    rw [List.splitOnP_append_cons _ _ (hb x (by simp)), List.splitOnP_eq_singleton ha,
      List.filter_append, filter_splitOnP_seps xs fun y hy => hb y (by simp [hy])]
    simp [hae]

theorem exists_group {ls : List τ} {x : τ} (hx : x ∈ ls) (hs : isSep x = false) :
    ((ls.splitOnP isSep).filter fun g => !g.isEmpty) ≠ [] := by
  intro he
  have hall : ∀ g ∈ ls.splitOnP isSep, g = [] := by
    intro g hg
    by_contra hne
    have : g ∈ (ls.splitOnP isSep).filter fun g => !g.isEmpty := by
      simp [List.mem_filter, hg, hne]
    rw [he] at this
    simp at this
  have hseps : ∀ (l : List τ), (∀ g ∈ l.splitOnP isSep, g = []) → ∀ y ∈ l, isSep y = true := by
    intro l
    induction l with
    | nil => simp
    | cons y ys ih =>
      intro h z hz
      rw [List.splitOnP_cons_eq_if_modifyHead] at h
      by_cases hy : isSep y = true
      · rw [if_pos hy] at h
        rcases List.mem_cons.mp hz with rfl | hz
        · exact hy
        · exact ih (fun g hg => h g (by simp [hg])) z hz
      · rw [if_neg hy] at h
        cases hsp : ys.splitOnP isSep with
        | nil => exact absurd hsp (List.splitOnP_ne_nil _ _)
        | cons g gs => exact absurd (h (y :: g) (by simp [hsp])) (by simp)
  simp [hseps ls hall x hx] at hs

/-- A separator with elements on both sides: no single group. -/
theorem groups_ne_singleton {ls a b : List τ} {sep w y : τ} (g : List τ)
    (h : ls.filter (fun x => !isBlank x) = a ++ sep :: b) (hsep : isSep sep = true)
    (hw : w ∈ a) (hws : isSep w = false) (hy : y ∈ b) (hys : isSep y = false) :
    groups isBlank isSep ls ≠ [g] := by
  intro he
  have hlen := congrArg List.length he
  unfold groups at hlen
  rw [h, List.splitOnP_append_cons _ _ hsep, List.filter_append, List.length_append] at hlen
  have h1 := List.length_pos_iff.mpr (exists_group hw hws)
  have h2 := List.length_pos_iff.mpr (exists_group hy hys)
  simp only [List.length_singleton] at hlen
  omega

end Groups
end DearSql.Lexing
