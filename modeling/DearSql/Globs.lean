import Mathlib

/-! Patterns with wildcards, as servers that match names against them describe these: a star stands
for any text, a question mark for one character, a set in brackets for one of its characters, and a
backslash makes the character behind it stand for itself. -/
namespace DearSql.Globs

def special (c : Char) : Bool := c = '*' || c = '?' || c = '[' || c = '\\'

/-- Matching by patterns. -/
structure Glob where
  accepts : List Char → List Char → Bool
  nil (s : List Char) : accepts [] s = true ↔ s = []
  plain (c : Char) (p s : List Char) : special c = false →
    (accepts (c :: p) s = true ↔ ∃ t, s = c :: t ∧ accepts p t = true)
  star (p s : List Char) : accepts ('*' :: p) s = true ↔ ∃ t, t <:+ s ∧ accepts p t = true
  one (p s : List Char) : accepts ('?' :: p) s = true ↔ ∃ c t, s = c :: t ∧ accepts p t = true
  escape (c : Char) (p s : List Char) :
    accepts ('\\' :: c :: p) s = true ↔ ∃ t, s = c :: t ∧ accepts p t = true
  escape_end (s : List Char) : accepts ['\\'] s = true ↔ s = ['\\']
  /-- A set takes one character, and the pattern goes on behind it. -/
  set (p : List Char) : ∃ (test : Char → Bool) (q : List Char), q <:+ p ∧ (q = p → p = []) ∧
    ∀ s, accepts ('[' :: p) s = true ↔ ∃ c t, s = c :: t ∧ test c = true ∧ accepts q t = true
  /-- Without negation, ranges and escapes a set takes characters that it lists. -/
  set_listed (p : List Char) (c : Char) (s : List Char) : p.head? ≠ some '^' → '-' ∉ p → '\\' ∉ p →
    accepts ('[' :: p) (c :: s) = true → c ∈ p

namespace Glob

variable {g : Glob} {p q s : List Char}

/-- Characters that are not special stand for themselves. -/
theorem accepts_plain (h : ∀ c ∈ p, special c = false) :
    g.accepts (p ++ q) s = true ↔ ∃ t, s = p ++ t ∧ g.accepts q t = true := by
  induction p generalizing s with
  | nil => simp
  | cons c p ih =>
    obtain ⟨hc, hp⟩ := List.forall_mem_cons.mp h
    rw [List.cons_append, g.plain c _ _ hc]
    constructor
    · rintro ⟨t, rfl, ht⟩
      obtain ⟨u, rfl, hu⟩ := (ih hp).mp ht
      exact ⟨u, rfl, hu⟩
    · rintro ⟨u, rfl, hu⟩
      exact ⟨p ++ u, rfl, (ih hp).mpr ⟨u, rfl, hu⟩⟩

theorem accepts_star_end : g.accepts ['*'] s = true :=
  (g.star [] s).mpr ⟨[], List.nil_suffix, (g.nil []).mpr rfl⟩

end Glob

section Documented

/-- The ranges of a set up to its end, and what comes behind it. -/
def readSet : List Char → List (Char × Char) × List Char
  | [] => ([], [])
  | '\\' :: c :: p => ((c, c) :: (readSet p).1, (readSet p).2)
  | ']' :: p => ([], p)
  | a :: '-' :: b :: p => ((min a b, max a b) :: (readSet p).1, (readSet p).2)
  | a :: p => ((a, a) :: (readSet p).1, (readSet p).2)

def inRanges (ranges : List (Char × Char)) (c : Char) : Bool :=
  ranges.any fun r => decide (r.1 ≤ c) && decide (c ≤ r.2)

/-- A set: the characters it takes, and what comes behind it. -/
def setOf (p : List Char) : (Char → Bool) × List Char :=
  match p with
  | '^' :: p => (fun c => !inRanges (readSet p).1 c, (readSet p).2)
  | p => (inRanges (readSet p).1, (readSet p).2)

theorem readSet_suffix (p : List Char) : (readSet p).2 <:+ p.tail := by
  fun_induction readSet p with
  | case1 => exact List.suffix_refl _
  | case2 c p ih => exact (ih.trans (List.tail_suffix _)).trans (List.suffix_cons _ _)
  | case3 p => exact List.suffix_refl _
  | case4 a b p _ _ ih =>
    exact ((ih.trans (List.tail_suffix _)).trans (List.suffix_cons _ _)).trans (List.suffix_cons _ _)
  | case5 a p _ _ _ ih => exact ih.trans (List.tail_suffix _)

theorem setOf_suffix (p : List Char) : (setOf p).2 <:+ p.tail := by
  unfold setOf
  split
  · exact (readSet_suffix _).trans (List.tail_suffix _)
  · exact readSet_suffix _

theorem setOf_length_le (p : List Char) : (setOf p).2.length ≤ p.length :=
  ((setOf_suffix p).trans (List.tail_suffix _)).length_le

theorem mem_of_inRanges {p : List Char} {c : Char} (hrange : '-' ∉ p) (hescape : '\\' ∉ p)
    (h : inRanges (readSet p).1 c = true) : c ∈ p := by
  fun_induction readSet p with
  | case1 => cases h
  | case2 d p ih => exact absurd List.mem_cons_self hescape
  | case3 p => cases h
  | case4 a b p _ _ ih => exact absurd (List.mem_cons_of_mem _ List.mem_cons_self) hrange
  | case5 a p _ _ _ ih =>
    rw [inRanges, List.any_cons, Bool.or_eq_true] at h
    rcases h with h | h
    · have hac : a = c := by
        simp only [Bool.and_eq_true, decide_eq_true_eq] at h
        exact le_antisymm h.1 h.2
      rw [hac]
      exact List.mem_cons_self
    · exact List.mem_cons_of_mem _ (ih (fun hm => hrange (List.mem_cons_of_mem _ hm))
        (fun hm => hescape (List.mem_cons_of_mem _ hm)) h)

/-- A pattern as a sequence of tests for one character, and of stars. -/
def tests : List Char → List (Option (Char → Bool))
  | [] => []
  | '*' :: p => none :: tests p
  | '?' :: p => some (fun _ => true) :: tests p
  | '\\' :: c :: p => some (fun d => d == c) :: tests p
  | '[' :: p =>
    have := setOf_length_le p
    some (setOf p).1 :: tests (setOf p).2
  | c :: p => some (fun d => d == c) :: tests p
termination_by p => p.length

def passes : List (Option (Char → Bool)) → List Char → Bool
  | [], s => s.isEmpty
  | none :: ts, s => s.tails.any (passes ts)
  | some _ :: _, [] => false
  | some t :: ts, c :: s => t c && passes ts s

theorem passes_some {t : Char → Bool} {ts : List (Option (Char → Bool))} {s : List Char} :
    passes (some t :: ts) s = true ↔ ∃ c u, s = c :: u ∧ t c = true ∧ passes ts u = true := by
  cases s <;> simp [passes]

theorem passes_char {c : Char} {ts : List (Option (Char → Bool))} {s : List Char} :
    passes (some (fun d => d == c) :: ts) s = true ↔ ∃ u, s = c :: u ∧ passes ts u = true := by
  rw [passes_some]
  simp

/-- The patterns as documented. -/
def documented : Glob where
  accepts p := passes (tests p)
  nil s := by simp [tests, passes]
  plain c p s hc := by
    have htests : tests (c :: p) = some (fun d => d == c) :: tests p := by
      simp only [special, Bool.or_eq_false_iff, decide_eq_false_iff_not] at hc
      rw [tests]
      all_goals simp_all
    rw [htests, passes_char]
  star p s := by
    rw [tests, passes, List.any_eq_true]
    simp [List.mem_tails]
  one p s := by
    rw [tests, passes_some]
    simp
  escape c p s := by
    rw [tests, passes_char]
  escape_end s := by
    have htests : tests ['\\'] = [some fun d => d == '\\'] := by
      rw [tests]
      all_goals simp [tests]
    rw [htests, passes_char]
    simp [passes]
  set p := by
    refine ⟨(setOf p).1, (setOf p).2, (setOf_suffix p).trans (List.tail_suffix _), fun h => ?_,
      fun s => ?_⟩
    · have hlen := (setOf_suffix p).length_le
      rw [h, List.length_tail] at hlen
      exact List.length_eq_zero_iff.mp (by omega)
    · rw [tests, passes_some]
  set_listed p c s hneg hrange hescape h := by
    rw [tests, passes_some] at h
    obtain ⟨d, u, hs, htest, -⟩ := h
    obtain rfl := (List.cons.inj hs).1
    unfold setOf at htest
    split at htest
    · exact absurd rfl hneg
    · exact mem_of_inRanges hrange hescape htest

example : documented.accepts "h[a-c]l\\*?*".toList "hbl*xyz".toList = true := by
  simp [documented, tests, passes, setOf, readSet, inRanges]

end Documented
end DearSql.Globs
