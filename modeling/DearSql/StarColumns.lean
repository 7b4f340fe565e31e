import DearSql.Columns
import DearSql.TokenViews

/-! The columns of references that stand for star queries over each other. -/
namespace DearSql
open Lexing Loops

namespace Analyzer

variable {a : Analyzer} {r r' : RelationRef} {cols : List ColInfo} {g : ℤ}

/-- The query of group `g` selects everything of `r`, and of nothing else. -/
def SelectsAll (a : Analyzer) (g : ℤ) (r : RelationRef) : Prop :=
  ∀ (refCols : RelationRef → ℕ → Option (List ColInfo)) (depth : ℕ),
    a.selectColumns refCols g depth = if 6 < depth then some [] else refCols r (depth + 1)

/-- The reference stands for a table of the catalog, with these columns. -/
def IsTable (a : Analyzer) (r : RelationRef) (cols : List ColInfo) : Prop :=
  ∀ (refCols : RelationRef → ℕ → Option (List ColInfo)) (depth : ℕ),
    a.sourceColumns refCols r depth = some cols

/-- The reference stands for a star query over the other one. -/
def IsStarOf (a : Analyzer) (r r' : RelationRef) : Prop :=
  ∃ g, a.SelectsAll g r' ∧
    ∀ (refCols : RelationRef → ℕ → Option (List ColInfo)) (depth : ℕ),
      a.sourceColumns refCols r depth = a.selectColumns refCols g (depth + 1)

/-- So many star queries lie between the reference and a table with these columns. -/
inductive Exposes (a : Analyzer) (cols : List ColInfo) : ℕ → RelationRef → Prop
  | table {r : RelationRef} (h : a.IsTable r cols) (halias : r.columnAliases = []) :
    Exposes a cols 0 r
  | star {n : ℕ} {r r' : RelationRef} (h : a.IsStarOf r r') (halias : r.columnAliases = [])
    (rest : Exposes a cols n r') : Exposes a cols (n + 1) r

theorem applyAliases_nil (cols : List ColInfo) : applyAliases cols [] = cols := by
  cases cols <;> rfl

/-- One level deeper for the query, one more for what it selects from. -/
theorem columnsWithin_star (h : a.IsStarOf r r') (halias : r.columnAliases = []) (n depth : ℕ) :
    a.columnsWithin (n + 1) r depth =
      if 5 < depth then some [] else a.columnsWithin n r' (depth + 2) := by
  obtain ⟨g, hselect, hsource⟩ := h
  rw [columnsWithin, columnsStep, hsource, hselect, halias]
  by_cases h5 : 5 < depth
  · rw [if_pos h5, if_pos (show 6 < depth + 1 by omega)]
    split_ifs <;> rfl
  · rw [if_neg h5, if_neg (show ¬6 < depth by omega), if_neg (show ¬6 < depth + 1 by omega),
      show depth + 1 + 1 = depth + 2 from rfl]
    cases a.columnsWithin n r' (depth + 2) with
    | none => rfl
    | some cols => simp [applyAliases_nil]

/-- The columns come through as long as the depth of the table does not pass six. -/
theorem columnsWithin_exposes {n m depth : ℕ} (h : a.Exposes cols n r) (hm : 6 < depth + 2 * m) :
    a.columnsWithin (m + 1) r depth = some (if depth + 2 * n ≤ 6 then cols else []) := by
  induction h generalizing m depth with
  | table h halias =>
    rw [columnsWithin, columnsStep, h, halias]
    by_cases hd : depth ≤ 6
    · simp [hd, show ¬6 < depth by omega, applyAliases_nil]
    · simp [hd, show 6 < depth by omega]
  | @star n r r' h halias _ ih =>
    rw [columnsWithin_star h halias]
    by_cases h5 : 5 < depth
    · rw [if_pos h5, if_neg (by omega)]
    · obtain ⟨k, rfl⟩ : ∃ k, m = k + 1 := ⟨m - 1, by omega⟩
      rw [if_neg h5, ih (by omega)]
      congr 2
      simp only [eq_iff_iff]
      omega

theorem refColumns_exposes {n : ℕ} (h : a.Exposes cols n r) :
    a.refColumns r = some (if n ≤ 3 then cols else []) := by
  rw [refColumns, columnsWithin_exposes (m := 4) h (by omega)]
  congr 2
  simp only [eq_iff_iff]
  omega

/-- Star queries that go round never reach a table. -/
theorem columnsWithin_circle {R : RelationRef → Prop}
    (hR : ∀ r, R r → r.columnAliases = [] ∧ ∃ r', R r' ∧ a.IsStarOf r r') {m depth : ℕ} (h : R r)
    (hm : 6 < depth + 2 * m) : a.columnsWithin (m + 1) r depth = some [] := by
  induction m generalizing r depth with
  | zero =>
    obtain ⟨halias, r', -, hstar⟩ := hR r h
    rw [columnsWithin_star hstar halias, if_pos (by omega)]
  | succ m ih =>
    obtain ⟨halias, r', hr', hstar⟩ := hR r h
    rw [columnsWithin_star hstar halias]
    split_ifs with h5
    · rfl
    · exact ih hr' (by omega)

theorem refColumns_circle {R : RelationRef → Prop}
    (hR : ∀ r, R r → r.columnAliases = [] ∧ ∃ r', R r' ∧ a.IsStarOf r r') (h : R r) :
    a.refColumns r = some [] := columnsWithin_circle hR h (by omega)

section Root

variable {x : Text} {close : ℤ}

theorem nearerTurn_inner (hroot : at? a.groups 0 = some ⟨-1, -1, close⟩) {u : RelationRef}
    (hu : u.group ≠ 0) (best : ℤ × Option RelationRef) :
    a.nearerTurn x 0 best u = some best := by
  have hvisible : a.isAncestorOrSelf u.group 0 = some false := by
    obtain ⟨n, hn⟩ : ∃ n, a.groups.length = n + 1 :=
      ⟨a.groups.length - 1, by have := (at?_bounds hroot).2.1; omega⟩
    have hfirst : a.ancestorTurn u.group 0 = some (.next (-1)) := by
      rw [Brackets.ancestorTurn, if_pos le_rfl, if_neg hu.symm, hroot]
      rfl
    rw [Brackets.isAncestorOrSelf, hn, loop_next hfirst]
    exact loop_done rfl
  unfold nearerTurn
  rw [hvisible]
  split_ifs <;> rfl

/-- The one reference of the statement itself is found by its name. -/
theorem findRef_root (hroot : at? a.groups 0 = some ⟨-1, -1, close⟩) {before after : List RelationRef}
    (hrefs : a.refs = before ++ r :: after) (hinner : ∀ u ∈ before ++ after, u.group ≠ 0)
    (hname : r.name = x) (hgroup : r.group = 0) : a.findRef x 0 = some (some r) := by
  have hsame : ∀ l : List RelationRef, (∀ u ∈ l, u.group ≠ 0) → ∀ best,
      l.foldlM (a.nearerTurn x 0) best = some best := by
    intro l hl best
    induction l with
    | nil => rfl
    | cons u l ih =>
      rw [List.foldlM_cons, nearerTurn_inner hroot (hl u List.mem_cons_self)]
      exact ih fun v hv => hl v (List.mem_cons_of_mem _ hv)
  have hself : a.nearerTurn x 0 (-1, none) r = some (0, some r) := by
    have hvisible : a.isAncestorOrSelf 0 0 = some true := loop_done rfl
    have hdepth : a.depthOf 0 = some 0 := loop_done rfl
    unfold nearerTurn
    rw [hgroup, hvisible, hname, hdepth]
    simp [ieq]
  rw [findRef, hrefs, List.foldlM_append, hsame before fun u hu => hinner u (by simp [hu]),
    Option.bind_eq_bind, Option.bind_some, List.foldlM_cons, hself, Option.bind_eq_bind,
    Option.bind_some, hsame after fun u hu => hinner u (by simp [hu])]
  rfl

end Root
end Analyzer

section Bodies

variable {a : Analyzer} {g o c parent : ℤ} {rest : List Sym}

def starToks : List Sym := [.word "SELECT".toList, .op ['*'], .word "FROM".toList]

/-- The select list of `(SELECT * FROM ...)`. -/
theorem selectItems_star (hgroup : at? a.groups g = some ⟨parent, o, c⟩)
    (hsees : Sees a.toks (o + 1) (starToks ++ rest)) (hg : a.groupOf (o + 1) = some g)
    (hc : o + 3 < c) (hsize : c ≤ a.size) : a.selectItems g = some [[o + 2]] := by
  have hselect : at? a.toks (o + 1) = some (.word "SELECT".toList) := hsees.at
  have hstar : at? a.toks (o + 1 + 1) = some (.op ['*']) := hsees.tail.at
  have hfrom : at? a.toks (o + 1 + 1 + 1) = some (.word "FROM".toList) := hsees.tail.tail.at
  have hk : loop (a.selectTurn g c) (a.toks.length + 2) (o + 1) = some (o + 1) := by
    refine loop_done ?_
    rw [Analyzer.selectTurn, if_pos (by omega), hg]
    simp only [Option.bind_eq_bind, Option.bind_some]
    have hkw : isKw a.toks (o + 1) "SELECT" = true := by
      rw [isKw_of_at hselect]
      decide
    rw [if_pos ⟨trivial, hkw⟩]
  have hmodifier : loop (a.modifierTurn c) (a.toks.length + 1) (o + 1 + 1) = some (o + 1 + 1) := by
    refine loop_done ?_
    rw [Analyzer.modifierTurn, if_pos (by omega), isKwIn_of_at hstar, isKw_of_at hstar]
    rfl
  have hfirst : a.itemTurn c (o + 1 + 1, [], []) = some (.next (o + 1 + 1 + 1, [o + 1 + 1], [])) := by
    simp only [Analyzer.itemTurn]
    rw [if_pos (by omega), isKwIn_of_at hstar, isPunct_of_at hstar, Brackets.past,
      isPunct_of_at hstar]
    rfl
  have hlast : a.itemTurn c (o + 1 + 1 + 1, [o + 1 + 1], []) = some (.done [[o + 1 + 1]]) := by
    simp only [Analyzer.itemTurn]
    rw [if_pos (by omega), isKwIn_of_at hfrom, if_pos (by decide)]
    rfl
  have hmin : min c a.size = c := min_eq_left hsize
  obtain ⟨n, hn⟩ : ∃ n, a.toks.length = n + 1 := ⟨a.toks.length - 1, by
    have := hsees.lt
    have := hsees.nonneg
    omega⟩
  rw [Analyzer.selectItems, hgroup]
  simp only [Option.bind_eq_bind, Option.bind_some, hmin, hk]
  rw [if_neg (by omega)]
  simp only [hmodifier, Option.bind_some]
  rw [hn, loop_next hfirst, loop_done hlast]
  simp [add_assoc]

/-- A star over the one reference of its group. -/
theorem selectsAll_star {r : RelationRef} (hitems : a.selectItems g = some [[o]])
    (hat : at? a.toks o = some (.op ['*'])) (hrefs : a.visibleRefsIn g = [r]) :
    a.SelectsAll g r := by
  have hitem : ∀ f : RelationRef → Option (List ColInfo), a.deriveItem f [o] g = f r := by
    intro f
    have hlast : at? [o] (([o] : List ℤ).length - 1 : ℤ) = some o := rfl
    rw [Analyzer.deriveItem, if_neg (by simp)]
    simp only [hlast, Option.bind_eq_bind, Option.bind_some, hat]
    rw [if_pos trivial, Analyzer.starColumns, if_pos (by rfl), hrefs, List.mapM_cons]
    cases f r with
    | none => rfl
    | some cols => simp
  intro refCols depth
  rw [Analyzer.selectColumns]
  split_ifs with h6
  · rfl
  · rw [hitems, Option.bind_eq_bind, Option.bind_some, List.mapM_cons, hitem]
    cases refCols r (depth + 1) with
    | none => rfl
    | some cols => simp

end Bodies
end DearSql
