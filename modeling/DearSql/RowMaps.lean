import DearSql.Joins

/-! Maps filled row by row, each row under the key it carries, as `map[key]` fills them. What
stands under a key is what the rows of that key fill, so two answers that agree on those rows
fill it alike. -/
namespace DearSql.RowMaps
open Joins

variable {α β κ γ ρ μ ν : Type} [DecidableEq κ]

/-- `map[tag row]` becomes `put map[tag row] row`; a row without a tag is skipped. -/
def fill (tag : ρ → Option κ) (put : γ → ρ → γ) (start : κ → γ) (rows : List ρ) : κ → γ :=
  rows.foldl (fun map row =>
    match tag row with
    | none => map
    | some key => Function.update map key (put (map key) row)) start

/-- The rows under one key. -/
def ownRows (tag : ρ → Option κ) (key : κ) (rows : List ρ) : List ρ :=
  rows.filter fun row => tag row = some key

variable {tag : ρ → Option κ} {put : γ → ρ → γ} {start : κ → γ} {rows : List ρ} {key : κ}

theorem fill_at : fill tag put start rows key = (ownRows tag key rows).foldl put (start key) := by
  induction rows generalizing start with
  | nil => rfl
  | cons row rows ih =>
    rw [fill, List.foldl_cons]
    change fill tag put _ rows key = _
    rw [ih, ownRows, ownRows, List.filter_cons]
    cases htag : tag row with
    | none => simp
    | some k =>
      by_cases hk : k = key
      · simp [hk]
      · simp [hk, Function.update_of_ne (Ne.symm hk)]

/-- Rows that one condition keeps and another drops are not among those asked for. -/
theorem filter_scoped {l : List α} {f : α → List β} {p p' : α → Bool}
    {q : β → Bool} (h : ∀ a ∈ l, ∀ b ∈ f a, q b = true → p a = p' a) :
    ((l.filter p).flatMap f).filter q = ((l.filter p').flatMap f).filter q := by
  rw [← flatMap_if, ← flatMap_if, List.filter_flatMap, List.filter_flatMap]
  refine List.flatMap_congr fun a ha => ?_
  by_cases hp : p a = p' a
  · rw [hp]
  · have hnone : (f a).filter q = [] :=
      List.filter_eq_nil_iff.mpr fun b hb hq => hp (h a ha b hb hq)
    cases p a <;> cases p' a <;> simp [hnone]

section Answers

variable {lt : μ → μ → Prop} {keyed keyed' : List (μ × ρ)} {res res' : List ρ}

theorem answers_filter (p : ρ → Bool) (h : Answers lt keyed res) :
    Answers lt (keyed.filter fun x => p x.2) (res.filter p) := by
  obtain ⟨out, hperm, hpair, rfl⟩ := h
  exact ⟨out.filter fun x => p x.2, hperm.filter _, hpair.filter _, by rw [List.filter_map]; rfl⟩

/-- Rows that their keys tell apart can be answered in one order only. -/
theorem answers_unique [Std.Trichotomous lt]
    (hrow : ∀ x ∈ keyed, ∀ y ∈ keyed, x.1 = y.1 → x.2 = y.2)
    (h : Answers lt keyed res) (h' : Answers lt keyed res') : res = res' := by
  obtain ⟨out, hperm, hpair, rfl⟩ := h
  obtain ⟨out', hperm', hpair', rfl⟩ := h'
  congr 1
  refine List.Perm.eq_of_pairwise (fun x y hx hy hxy hyx => ?_) hpair hpair'
    (hperm.trans hperm'.symm)
  have hkey : x.1 = y.1 := Std.Trichotomous.trichotomous (r := lt) _ _ hyx hxy
  exact Prod.ext hkey (hrow x (hperm.mem_iff.mp hx) y (hperm'.mem_iff.mp hy) hkey)

/-- Two queries that yield the same rows under a key fill it alike. -/
theorem fill_answers [Std.Trichotomous lt] (h : Answers lt keyed res)
    (h' : Answers lt keyed' res')
    (hsame : keyed.filter (fun x => tag x.2 = some key) =
      keyed'.filter fun x => tag x.2 = some key)
    (hrow : ∀ x ∈ keyed, ∀ y ∈ keyed, tag x.2 = some key → tag y.2 = some key →
      x.1 = y.1 → x.2 = y.2) :
    fill tag put start res key = fill tag put start res' key := by
  have hown : ownRows tag key res = ownRows tag key res' := by
    have hfiltered := answers_filter (fun row => decide (tag row = some key)) h
    have hfiltered' := answers_filter (fun row => decide (tag row = some key)) h'
    rw [← hsame] at hfiltered'
    refine answers_unique (fun x hx y hy hxy => ?_) hfiltered hfiltered'
    obtain ⟨hx, hxkey⟩ := List.mem_filter.mp hx
    obtain ⟨hy, hykey⟩ := List.mem_filter.mp hy
    exact hrow x hx y hy (of_decide_eq_true hxkey) (of_decide_eq_true hykey) hxy
  rw [fill_at, fill_at, hown]

end Answers

end DearSql.RowMaps
