import DearSql.Trees

/-! Indented lists: the forest that the depths of the entries give, and what is above each entry. -/
namespace DearSql.Trees

variable {α : Type*} (d : α → ℕ)

/-- What follows an entry and is deeper stands below it. -/
def outline : List α → List (Rose α)
  | [] => []
  | a :: as =>
    .node a (outline (as.takeWhile fun x => d a < d x)) :: outline (as.dropWhile fun x => d a < d x)
  termination_by as => as.length
  decreasing_by
    · exact Nat.lt_succ_of_le (List.takeWhile_sublist _).length_le
    · exact Nat.lt_succ_of_le (List.dropWhile_sublist _).length_le

/-- The last entry before `a` that is less deep; `before` begins with the last one. -/
def nearest (before : List α) (a : α) : Option α := before.find? fun x => d x < d a

/-- Each entry with the nearest one above it that is less deep. -/
def withNearest (before : List α) : List α → List (α × Option α)
  | [] => []
  | a :: as => (a, nearest d before a) :: withNearest (a :: before) as

variable {d} {a b : α} {as bs before : List α}

theorem outline_cons (a : α) (as : List α) : outline d (a :: as) =
    .node a (outline d (as.takeWhile fun x => d a < d x)) ::
      outline d (as.dropWhile fun x => d a < d x) := by
  rw [outline]

/-- The walk through the forest meets the entries in their order. -/
theorem preorders_outline (d : α → ℕ) (as : List α) : preorders (outline d as) = as := by
  induction as using outline.induct d with
  | case1 => rw [outline, preorders]
  | case2 a as ihin ihout =>
    rw [outline, preorders, preorder, ihin, ihout, List.cons_append,
      List.takeWhile_append_dropWhile]

theorem withNearest_append (before as bs : List α) : withNearest d before (as ++ bs) =
    withNearest d before as ++ withNearest d (as.reverse ++ before) bs := by
  induction as generalizing before with
  | nil => rfl
  | cons a as ih => simp [withNearest, ih]

section Deeper

variable (hab : d a ≤ d b)

include hab

/-- What is deeper than `b` is deeper than `a`. -/
theorem takeWhile_deeper (as : List α) : (as.takeWhile fun x => d a < d x).takeWhile
    (fun x => d b < d x) = as.takeWhile fun x => d b < d x := by
  rw [List.takeWhile_takeWhile]
  congr 1
  funext x
  simp only [decide_eq_true_eq, decide_eq_decide]
  omega

theorem takeWhile_dropWhile_deeper (as : List α) : (as.takeWhile fun x => d a < d x).dropWhile
    (fun x => d b < d x) = (as.dropWhile fun x => d b < d x).takeWhile fun x => d a < d x := by
  induction as with
  | nil => rfl
  | cons x as ih =>
    by_cases hb : d b < d x
    · have ha : d a < d x := by omega
      simp only [List.takeWhile_cons, List.dropWhile_cons, ha, hb, decide_true, if_true, ih]
    · by_cases ha : d a < d x <;> simp [ha, hb]

theorem dropWhile_deeper (as : List α) : (as.dropWhile fun x => d b < d x).dropWhile
    (fun x => d a < d x) = as.dropWhile fun x => d a < d x := by
  induction as with
  | nil => rfl
  | cons x as ih =>
    by_cases hb : d b < d x
    · have ha : d a < d x := by omega
      simp only [List.dropWhile_cons, ha, hb, decide_true, if_true, ih]
    · simp [List.dropWhile_cons, hb]

end Deeper

theorem parenteds_outline_of {p : Option α} (h : ∀ pre x post, as = pre ++ x :: post →
    (∀ y ∈ pre, d x ≤ d y) → nearest d before x = p) :
    parenteds p (outline d as) = withNearest d before as := by
  induction hlen : as.length using Nat.strong_induction_on generalizing as before p with
  | _ n ih =>
    subst hlen
    cases as with
    | nil => rw [outline, parenteds, withNearest]
    | cons a as =>
      have hsplit := List.takeWhile_append_dropWhile (p := fun x => decide (d a < d x)) (l := as)
      have hinner : ∀ x ∈ as.takeWhile fun x => d a < d x, d a < d x := fun x hx => by
        simpa using List.mem_takeWhile_imp hx
      have hbelow : parenteds (some a) (outline d (as.takeWhile fun x => d a < d x)) =
          withNearest d (a :: before) (as.takeWhile fun x => d a < d x) := by
        refine ih _ (Nat.lt_succ_of_le (List.takeWhile_sublist _).length_le)
          (fun pre x post hx _ => ?_) rfl
        have hlt := hinner x (hx ▸ by simp)
        simp [nearest, hlt]
      have hbeside : parenteds p (outline d (as.dropWhile fun x => d a < d x)) =
          withNearest d ((as.takeWhile fun x => d a < d x).reverse ++ a :: before)
            (as.dropWhile fun x => d a < d x) := by
        refine ih _ (Nat.lt_succ_of_le (List.dropWhile_sublist _).length_le)
          (fun pre x post hx hpre => ?_) rfl
        -- the first entry outside is not deeper than `a`, and `x` not deeper than that one
        have hxa : d x ≤ d a := by
          cases pre with
          | nil =>
            have hhead := List.head?_dropWhile_not (fun x => decide (d a < d x)) as
            rw [hx] at hhead
            simpa using hhead
          | cons y pre =>
            have hhead := List.head?_dropWhile_not (fun x => decide (d a < d x)) as
            rw [hx] at hhead
            have hya : d y ≤ d a := by simpa using hhead
            exact (hpre y List.mem_cons_self).trans hya
        have hout := h (a :: as.takeWhile (fun x => d a < d x) ++ pre) x post
          (by rw [List.cons_append, List.cons_append, List.append_assoc, ← hx, hsplit]) (by
            intro y hy
            rcases List.mem_append.mp hy with hy | hy
            · rcases List.mem_cons.mp hy with rfl | hy
              · exact hxa
              · exact hxa.trans (hinner y hy).le
            · exact hpre y hy)
        rw [← hout, nearest, nearest, List.find?_append, List.find?_eq_none.mpr, Option.none_or,
          List.find?_cons_of_neg]
        · simpa using hxa
        · intro y hy
          have := hinner y (List.mem_reverse.mp hy)
          simp
          omega
      have hown := h [] a as rfl (by simp)
      rw [outline_cons, parenteds, parented, hbelow, hbeside, withNearest, hown, List.cons_append,
        ← withNearest_append, hsplit]

/-- In the forest of an indented list an entry is below the nearest one that is less deep. -/
theorem parenteds_outline (d : α → ℕ) (as : List α) :
    parenteds none (outline d as) = withNearest d [] as :=
  parenteds_outline_of fun _ _ _ _ _ => rfl

end DearSql.Trees
