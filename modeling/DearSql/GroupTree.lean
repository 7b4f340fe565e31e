import DearSql.CteScopes
import DearSql.GroupSpans

/-! `buildGroups` and the lookups of a group, over every token list: the groups form a tree of
nested spans, and every position is in the innermost span around it. -/
namespace DearSql
open Lexing Loops

section Positions

variable {toks pre post : List Sym} {b : Brackets} {t : Sym}

theorem split_at {i : ℤ} (h0 : 0 ≤ i) (hi : i < toks.length) :
    ∃ pre t post, toks = pre ++ t :: post ∧ i = pre.length := by
  obtain ⟨n, rfl⟩ := Int.eq_ofNat_of_zero_le h0
  have hn : n < toks.length := by omega
  refine ⟨toks.take n, toks[n], toks.drop (n + 1), by simp, ?_⟩
  rw [List.length_take, min_eq_left hn.le]

theorem stackAt_split (pre post : List Sym) : stackAt (pre ++ post) pre.length = (opened pre).2 := by
  rw [stackAt_append le_rfl, stackAt_length]

theorem stackAt_next (pre post : List Sym) (t : Sym) :
    stackAt (pre ++ t :: post) (pre.length + 1) = (opened (pre ++ [t])).2 := by
  have hlen : pre.length + 1 = (pre ++ [t]).length := by simp
  rw [show pre ++ t :: post = (pre ++ [t]) ++ post by simp, hlen, stackAt_split]

/-- A closing parenthesis is outside of the group it closes. -/
theorem groupOf_of_close (h : buildGroups (pre ++ .punct ')' :: post) = some b) :
    b.groupOf pre.length = (opened (pre ++ [.punct ')'])).2.head? := by
  have hsplit : pre ++ .punct ')' :: post = pre ++ [.punct ')'] ++ post := by simp
  rw [hsplit] at h
  obtain ⟨s, s', e, hs, hturn, hpost, rfl⟩ := runs_of_buildGroups h
  rw [runFrom_single] at hturn
  have hkeep := (keeps_runFrom hpost).groupOf pre.length (by simp)
  have hstack : s'.stack = (opened (pre ++ [.punct ')'])).2 := by
    rw [opened_snoc, ← hs, ← opened_symTurn hturn]
    rfl
  rw [symTurn, if_neg (by decide), if_pos rfl] at hturn
  obtain ⟨s₁, -, hmark⟩ := Option.bind_eq_some_iff.mp hturn
  obtain ⟨top, l, htop, hl, rfl⟩ := mark_eq_some hmark
  rw [Brackets.groupOf, hkeep, at?_put? hl, if_pos rfl, ← hstack]
  exact htop.symm

/-- The walk of `groupAt` goes by the same groups as `buildGroups`. -/
theorem groupAt_stackAt (hb : buildGroups toks = some b) {n : ℕ} (hn : n ≤ toks.length) :
    b.groupAt n = (stackAt toks n).head? := by
  obtain ⟨hwf, htoks⟩ := wf_of_buildGroups hb
  have hmin : min (n : ℤ) b.size = n := by
    rw [Brackets.size, htoks]
    omega
  have hwalk : Yields ((upTo 0 n).foldlM b.stackTurn [0]) fun st => st = stackAt toks n := by
    refine foldlM_upTo_yields (fun i st => st = stackAt toks i.toNat) (Int.natCast_nonneg n)
      (fun i st h0 hi hst => ?_) rfl
    obtain ⟨pre, t, post, rfl, rfl⟩ := @split_at toks i h0 (by omega)
    have hget : at? b.toks (pre.length : ℤ) = some t := by simp [htoks]
    have hpunct (c : Char) : isPunct b.toks pre.length c = decide (t = .punct c) := by
      simp [isPunct, hget]
    have hnext : stackAt (pre ++ t :: post) ((pre.length : ℤ) + 1).toNat =
        (openTurn (opened pre) t).2 := by
      rw [show ((pre.length : ℤ) + 1).toNat = pre.length + 1 by omega, stackAt_next, opened_snoc]
    rw [Int.toNat_natCast, stackAt_split] at hst
    subst hst
    unfold Brackets.stackTurn openTurn at *
    rw [hnext, hpunct, hpunct]
    by_cases hopen : t = .punct '('
    · subst hopen
      rw [if_pos (by simp), opens_of_opened hb]
      exact yields_some rfl
    rw [if_neg (by simp [hopen]), if_neg hopen]
    by_cases hclose : t = .punct ')'
    · simp only [hclose, decide_true, Bool.true_and, decide_eq_true_eq, if_true]
      split_ifs <;> exact yields_some rfl
    · simp only [hclose, decide_false, Bool.false_and, Bool.false_eq_true, if_false]
      exact yields_some rfl
  obtain ⟨st, hst, rfl⟩ := hwalk
  rw [Brackets.groupAt, hmin, hst]
  rfl

end Positions

section Tree

variable {toks : List Sym} {b : Brackets} {g h k : ℤ} {x y : Group}

/-- The span of `x` is part of the span of `y`. -/
def Group.Inside (x y : Group) : Prop := y.openAt ≤ x.openAt ∧ x.closeAt ≤ y.closeAt

/-- The token is between the parentheses of the group. -/
def Group.Contains (x : Group) (i : ℤ) : Prop := x.openAt < i ∧ i < x.closeAt

theorem Chain.suffix {groups : List Group} {above rest : List ℤ}
    (hc : Chain groups k (above ++ g :: rest)) : Chain groups g (g :: rest) := by
  induction above generalizing k with
  | nil =>
    have hhead : k = g := by
      generalize hl : [] ++ g :: rest = l at hc
      cases hc with
      | root => exact (List.cons.inj hl).1.symm
      | step => exact (List.cons.inj hl).1.symm
    exact hhead ▸ hc
  | cons a above ih =>
    generalize hl : (a :: above) ++ g :: rest = l at hc
    cases hc with
    | root => simp at hl
    | step hg hx htail =>
      obtain ⟨-, rfl⟩ := List.cons.inj hl
      exact ih htail

variable (hb : buildGroups toks = some b)
include hb

theorem fits_of_buildGroups (hx : at? b.groups g = some x) :
    x.parent < g ∧ -1 ≤ x.openAt ∧ x.openAt < x.closeAt ∧ x.closeAt ≤ toks.length := by
  obtain ⟨hwf, htoks⟩ := wf_of_buildGroups hb
  have hfits := hwf.fits g x hx
  have hclose := hfits.close_le
  rw [Brackets.size, htoks] at hclose
  exact ⟨hfits.parent_lt, hfits.openAt_ge, hfits.open_lt, hclose⟩

/-- What is open where a group opens is open as long as the group is. -/
theorem below_stays (hx : at? b.groups g = some x) {i : ℕ} (hi : i ≤ toks.length)
    (hin : g ∈ stackAt toks i) (hh : h ∈ stackAt toks (x.openAt + 1).toNat) : h ∈ stackAt toks i := by
  obtain ⟨l, hchain, hl⟩ := chain_of_group hb hx
  obtain ⟨above, rest, hsplit⟩ := List.append_of_mem hin
  have hrest : Chain b.groups g (g :: rest) := by
    cases above with
    | nil => exact chain_of_stackAt hb hi hsplit
    | cons a above =>
      have hwhole : Chain b.groups a ((a :: above) ++ g :: rest) := chain_of_stackAt hb hi hsplit
      exact hwhole.suffix
  rw [hl, hchain.unique hrest] at hh
  rw [hsplit]
  exact List.mem_append_right _ hh

theorem mem_stackAt_open (hx : at? b.groups g = some x) (hy : at? b.groups h = some y) :
    h ∈ stackAt toks (x.openAt + 1).toNat ↔ y.openAt ≤ x.openAt ∧ x.openAt < y.closeAt := by
  obtain ⟨-, hge, hlt, hle⟩ := fits_of_buildGroups hb hx
  rw [(spans_of_buildGroups hb hy).onStack _ (by omega)]
  omega

/-- A group that opens inside of another one closes there. -/
theorem inside_iff (hx : at? b.groups g = some x) (hy : at? b.groups h = some y) :
    x.Inside y ↔ y.openAt ≤ x.openAt ∧ x.openAt < y.closeAt := by
  obtain ⟨-, hge, hlt, hle⟩ := fits_of_buildGroups hb hx
  constructor
  · rintro ⟨hopen, hclose⟩
    exact ⟨hopen, by omega⟩
  · intro hopen
    refine ⟨hopen.1, ?_⟩
    have hin : g ∈ stackAt toks x.closeAt.toNat :=
      ((spans_of_buildGroups hb hx).onStack _ (by omega)).mpr ⟨by omega, by omega⟩
    have hstays := below_stays hb hx (by omega) hin ((mem_stackAt_open hb hx hy).mpr hopen)
    have := ((spans_of_buildGroups hb hy).onStack _ (by omega)).mp hstays
    omega

theorem ancestor_iff_inside (hx : at? b.groups g = some x) (hy : at? b.groups h = some y) :
    b.isAncestorOrSelf h g = some true ↔ x.Inside y := by
  obtain ⟨l, hchain, hl⟩ := chain_of_group hb hx
  rw [isAncestorOrSelf_iff hb (at?_bounds hx).2.1 hchain, ← hl, mem_stackAt_open hb hx hy,
    inside_iff hb hx hy]

/-- A group opens at a parenthesis, unless it is the root. -/
theorem paren_of_group (hx : at? b.groups g = some x) (hg : 0 < g) :
    isPunct toks x.openAt '(' = true ∧ 0 ≤ x.parent ∧ at? b.opens_ x.openAt = some g := by
  rcases (spans_of_buildGroups hb hx).origin with ⟨rfl, -⟩ | ⟨xs, ys, rfl, rfl, hparent, hopen⟩
  · exact absurd hg (lt_irrefl 0)
  refine ⟨by simp [isPunct, hopen], ?_, by rw [hopen, opens_of_opened hb]⟩
  have hmem : x.parent ∈ stackAt (xs ++ .punct '(' :: ys) xs.length := by
    rw [stackAt_split]
    exact List.mem_of_head? hparent
  exact stackAt_nonneg hmem

theorem eq_root (hx : at? b.groups g = some x) (hg : ¬0 < g) : x = ⟨-1, -1, toks.length⟩ := by
  obtain rfl : g = 0 := by
    have := (at?_bounds hx).1
    omega
  exact root_of_buildGroups hb hx

/-- Where one group ends no other one opens. -/
theorem closeAt_ne_openAt (hx : at? b.groups g = some x) (hy : at? b.groups h = some y) :
    y.closeAt ≠ x.openAt := by
  intro he
  obtain ⟨-, hge, hlt, hle⟩ := fits_of_buildGroups hb hx
  obtain ⟨-, hge', hlt', hle'⟩ := fits_of_buildGroups hb hy
  rcases (closings_of_buildGroups hb).paren h y hy with hend | ⟨-, hparen⟩
  · omega
  by_cases hg : 0 < g
  · have hopen := (paren_of_group hb hx hg).1
    rw [isPunct, decide_eq_true_eq] at hparen hopen
    rw [he, hopen] at hparen
    cases hparen
  · rw [eq_root hb hx hg] at he
    simp only at he
    omega

theorem nested_or_disjoint (hx : at? b.groups g = some x) (hy : at? b.groups h = some y) :
    x.Inside y ∨ y.Inside x ∨ x.closeAt < y.openAt ∨ y.closeAt < x.openAt := by
  rw [inside_iff hb hx hy, inside_iff hb hy hx]
  have hxy := closeAt_ne_openAt hb hx hy
  have hyx := closeAt_ne_openAt hb hy hx
  omega

end Tree

section Law

/-- What the analyzer relies on: the groups form a tree whose spans nest as the groups do. -/
structure Brackets.Nested (b : Brackets) : Prop where
  root : at? b.groups 0 = some ⟨-1, -1, b.size⟩
  inner : ∀ g x, 0 < g → at? b.groups g = some x → 0 ≤ x.parent ∧ x.parent < g ∧
    isPunct b.toks x.openAt '(' = true ∧ x.openAt < x.closeAt ∧ x.closeAt ≤ b.size
  laminar : ∀ g h x y, at? b.groups g = some x → at? b.groups h = some y →
    x.Inside y ∨ y.Inside x ∨ x.closeAt < y.openAt ∨ y.closeAt < x.openAt
  ancestor : ∀ g h x y, at? b.groups g = some x → at? b.groups h = some y →
    (b.isAncestorOrSelf h g = some true ↔ x.Inside y)

/-- The parentheses and the groups they open. -/
structure Brackets.Opens (b : Brackets) : Prop where
  paren : ∀ i, isPunct b.toks i '(' = true →
    ∃ g x, 0 < g ∧ at? b.opens_ i = some g ∧ at? b.groups g = some x ∧ x.openAt = i
  other : ∀ i, 0 ≤ i → i < b.size → isPunct b.toks i '(' = false → at? b.opens_ i = some (-1)
  onto : ∀ g x i, 0 < g → at? b.groups g = some x → (at? b.opens_ i = some g ↔ i = x.openAt)

/-- The innermost of the groups with the property. -/
def Brackets.Innermost (b : Brackets) (P : Group → Prop) (g : ℤ) : Prop :=
  ∃ x, at? b.groups g = some x ∧ P x ∧ ∀ h y, at? b.groups h = some y → P y → x.Inside y

/-- The groups of the tokens, and of the places before them and at the end. -/
structure Brackets.Places (b : Brackets) : Prop where
  groupOf : ∀ i, 0 ≤ i → i < b.size →
    Yields (b.groupOf i) (b.Innermost fun x => x.Contains i)
  groupAt : ∀ i, 0 ≤ i → i < b.size → isPunct b.toks i ')' = false → b.groupAt i = b.groupOf i
  groupAt_end : Yields (b.groupAt b.size) (b.Innermost fun x => x.closeAt = b.size)

variable {toks : List Sym} {b : Brackets}

theorem nested_of_buildGroups (hb : buildGroups toks = some b) : b.Nested := by
  obtain ⟨hwf, rfl⟩ := wf_of_buildGroups hb
  obtain ⟨x, -, hx⟩ := at?_isSome (l := b.groups) le_rfl
    (by exact_mod_cast List.length_pos_iff.mpr hwf.groups_ne)
  refine ⟨by rw [hx, root_of_buildGroups hb hx]; rfl, fun g x hg hx => ?_,
    fun g h x y hx hy => nested_or_disjoint hb hx hy, fun g h x y hx hy => ancestor_iff_inside hb hx hy⟩
  obtain ⟨hlt, -, hopen, hclose⟩ := fits_of_buildGroups hb hx
  obtain ⟨hparen, hparent, -⟩ := paren_of_group hb hx hg
  exact ⟨hparent, hlt, hparen, hopen, hclose⟩

theorem opens_of_buildGroups (hb : buildGroups toks = some b) : b.Opens := by
  obtain ⟨hwf, rfl⟩ := wf_of_buildGroups hb
  have hopens : ∀ i g, at? b.opens_ i = some g → 0 ≤ g →
      0 < g ∧ ∃ x, at? b.groups g = some x ∧ x.openAt = i := fun i g hi hg => by
    obtain ⟨x, hx, hopen⟩ := (hwf.opens_mem i g hi).2.2 hg
    refine ⟨hg.lt_of_ne' fun h0 => ?_, x, hx, hopen⟩
    rw [eq_root hb hx (by omega)] at hopen
    have := (at?_bounds hi).1
    simp only at hopen
    omega
  refine ⟨fun i hi => ?_, fun i h0 hi hp => ?_, fun g x i hg hx => ⟨fun hi => ?_, ?_⟩⟩
  · obtain ⟨g, hg, hg0⟩ := hwf.opened i hi
    obtain ⟨hpos, x, hx, hopen⟩ := hopens i g hg hg0
    exact ⟨g, x, hpos, hg, hx, hopen⟩
  · obtain ⟨g, -, hg⟩ := at?_isSome (l := b.opens_) h0 (by rw [hwf.lengthOpens]; exact hi)
    have hneg : ¬0 ≤ g := fun hg0 => by
      obtain ⟨hpos, x, hx, rfl⟩ := hopens i g hg hg0
      rw [(paren_of_group hb hx hpos).1] at hp
      cases hp
    have := (hwf.opens_mem i g hg).1
    rw [hg, show g = -1 by omega]
  · obtain ⟨-, x', hx', rfl⟩ := hopens i g hi hg.le
    rw [Option.some_inj.mp (hx.symm.trans hx')]
  · rintro rfl
    exact (paren_of_group hb hx hg).2.2

/-- The head of the stack is the innermost of the groups on it. -/
theorem innermost_of_head (hb : buildGroups toks = some b) {n : ℕ} (hn : n ≤ toks.length)
    {P : Group → Prop}
    (hP : ∀ g x, at? b.groups g = some x → (g ∈ stackAt toks n ↔ P x)) :
    Yields (stackAt toks n).head? (b.Innermost P) := by
  obtain ⟨g, l, hl⟩ := List.exists_cons_of_ne_nil (opened_ne_nil (toks.take n))
  have hin : g ∈ stackAt toks n := by
    rw [stackAt, hl]
    exact List.mem_cons_self
  obtain ⟨x, hx⟩ := group_of_stackAt hb hin
  refine ⟨g, by rw [stackAt, hl]; rfl, x, hx, (hP g x hx).mp hin, fun h y hy hPy => ?_⟩
  have hh := (hP h y hy).mpr hPy
  rw [stackAt, hl] at hh
  exact (ancestor_iff_inside hb hx hy).mp
    ((isAncestorOrSelf_iff hb (at?_bounds hx).2.1 (chain_of_stackAt hb hn hl)).mpr hh)

theorem places_of_buildGroups (hb : buildGroups toks = some b) : b.Places := by
  obtain ⟨-, rfl⟩ := wf_of_buildGroups hb
  refine ⟨fun i h0 hi => ?_, fun i h0 hi hp => ?_, ?_⟩
  · obtain ⟨pre, t, post, htoks, rfl⟩ := split_at h0 hi
    have hget : at? b.toks (pre.length : ℤ) = some t := by simp [htoks]
    have hlen : pre.length + 1 ≤ b.toks.length := by simp [htoks]
    have hb' : buildGroups (pre ++ t :: post) = some b := htoks ▸ hb
    by_cases ht : t = .punct ')'
    · subst ht
      rw [groupOf_of_close hb', ← stackAt_next pre post, ← htoks]
      refine innermost_of_head hb hlen fun g x hx => ?_
      have hne : x.openAt ≠ pre.length := fun he => by
        by_cases hg : 0 < g
        · have hparen := (paren_of_group hb hx hg).1
          simp [isPunct, he, hget] at hparen
        · rw [eq_root hb hx hg] at he
          simp only at he
          omega
      rw [(spans_of_buildGroups hb hx).onStack _ hlen, Group.Contains]
      push_cast
      omega
    · rw [groupOf_of_opened hb' ht, ← stackAt_split pre (t :: post), ← htoks]
      refine innermost_of_head hb (by omega) fun g x hx => ?_
      have hne : x.closeAt ≠ pre.length := fun he => by
        rcases (closings_of_buildGroups hb).paren g x hx with hend | ⟨-, hparen⟩
        · omega
        · simp [isPunct, he, hget, ht] at hparen
      rw [(spans_of_buildGroups hb hx).onStack _ (by omega), Group.Contains]
      omega
  · obtain ⟨pre, t, post, htoks, rfl⟩ := split_at h0 hi
    have hlen : pre.length ≤ b.toks.length := by simp [htoks]
    have ht : t ≠ .punct ')' := by
      rintro rfl
      simp [isPunct, htoks] at hp
    rw [groupAt_stackAt hb hlen, groupOf_of_opened (htoks ▸ hb) ht, htoks, stackAt_split]
  · rw [Brackets.size, groupAt_stackAt hb le_rfl]
    refine innermost_of_head hb le_rfl fun g x hx => ?_
    obtain ⟨-, hge, hlt, hle⟩ := fits_of_buildGroups hb hx
    rw [(spans_of_buildGroups hb hx).onStack _ le_rfl]
    omega

/-- Balanced or not, the tokens have groups, and they are a tree. -/
theorem buildGroups_nested (toks : List Sym) :
    ∃ b, buildGroups toks = some b ∧ b.toks = toks ∧ b.Nested ∧ b.Opens ∧ b.Places := by
  obtain ⟨b, hb, -, htoks⟩ := buildGroups_yields toks
  exact ⟨b, hb, htoks, nested_of_buildGroups hb, opens_of_buildGroups hb, places_of_buildGroups hb⟩

end Law
end DearSql
