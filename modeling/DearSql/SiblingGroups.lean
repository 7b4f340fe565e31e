import DearSql.CteReferences
import DearSql.FilledReferences
import DearSql.ScopeLookups

/-! What a position shows does not depend on the tokens of a closed group that is not around it. -/
namespace DearSql
open Lexing Loops

section Stacks

variable {g : ℤ} {m : ℕ}

/-- The open groups when every number behind `g` is moved on. -/
theorem openedFrom_widen {s : ℤ × List ℤ} (hs : g < s.1) (ts : List Sym) :
    openedFrom (s.1 + m, s.2.map (widen g m)) ts =
      ((openedFrom s ts).1 + m, (openedFrom s ts).2.map (widen g m)) := by
  induction ts generalizing s with
  | nil => rfl
  | cons t ts ih =>
    have hturn : openTurn (s.1 + m, s.2.map (widen g m)) t =
        ((openTurn s t).1 + m, (openTurn s t).2.map (widen g m)) := by
      unfold openTurn
      simp only [List.length_map]
      split_ifs
      · simp only [List.map_cons, widen_of_lt hs, add_right_comm]
      · simp only [List.map_tail]
      · rfl
      · rfl
    have hlt : g < (openTurn s t).1 := by
      rw [openTurn_fst]
      split_ifs <;> omega
    rw [openedFrom, List.foldl_cons, hturn]
    exact ih hlt

theorem map_widen_of_le {l : List ℤ} (h : ∀ k ∈ l, k ≤ g) : l.map (widen g m) = l :=
  (List.map_congr_left fun k hk => widen_of_le (h k hk)).trans (List.map_id l)

theorem stackAt_add (xs ys : List Sym) (i : ℕ) :
    stackAt (xs ++ ys) (xs.length + i) = (openedFrom (opened xs) (ys.take i)).2 := by
  rw [stackAt, List.take_length_add_append, opened_append]

end Stacks

namespace Filled

variable {p g c : ℤ} {n m : ℕ} {b b' : Brackets} (F : Filled p n g m b b')
include F

/-- The groups around a position outside of the filled group. -/
protected theorem stackAt (h0 : 0 ≤ c) (hc : c ≠ p + 1) :
    stackAt b'.toks (widen p n c).toNat = (stackAt b.toks c.toNat).map (widen g m) := by
  obtain ⟨pre, inner, post, hin, rfl, rfl, rfl, rfl, htoks, htoks'⟩ := F.filling
  rw [htoks, htoks']
  by_cases hle : c ≤ pre.length
  · rw [widen_of_le hle, List.append_assoc, stackAt_append (by omega), stackAt_append (by omega)]
    refine (map_widen_of_le fun k hk => ?_).symm
    exact ((opened_lt _ k hk).trans_le (opened_take_le pre _)).le
  · obtain ⟨i, rfl⟩ : ∃ i : ℕ, c = pre.length + 2 + i := ⟨(c - pre.length - 2).toNat, by omega⟩
    have hfilled {xs : List Sym} (hxs : Balanced xs) :
        opened (pre ++ (.punct '(' :: xs ++ [.punct ')'])) =
          ((opened pre).1 + 1 + opens xs, (opened pre).2) := by
      rw [opened_balanced pre (.group hxs .nil)]
      simp only [opens, List.cons_append, List.count_cons_self, List.count_append, Nat.cast_add]
      simp
      ring
    have hplaces (xs : List Sym) : stackAt (pre ++ .punct '(' :: xs ++ .punct ')' :: post)
        (pre.length + 2 + i + xs.length) =
          (openedFrom (opened (pre ++ (.punct '(' :: xs ++ [.punct ')']))) (post.take i)).2 := by
      rw [← stackAt_add]
      simp only [List.append_assoc, List.cons_append, List.nil_append, List.length_append,
        List.length_cons, List.length_nil]
      congr 1
      omega
    have hstack := congrArg Prod.snd (openedFrom_widen (m := opens inner)
      (s := ((opened pre).1 + 1, (opened pre).2)) (lt_add_one _) (post.take i))
    simp only [map_widen_of_le fun k hk => (opened_lt pre k hk).le] at hstack
    have hempty := hplaces []
    rw [hfilled .nil, show opens [] = 0 from rfl, Nat.cast_zero, add_zero,
      List.append_assoc] at hempty
    have hfull := hplaces inner
    rw [hfilled hin, hstack] at hfull
    rw [widen_of_lt (by omega)]
    have hplace : ((pre.length : ℤ) + 2 + i).toNat = pre.length + 2 + i := by omega
    have hplace' : ((pre.length : ℤ) + 2 + i + inner.length).toNat =
        pre.length + 2 + i + inner.length := by omega
    rw [hplace, hplace', hfull]
    exact congrArg _ hempty.symm

/-- The group itself is not around the position. -/
theorem not_mem_stackAt (hc : c ≠ p + 1) : g ∉ stackAt b.toks c.toNat := by
  obtain ⟨pre, inner, post, -, rfl, -, rfl, -, htoks, -⟩ := F.filling
  rw [htoks]
  refine not_mem_opened (List.take_append_drop c.toNat _) ?_
  rw [List.length_take]
  simp only [List.length_append, List.length_cons]
  omega

end Filled

section Scopes

/-- The names and aliases of the references in scope where the groups of `chain` are open. -/
def scopeNames (chain : List ℤ) (refs : List ((Text × Text) × ℤ)) : List (Text × Text) :=
  ((refs.filter fun r => r.2 ∈ chain).insertionSort fun r s =>
    (depthIn chain s.2 : ℤ) ≤ depthIn chain r.2).map Prod.fst

variable {chain : List ℤ} {refs : List ((Text × Text) × ℤ)} {g : ℤ} {m : ℕ}

theorem depthIn_widen (chain : List ℤ) (h : ℤ) :
    depthIn (chain.map (widen g m)) (widen g m h) = depthIn chain h := by
  have hidx : (chain.map (widen g m)).idxOf (widen g m h) = chain.idxOf h := by
    induction chain with
    | nil => rfl
    | cons k chain ih =>
      have hbeq : (widen g m k == widen g m h) = (k == h) := by
        rw [Bool.eq_iff_iff, beq_iff_eq, beq_iff_eq, widen_inj]
      rw [List.map_cons, List.idxOf_cons, List.idxOf_cons, hbeq, ih]
  rw [depthIn, depthIn, hidx, List.length_map]

theorem scopeNames_widen (chain : List ℤ) (refs : List ((Text × Text) × ℤ)) :
    scopeNames (chain.map (widen g m)) (refs.map fun r => (r.1, widen g m r.2)) =
      scopeNames chain refs := by
  have hmem (h : ℤ) : widen g m h ∈ chain.map (widen g m) ↔ h ∈ chain :=
    List.mem_map_of_injective fun _ _ he => widen_inj.mp he
  have hsort := List.map_insertionSort
    (fun r s : (Text × Text) × ℤ => (depthIn chain s.2 : ℤ) ≤ depthIn chain r.2)
    (fun r s => (depthIn (chain.map (widen g m)) s.2 : ℤ) ≤ depthIn (chain.map (widen g m)) r.2)
    (fun r => (r.1, widen g m r.2)) (refs.filter fun r => r.2 ∈ chain)
    fun r _ s _ => by simp only [depthIn_widen]
  rw [scopeNames, scopeNames, List.filter_map]
  simp only [Function.comp_def, hmem]
  rw [← hsort, List.map_map]
  rfl

theorem scopeNames_filter {q : (Text × Text) × ℤ → Bool}
    (h : ∀ r ∈ refs, r.2 ∈ chain → q r = true) :
    scopeNames chain (refs.filter q) = scopeNames chain refs := by
  rw [scopeNames, scopeNames, List.filter_filter]
  congr 2
  refine List.filter_congr fun r hr => ?_
  by_cases hin : r.2 ∈ chain
  · simp [hin, h r hr hin]
  · simp [hin]

end Scopes

namespace Analyzer

variable {toks : List Sym} {catalog : CompletionCatalog} {a : Analyzer}

/-- The names and aliases that are in scope at a position. -/
def namesAt (a : Analyzer) (c : ℤ) : Option (List (Text × Text)) := do
  let group ← a.groupAt c
  let refs ← a.visibleRefs group
  some (refs.map fun r => (r.name, r.alias_))

theorem namesAt_eq (hb : buildGroups toks = some a.toBrackets) {c : ℕ} (hc : c ≤ toks.length) :
    a.namesAt c = some (scopeNames (stackAt toks c) (a.refs.map RelationRef.shown)) := by
  obtain ⟨k, l, hst⟩ := List.exists_cons_of_ne_nil (opened_ne_nil (toks.take c))
  have hin : k ∈ stackAt toks c := by
    rw [stackAt, hst]
    exact List.mem_cons_self
  obtain ⟨x, hx⟩ := group_of_stackAt hb hin
  have hgroup := groupAt_stackAt hb hc
  have hvisible := visibleRefs_eq hb (at?_bounds hx).2.1 (chain_of_stackAt hb hc hst)
  rw [stackAt, hst, List.head?_cons] at hgroup
  have hsort := List.map_insertionSort
    (fun r s : RelationRef => refDepth (k :: l) s ≤ refDepth (k :: l) r)
    (fun r s : (Text × Text) × ℤ => (depthIn (k :: l) s.2 : ℤ) ≤ depthIn (k :: l) r.2)
    RelationRef.shown (a.refs.filter (declaredIn (k :: l))) fun _ _ _ _ => Iff.rfl
  rw [namesAt, hgroup, Option.bind_eq_bind, Option.bind_some, hvisible, Option.bind_eq_bind,
    Option.bind_some, stackAt, hst, scopeNames, List.filter_map]
  refine congrArg some ?_
  change _ = ((a.refs.filter (declaredIn (k :: l))).map RelationRef.shown |>.insertionSort _).map _
  rw [← hsort, List.map_map]
  rfl

end Analyzer

section Views

/-- The context in which `complete` is at the token `c`: that of the path that ends there. -/
def contextAt (b : Brackets) (c : ℤ) : Option Context := do
  let (_, chainStart) ← qualifierBefore b.toks c
  detectContext b chainStart

/-- The place `c` of one statement shows what the place `c'` of the other one shows. -/
structure ShowsSame (a a' : Analyzer) (c c' : ℤ) : Prop where
  context : Yields (detectContext a.toBrackets c) fun ctx =>
    detectContext a'.toBrackets c' = some ctx
  typed : Yields (contextAt a.toBrackets c) fun ctx => contextAt a'.toBrackets c' = some ctx
  names : Yields (a.namesAt c) fun names => a'.namesAt c' = some names

variable {a a₁ a₂ : Analyzer} {c c₁ c₂ p g : ℤ} {n m : ℕ}

theorem ShowsSame.through (h₁ : ShowsSame a a₁ c c₁) (h₂ : ShowsSame a a₂ c c₂) :
    ShowsSame a₁ a₂ c₁ c₂ := by
  have hthrough {α : Type} {o o₁ o₂ : Option α} (h₁ : Yields o fun x => o₁ = some x)
      (h₂ : Yields o fun x => o₂ = some x) : Yields o₁ fun x => o₂ = some x := by
    obtain ⟨x, hx, hx₁⟩ := h₁
    obtain ⟨y, hy, hy₂⟩ := h₂
    obtain rfl := Option.some_inj.mp (hx.symm.trans hy)
    exact ⟨x, hx₁, hy₂⟩
  exact ⟨hthrough h₁.context h₂.context, hthrough h₁.typed h₂.typed, hthrough h₁.names h₂.names⟩

variable (F : Filled p n g m a.toBrackets a₁.toBrackets)
include F

theorem namesAt_filled (hrefs : collectRefs a.toBrackets = some a.refs)
    (hrefs₁ : collectRefs a₁.toBrackets = some a₁.refs) (h0 : 0 ≤ c) (hle : c ≤ a.size)
    (hc : c ≠ p + 1) : Yields (a.namesAt c) fun names => a₁.namesAt (widen p n c) = some names := by
  have hp := F.p_nonneg
  have hwide := F.widen_nonneg.mpr h0
  have hle₁ : widen p n c ≤ a₁.size := by
    rw [F.size]
    exact not_lt.mp fun hlt => absurd (widen_lt.mp hlt) (not_lt.mpr hle)
  have hnames := Analyzer.namesAt_eq F.built (c := c.toNat) (by rw [Brackets.size] at hle; omega)
  have hnames₁ := Analyzer.namesAt_eq F.built' (c := (widen p n c).toNat)
    (by rw [Brackets.size] at hle₁; omega)
  rw [Int.toNat_of_nonneg h0] at hnames
  rw [Int.toNat_of_nonneg hwide, F.stackAt h0 hc] at hnames₁
  refine ⟨_, hnames, hnames₁.trans (congrArg some ?_)⟩
  -- the references of the filling are in groups that are not open here
  have hout : ∀ r ∈ a₁.refs.map RelationRef.shown, r.2 ∈ (stackAt a.toks c.toNat).map (widen g m) →
      (!decide (g ≤ r.2 ∧ r.2 ≤ g + m)) = true := by
    intro r _ hr
    obtain ⟨k, hk, hr⟩ := List.mem_map.mp hr
    have hne : k ≠ g := fun he => F.not_mem_stackAt hc (he ▸ hk)
    rw [Bool.not_eq_true', decide_eq_false_iff_not, ← hr]
    unfold widen
    split_ifs <;> omega
  have hseen : (a₁.refs.map RelationRef.shown).filter (fun r => !decide (g ≤ r.2 ∧ r.2 ≤ g + m)) =
      (a.refs.map RelationRef.shown).map fun r => (r.1, widen g m r.2) := by
    rw [List.filter_map, List.map_map]
    refine Eq.trans (congrArg _ (List.filter_congr fun r _ => ?_)) (F.collectRefs hrefs hrefs₁)
    exact (decide_not ..).symm
  rw [← scopeNames_filter hout, hseen, scopeNames_widen]

theorem showsSame_filled (hrefs : collectRefs a.toBrackets = some a.refs)
    (hrefs₁ : collectRefs a₁.toBrackets = some a₁.refs) (h0 : 0 ≤ c) (hle : c ≤ a.size)
    (hc : c ≠ p + 1) : ShowsSame a a₁ c (widen p n c) := by
  have hdetect {c : ℤ} (h0 : 0 ≤ c) (hle : c ≤ a.size) (hc : c ≠ p + 1) :
      Yields (detectContext a.toBrackets c) fun ctx =>
        detectContext a₁.toBrackets (widen p n c) = some ctx := by
    obtain ⟨ctx, hctx, -⟩ := detectContext_yields F.wf h0 hle
    exact ⟨ctx, hctx, F.detectContext hc h0 hctx⟩
  refine ⟨hdetect h0 hle hc, ?_, namesAt_filled F hrefs hrefs₁ h0 hle hc⟩
  obtain ⟨⟨path, first⟩, hpath, hfirst⟩ := qualifierBefore_yields a.toks c
  obtain ⟨hpath₁, hne⟩ := F.qualifierBefore hc hpath
  obtain ⟨ctx, hctx, hctx₁⟩ := hdetect (hfirst.2 h0) (hfirst.1.trans hle) hne
  refine ⟨ctx, ?_, ?_⟩
  · rw [contextAt, hpath]
    exact hctx
  · rw [contextAt, hpath₁]
    exact hctx₁

end Views

section Closed

variable {toks ts inner : List Sym} {b : Brackets} {k : ℤ} {x : Group}

/-- The innermost open group has been opened with balanced tokens behind it. -/
theorem innermost_of_opened {number g : ℤ} {rest : List ℤ} (h : opened ts = (number, g :: rest))
    (hrest : rest ≠ []) : ∃ pre inner, ts = pre ++ .punct '(' :: inner ∧ Balanced inner ∧
      (opened pre).1 = g ∧ (opened pre).2 = rest := by
  induction hlen : ts.length using Nat.strong_induction_on generalizing ts number g rest with
  | _ len ih =>
    rcases List.eq_nil_or_concat ts with rfl | ⟨ts, t, rfl⟩
    · simp [opened, openedFrom] at h
      exact absurd h.2.2 hrest
    subst hlen
    have hlt : ts.length < (ts ++ [t]).length := by simp
    rw [List.concat_eq_append] at *
    rw [opened_snoc] at h
    by_cases hopen : t = .punct '('
    · subst hopen
      rw [openTurn_open, Prod.mk.injEq, List.cons.injEq] at h
      exact ⟨ts, [], rfl, .nil, h.2.1, h.2.2⟩
    by_cases hclose : t = .punct ')'
    · subst hclose
      obtain ⟨k, stack, hstack⟩ := List.exists_cons_of_ne_nil (opened_ne_nil ts)
      have hopened : opened ts = ((opened ts).1, k :: stack) := by rw [← hstack]
      rw [hopened] at h
      by_cases hnil : stack = []
      · rw [hnil] at h
        simp [openTurn] at h
        exact absurd h.2.2 hrest
      · -- the parenthesis closes a group inside the innermost one
        rw [openTurn_close _ _ hnil, Prod.mk.injEq] at h
        obtain ⟨-, rfl⟩ := h
        obtain ⟨mid, last, rfl, hlast, -, hmid⟩ := ih _ hlt hopened hnil rfl
        obtain ⟨pre, inner, rfl, hinner, hg, hpre⟩ := ih mid.length (by simp at hlt ⊢)
          (show opened mid = ((opened mid).1, g :: rest) by rw [← hmid]) hrest rfl
        exact ⟨pre, inner ++ (.punct '(' :: last ++ [.punct ')']), by simp,
          hinner.append (.group hlast .nil), hg, hpre⟩
    · rw [openTurn_plain hopen hclose] at h
      obtain ⟨pre, inner, rfl, hinner, hg, hpre⟩ := ih _ hlt h hrest rfl
      exact ⟨pre, inner ++ [t], by simp, hinner.append (.token hopen hclose .nil), hg, hpre⟩

/-- A group that is closed stands around balanced tokens. -/
theorem closed_of_buildGroups (h : buildGroups toks = some b) (hx : at? b.groups k = some x)
    (hclosed : x.closeAt < toks.length) : ∃ pre inner post,
      toks = pre ++ .punct '(' :: inner ++ .punct ')' :: post ∧ Balanced inner ∧
      x.openAt = pre.length ∧ x.closeAt = pre.length + 1 + inner.length := by
  obtain ⟨-, hge, hlt, -⟩ := fits_of_buildGroups h hx
  have hparen := (((closings_of_buildGroups h).paren k x hx).resolve_left hclosed.ne).2
  obtain ⟨done, t, post, htoks, hdone⟩ := split_at (i := x.closeAt) (by omega) hclosed
  obtain rfl : t = .punct ')' := by
    rw [isPunct, decide_eq_true_eq, htoks, hdone, at?_ofNat] at hparen
    simpa using hparen
  have hspans := spans_of_buildGroups h hx
  have hbefore := (hspans.onStack done.length (by rw [htoks]; simp)).mpr ⟨by omega, by omega⟩
  have hbehind : k ∉ stackAt toks (done.length + 1) := fun hin => by
    have := ((hspans.onStack _ (by rw [htoks]; simp)).mp hin).2
    push_cast at this
    omega
  rw [htoks, stackAt_split] at hbefore
  rw [htoks, stackAt_next, opened_snoc] at hbehind
  obtain ⟨top, rest, hstack⟩ := List.exists_cons_of_ne_nil (opened_ne_nil done)
  have hopened : opened done = ((opened done).1, top :: rest) := by rw [← hstack]
  have hrest : rest ≠ [] := by
    rintro rfl
    rw [hopened] at hbefore hbehind
    exact hbehind hbefore
  obtain ⟨pre, inner, rfl, hinner, rfl, -⟩ := innermost_of_opened hopened hrest
  rw [hopened, openTurn_close _ _ hrest] at hbehind
  obtain rfl : k = (opened pre).1 := by
    rcases List.mem_cons.mp (hstack ▸ hbefore) with he | hin
    · exact he
    · exact absurd hin hbehind
  obtain ⟨top, -, hgroup⟩ := group_of_opened (htoks ▸ h) hinner
  obtain rfl := Option.some_inj.mp (hx.symm.trans hgroup)
  exact ⟨pre, inner, post, htoks, hinner, rfl, rfl⟩

end Closed

section Siblings

/-- The tokens with `inner` between the parentheses of the group. -/
def refill (toks : List Sym) (x : Group) (inner : List Sym) : List Sym :=
  toks.take (x.openAt + 1).toNat ++ inner ++ toks.drop x.closeAt.toNat

/-- Where the place `c` is when the group has `n` tokens. -/
def moved (x : Group) (n : ℕ) (c : ℤ) : ℤ :=
  if c ≤ x.openAt then c else c - (x.closeAt - x.openAt - 1) + n

variable {toks inner : List Sym} {catalog : CompletionCatalog} {a : Analyzer} {k : ℤ} {x : Group}

/-- Other balanced tokens in a closed group change nothing at the places that it is not around. -/
theorem sibling_unseen (ha : analyze catalog toks = some a) (hx : at? a.groups k = some x)
    (hclosed : x.closeAt < toks.length) (hin : Balanced inner) :
    ∃ a', analyze catalog (refill toks x inner) = some a' ∧
      ∀ c : ℤ, 0 ≤ c → c ≤ toks.length → c ≤ x.openAt ∨ x.closeAt < c →
        ShowsSame a a' c (moved x inner.length c) := by
  obtain ⟨hb, -, hrefs, -⟩ := analyze_eq_some ha
  obtain ⟨pre, old, post, rfl, hold, hopen, hclose⟩ := closed_of_buildGroups hb hx hclosed
  have hrefill : refill (pre ++ .punct '(' :: old ++ .punct ')' :: post) x inner =
      pre ++ .punct '(' :: inner ++ .punct ')' :: post := by
    have hfirst : (x.openAt + 1).toNat = (pre ++ [Sym.punct '(']).length := by simp; omega
    have hlast : x.closeAt.toNat = (pre ++ .punct '(' :: old).length := by simp; omega
    rw [refill, hfirst, hlast, List.drop_left, show pre ++ .punct '(' :: old ++ .punct ')' :: post =
      (pre ++ [.punct '(']) ++ (old ++ .punct ')' :: post) by simp, List.take_left]
    simp
  obtain ⟨a₀, ha₀, -⟩ := analyze_yields catalog (pre ++ .punct '(' :: .punct ')' :: post)
  obtain ⟨a', ha', -⟩ := analyze_yields catalog (refill _ x inner)
  refine ⟨a', ha', fun c h0 hle hc => ?_⟩
  obtain ⟨hb₀, -, hrefs₀, -⟩ := analyze_eq_some ha₀
  obtain ⟨hb', -, hrefs', -⟩ := analyze_eq_some ha'
  rw [hrefill] at hb'
  have F := filled hold hb₀ hb
  have F' := filled hin hb₀ hb'
  obtain ⟨c₀, h₀, hle₀, hc₀, rfl⟩ : ∃ c₀, 0 ≤ c₀ ∧ c₀ ≤ a₀.size ∧ c₀ ≠ pre.length + 1 ∧
      c = widen pre.length old.length c₀ := by
    have hsize : a₀.size = pre.length + 2 + post.length := by
      rw [Brackets.size, (wf_of_buildGroups hb₀).2]
      simp
      ring
    simp only [List.length_append, List.length_cons, Nat.cast_add, Nat.cast_one] at hle
    rcases hc with hc | hc
    · exact ⟨c, h0, by omega, by omega, (widen_of_le (by omega)).symm⟩
    · exact ⟨c - old.length, by omega, by omega, by omega, by rw [widen_of_lt (by omega)]; ring⟩
  have hmoved : moved x inner.length (widen pre.length old.length c₀) =
      widen pre.length inner.length c₀ := by
    unfold moved widen
    split_ifs <;> omega
  rw [hmoved]
  exact (showsSame_filled F hrefs₀ hrefs h₀ hle₀ hc₀).through
    (showsSame_filled F' hrefs₀ hrefs' h₀ hle₀ hc₀)

theorem sibling_unseen_nested : ∃ a',
    analyze {} (refill nestedSyms ⟨0, 3, 6⟩ [.word "FROM".toList, .word ['u']]) = some a' ∧
      ∀ c : ℤ, 0 ≤ c → c ≤ nestedSyms.length → c ≤ 3 ∨ 6 < c →
        ShowsSame nestedAnalyzer a' c (moved ⟨0, 3, 6⟩ 2 c) :=
  sibling_unseen (rfl : analyze {} nestedSyms = some nestedAnalyzer)
    (rfl : at? nestedAnalyzer.groups 1 = some ⟨0, 3, 6⟩) (by decide) (balanced_of_plain (by decide))

end Siblings

end DearSql
