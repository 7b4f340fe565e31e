import DearSql.Nesting

/-! The groups of a statement as spans of its tokens: which groups are open at a token is read off
the spans, and the open groups are the chain of parents of the innermost one. -/
namespace DearSql
open Lexing Loops

section Stacks

variable {ts pre ys : List Sym} {g k : ℤ}

/-- The open groups before token `i`, from the innermost out. -/
def stackAt (ts : List Sym) (i : ℕ) : List ℤ := (opened (ts.take i)).2

theorem stackAt_append {i : ℕ} (h : i ≤ ts.length) (us : List Sym) :
    stackAt (ts ++ us) i = stackAt ts i := by
  rw [stackAt, List.take_append_of_le_length h, stackAt]

theorem stackAt_length (ts : List Sym) : stackAt ts ts.length = (opened ts).2 := by
  rw [stackAt, List.take_length]

theorem opened_snoc (ts : List Sym) (t : Sym) : opened (ts ++ [t]) = openTurn (opened ts) t :=
  opened_append ts [t]

/-- Before an earlier token there are no more groups. -/
theorem opened_take_le (ts : List Sym) (i : ℕ) : (opened (ts.take i)).1 ≤ (opened ts).1 := by
  have hle : opens (ts.take i) ≤ opens ts := (List.take_sublist i ts).count_le _
  rw [opened_fst, opened_fst]
  omega

/-- Inner groups have greater numbers. -/
theorem opened_sorted (ts : List Sym) : (opened ts).2.Pairwise (· > ·) := by
  have hinv : ∀ (s : ℤ × List ℤ) (t : Sym), (∀ g ∈ s.2, g < s.1) ∧ s.2.Pairwise (· > ·) →
      (∀ g ∈ (openTurn s t).2, g < (openTurn s t).1) ∧ (openTurn s t).2.Pairwise (· > ·) := by
    rintro s t ⟨hlt, hsorted⟩
    unfold openTurn
    split_ifs with hopen hclose hlen
    · refine ⟨fun g hg => ?_, List.pairwise_cons.mpr ⟨hlt, hsorted⟩⟩
      rcases List.mem_cons.mp hg with rfl | hg
      · exact lt_add_one _
      · exact (hlt g hg).trans (lt_add_one _)
    · exact ⟨fun g hg => hlt g (List.mem_of_mem_tail hg), hsorted.sublist (List.tail_sublist _)⟩
    · exact ⟨hlt, hsorted⟩
    · exact ⟨hlt, hsorted⟩
  exact (openedFrom_induction hinv (by simp)).2

/-- The root is always open, below all the others. -/
theorem opened_root (ts : List Sym) : (opened ts).2.getLast? = some 0 := by
  refine openedFrom_induction (P := fun s => s.2.getLast? = some 0) (fun s t hs => ?_) rfl
  unfold openTurn
  split_ifs with hopen hclose hlen
  · rw [List.getLast?_cons, hs]
    rfl
  · obtain ⟨g, h, rest, hst⟩ : ∃ g h rest, s.2 = g :: h :: rest := by
      match hst : s.2 with
      | [] => simp [hst] at hlen
      | [_] => simp [hst] at hlen
      | g :: h :: rest => exact ⟨g, h, rest, rfl⟩
    rw [hst, List.getLast?_cons_cons] at hs
    rw [hst]
    exact hs
  · exact hs
  · exact hs

/-- As long as a group is open the groups below it are those it was opened in. -/
theorem opened_below (h : (opened pre).1 ∈ (opened (pre ++ .punct '(' :: ys)).2) :
    ∃ above, (opened (pre ++ .punct '(' :: ys)).2 = above ++ (opened pre).1 :: (opened pre).2 := by
  have hlt (ys : List Sym) : (opened pre).1 < (opened (pre ++ .punct '(' :: ys)).1 := by
    rw [opened_fst, opened_fst, opens_append, opens_cons, if_pos rfl]
    push_cast
    omega
  induction ys using List.reverseRecOn with
  | nil => exact ⟨[], congrArg Prod.snd (opened_open pre)⟩
  | append_singleton ys t ih =>
    rw [show pre ++ Sym.punct '(' :: (ys ++ [t]) = (pre ++ .punct '(' :: ys) ++ [t] by simp,
      opened_snoc] at h ⊢
    have hlt := hlt ys
    unfold openTurn at h ⊢
    split_ifs at h ⊢ with hopen hclose hlen
    · rcases List.mem_cons.mp h with he | h
      · omega
      · obtain ⟨above, habove⟩ := ih h
        exact ⟨(opened (pre ++ .punct '(' :: ys)).1 :: above, by rw [habove]; rfl⟩
    · obtain ⟨above, habove⟩ := ih (List.mem_of_mem_tail h)
      rw [habove] at h ⊢
      cases above with
      | nil => exact absurd (opened_lt pre _ h) (lt_irrefl _)
      | cons a above => exact ⟨above, rfl⟩
    · exact ih h
    · exact ih h

end Stacks

section Spans

variable {size : ℤ} {toks done : List Sym} {t : Sym} {k top : ℤ} {x : Group}

/-- A group is the root, or it is opened by a parenthesis behind some tokens `xs`. -/
def OpenedIn (done : List Sym) (k : ℤ) (x : Group) : Prop :=
  (k = 0 ∧ x.parent = -1 ∧ x.openAt = -1) ∨ ∃ xs ys, done = xs ++ .punct '(' :: ys ∧
    k = (opened xs).1 ∧ (opened xs).2.head? = some x.parent ∧ x.openAt = xs.length

theorem OpenedIn.append (h : OpenedIn done k x) (us : List Sym) : OpenedIn (done ++ us) k x := by
  rcases h with h | ⟨xs, ys, rfl, h⟩
  · exact .inl h
  · exact .inr ⟨xs, ys ++ us, by simp, h⟩

/-- Behind the tokens `done` the span of the group `k` says before which of them it is open. -/
structure Spans (size : ℤ) (done : List Sym) (k : ℤ) (x : Group) : Prop where
  origin : OpenedIn done k x
  number : k < (opened done).1
  before : x.openAt < done.length
  live : k ∈ (opened done).2 → x.closeAt = size
  dead : k ∉ (opened done).2 → x.closeAt < done.length
  onStack : ∀ i ≤ done.length, k ∈ stackAt done i ↔ x.openAt < i ∧ i ≤ x.closeAt

theorem spans_root (toks : List Sym) : Spans toks.length [] 0 ⟨-1, -1, toks.length⟩ where
  origin := .inl ⟨rfl, rfl, rfl⟩
  number := by decide
  before := by simp
  live _ := rfl
  dead h := absurd (by decide) h
  onStack i hi := by
    obtain rfl : i = 0 := Nat.le_zero.mp hi
    simp [stackAt, opened, openedFrom]

/-- One more token: before it the groups were open that were, and behind it those that are. -/
theorem onStack_snoc (hold : ∀ i ≤ done.length, k ∈ stackAt done i ↔ x.openAt < i ∧ i ≤ x.closeAt)
    (hnew : k ∈ (opened (done ++ [t])).2 ↔
      x.openAt < done.length + 1 ∧ (done.length : ℤ) + 1 ≤ x.closeAt) :
    ∀ i ≤ (done ++ [t]).length, k ∈ stackAt (done ++ [t]) i ↔ x.openAt < i ∧ i ≤ x.closeAt := by
  intro i hi
  rw [List.length_append, List.length_singleton] at hi
  rcases Nat.lt_or_ge done.length i with hlt | hle
  · obtain rfl : i = (done ++ [t]).length := by
      rw [List.length_append, List.length_singleton]
      omega
    rw [stackAt_length, hnew, List.length_append, List.length_singleton, Nat.cast_add, Nat.cast_one]
  · rw [stackAt_append hle]
    exact hold i hle

/-- A token that neither opens nor closes the group. -/
theorem Spans.keep (h : Spans size done k x) (hlen : (done.length : ℤ) < size)
    (hsame : k ∈ (opened (done ++ [t])).2 ↔ k ∈ (opened done).2) : Spans size (done ++ [t]) k x where
  origin := h.origin.append [t]
  number := by
    rw [opened_snoc, openTurn_fst]
    have := h.number
    split_ifs <;> omega
  before := by
    have := h.before
    rw [List.length_append]
    push_cast
    omega
  live hin := h.live (hsame.mp hin)
  dead hout := by
    have := h.dead fun hin => hout (hsame.mpr hin)
    rw [List.length_append]
    push_cast
    omega
  onStack := by
    refine onStack_snoc h.onStack (hsame.trans ?_)
    have hbefore := h.before
    by_cases hin : k ∈ (opened done).2
    · have hlive := h.live hin
      exact iff_of_true hin ⟨by omega, by omega⟩
    · have hdead := h.dead hin
      exact iff_of_false hin fun hspan => by omega

theorem not_mem_stackAt (done : List Sym) (i : ℕ) : (opened done).1 ∉ stackAt done i := by
  intro hin
  have hlt := opened_lt (done.take i) _ hin
  have hle := opened_take_le done i
  omega

theorem spans_open (hlen : (done.length : ℤ) < size) (htop : (opened done).2.head? = some top) :
    Spans size (done ++ [.punct '(']) (opened done).1 ⟨top, done.length, size⟩ where
  origin := .inr ⟨done, [], rfl, rfl, htop, rfl⟩
  number := by
    rw [opened_open]
    exact lt_add_one _
  before := by simp
  live _ := rfl
  dead h := absurd (by rw [opened_open]; exact List.mem_cons_self) h
  onStack := by
    refine onStack_snoc (fun i hi => ?_) ?_
    · exact iff_of_false (not_mem_stackAt done i) fun hspan => by
        have := hspan.1
        simp only at this
        omega
    · rw [opened_open]
      exact iff_of_true List.mem_cons_self ⟨lt_add_one _, hlen⟩

theorem Spans.close {n : ℤ} {rest : List ℤ} (h : Spans size done k x)
    (hlen : (done.length : ℤ) < size) (hdone : opened done = (n, k :: rest)) (hrest : rest ≠ []) :
    Spans size (done ++ [.punct ')']) k { x with closeAt := done.length } := by
  have hafter : (opened (done ++ [.punct ')'])).2 = rest := by
    rw [opened_snoc, hdone, openTurn_close n k hrest]
  have hin : k ∈ (opened done).2 := by simp [hdone]
  have hout : k ∉ rest := fun hmem => by
    have hsorted := opened_sorted done
    rw [hdone] at hsorted
    exact lt_irrefl k ((List.pairwise_cons.mp hsorted).1 k hmem)
  have hlive := h.live hin
  have hbefore := h.before
  refine ⟨h.origin.append _, ?_, ?_, fun hmem => absurd (hafter ▸ hmem) hout, fun _ => ?_,
    onStack_snoc (fun i hi => ?_) ?_⟩
  · have := h.number
    rw [opened_snoc, openTurn_fst]
    split_ifs <;> omega
  · simp only [List.length_append, List.length_singleton]
    push_cast
    omega
  · simp
  · rw [h.onStack i hi, hlive]
    refine and_congr_right fun _ => iff_of_true ?_ ?_
    · omega
    · simp only
      omega
  · rw [hafter]
    exact iff_of_false hout fun hspan => by
      have := hspan.2
      simp only at this
      omega

theorem spans_turn {s s' : Building} (hs : s.opened = opened done) (hlen : (done.length : ℤ) < size)
    (hold : ∀ k x, at? s.groups k = some x → Spans size done k x)
    (h : symTurn size s done.length t = some s') :
    ∀ k x, at? s'.groups k = some x → Spans size (done ++ [t]) k x := by
  intro k x hx
  have hnumber : (s.groups.length : ℤ) = (opened done).1 := congrArg Prod.fst hs
  have hstack : s.stack = (opened done).2 := congrArg Prod.snd hs
  unfold symTurn at h
  split_ifs at h with hopen hclose
  · subst hopen
    obtain ⟨top, l, o, htop, -, -, rfl⟩ := push_eq_some h
    rw [at?_append_one] at hx
    split_ifs at hx with hk
    · obtain rfl := Option.some_inj.mp hx
      rw [hk, hnumber]
      exact spans_open hlen (hstack ▸ htop)
    · refine (hold k x hx).keep hlen ?_
      rw [opened_open, List.mem_cons]
      exact or_iff_right (ne_of_lt (hold k x hx).number)
  · subst hclose
    obtain ⟨s₁, hpop, h⟩ := Option.bind_eq_some_iff.mp h
    obtain ⟨top', l', -, -, rfl⟩ := mark_eq_some h
    by_cases hmany : 1 < s.stack.length
    · obtain ⟨top, y, l, htop, hy, hl, rfl⟩ := pop_eq_some hpop hmany
      obtain ⟨g, rest, hcons⟩ := List.exists_cons_of_length_pos (by omega : 0 < s.stack.length)
      obtain rfl : g = top := by simpa [hcons] using htop
      have hrest : rest ≠ [] := by
        rintro rfl
        simp [hcons] at hmany
      have hdone : opened done = ((opened done).1, g :: rest) := by
        rw [← hcons, hstack]
      rw [at?_put? hl] at hx
      split_ifs at hx with hk
      · obtain rfl := Option.some_inj.mp hx
        subst hk
        exact (hold k y hy).close hlen hdone hrest
      · refine (hold k x hx).keep hlen ?_
        rw [opened_snoc, hdone, openTurn_close _ g hrest, List.mem_cons]
        exact (or_iff_right hk).symm
    · rw [pop_of_root hmany] at hpop
      obtain rfl := Option.some_inj.mp hpop
      refine (hold k x hx).keep hlen ?_
      rw [opened_snoc, openTurn, if_neg (by decide), if_pos rfl, if_neg (hstack ▸ hmany)]
  · obtain ⟨top', l', -, -, rfl⟩ := mark_eq_some h
    refine (hold k x hx).keep hlen ?_
    rw [opened_snoc, openTurn_plain hopen hclose]

theorem spans_run {ts : List Sym} {s s' : Building} (hs : s.opened = opened done)
    (hlen : (done ++ ts).length = size) (hold : ∀ k x, at? s.groups k = some x → Spans size done k x)
    (h : runFrom size done.length ts s = some s') :
    ∀ k x, at? s'.groups k = some x → Spans size (done ++ ts) k x := by
  induction ts generalizing done s with
  | nil =>
    obtain rfl := Option.some_inj.mp h
    rwa [List.append_nil]
  | cons t ts ih =>
    obtain ⟨s₁, h₁, h⟩ := Option.bind_eq_some_iff.mp h
    have hlt : (done.length : ℤ) < size := by
      rw [← hlen, List.length_append, List.length_cons]
      push_cast
      omega
    have hs₁ : s₁.opened = opened (done ++ [t]) := by rw [opened_symTurn h₁, hs, opened_snoc]
    rw [show done ++ t :: ts = (done ++ [t]) ++ ts by simp] at hlen ⊢
    exact ih hs₁ hlen (spans_turn hs hlt hold h₁) (by simpa using h)

theorem spans_of_buildGroups {b : Brackets} (h : buildGroups toks = some b)
    (hx : at? b.groups k = some x) : Spans toks.length toks k x := by
  rw [buildGroups_eq] at h
  obtain ⟨e, hrun, rfl⟩ := Option.map_eq_some_iff.mp h
  refine @spans_run _ [] toks _ e rfl rfl (fun k x hx => ?_) hrun k x hx
  obtain ⟨h0, hlt, hmem⟩ := at?_bounds hx
  simp only [Building.start, List.length_singleton, Nat.cast_one] at hlt
  rw [Building.start, List.mem_singleton] at hmem
  obtain rfl : k = 0 := by omega
  exact hmem ▸ spans_root toks

end Spans

section Chains

variable {toks : List Sym} {b : Brackets} {g h : ℤ} {x : Group} {l l' : List ℤ}

/-- A group that is open before a token, and what is open where it opens. -/
theorem Spans.split {size : ℤ} (hs : Spans size toks g x) (hg : 0 < g) {i : ℕ} (hi : i ≤ toks.length)
    (hin : g ∈ stackAt toks i) : ∃ (j : ℕ) (above : List ℤ), x.openAt = j ∧ j < i ∧
      stackAt toks i = above ++ g :: stackAt toks j ∧
      (stackAt toks j).head? = some x.parent := by
  rcases hs.origin with ⟨rfl, -⟩ | ⟨xs, ys, rfl, rfl, hparent, hopen⟩
  · exact absurd hg (lt_irrefl 0)
  have hlt := ((hs.onStack i hi).mp hin).1
  have hxs : stackAt (xs ++ .punct '(' :: ys) xs.length = (opened xs).2 := by
    rw [stackAt_append le_rfl, stackAt_length]
  have htake : (xs ++ Sym.punct '(' :: ys).take i = xs ++ .punct '(' :: ys.take (i - xs.length - 1) := by
    obtain ⟨n, hn⟩ : ∃ n, i - xs.length = n + 1 := ⟨i - xs.length - 1, by omega⟩
    rw [List.take_append, List.take_of_length_le (by omega), hn, List.take_succ_cons]
    rfl
  have hbelow := hin
  rw [stackAt, htake] at hbelow
  obtain ⟨above, habove⟩ := opened_below hbelow
  refine ⟨xs.length, above, hopen, by omega, ?_, by rw [hxs, hparent]⟩
  rw [hxs, stackAt, htake, habove]

/-- The groups from `g` up to the root. -/
inductive Chain (groups : List Group) : ℤ → List ℤ → Prop
  | root : Chain groups 0 [0]
  | step {g : ℤ} {x : Group} {l : List ℤ} (hg : 0 < g) (hx : at? groups g = some x)
    (rest : Chain groups x.parent l) : Chain groups g (g :: l)

theorem Chain.unique {groups : List Group} (hc : Chain groups g l) (hc' : Chain groups g l') :
    l = l' := by
  induction hc generalizing l' with
  | root =>
    cases hc' with
    | root => rfl
    | step hg => exact absurd hg (lt_irrefl 0)
  | step hg hx _ ih =>
    cases hc' with
    | root => exact absurd hg (lt_irrefl 0)
    | step _ hx' rest' =>
      obtain rfl := Option.some_inj.mp (hx.symm.trans hx')
      rw [ih rest']

variable (hb : buildGroups toks = some b)
include hb

theorem wf_of_buildGroups : b.WF ∧ b.toks = toks := by
  obtain ⟨b', hb', h⟩ := buildGroups_yields toks
  obtain rfl := Option.some_inj.mp (hb.symm.trans hb')
  exact h

theorem groups_length : (b.groups.length : ℤ) = (opened toks).1 := by
  rw [buildGroups_eq] at hb
  obtain ⟨e, hrun, rfl⟩ := Option.map_eq_some_iff.mp hb
  exact congrArg Prod.fst (opened_runFrom hrun)

omit hb in
theorem stackAt_nonneg {i : ℕ} (hg : g ∈ stackAt toks i) : 0 ≤ g := by
  have hroot := opened_root (toks.take i)
  obtain ⟨ini, hini⟩ := List.getLast?_eq_some_iff.mp hroot
  have hsorted := opened_sorted (toks.take i)
  rw [hini] at hsorted
  rw [stackAt, hini, List.mem_append, List.mem_singleton] at hg
  rcases hg with hg | rfl
  · exact ((List.pairwise_append.mp hsorted).2.2 g hg 0 List.mem_cons_self).le
  · exact le_rfl

theorem group_of_stackAt {i : ℕ} (hg : g ∈ stackAt toks i) : ∃ x, at? b.groups g = some x := by
  have hlt := opened_lt _ g hg
  have hle := opened_take_le toks i
  have hlen := groups_length hb
  obtain ⟨x, -, hx⟩ := at?_isSome (l := b.groups) (stackAt_nonneg hg) (by omega)
  exact ⟨x, hx⟩

/-- The stack is the chain of its head. -/
theorem chain_of_stackAt {i : ℕ} (hi : i ≤ toks.length) (hst : stackAt toks i = g :: l) :
    Chain b.groups g (g :: l) := by
  induction i using Nat.strong_induction_on generalizing g l with
  | _ i ih =>
    have hsorted : (g :: l).Pairwise (· > ·) := hst ▸ opened_sorted (toks.take i)
    have hin : g ∈ stackAt toks i := by simp [hst]
    rcases (stackAt_nonneg hin).eq_or_lt with rfl | hg
    · have hnil : l = [] := List.eq_nil_iff_forall_not_mem.mpr fun k hk => by
        have hlt := (List.pairwise_cons.mp hsorted).1 k hk
        have hge : 0 ≤ k := @stackAt_nonneg toks k i (by simp [hst, hk])
        omega
      subst hnil
      exact .root
    · obtain ⟨x, hx⟩ := group_of_stackAt hb hin
      obtain ⟨j, above, -, hji, hsplit, hparent⟩ := (spans_of_buildGroups hb hx).split hg hi hin
      rw [hst] at hsplit
      have habove : above = [] := by
        cases above with
        | nil => rfl
        | cons a above =>
          obtain ⟨rfl, rfl⟩ := List.cons.inj hsplit
          exact absurd ((List.pairwise_cons.mp hsorted).1 g (by simp)) (lt_irrefl g)
      subst habove
      obtain ⟨rest, hrest⟩ := List.head?_eq_some_iff.mp hparent
      obtain rfl : l = stackAt toks j := (List.cons.inj hsplit).2
      rw [hrest]
      exact .step hg hx (ih j hji (by omega) hrest)

theorem root_of_buildGroups (hx : at? b.groups 0 = some x) : x = ⟨-1, -1, toks.length⟩ := by
  have hs := spans_of_buildGroups hb hx
  have hlive := hs.live (List.mem_of_getLast? (opened_root toks))
  rcases hs.origin with ⟨-, hparent, hopen⟩ | ⟨xs, ys, -, hk, -⟩
  · obtain ⟨parent, openAt, closeAt⟩ := x
    obtain rfl : parent = -1 := hparent
    obtain rfl : openAt = -1 := hopen
    rw [← hlive]
  · have := opened_pos xs
    omega

/-- The chain of a group is what is open right behind its parenthesis. -/
theorem chain_of_group (hx : at? b.groups g = some x) :
    ∃ l, Chain b.groups g (g :: l) ∧ stackAt toks (x.openAt + 1).toNat = g :: l := by
  have hstack : ∃ l, stackAt toks (x.openAt + 1).toNat = g :: l ∧
      (x.openAt + 1).toNat ≤ toks.length := by
    rcases (spans_of_buildGroups hb hx).origin with ⟨rfl, -, hopen⟩ | ⟨xs, ys, rfl, rfl, -, hopen⟩
    · exact ⟨[], by rw [hopen]; rfl, by rw [hopen]; exact Nat.zero_le _⟩
    · have hat : (x.openAt + 1).toNat = (xs ++ [Sym.punct '(']).length := by
        rw [hopen, List.length_append, List.length_singleton]
        omega
      refine ⟨(opened xs).2, ?_, ?_⟩
      · rw [hat, show xs ++ Sym.punct '(' :: ys = (xs ++ [.punct '(']) ++ ys by simp,
          stackAt_append le_rfl, stackAt_length, opened_open]
      · rw [hat]
        simp
  obtain ⟨l, hl, hle⟩ := hstack
  exact ⟨l, chain_of_stackAt hb hle hl, hl⟩

/-- The ancestors of a group are its chain. -/
theorem isAncestorOrSelf_iff (hg : g < b.groups.length) (hc : Chain b.groups g l) :
    b.isAncestorOrSelf h g = some true ↔ h ∈ l := by
  obtain ⟨r, hr, -⟩ := b.isAncestorOrSelf_yields (wf_of_buildGroups hb).1 h hg
  have hpost : r = true ↔ h ∈ l := by
    refine loop_post (fun k => (∃ m, Chain b.groups k m ∧ (h ∈ m ↔ h ∈ l)) ∨ (k < 0 ∧ h ∉ l))
      (fun r => r = true ↔ h ∈ l) (fun k k' hk hnext => ?_) (fun k r hk hdone => ?_)
      (.inl ⟨l, hc, .rfl⟩) hr
    · rcases hk with ⟨m, hm, hiff⟩ | ⟨hneg, -⟩
      · unfold Brackets.ancestorTurn at hnext
        split_ifs at hnext with h0 hne
        · cases hnext
        obtain ⟨y, hy, hturn⟩ := Option.map_eq_some_iff.mp hnext
        obtain rfl := Turn.next.inj hturn
        cases hm with
        | root =>
          obtain rfl := root_of_buildGroups hb hy
          refine .inr ⟨neg_one_lt_zero, fun hl => hne ?_⟩
          exact (List.mem_singleton.mp (hiff.mpr hl)).symm
        | step hpos hy' rest =>
          obtain rfl := Option.some_inj.mp (hy.symm.trans hy')
          refine .inl ⟨_, rest, ?_⟩
          rw [← hiff, List.mem_cons]
          exact (or_iff_right (Ne.symm hne)).symm
        · cases hnext
      · rw [Brackets.ancestorTurn, if_neg (not_le.mpr hneg)] at hnext
        cases hnext
    · rcases hk with ⟨m, hm, hiff⟩ | ⟨hneg, hl⟩
      · have h0 : 0 ≤ k := by
          cases hm with
          | root => exact le_rfl
          | step hpos => exact hpos.le
        have hmem : k ∈ m := by
          cases hm <;> exact List.mem_cons_self
        rw [Brackets.ancestorTurn, if_pos h0] at hdone
        split_ifs at hdone with he
        · obtain rfl := Turn.done.inj (Option.some_inj.mp hdone)
          exact iff_of_true rfl (hiff.mp (he ▸ hmem))
        · obtain ⟨y, -, hturn⟩ := Option.map_eq_some_iff.mp hdone
          cases hturn
      · rw [Brackets.ancestorTurn, if_neg (not_le.mpr hneg)] at hdone
        obtain rfl := Turn.done.inj (Option.some_inj.mp hdone)
        exact iff_of_false Bool.false_ne_true hl
  rw [hr, Option.some_inj, hpost]

end Chains
end DearSql
