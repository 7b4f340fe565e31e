import DearSql.GroupTree

/-! Two statements that differ in what stands in one closed group: their groups, side by side. -/
namespace DearSql
open Lexing Loops

section Widen

/-- An index behind `k` moves on by `n`. -/
def widen (k : ℤ) (n : ℕ) (i : ℤ) : ℤ := if i ≤ k then i else i + n

variable {k i j : ℤ} {n : ℕ}

theorem widen_of_le (h : i ≤ k) : widen k n i = i := if_pos h

theorem widen_of_lt (h : k < i) : widen k n i = i + n := if_neg (not_le.mpr h)

theorem widen_inj : widen k n i = widen k n j ↔ i = j := by
  unfold widen
  split_ifs <;> omega

theorem widen_succ (h : i ≠ k) : widen k n (i + 1) = widen k n i + 1 := by
  unfold widen
  split_ifs <;> omega

theorem widen_pred (h : i ≠ k + 1) : widen k n (i - 1) = widen k n i - 1 := by
  unfold widen
  split_ifs <;> omega

theorem widen_pos (hk : 0 ≤ k) : 0 < widen k n i ↔ 0 < i := by
  unfold widen
  split_ifs <;> omega

theorem widen_nonneg (hk : -1 ≤ k) : 0 ≤ widen k n i ↔ 0 ≤ i := by
  unfold widen
  split_ifs <;> omega

theorem widen_lt : widen k n i < widen k n j ↔ i < j := by
  unfold widen
  split_ifs <;> omega

theorem le_widen : i ≤ widen k n i := by
  unfold widen
  split_ifs <;> omega

variable {α : Type*} {l l₁ l' : List α} {f : α → α} {a : α}

/-- A write at matching places. -/
theorem put?_widen (h : put? l i a = some l₁)
    (hat : ∀ j x, at? l j = some x → at? l' (widen k n j) = some (f x)) :
    ∃ l₁', put? l' (widen k n i) (f a) = some l₁' ∧
      ∀ j x, at? l₁ j = some x → at? l₁' (widen k n j) = some (f x) := by
  obtain ⟨⟨h0, hlt⟩, -⟩ := put?_eq_some.mp h
  obtain ⟨x, -, hx⟩ := at?_isSome h0 hlt
  have hbounds := at?_bounds (hat i x hx)
  obtain ⟨l₁', hput⟩ : ∃ l₁', put? l' (widen k n i) (f a) = some l₁' :=
    ⟨_, if_pos ⟨hbounds.1, hbounds.2.1⟩⟩
  refine ⟨l₁', hput, fun j y hy => ?_⟩
  rw [at?_put? h] at hy
  rw [at?_put? hput]
  split_ifs at hy with he
  · obtain rfl := Option.some_inj.mp hy
    rw [if_pos (widen_inj.mpr he)]
  · rw [if_neg fun he' => he (widen_inj.mp he')]
    exact hat j y hy

end Widen

section Simulation

def Group.widen (p : ℤ) (n : ℕ) (g : ℤ) (m : ℕ) (x : Group) : Group :=
  ⟨DearSql.widen g m x.parent, DearSql.widen p n x.openAt, DearSql.widen p n x.closeAt⟩

/-- The state `s'` is the state `s` with `n` more tokens behind the token `p` and `m` more groups
behind the group `g`. -/
structure Widened (p : ℤ) (n : ℕ) (g : ℤ) (m : ℕ) (s s' : Building) : Prop where
  stack : s'.stack = s.stack.map (widen g m)
  groups : ∀ k x, at? s.groups k = some x → at? s'.groups (widen g m k) = some (x.widen p n g m)
  marks : ∀ i k, at? s.groupOf_ i = some k → at? s'.groupOf_ (widen p n i) = some (widen g m k)
  openings : ∀ i k, at? s.opens_ i = some k → at? s'.opens_ (widen p n i) = some (widen g m k)

variable {p g i size size' : ℤ} {n m : ℕ} {s s' s₁ : Building} {t : Sym}

theorem Widened.head (h : Widened p n g m s s') {top : ℤ} (ht : s.stack.head? = some top) :
    s'.stack.head? = some (widen g m top) := by
  rw [h.stack, List.head?_map, ht]
  rfl

theorem Widened.mark (h : Widened p n g m s s') (hs : s.mark i = some s₁) :
    ∃ s₁', s'.mark (widen p n i) = some s₁' ∧ Widened p n g m s₁ s₁' := by
  obtain ⟨top, l, htop, hl, rfl⟩ := mark_eq_some hs
  obtain ⟨l', hl', hat⟩ := put?_widen hl h.marks
  refine ⟨{ s' with groupOf_ := l' }, ?_, { h with marks := hat }⟩
  rw [Building.mark, h.head htop, Option.bind_eq_bind, Option.bind_some, hl']
  rfl

theorem Widened.push (h : Widened p n g m s s') (hsize : size' = widen p n size)
    (hlen : (s'.groups.length : ℤ) = widen g m s.groups.length) (hs : s.push i size = some s₁) :
    ∃ s₁', s'.push (widen p n i) size' = some s₁' ∧ Widened p n g m s₁ s₁' := by
  obtain ⟨top, l, o, htop, hl, ho, rfl⟩ := push_eq_some hs
  obtain ⟨l', hl', hat⟩ := put?_widen hl h.marks
  obtain ⟨o', ho', hopens⟩ := put?_widen ho h.openings
  refine ⟨{ groups := s'.groups ++ [⟨widen g m top, widen p n i, size'⟩], groupOf_ := l'
            opens_ := o', stack := s'.groups.length :: s'.stack }, ?_, ?_⟩
  · rw [← hlen] at ho'
    simp [Building.push, Building.mark, h.head htop, hl', ho']
  · refine ⟨?_, fun k x hx => ?_, hat, hopens⟩
    · rw [h.stack, hlen, List.map_cons]
    · rw [at?_append_one] at hx ⊢
      split_ifs at hx with he
      · obtain rfl := Option.some_inj.mp hx
        rw [if_pos (by rw [he, hlen]), hsize]
        rfl
      · rw [if_neg (by rw [hlen, widen_inj]; exact he)]
        exact h.groups k x hx

theorem Widened.pop (h : Widened p n g m s s') (hs : s.pop i = some s₁) :
    ∃ s₁', s'.pop (widen p n i) = some s₁' ∧ Widened p n g m s₁ s₁' := by
  have hlength : s'.stack.length = s.stack.length := by rw [h.stack, List.length_map]
  by_cases hlen : 1 < s.stack.length
  · obtain ⟨top, x, l, htop, hx, hl, rfl⟩ := pop_eq_some hs hlen
    obtain ⟨l', hl', hat⟩ := put?_widen hl h.groups
    refine ⟨{ s' with groups := l', stack := s'.stack.tail }, ?_, { h with
      stack := by rw [h.stack, List.map_tail], groups := hat }⟩
    rw [Building.pop, if_pos (hlength ▸ hlen), h.head htop]
    simp only [Option.bind_eq_bind, Option.bind_some, h.groups top x hx]
    change (put? _ _ ((({ x with closeAt := i } : Group).widen p n g m))).bind _ = _
    rw [hl']
    rfl
  · rw [pop_of_root hlen] at hs
    obtain rfl := Option.some_inj.mp hs
    exact ⟨s', pop_of_root (hlength ▸ hlen), h⟩

theorem Widened.turn (h : Widened p n g m s s') (hsize : size' = widen p n size)
    (hlen : (s'.groups.length : ℤ) = widen g m s.groups.length)
    (hs : symTurn size s i t = some s₁) :
    ∃ s₁', symTurn size' s' (widen p n i) t = some s₁' ∧ Widened p n g m s₁ s₁' := by
  unfold symTurn at hs ⊢
  split_ifs at hs ⊢
  · exact h.push hsize hlen hs
  · obtain ⟨s₂, hpop, hmark⟩ := Option.bind_eq_some_iff.mp hs
    obtain ⟨s₂', hpop', h₂⟩ := h.pop hpop
    obtain ⟨s₁', hmark', h₁⟩ := h₂.mark hmark
    exact ⟨s₁', by rw [hpop', Option.bind_some, hmark'], h₁⟩
  · exact h.mark hs

/-- The runs over the same tokens, in front of the group that is filled or behind it. -/
theorem Widened.run {ts : List Sym} {e : Building} (h : Widened p n g m s s')
    (hsize : size' = widen p n size) (hlen : (s'.groups.length : ℤ) = widen g m s.groups.length)
    (hp : p < i ∨ i + ts.length ≤ p) (hg : g < s.groups.length ∨ s.groups.length + opens ts ≤ g)
    (hrun : runFrom size i ts s = some e) :
    ∃ e', runFrom size' (widen p n i) ts s' = some e' ∧ Widened p n g m e e' ∧
      (e'.groups.length : ℤ) = widen g m e.groups.length := by
  induction ts generalizing i s s' with
  | nil =>
    obtain rfl := Option.some_inj.mp hrun
    exact ⟨s', rfl, h, hlen⟩
  | cons t ts ih =>
    obtain ⟨s₁, hturn, hrun⟩ := Option.bind_eq_some_iff.mp hrun
    obtain ⟨s₁', hturn', h₁⟩ := h.turn hsize hlen hturn
    have hnumber : (s₁.groups.length : ℤ) = s.groups.length + if t = .punct '(' then 1 else 0 :=
      (congrArg Prod.fst (opened_symTurn hturn)).trans (openTurn_fst _ t)
    have hnumber' : (s₁'.groups.length : ℤ) = s'.groups.length + if t = .punct '(' then 1 else 0 :=
      (congrArg Prod.fst (opened_symTurn hturn')).trans (openTurn_fst _ t)
    rw [List.length_cons] at hp
    rw [opens_cons] at hg
    have hlen₁ : (s₁'.groups.length : ℤ) = widen g m s₁.groups.length := by
      rw [hnumber, hnumber', hlen]
      split_ifs at hg ⊢
      · rw [widen_succ]
        omega
      · rw [add_zero, add_zero]
    obtain ⟨e', hrun', he, hlen'⟩ := ih h₁ hlen₁ (by push_cast at hp; omega)
      (by rw [hnumber]; split_ifs at hg ⊢ <;> omega) hrun
    rw [widen_succ (by push_cast at hp; omega)] at hrun'
    exact ⟨e', by rw [runFrom, hturn', Option.bind_some, hrun'], he, hlen'⟩

end Simulation

section Vacant

variable {pre post xs ys : List Sym} {b : Brackets}

/-- What is known of a statement whose group `g`, from the token `p` on, has no tokens. -/
structure Vacant (p g : ℤ) (b : Brackets) : Prop where
  wf : b.WF
  pos : 0 < g
  paren : isPunct b.toks p '(' = true
  partner : isPunct b.toks (p + 1) ')' = true
  openAt_ne : ∀ k x, at? b.groups k = some x → x.openAt ≠ p + 1
  closeAt_ne : ∀ k x, at? b.groups k = some x → x.closeAt ≠ p
  parent_ne : ∀ k x, at? b.groups k = some x → x.parent ≠ g
  groupOf_ne : ∀ i k, isPunct b.toks i ')' = false → b.groupOf i = some k → k ≠ g

theorem append_cons_of_at? {α : Type*} {l : List α} {i : ℤ} {a : α} (h : at? l i = some a) :
    ∃ xs ys, l = xs ++ a :: ys ∧ (xs.length : ℤ) = i := by
  obtain ⟨h0, h⟩ := at?_eq_some.mp h
  obtain ⟨hlt, rfl⟩ := List.getElem?_eq_some_iff.mp h
  exact ⟨l.take i.toNat, l.drop (i.toNat + 1), by simp, by simp; omega⟩

/-- Only between its parentheses is the group open. -/
theorem not_mem_opened (h : xs ++ ys = pre ++ .punct '(' :: .punct ')' :: post)
    (hne : xs.length ≠ pre.length + 1) : (opened pre).1 ∉ (opened xs).2 := by
  have hbefore {us : List Sym} (hpre : pre = xs ++ us) : (opened pre).1 ∉ (opened xs).2 := by
    intro hmem
    have hlt := opened_lt xs _ hmem
    rw [opened_fst, opened_fst, hpre, opens_append] at hlt
    push_cast at hlt
    omega
  rcases List.append_eq_append_iff.mp h with ⟨us, hpre, -⟩ | ⟨us, rfl, hus⟩
  · exact hbefore hpre
  rcases us with _ | ⟨t, _ | ⟨t', us⟩⟩
  · exact @hbefore [] (by simp)
  · simp at hne
  obtain ⟨rfl, rfl, -⟩ : .punct '(' = t ∧ .punct ')' = t' ∧ post = us ++ ys := by simpa using hus
  have hpair : Balanced [.punct '(', .punct ')'] := .group .nil .nil
  rw [show pre ++ .punct '(' :: .punct ')' :: us = pre ++ [.punct '(', .punct ')'] ++ us by simp,
    opened_append, opened_balanced pre hpair]
  -- the numbers of the groups that open from here on are greater
  refine (openedFrom_induction (P := fun s => (opened pre).1 < s.1 ∧ (opened pre).1 ∉ s.2)
    (fun s t hs => ?_) ⟨by simp [opens], fun hmem => ?_⟩).2
  · unfold openTurn
    split_ifs
    · refine ⟨by simp only; omega, fun hmem => ?_⟩
      rcases List.mem_cons.mp hmem with he | hmem
      · omega
      · exact hs.2 hmem
    · exact ⟨hs.1, fun hmem => hs.2 (List.mem_of_mem_tail hmem)⟩
    · exact hs
    · exact hs
  · have := opened_lt pre _ hmem
    omega

theorem vacant (h : buildGroups (pre ++ .punct '(' :: .punct ')' :: post) = some b) :
    Vacant pre.length (opened pre).1 b := by
  obtain ⟨b', hb', hwf, htoks⟩ := buildGroups_yields (pre ++ .punct '(' :: .punct ')' :: post)
  obtain rfl := Option.some_inj.mp (h.symm.trans hb')
  have hopens : isPunct b.toks pre.length '(' = true := by simp [isPunct, htoks]
  have hcloses : isPunct b.toks (pre.length + 1) ')' = true := by
    have hat : at? b.toks ((pre.length + 1 : ℕ) : ℤ) = some (.punct ')') := by
      rw [htoks, at?_ofNat]
      simp
    simpa [isPunct] using hat
  have hopened {k : ℤ} {x : Group} (hx : at? b.groups k = some x) :
      x.openAt ≠ pre.length + 1 ∧ x.parent ≠ (opened pre).1 := by
    rcases (spans_of_buildGroups h hx).origin with
      ⟨-, hparent, hopen⟩ | ⟨xs, ys, hxs, -, hparent, hopen⟩
    · have := opened_pos pre
      omega
    · have hne : xs.length ≠ pre.length + 1 := by
        intro hlen
        have hat : at? b.toks (xs.length : ℤ) = some (.punct '(') := by
          rw [htoks, hxs, at?_ofNat]
          simp
        rw [hlen] at hat
        push_cast at hat
        simp [isPunct, hat] at hcloses
      refine ⟨by omega, fun he => not_mem_opened hxs.symm hne ?_⟩
      exact List.mem_of_head? (he ▸ hparent)
  refine ⟨hwf, opened_pos pre, hopens, hcloses, fun k x hx => (hopened hx).1, fun k x hx he => ?_,
    fun k x hx => (hopened hx).2, fun i k hi hk he => ?_⟩
  · rcases (closings_of_buildGroups h).paren k x hx with hc | ⟨-, hc⟩
    · simp at hc
      omega
    · rw [he, ← htoks, isPunct, decide_eq_true_eq] at hc
      simp [isPunct, hc] at hopens
  · obtain ⟨h0, hlt, -⟩ := at?_bounds hk
    rw [hwf.lengthOf] at hlt
    obtain ⟨t, -, ht⟩ := at?_isSome h0 hlt
    obtain ⟨xs, ys, hxs, hlen⟩ := append_cons_of_at? ht
    have hne : t ≠ .punct ')' := by
      rintro rfl
      simp [isPunct, ht] at hi
    rw [htoks] at hxs
    rw [hxs] at h
    have hgroup := groupOf_of_opened h hne
    rw [hlen, hk, he] at hgroup
    refine not_mem_opened hxs.symm (fun hlen' => ?_) (List.mem_of_head? hgroup.symm)
    rw [← hlen, hlen'] at hi
    push_cast at hi
    simp [hi] at hcloses

end Vacant

section Fill

variable {p g i size : ℤ} {n m : ℕ} {s s' s'' : Building} {t : Sym} {ts inner pre post : List Sym}
  {b b' : Brackets}

theorem symTurn_behind (h : symTurn size s i t = some s') {j : ℤ} (hj : i < j) :
    at? s'.groupOf_ j = at? s.groupOf_ j ∧ at? s'.opens_ j = at? s.opens_ j := by
  have hmark {s s' : Building} (h : s.mark i = some s') :
      at? s'.groupOf_ j = at? s.groupOf_ j ∧ at? s'.opens_ j = at? s.opens_ j := by
    obtain ⟨top, l, -, hl, rfl⟩ := mark_eq_some h
    exact ⟨by rw [at?_put? hl, if_neg hj.ne'], rfl⟩
  unfold symTurn at h
  split_ifs at h
  · obtain ⟨top, l, o, -, hl, ho, rfl⟩ := push_eq_some h
    exact ⟨by rw [at?_put? hl, if_neg hj.ne'], by rw [at?_put? ho, if_neg hj.ne']⟩
  · obtain ⟨s₁, hpop, h⟩ := Option.bind_eq_some_iff.mp h
    by_cases hlen : 1 < s.stack.length
    · obtain ⟨top, x, l, -, -, -, rfl⟩ := pop_eq_some hpop hlen
      have hpopped := hmark h
      exact hpopped
    · rw [pop_of_root hlen] at hpop
      obtain rfl := Option.some_inj.mp hpop
      exact hmark h
  · exact hmark h

/-- The turns over a stretch of tokens write nothing behind it. -/
theorem runFrom_behind (h : runFrom size i ts s = some s') {j : ℤ} (hj : i + ts.length ≤ j) :
    at? s'.groupOf_ j = at? s.groupOf_ j ∧ at? s'.opens_ j = at? s.opens_ j := by
  induction ts generalizing i s with
  | nil =>
    obtain rfl := Option.some_inj.mp h
    exact ⟨rfl, rfl⟩
  | cons t ts ih =>
    obtain ⟨s₁, h₁, h⟩ := Option.bind_eq_some_iff.mp h
    rw [List.length_cons] at hj
    push_cast at hj
    obtain ⟨hmarks, hopens⟩ := ih h (by omega)
    obtain ⟨hmarks₁, hopens₁⟩ := symTurn_behind h₁ (by omega : i < j)
    exact ⟨hmarks.trans hmarks₁, hopens.trans hopens₁⟩

theorem widened_start (hp : 0 ≤ p) (hg : 0 ≤ g) (size : ℕ) (h : p < size) :
    Widened p n g m (.start size) (.start (size + n)) := by
  have hroot : widen g m 0 = 0 := widen_of_le hg
  have hnone : widen g m (-1) = -1 := widen_of_le (by omega)
  have hcopy {v : ℤ} (hv : widen g m v = v) : ∀ i k, at? (List.replicate size v) i = some k →
      at? (List.replicate (size + n) v) (widen p n i) = some (widen g m k) := by
    intro i k hk
    obtain ⟨h0, hlt, hmem⟩ := at?_bounds hk
    rw [List.length_replicate] at hlt
    rw [List.eq_of_mem_replicate hmem, hv]
    have hwide : widen p n i < size + n := by
      unfold widen
      split_ifs <;> omega
    obtain ⟨v', hmem', hv'⟩ := at?_isSome ((widen_nonneg (k := p) (by omega)).mpr h0)
      (l := List.replicate (size + n) v) (by simpa using hwide)
    rw [hv', List.eq_of_mem_replicate hmem']
  refine ⟨?_, fun k x hx => ?_, hcopy hroot, hcopy hnone⟩
  · simp [Building.start, hroot]
  · obtain ⟨h0, hlt, hmem⟩ := at?_bounds hx
    simp only [Building.start, List.length_singleton, Nat.cast_one] at hlt
    obtain rfl : k = 0 := by omega
    rw [Building.start, List.mem_singleton] at hmem
    rw [hmem, hroot, Group.widen, hnone, widen_of_le (by omega : -1 ≤ p), widen_of_lt (by omega)]
    rfl

/-- The turns over the filling. -/
theorem Widened.filling (h : Widened p inner.length g m s s') (hb : Balanced inner)
    (hs : s'.stack ≠ []) (hrun : runFrom size (p + 1) inner s' = some s'') :
    Widened p inner.length g m s s'' := by
  have hopened := opened_runFrom hrun
  rw [openedFrom_balanced hb hs] at hopened
  have hstack : s''.stack = s'.stack := congrArg Prod.snd hopened
  have hsame {i k : ℤ} {l l' l'' : List ℤ} (hbefore : ∀ j < p + 1, at? l'' j = at? l' j)
      (hbehind : ∀ j, p + 1 + inner.length ≤ j → at? l'' j = at? l' j)
      (hk : at? l' (DearSql.widen p inner.length i) = some k) :
      at? l'' (DearSql.widen p inner.length i) = some k := by
    rw [← hk]
    by_cases hi : i ≤ p
    · rw [widen_of_le hi]
      exact hbefore i (by omega)
    · rw [widen_of_lt (not_le.mp hi)]
      exact hbehind _ (by omega)
  have hkeep := keeps_runFrom hrun
  refine ⟨hstack.trans h.stack, fun k x hx => ?_, fun i k hk => ?_, fun i k hk => ?_⟩
  · have hx' := h.groups k x hx
    rw [groups_balanced hb hrun hs _ (at?_bounds hx').2.1, hx']
  · exact hsame (l := []) hkeep.groupOf (fun j hj => (runFrom_behind hrun hj).1) (h.marks i k hk)
  · exact hsame (l := []) hkeep.opens (fun j hj => (runFrom_behind hrun hj).2) (h.openings i k hk)

/-- The statement of `b'` is that of `b` with `n` tokens and `m` groups in the group `g`, which in
`b` has no tokens and opens at `p`. -/
structure Filled (p : ℤ) (n : ℕ) (g : ℤ) (m : ℕ) (b b' : Brackets) : Prop extends
    Vacant p g b where
  built : buildGroups b.toks = some b
  built' : buildGroups b'.toks = some b'
  size : b'.size = widen p n b.size
  filling : ∃ pre inner post, Balanced inner ∧ (pre.length : ℤ) = p ∧ inner.length = n ∧
    (opened pre).1 = g ∧ opens inner = m ∧
    b.toks = pre ++ .punct '(' :: .punct ')' :: post ∧
    b'.toks = pre ++ .punct '(' :: inner ++ .punct ')' :: post
  inside : ∀ i k, p < i → i ≤ p + n → isPunct b'.toks i ')' = false → b'.groupOf i = some k →
    g ≤ k ∧ k ≤ g + m
  toks : ∀ i, at? b'.toks (widen p n i) = at? b.toks i
  groups : ∀ k x, at? b.groups k = some x → at? b'.groups (widen g m k) = some (x.widen p n g m)
  marks : ∀ i k, b.groupOf i = some k → b'.groupOf (widen p n i) = some (widen g m k)
  openings : ∀ i k, at? b.opens_ i = some k → at? b'.opens_ (widen p n i) = some (widen g m k)

theorem widened_runs {N : ℕ} {e e' : Building} (hin : Balanced inner) (hN : pre.length < N)
    (h : runFrom N 0 (pre ++ ([.punct '('] ++ .punct ')' :: post)) (.start N) = some e)
    (h' : runFrom (N + inner.length) 0 (pre ++ ([.punct '('] ++ (inner ++ .punct ')' :: post)))
      (.start (N + inner.length)) = some e') :
    Widened pre.length inner.length (opened pre).1 (opens inner) e e' := by
  have hpos := opened_pos pre
  have hsize : (N : ℤ) + inner.length = widen pre.length inner.length N := by
    rw [widen_of_lt (by omega)]
  rw [runFrom_append] at h h'
  obtain ⟨s, hpre, h⟩ := Option.bind_eq_some_iff.mp h
  obtain ⟨s', hpre', h'⟩ := Option.bind_eq_some_iff.mp h'
  rw [runFrom_append, runFrom_single] at h h'
  obtain ⟨s₁, hopen, h⟩ := Option.bind_eq_some_iff.mp h
  obtain ⟨s₁', hopen', h'⟩ := Option.bind_eq_some_iff.mp h'
  rw [runFrom_append] at h'
  obtain ⟨s₂', hinner, h'⟩ := Option.bind_eq_some_iff.mp h'
  have hnumber : (s.groups.length : ℤ) = (opened pre).1 := congrArg Prod.fst (opened_runFrom hpre)
  have hcount := opened_fst pre
  have hroot : ((Building.start (N + inner.length)).groups.length : ℤ) =
      widen (opened pre).1 (opens inner) (Building.start N).groups.length := by
    rw [widen_of_le (by simp [Building.start]; omega)]
    rfl
  -- in front of the group the states go together
  obtain ⟨x, hx, hs, hlen⟩ := (widened_start (m := opens inner) (n := inner.length)
    (by omega : (0 : ℤ) ≤ pre.length) hpos.le N (by omega)).run hsize hroot (.inr (by omega))
      (.inr (by simp [Building.start]; omega)) hpre
  rw [widen_of_le (by omega), hpre'] at hx
  obtain rfl := Option.some_inj.mp hx
  -- so they do behind its parenthesis
  obtain ⟨x, hx, hs₁⟩ := hs.turn hsize hlen hopen
  rw [widen_of_le (by omega), hopen'] at hx
  obtain rfl := Option.some_inj.mp hx
  -- the filling leaves the open groups, and moves the next number on
  have hopened' := opened_symTurn hopen'
  rw [openTurn_open] at hopened'
  have hstack : s₁'.stack ≠ [] := by
    rw [show s₁'.stack = _ from congrArg Prod.snd hopened']
    exact List.cons_ne_nil _ _
  have hs₂ := hs₁.filling hin hstack (by simpa using hinner)
  have hnumber₁ : (s₁.groups.length : ℤ) = s.groups.length + 1 :=
    congrArg Prod.fst ((opened_symTurn hopen).trans (openTurn_open _))
  have hnumber₂ : (s₂'.groups.length : ℤ) = s₁'.groups.length + opens inner :=
    congrArg Prod.fst ((opened_runFrom hinner).trans (openedFrom_balanced hin hstack))
  have hnumber' : (s₁'.groups.length : ℤ) = s'.groups.length + 1 := congrArg Prod.fst hopened'
  rw [hnumber, widen_of_le le_rfl] at hlen
  have hlen₂ : (s₂'.groups.length : ℤ) = widen (opened pre).1 (opens inner) s₁.groups.length := by
    rw [widen_of_lt (by omega)]
    omega
  have hbehind : (pre.length : ℤ) < 0 + pre.length + ([.punct '('] : List Sym).length := by simp
  obtain ⟨x, hx, he, -⟩ := hs₂.run hsize hlen₂ (.inl hbehind) (.inl (by omega)) h
  rw [widen_of_lt hbehind, h'] at hx
  obtain rfl := Option.some_inj.mp hx
  exact he

theorem at?_filled {α : Type*} (xs zs ys : List α) (i : ℤ) :
    at? (xs ++ zs ++ ys) (widen (xs.length - 1) zs.length i) = at? (xs ++ ys) i := by
  by_cases hi : i < xs.length
  · rw [widen_of_le (by omega), List.append_assoc]
    by_cases h0 : i < 0
    · rw [at?_neg h0, at?_neg h0]
    · rw [at?, at?, if_neg h0, if_neg h0, List.getElem?_append_left (by omega),
        List.getElem?_append_left (by omega)]
  · rw [widen_of_lt (by omega), at?, at?, if_neg (by omega), if_neg (by omega),
      List.getElem?_append_right (by simp; omega), List.getElem?_append_right (by omega)]
    congr 1
    simp only [List.length_append]
    omega

/-- The tokens of the filling are in groups whose numbers are the first ones from its own on. -/
theorem inside_filling {k : ℤ} (hin : Balanced inner)
    (h : buildGroups (pre ++ .punct '(' :: inner ++ .punct ')' :: post) = some b)
    (hlt : pre.length < i) (hle : i ≤ pre.length + inner.length)
    (hi : isPunct (pre ++ .punct '(' :: inner ++ .punct ')' :: post) i ')' = false)
    (hk : b.groupOf i = some k) : (opened pre).1 ≤ k ∧ k ≤ (opened pre).1 + opens inner := by
  obtain ⟨us, t, vs, rfl, hus⟩ : ∃ us t vs, inner = us ++ t :: vs ∧
      (pre.length : ℤ) + 1 + us.length = i := by
    have hat : (i - pre.length - 1).toNat < inner.length := by omega
    exact ⟨inner.take (i - pre.length - 1).toNat, inner[(i - pre.length - 1).toNat],
      inner.drop ((i - pre.length - 1).toNat + 1), by simp, by simp; omega⟩
  have hsplit : pre ++ .punct '(' :: (us ++ t :: vs) ++ .punct ')' :: post =
      (pre ++ .punct '(' :: us) ++ t :: (vs ++ .punct ')' :: post) := by simp
  have hlen : ((pre ++ Sym.punct '(' :: us).length : ℤ) = i := by
    simp only [List.length_append, List.length_cons]
    push_cast
    omega
  obtain ⟨top, -, hgroup⟩ := group_of_opened h hin
  have hon : (opened pre).1 ∈ stackAt _ (pre ++ Sym.punct '(' :: us).length :=
    ((spans_of_buildGroups h hgroup).onStack _ (by rw [hsplit]; simp)).mpr
      ⟨by simp only; omega, by simp only; omega⟩
  have ht : t ≠ .punct ')' := by
    rintro rfl
    rw [isPunct, hsplit, ← hlen, at?_ofNat, List.getElem?_append_right le_rfl, Nat.sub_self] at hi
    simp at hi
  rw [hsplit] at h hon
  have hhead := groupOf_of_opened h ht
  rw [hlen, hk] at hhead
  rw [stackAt_split] at hon
  obtain ⟨rest, hrest⟩ := List.head?_eq_some_iff.mp hhead.symm
  have hsorted := hrest ▸ opened_sorted (pre ++ Sym.punct '(' :: us)
  refine ⟨?_, ?_⟩
  · rcases List.mem_cons.mp (hrest ▸ hon) with he | hmem
    · exact he.le
    · exact ((List.pairwise_cons.mp hsorted).1 _ hmem).le
  · have hlast := opened_lt (pre ++ Sym.punct '(' :: us) k (by rw [hrest]; exact List.mem_cons_self)
    rw [opened_fst, opens_append, opens_cons, if_pos rfl] at hlast
    rw [opened_fst, opens_append]
    push_cast at hlast ⊢
    omega

theorem filled (hin : Balanced inner)
    (h : buildGroups (pre ++ .punct '(' :: .punct ')' :: post) = some b)
    (h' : buildGroups (pre ++ .punct '(' :: inner ++ .punct ')' :: post) = some b') :
    Filled pre.length inner.length (opened pre).1 (opens inner) b b' := by
  obtain ⟨-, htoks⟩ := wf_of_buildGroups h
  obtain ⟨-, htoks'⟩ := wf_of_buildGroups h'
  have hvacant := vacant h
  have hb := h
  have hb' := h'
  rw [buildGroups_eq] at h h'
  obtain ⟨e, hrun, rfl⟩ := Option.map_eq_some_iff.mp h
  obtain ⟨e', hrun', rfl⟩ := Option.map_eq_some_iff.mp h'
  have hlength : (pre ++ .punct '(' :: inner ++ .punct ')' :: post).length =
      (pre ++ .punct '(' :: .punct ')' :: post).length + inner.length := by
    simp only [List.length_append, List.length_cons]
    omega
  rw [hlength] at hrun'
  push_cast at hrun'
  have hw : Widened pre.length inner.length (opened pre).1 (opens inner) e e' :=
    widened_runs hin (by simp) hrun (by simpa using hrun')
  refine ⟨hvacant, htoks ▸ hb, htoks' ▸ hb', ?_,
    ⟨pre, inner, post, hin, rfl, rfl, rfl, rfl, htoks, htoks'⟩,
    fun i k hlt hle hk => inside_filling hin hb' hlt hle (htoks' ▸ hk), fun i => ?_, hw.groups,
    hw.marks, hw.openings⟩
  · simp only [Brackets.size, List.length_append, List.length_cons]
    rw [widen_of_lt (by push_cast; omega)]
    push_cast
    ring
  have hfill := at?_filled (pre ++ [.punct '(']) inner (.punct ')' :: post) i
  simp only [List.length_append, List.length_singleton, Nat.cast_add, Nat.cast_one,
    add_sub_cancel_right, List.append_assoc, List.singleton_append] at hfill
  simpa using hfill

end Fill

end DearSql
