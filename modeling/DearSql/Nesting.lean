import DearSql.Grouping

/-! The groups of a statement, read off its tokens: the groups that are open behind some tokens
depend on those tokens alone, and a group closes where its tokens stop being balanced. -/
namespace DearSql
open Lexing Loops

section Balanced

/-- Every parenthesis has its partner. -/
inductive Balanced : List Sym → Prop
  | nil : Balanced []
  | token {t : Sym} {ts : List Sym} (hopen : t ≠ .punct '(') (hclose : t ≠ .punct ')')
    (rest : Balanced ts) : Balanced (t :: ts)
  | group {xs ys : List Sym} (inner : Balanced xs) (rest : Balanced ys) :
    Balanced (.punct '(' :: xs ++ .punct ')' :: ys)

theorem Balanced.append {xs ys : List Sym} (hx : Balanced xs) (hy : Balanced ys) :
    Balanced (xs ++ ys) := by
  induction hx with
  | nil => exact hy
  | token hopen hclose _ ih => exact .token hopen hclose ih
  | group inner _ _ ih =>
    have h := Balanced.group inner ih
    simpa using h

theorem balanced_of_plain {ts : List Sym} (h : ∀ t ∈ ts, t ≠ .punct '(' ∧ t ≠ .punct ')') :
    Balanced ts := by
  induction ts with
  | nil => exact .nil
  | cons t ts ih =>
    have ht := h t List.mem_cons_self
    exact .token ht.1 ht.2 (ih fun u hu => h u (List.mem_cons_of_mem _ hu))

end Balanced

section Opened

/-- The number of the next group, and the open groups from the innermost out. -/
def openTurn (s : ℤ × List ℤ) (t : Sym) : ℤ × List ℤ :=
  if t = .punct '(' then (s.1 + 1, s.1 :: s.2)
  else if t = .punct ')' then (s.1, if 1 < s.2.length then s.2.tail else s.2)
  else s

def openedFrom (s : ℤ × List ℤ) (ts : List Sym) : ℤ × List ℤ := ts.foldl openTurn s

/-- Behind the first tokens of a statement. -/
def opened (ts : List Sym) : ℤ × List ℤ := openedFrom (1, [0]) ts

/-- How many groups open. -/
def opens (ts : List Sym) : ℕ := ts.count (.punct '(')

variable {s : ℤ × List ℤ} {t : Sym} {xs ys ts : List Sym}

theorem opened_append (xs ys : List Sym) : opened (xs ++ ys) = openedFrom (opened xs) ys :=
  List.foldl_append

theorem openedFrom_append (s : ℤ × List ℤ) (xs ys : List Sym) :
    openedFrom s (xs ++ ys) = openedFrom (openedFrom s xs) ys := List.foldl_append

theorem openTurn_plain (hopen : t ≠ .punct '(') (hclose : t ≠ .punct ')') : openTurn s t = s := by
  rw [openTurn, if_neg hopen, if_neg hclose]

theorem opens_append (xs ys : List Sym) : opens (xs ++ ys) = opens xs + opens ys :=
  List.count_append

theorem opens_cons (t : Sym) (ts : List Sym) :
    opens (t :: ts) = opens ts + if t = .punct '(' then 1 else 0 := by
  simp [opens, List.count_cons]

/-- The next number counts the parentheses. -/
theorem openTurn_fst (s : ℤ × List ℤ) (t : Sym) :
    (openTurn s t).1 = s.1 + if t = .punct '(' then 1 else 0 := by
  unfold openTurn
  split_ifs <;> simp

theorem openedFrom_fst (s : ℤ × List ℤ) (ts : List Sym) :
    (openedFrom s ts).1 = s.1 + opens ts := by
  induction ts generalizing s with
  | nil => simp [openedFrom, opens]
  | cons t ts ih =>
    rw [opens_cons]
    refine (ih (openTurn s t)).trans ?_
    rw [openTurn_fst]
    split_ifs <;> push_cast <;> omega

theorem opened_fst (ts : List Sym) : (opened ts).1 = 1 + opens ts := openedFrom_fst _ ts

theorem openTurn_open (s : ℤ × List ℤ) : openTurn s (.punct '(') = (s.1 + 1, s.1 :: s.2) := rfl

theorem openTurn_close (n g : ℤ) {stack : List ℤ} (h : stack ≠ []) :
    openTurn (n, g :: stack) (.punct ')') = (n, stack) := by
  have hpos : 1 < (g :: stack).length := by
    have := List.length_pos_iff.mpr h
    simp only [List.length_cons]
    omega
  rw [openTurn, if_neg (by decide), if_pos rfl, if_pos hpos]
  rfl

/-- Behind balanced tokens the same groups are open. -/
theorem openedFrom_balanced (h : Balanced ts) (hs : s.2 ≠ []) :
    openedFrom s ts = (s.1 + opens ts, s.2) := by
  induction h generalizing s with
  | nil => simp [openedFrom, opens]
  | @token t ts hopen hclose _ ih =>
    have hcount : opens (t :: ts) = opens ts := by simp [opens, hopen]
    rw [openedFrom, List.foldl_cons, openTurn_plain hopen hclose, hcount]
    exact ih hs
  | @group xs ys _ _ ihx ihy =>
    have hcount : opens (.punct '(' :: xs ++ .punct ')' :: ys) = opens xs + opens ys + 1 := by
      simp [opens]
    have hsplit : .punct '(' :: xs ++ .punct ')' :: ys =
        [.punct '('] ++ xs ++ [.punct ')'] ++ ys := by simp
    have hopen : openedFrom s [.punct '('] = (s.1 + 1, s.1 :: s.2) := rfl
    have hclose : openedFrom (s.1 + 1 + opens xs, s.1 :: s.2) [.punct ')'] =
        (s.1 + 1 + opens xs, s.2) := openTurn_close _ _ hs
    rw [hcount, hsplit, openedFrom_append, openedFrom_append, openedFrom_append, hopen,
      ihx (by simp), hclose, ihy (by exact hs)]
    push_cast
    congr 1
    ring

/-- What every token keeps holds behind all of them. -/
theorem openedFrom_induction {P : ℤ × List ℤ → Prop} (hturn : ∀ s t, P s → P (openTurn s t))
    (hs : P s) : P (openedFrom s ts) := by
  induction ts generalizing s with
  | nil => exact hs
  | cons t ts ih => exact ih (hturn s t hs)

theorem opened_ne_nil (ts : List Sym) : (opened ts).2 ≠ [] := by
  refine openedFrom_induction (P := fun s => s.2 ≠ []) (fun s t hs => ?_) (by simp)
  unfold openTurn
  split_ifs with hopen hclose hlen
  · simp
  · intro hnil
    have := congrArg List.length hnil
    simp only [List.length_tail, List.length_nil] at this
    omega
  · exact hs
  · exact hs

/-- The open groups have numbers below the next one. -/
theorem opened_lt (ts : List Sym) : ∀ g ∈ (opened ts).2, g < (opened ts).1 := by
  refine openedFrom_induction (P := fun s => ∀ g ∈ s.2, g < s.1) (fun s t hs => ?_) (by simp)
  unfold openTurn
  split_ifs with hopen hclose hlen
  · intro g hg
    rcases List.mem_cons.mp hg with rfl | hg
    · simp
    · have := hs g hg
      simp only
      omega
  · exact fun g hg => hs g (List.mem_of_mem_tail hg)
  · exact hs
  · exact hs

theorem opened_pos (ts : List Sym) : 0 < (opened ts).1 := by
  refine openedFrom_induction (P := fun s => 0 < s.1) (fun s t hs => ?_) (by simp)
  unfold openTurn
  split_ifs
  · simp only
    omega
  · exact hs
  · exact hs
  · exact hs

/-- Balanced tokens leave the open groups of a statement as they are. -/
theorem opened_balanced (pre : List Sym) (h : Balanced ts) :
    opened (pre ++ ts) = ((opened pre).1 + opens ts, (opened pre).2) := by
  rw [opened_append, openedFrom_balanced h (opened_ne_nil pre)]

theorem opened_open (pre : List Sym) :
    opened (pre ++ [.punct '(']) = ((opened pre).1 + 1, (opened pre).1 :: (opened pre).2) := by
  rw [opened_append]
  rfl

end Opened

section Runs

/-- One turn of `buildGroups` at a token `t`. -/
def symTurn (size : ℤ) (s : Building) (i : ℤ) (t : Sym) : Option Building :=
  if t = .punct '(' then s.push i size
  else if t = .punct ')' then (s.pop i).bind fun s => s.mark i
  else s.mark i

/-- The turns over a stretch of tokens that starts at index `i`. -/
def runFrom (size : ℤ) : ℤ → List Sym → Building → Option Building
  | _, [], s => some s
  | i, t :: ts, s => (symTurn size s i t).bind (runFrom size (i + 1) ts)

theorem groupTurn_eq {toks : List Sym} {i : ℤ} {t : Sym} (h : at? toks i = some t) (s : Building) :
    groupTurn toks s i = symTurn toks.length s i t := by
  have hp : ∀ c, isPunct toks i c = decide (t = .punct c) := fun c => by
    simp [isPunct, h]
  simp only [groupTurn, symTurn, hp, decide_eq_true_eq]

theorem runFrom_append (size i : ℤ) (xs ys : List Sym) (s : Building) :
    runFrom size i (xs ++ ys) s =
      (runFrom size i xs s).bind (runFrom size (i + xs.length) ys) := by
  induction xs generalizing i s with
  | nil => simp [runFrom]
  | cons t xs ih =>
    rw [List.cons_append, runFrom, runFrom, Option.bind_assoc]
    congr 1
    funext s'
    rw [ih, List.length_cons]
    congr 2
    push_cast
    ring

theorem foldlM_groupTurn (done ts : List Sym) (s : Building) :
    (upTo done.length (done ++ ts).length).foldlM (groupTurn (done ++ ts)) s =
      runFrom (done ++ ts).length done.length ts s := by
  induction ts generalizing done s with
  | nil => rw [List.append_nil, upTo_nil le_rfl]; rfl
  | cons t ts ih =>
    have hget : at? (done ++ t :: ts) (done.length : ℤ) = some t := by simp
    have happ : done ++ t :: ts = (done ++ [t]) ++ ts := by simp
    have hlen : ((done ++ [t]).length : ℤ) = done.length + 1 := by simp
    rw [upTo_cons (by simp), List.foldlM_cons, groupTurn_eq hget, runFrom]
    change (symTurn _ s _ t).bind _ = _
    congr 1
    funext s'
    have h := ih (done ++ [t]) s'
    rw [hlen, ← happ] at h
    exact h

/-- `buildGroups` before its first turn. -/
def Building.start (size : ℕ) : Building where
  groups := [⟨-1, -1, size⟩]
  groupOf_ := List.replicate size 0
  opens_ := List.replicate size (-1)
  stack := [0]

theorem buildGroups_eq (toks : List Sym) :
    buildGroups toks = (runFrom toks.length 0 toks (.start toks.length)).map fun s =>
      { toks := toks, groups := s.groups, groupOf_ := s.groupOf_, opens_ := s.opens_ } := by
  have h := foldlM_groupTurn [] toks (.start toks.length)
  simp only [List.nil_append, List.length_nil, Nat.cast_zero] at h
  rw [← h, Option.map_eq_bind]
  rfl

end Runs

section Turns

variable {size i : ℤ} {s s' : Building} {t : Sym}

theorem at?_put? {α : Type*} {l l' : List α} {i : ℤ} {a : α} (h : put? l i a = some l') (j : ℤ) :
    at? l' j = if j = i then some a else at? l j := by
  obtain ⟨⟨h0, hlt⟩, rfl⟩ := put?_eq_some.mp h
  ext x
  rw [at?_set h0]
  split_ifs with he
  · subst he
    simp [hlt]
  · simp [Ne.symm he]

theorem at?_append_one {α : Type*} (l : List α) (a : α) (j : ℤ) :
    at? (l ++ [a]) j = if j = l.length then some a else at? l j := by
  ext x
  rw [at?_snoc]
  split_ifs with he
  · subst he
    simp
  · simp [he]

theorem length_put? {α : Type*} {l l' : List α} {a : α} (h : put? l i a = some l') :
    l'.length = l.length := by
  obtain ⟨-, rfl⟩ := put?_eq_some.mp h
  exact List.length_set

theorem mark_eq_some (h : s.mark i = some s') : ∃ top l, s.stack.head? = some top ∧
    put? s.groupOf_ i top = some l ∧ s' = { s with groupOf_ := l } := by
  obtain ⟨top, htop, h⟩ := Option.bind_eq_some_iff.mp h
  obtain ⟨l, hl, h⟩ := Option.bind_eq_some_iff.mp h
  exact ⟨top, l, htop, hl, (Option.some_inj.mp h).symm⟩

theorem push_eq_some (h : s.push i size = some s') : ∃ top l o, s.stack.head? = some top ∧
    put? s.groupOf_ i top = some l ∧ put? s.opens_ i s.groups.length = some o ∧
    s' = { groups := s.groups ++ [⟨top, i, size⟩], groupOf_ := l, opens_ := o
           stack := s.groups.length :: s.stack } := by
  obtain ⟨s₁, hmark, h⟩ := Option.bind_eq_some_iff.mp h
  obtain ⟨top, l, htop, hl, rfl⟩ := mark_eq_some hmark
  obtain ⟨top', htop', h⟩ := Option.bind_eq_some_iff.mp h
  obtain ⟨o, ho, h⟩ := Option.bind_eq_some_iff.mp h
  obtain rfl : top = top' := Option.some_inj.mp (htop.symm.trans htop')
  exact ⟨top, l, o, htop, hl, ho, (Option.some_inj.mp h).symm⟩

theorem pop_eq_some (h : s.pop i = some s') (hlen : 1 < s.stack.length) :
    ∃ top x l, s.stack.head? = some top ∧ at? s.groups top = some x ∧
      put? s.groups top { x with closeAt := i } = some l ∧
      s' = { s with groups := l, stack := s.stack.tail } := by
  rw [Building.pop, if_pos hlen] at h
  obtain ⟨top, htop, h⟩ := Option.bind_eq_some_iff.mp h
  obtain ⟨x, hx, h⟩ := Option.bind_eq_some_iff.mp h
  obtain ⟨l, hl, h⟩ := Option.bind_eq_some_iff.mp h
  exact ⟨top, x, l, htop, hx, hl, (Option.some_inj.mp h).symm⟩

theorem pop_of_root (hlen : ¬1 < s.stack.length) : s.pop i = some s := if_neg hlen

/-- The next group and the open ones. -/
def Building.opened (s : Building) : ℤ × List ℤ := (s.groups.length, s.stack)

theorem opened_symTurn (h : symTurn size s i t = some s') : s'.opened = openTurn s.opened t := by
  unfold symTurn at h
  unfold openTurn
  split_ifs at h ⊢ with hopen hclose
  · obtain ⟨top, l, o, -, -, -, rfl⟩ := push_eq_some h
    simp [Building.opened]
  · rename_i hlen
    obtain ⟨s₁, hpop, h⟩ := Option.bind_eq_some_iff.mp h
    obtain ⟨top, l, -, -, rfl⟩ := mark_eq_some h
    obtain ⟨top, x, l, -, -, hl, rfl⟩ := pop_eq_some hpop hlen
    simp [Building.opened, length_put? hl]
  · rename_i hlen
    rw [pop_of_root hlen, Option.bind_some] at h
    obtain ⟨top, l, -, -, rfl⟩ := mark_eq_some h
    rfl
  · obtain ⟨top, l, -, -, rfl⟩ := mark_eq_some h
    rfl

theorem opened_runFrom {ts : List Sym} (h : runFrom size i ts s = some s') :
    s'.opened = openedFrom s.opened ts := by
  induction ts generalizing i s with
  | nil =>
    obtain rfl := Option.some_inj.mp h
    rfl
  | cons t ts ih =>
    obtain ⟨s₁, h₁, h⟩ := Option.bind_eq_some_iff.mp h
    rw [ih h, opened_symTurn h₁]
    rfl

end Turns

section Frames

/-- What the turns from index `i` on leave as it is. -/
structure Keeps (i : ℤ) (s s' : Building) : Prop where
  groupOf : ∀ j < i, at? s'.groupOf_ j = at? s.groupOf_ j
  opens : ∀ j < i, at? s'.opens_ j = at? s.opens_ j
  groups : ∀ g < (s.groups.length : ℤ), g ∉ s.stack → at? s'.groups g = at? s.groups g
  stack : ∀ g ∈ s'.stack, g ∈ s.stack ∨ s.groups.length ≤ g
  length : s.groups.length ≤ s'.groups.length

variable {size i : ℤ} {s s' s'' : Building} {t : Sym} {ts : List Sym}

theorem Keeps.refl (i : ℤ) (s : Building) : Keeps i s s where
  groupOf _ _ := rfl
  opens _ _ := rfl
  groups _ _ _ := rfl
  stack _ h := .inl h
  length := le_rfl

theorem Keeps.trans (h : Keeps i s s') (h' : Keeps (i + 1) s' s'') : Keeps i s s'' where
  groupOf j hj := (h'.groupOf j (by omega)).trans (h.groupOf j hj)
  opens j hj := (h'.opens j (by omega)).trans (h.opens j hj)
  groups g hg hs := by
    have hlen := h.length
    have hs' : g ∉ s'.stack := fun hmem => (h.stack g hmem).elim hs (by omega)
    rw [h'.groups g (by omega) hs', h.groups g hg hs]
  stack g hg := by
    have hlen := h.length
    rcases h'.stack g hg with hg | hg
    · exact h.stack g hg
    · exact .inr (by omega)
  length := h.length.trans h'.length

theorem keeps_mark (h : s.mark i = some s') : Keeps i s s' := by
  obtain ⟨top, l, -, hl, rfl⟩ := mark_eq_some h
  refine { Keeps.refl i s with groupOf := fun j hj => ?_ }
  rw [at?_put? hl, if_neg (by omega)]

theorem keeps_pop (h : s.pop i = some s') : Keeps i s s' := by
  by_cases hlen : 1 < s.stack.length
  · obtain ⟨top, x, l, htop, hx, hl, rfl⟩ := pop_eq_some h hlen
    refine { Keeps.refl i s with groups := fun g _ hs => ?_, stack := fun g hg => ?_,
                                 length := (length_put? hl).ge }
    · rw [at?_put? hl, if_neg fun he : g = top => hs (he ▸ List.mem_of_head? htop)]
    · exact .inl (List.mem_of_mem_tail hg)
  · rw [pop_of_root hlen] at h
    obtain rfl := Option.some_inj.mp h
    exact .refl i s

theorem keeps_push (h : s.push i size = some s') : Keeps i s s' := by
  obtain ⟨top, l, o, -, hl, ho, rfl⟩ := push_eq_some h
  constructor
  · intro j hj
    rw [at?_put? hl, if_neg (by omega)]
  · intro j hj
    rw [at?_put? ho, if_neg (by omega)]
  · intro g hg _
    rw [at?_append_one, if_neg (by omega)]
  · intro g hg
    rcases List.mem_cons.mp hg with rfl | hg
    · exact .inr le_rfl
    · exact .inl hg
  · simp

theorem keeps_symTurn (h : symTurn size s i t = some s') : Keeps i s s' := by
  unfold symTurn at h
  split_ifs at h
  · exact keeps_push h
  · obtain ⟨s₁, hpop, h⟩ := Option.bind_eq_some_iff.mp h
    have hmark := keeps_mark h
    have hpop := keeps_pop hpop
    exact { groupOf := fun j hj => (hmark.groupOf j hj).trans (hpop.groupOf j hj)
            opens := fun j hj => (hmark.opens j hj).trans (hpop.opens j hj)
            groups := fun g hg hs => by
              have hlen := hpop.length
              have hs' : g ∉ s₁.stack := fun hmem => (hpop.stack g hmem).elim hs (by omega)
              rw [hmark.groups g (by omega) hs', hpop.groups g hg hs]
            stack := fun g hg => by
              have hlen := hpop.length
              rcases hmark.stack g hg with hg | hg
              · exact hpop.stack g hg
              · exact .inr (by omega)
            length := hpop.length.trans hmark.length }
  · exact keeps_mark h

theorem keeps_runFrom (h : runFrom size i ts s = some s') : Keeps i s s' := by
  induction ts generalizing i s with
  | nil =>
    obtain rfl := Option.some_inj.mp h
    exact .refl i s
  | cons t ts ih =>
    obtain ⟨s₁, h₁, h⟩ := Option.bind_eq_some_iff.mp h
    exact (keeps_symTurn h₁).trans (ih h)

theorem runFrom_single (size i : ℤ) (t : Sym) (s : Building) :
    runFrom size i [t] s = symTurn size s i t := by
  simp [runFrom]

/-- Closing the innermost group says where it ends, and no more. -/
theorem close_eq_some {g : ℤ} {stack : List ℤ} (h : symTurn size s i (.punct ')') = some s')
    (hs : s.stack = g :: stack) (hne : stack ≠ []) : ∃ x, at? s.groups g = some x ∧
      ∀ k, at? s'.groups k = if k = g then some { x with closeAt := i } else at? s.groups k := by
  have hlen : 1 < s.stack.length := by
    have := List.length_pos_iff.mpr hne
    rw [hs, List.length_cons]
    omega
  rw [symTurn, if_neg (by decide), if_pos rfl] at h
  obtain ⟨s₁, hpop, h⟩ := Option.bind_eq_some_iff.mp h
  obtain ⟨-, -, -, -, rfl⟩ := mark_eq_some h
  obtain ⟨top, x, l, htop, hx, hl, rfl⟩ := pop_eq_some hpop hlen
  obtain rfl : g = top := by simpa [hs] using htop
  exact ⟨x, hx, at?_put? hl⟩

/-- The turns over a parenthesised stretch, given what they do to the groups in between. -/
theorem bracket_eq_some {xs : List Sym} (hb : Balanced xs)
    (hxs : ∀ {i : ℤ} {s s' : Building}, runFrom size i xs s = some s' → s.stack ≠ [] →
      ∀ g < (s.groups.length : ℤ), at? s'.groups g = at? s.groups g)
    (h : runFrom size i ([.punct '('] ++ xs ++ [.punct ')']) s = some s') (hs : s.stack ≠ []) :
    ∃ top, s.stack.head? = some top ∧ s'.opened = ((s.groups.length : ℤ) + 1 + opens xs, s.stack) ∧
      at? s'.groups s.groups.length = some ⟨top, i, i + 1 + xs.length⟩ ∧
      ∀ g < (s.groups.length : ℤ), at? s'.groups g = at? s.groups g := by
  rw [runFrom_append, runFrom_append] at h
  obtain ⟨s₂, h₂, hclose⟩ := Option.bind_eq_some_iff.mp h
  obtain ⟨s₁, h₁, hrun⟩ := Option.bind_eq_some_iff.mp h₂
  rw [runFrom_single] at h₁ hclose
  have hopened : s₂.opened =
      ((s.groups.length : ℤ) + 1 + opens xs, (s.groups.length : ℤ) :: s.stack) := by
    rw [opened_runFrom hrun, opened_symTurn h₁, openTurn_open, openedFrom_balanced hb (by simp)]
    rfl
  obtain ⟨x, hx, hafter⟩ := close_eq_some hclose (congrArg Prod.snd hopened) hs
  have hopened' := opened_symTurn hclose
  rw [hopened, openTurn_close _ _ hs] at hopened'
  obtain ⟨top, l, o, htop, -, -, rfl⟩ := push_eq_some (by simpa [symTurn] using h₁)
  have hkeep := hxs hrun (by simp)
  simp only [List.length_append, List.length_singleton] at hkeep
  refine ⟨top, htop, hopened', ?_, fun g hg => ?_⟩
  · rw [hkeep _ (by omega), at?_append_one, if_pos rfl] at hx
    obtain rfl := Option.some_inj.mp hx
    rw [hafter, if_pos rfl]
    simp only [List.length_append, List.length_singleton]
    push_cast
    rw [add_assoc]
  · rw [hafter, if_neg (by omega), hkeep g (by omega), at?_append_one, if_neg (by omega)]

/-- Balanced tokens leave every group that was there as it is. -/
theorem groups_balanced (hb : Balanced ts) (h : runFrom size i ts s = some s') (hs : s.stack ≠ []) :
    ∀ g < (s.groups.length : ℤ), at? s'.groups g = at? s.groups g := by
  induction hb generalizing i s s' with
  | nil =>
    obtain rfl := Option.some_inj.mp h
    exact fun _ _ => rfl
  | @token t ts hopen hclose _ ih =>
    obtain ⟨s₁, h₁, h⟩ := Option.bind_eq_some_iff.mp h
    rw [symTurn, if_neg hopen, if_neg hclose] at h₁
    obtain ⟨top, l, -, -, rfl⟩ := mark_eq_some h₁
    have hrest := ih h hs
    exact hrest
  | @group xs ys hx _ ihx ihy =>
    have hsplit : .punct '(' :: xs ++ .punct ')' :: ys =
        ([.punct '('] ++ xs ++ [.punct ')']) ++ ys := by simp
    rw [hsplit, runFrom_append] at h
    obtain ⟨s₁, h₁, hys⟩ := Option.bind_eq_some_iff.mp h
    obtain ⟨top, -, hopened, -, hkeep⟩ := bracket_eq_some hx ihx h₁ hs
    have hlen : (s₁.groups.length : ℤ) = _ := congrArg Prod.fst hopened
    have hstack : s₁.stack = s.stack := congrArg Prod.snd hopened
    intro g hg
    rw [ihy hys (by rw [hstack]; exact hs) g (by omega), hkeep g hg]

end Frames

section Positions

variable {b : Brackets} {pre post inner ts : List Sym} {t : Sym}

/-- The states of `buildGroups` around a stretch of tokens. -/
theorem runs_of_buildGroups (h : buildGroups (pre ++ ts ++ post) = some b) :
    ∃ s s' e, s.opened = opened pre ∧
      runFrom (pre ++ ts ++ post).length pre.length ts s = some s' ∧
      runFrom (pre ++ ts ++ post).length (pre.length + ts.length) post s' = some e ∧
      b = { toks := pre ++ ts ++ post, groups := e.groups, groupOf_ := e.groupOf_
            opens_ := e.opens_ } := by
  rw [buildGroups_eq] at h
  obtain ⟨e, hrun, rfl⟩ := Option.map_eq_some_iff.mp h
  generalize (pre ++ ts ++ post).length = size at hrun
  rw [runFrom_append, List.length_append] at hrun
  obtain ⟨s', hrun, hpost⟩ := Option.bind_eq_some_iff.mp hrun
  rw [runFrom_append] at hrun
  obtain ⟨s, hpre, hts⟩ := Option.bind_eq_some_iff.mp hrun
  refine ⟨s, s', e, opened_runFrom hpre, ?_, ?_, rfl⟩
  · simpa using hts
  · simpa using hpost

theorem toks_of_buildGroups (h : buildGroups ts = some b) : b.toks = ts := by
  rw [buildGroups_eq] at h
  obtain ⟨e, -, rfl⟩ := Option.map_eq_some_iff.mp h
  rfl

/-- A token is in the innermost group that is open before it. -/
theorem groupOf_of_opened (h : buildGroups (pre ++ t :: post) = some b) (ht : t ≠ .punct ')') :
    b.groupOf pre.length = (opened pre).2.head? := by
  have hsplit : pre ++ t :: post = pre ++ [t] ++ post := by simp
  rw [hsplit] at h
  obtain ⟨s, s', e, hs, hturn, hpost, rfl⟩ := runs_of_buildGroups h
  rw [runFrom_single] at hturn
  have hkeep := (keeps_runFrom hpost).groupOf pre.length (by simp)
  have hat : at? s'.groupOf_ pre.length = s.stack.head? := by
    rw [symTurn, if_neg ht] at hturn
    split_ifs at hturn
    · obtain ⟨top, l, o, htop, hl, -, rfl⟩ := push_eq_some hturn
      rw [at?_put? hl, if_pos rfl, htop]
    · obtain ⟨top, l, htop, hl, rfl⟩ := mark_eq_some hturn
      rw [at?_put? hl, if_pos rfl, htop]
  rw [Brackets.groupOf, hkeep, hat, ← hs]
  rfl

/-- A parenthesis opens the next group. -/
theorem opens_of_opened (h : buildGroups (pre ++ .punct '(' :: post) = some b) :
    at? b.opens_ pre.length = some (opened pre).1 := by
  have hsplit : pre ++ .punct '(' :: post = pre ++ [.punct '('] ++ post := by simp
  rw [hsplit] at h
  obtain ⟨s, s', e, hs, hturn, hpost, rfl⟩ := runs_of_buildGroups h
  rw [runFrom_single] at hturn
  obtain ⟨top, l, o, -, -, ho, rfl⟩ := push_eq_some hturn
  have hkeep := (keeps_runFrom hpost).opens pre.length (by simp)
  rw [hkeep, at?_put? ho, if_pos rfl, ← hs]
  rfl

/-- A group around balanced tokens closes right behind them. -/
theorem group_of_opened (h : buildGroups (pre ++ .punct '(' :: inner ++ .punct ')' :: post) = some b)
    (hin : Balanced inner) : ∃ top, (opened pre).2.head? = some top ∧
      at? b.groups (opened pre).1 = some ⟨top, pre.length, pre.length + 1 + inner.length⟩ := by
  have hsplit : pre ++ .punct '(' :: inner ++ .punct ')' :: post =
      pre ++ ([.punct '('] ++ inner ++ [.punct ')']) ++ post := by simp
  rw [hsplit] at h
  obtain ⟨s, s', e, hs, hturn, hpost, rfl⟩ := runs_of_buildGroups h
  have hstack : s.stack = (opened pre).2 := congrArg Prod.snd hs
  have hnumber : (s.groups.length : ℤ) = (opened pre).1 := congrArg Prod.fst hs
  have hne : s.stack ≠ [] := hstack ▸ opened_ne_nil pre
  obtain ⟨top, htop, hopened, hat, -⟩ :=
    bracket_eq_some hin (fun h hs => groups_balanced hin h hs) hturn hne
  have hlen : (s'.groups.length : ℤ) = _ := congrArg Prod.fst hopened
  have hmem : (s.groups.length : ℤ) ∉ s'.stack := by
    have hstack' : s'.stack = s.stack := congrArg Prod.snd hopened
    intro hin
    rw [hstack', hstack] at hin
    have := opened_lt pre _ hin
    omega
  have hkeep := (keeps_runFrom hpost).groups s.groups.length (by omega) hmem
  exact ⟨top, hstack ▸ htop, hnumber ▸ hkeep.trans hat⟩

theorem closeOf_of_opened (h : buildGroups (pre ++ .punct '(' :: inner ++ .punct ')' :: post) = some b)
    (hin : Balanced inner) : b.closeOf pre.length = some ((pre.length : ℤ) + 1 + inner.length) := by
  obtain ⟨top, -, hgroup⟩ := group_of_opened h hin
  have hsplit : buildGroups (pre ++ .punct '(' :: (inner ++ .punct ')' :: post)) = some b := by
    simpa using h
  have hopens := opens_of_opened hsplit
  have hpos := opened_pos pre
  rw [Brackets.closeOf, hopens, Option.bind_eq_bind, Option.bind_some, if_neg (by omega), hgroup]
  rfl

theorem root_of_balanced (h : buildGroups ts = some b) (hts : Balanced ts) :
    at? b.groups 0 = some ⟨-1, -1, ts.length⟩ := by
  rw [buildGroups_eq] at h
  obtain ⟨e, hrun, rfl⟩ := Option.map_eq_some_iff.mp h
  exact groups_balanced hts hrun (by simp [Building.start]) 0 (by simp [Building.start])

end Positions
end DearSql
