import DearSql.AnalyzerBounds
import DearSql.Columns
import DearSql.Nesting

/-! The WITH lists of a statement: which CTEs a WITH token lists, and which WITH the definition of
a name comes from. -/
namespace DearSql
open Lexing Loops

section Closings

/-- What `buildGroups` has written of the ends of groups before token `k`. -/
structure Closings (toks : List Sym) (k : ℤ) (groups : List Group) : Prop where
  paren : ∀ g x, at? groups g = some x →
    x.closeAt = toks.length ∨ (x.closeAt < k ∧ isPunct toks x.closeAt ')' = true)
  distinct : ∀ g g' x x', at? groups g = some x → at? groups g' = some x' →
    x.closeAt = x'.closeAt → x.closeAt < toks.length → g = g'

variable {toks : List Sym} {k : ℤ} {s s' : Building}

theorem Closings.mono (h : Closings toks k s.groups) : Closings toks (k + 1) s.groups :=
  { h with paren := fun g x hx => (h.paren g x hx).imp_right fun hp => ⟨by omega, hp.2⟩ }

theorem Closings.push (h : Closings toks k s.groups) (hs : s.push k toks.length = some s') :
    Closings toks (k + 1) s'.groups := by
  obtain ⟨top, l, o, -, -, -, rfl⟩ := push_eq_some hs
  have hread : ∀ g x, at? (s.groups ++ [(⟨top, k, toks.length⟩ : Group)]) g = some x →
      at? s.groups g = some x ∨ x.closeAt = toks.length := by
    intro g x hx
    rcases at?_snoc.mp hx with hx | ⟨-, rfl⟩
    · exact .inl hx
    · exact .inr rfl
  refine ⟨fun g x hx => ?_, fun g g' x x' hx hx' he hlt => ?_⟩
  · rcases hread g x hx with hx | hx
    · exact h.mono.paren g x hx
    · exact .inl hx
  · rcases hread g x hx with hx | hx
    · rcases hread g' x' hx' with hx' | hx'
      · exact h.distinct g g' x x' hx hx' he hlt
      · omega
    · omega

theorem Closings.pop (h : Closings toks k s.groups) (hk : k < toks.length)
    (hp : isPunct toks k ')' = true) (hs : s.pop k = some s') :
    Closings toks (k + 1) s'.groups := by
  by_cases hlen : 1 < s.stack.length
  · obtain ⟨top, y, l, -, hy, hl, rfl⟩ := pop_eq_some hs hlen
    have hread : ∀ g x, at? l g = some x →
        (g = top ∧ x.closeAt = k) ∨ (g ≠ top ∧ at? s.groups g = some x) := by
      intro g x hx
      rw [at?_put? hl] at hx
      split_ifs at hx with he
      · obtain rfl := Option.some_inj.mp hx
        exact .inl ⟨he, rfl⟩
      · exact .inr ⟨he, hx⟩
    have hold : ∀ g x, at? s.groups g = some x → x.closeAt ≠ k := by
      intro g x hx he
      rcases h.paren g x hx with hc | hc <;> omega
    refine ⟨fun g x hx => ?_, fun g g' x x' hx hx' he hlt => ?_⟩
    · rcases hread g x hx with ⟨-, hc⟩ | ⟨-, hx⟩
      · exact .inr ⟨by omega, hc ▸ hp⟩
      · exact h.mono.paren g x hx
    · rcases hread g x hx with ⟨rfl, hc⟩ | ⟨-, hx⟩
      · rcases hread g' x' hx' with ⟨rfl, -⟩ | ⟨-, hx'⟩
        · rfl
        · exact absurd (he ▸ hc) (hold g' x' hx')
      · rcases hread g' x' hx' with ⟨rfl, hc'⟩ | ⟨-, hx'⟩
        · exact absurd (he.trans hc') (hold g x hx)
        · exact h.distinct g g' x x' hx hx' he hlt
  · rw [pop_of_root hlen] at hs
    obtain rfl := Option.some_inj.mp hs
    exact h.mono

theorem Closings.mark {k' : ℤ} (h : Closings toks k' s.groups) (hs : s.mark k = some s') :
    Closings toks k' s'.groups := by
  obtain ⟨top, l, -, -, rfl⟩ := mark_eq_some hs
  exact h

theorem Closings.turn (h : Closings toks k s.groups) (hk : k < toks.length)
    (hs : groupTurn toks s k = some s') : Closings toks (k + 1) s'.groups := by
  unfold groupTurn at hs
  split_ifs at hs with hopen hclose
  · exact h.push hs
  · obtain ⟨s₁, hpop, hmark⟩ := Option.bind_eq_some_iff.mp hs
    exact (h.pop hk hclose hpop).mark hmark
  · exact h.mono.mark hs

theorem closings_start (toks : List Sym) : Closings toks 0 [⟨-1, -1, toks.length⟩] := by
  have hroot : ∀ g x, at? [(⟨-1, -1, toks.length⟩ : Group)] g = some x →
      x.closeAt = toks.length := by
    intro g x hx
    have hmem := (at?_bounds hx).2.2
    rw [List.mem_singleton] at hmem
    rw [hmem]
  refine ⟨fun g x hx => .inl (hroot g x hx), fun g g' x x' hx _ _ hlt => ?_⟩
  have := hroot g x hx
  omega

theorem closings_of_buildGroups {b : Brackets} (h : buildGroups toks = some b) :
    Closings toks toks.length b.groups := by
  obtain ⟨e, hrun, h⟩ := Option.bind_eq_some_iff.mp h
  obtain rfl := Option.some_inj.mp h
  exact foldlM_upTo_post (fun k s => Closings toks k s.groups) (by omega)
    (fun k s s' _ hk hs hturn => hs.turn hk hturn) (closings_start toks) hrun

end Closings

section Layout

variable {toks : List Sym} {b : Brackets} {i j k p p' q s s' : ℤ} {c c' : Cte}

theorem ieq_trans {x y z : Text} (h : ieq x y = true) (h' : ieq y z = true) : ieq x z = true := by
  simp only [ieq, decide_eq_true_eq] at h h' ⊢
  exact h.trans h'

theorem ieq_symm {x y : Text} (h : ieq x y = true) : ieq y x = true := by
  simp only [ieq, decide_eq_true_eq] at h ⊢
  exact h.symm

/-- A token is one keyword at most. -/
theorem isKw_unique {kw kw' : String} (h : isKw toks i kw = true) (h' : isKw toks i kw' = true) :
    ieq kw.toList kw'.toList = true := by
  unfold isKw at h h'
  split at h
  · rename_i t ht
    rw [ht] at h'
    exact ieq_trans (ieq_symm h) h'
  · cases h

theorem isKw_isPunct {kw : String} {ch : Char} (h : isKw toks i kw = true)
    (h' : isPunct toks i ch = true) : False := by
  rw [isPunct, decide_eq_true_eq] at h'
  simp [isKw, h'] at h

theorem isIdent_isPunct {ch : Char} (h : isIdent toks i = true) (h' : isPunct toks i ch = true) :
    False := by
  rw [isPunct, decide_eq_true_eq] at h'
  simp [isIdent, h'] at h

theorem skipKw_cases (toks : List Sym) (kw : String) (i : ℤ) :
    skipKw toks kw i = i ∨ (skipKw toks kw i = i + 1 ∧ isKw toks i kw = true) := by
  unfold skipKw
  split_ifs with hkw
  · exact .inr ⟨rfl, hkw⟩
  · exact .inl rfl

/-- What follows AS up to the body. -/
def bodyFrom (toks : List Sym) (s : ℤ) : ℤ :=
  skipKw toks "MATERIALIZED" (skipKw toks "NOT" (s + 1))

theorem lt_bodyFrom (toks : List Sym) (s : ℤ) : s < bodyFrom toks s := by
  have h1 := le_skipKw toks "NOT" (s + 1)
  have h2 := le_skipKw toks "MATERIALIZED" (skipKw toks "NOT" (s + 1))
  unfold bodyFrom
  omega

theorem between_bodyFrom (h1 : s < k) (h2 : k < bodyFrom toks s) :
    isKw toks k "NOT" = true ∨ isKw toks k "MATERIALIZED" = true := by
  unfold bodyFrom at h2
  rcases skipKw_cases toks "NOT" (s + 1) with hn | ⟨hn, hnot⟩ <;>
    rcases skipKw_cases toks "MATERIALIZED" (skipKw toks "NOT" (s + 1)) with hm | ⟨hm, hmat⟩
  · omega
  · obtain rfl : k = skipKw toks "NOT" (s + 1) := by omega
    exact .inr hmat
  · obtain rfl : k = s + 1 := by omega
    exact .inl hnot
  · rcases eq_or_ne k (s + 1) with rfl | hne
    · exact .inl hnot
    · obtain rfl : k = skipKw toks "NOT" (s + 1) := by omega
      exact .inr hmat

/-- The AS before a body is the last one. -/
theorem as_unique (h : isKw toks s "AS" = true) (h' : isKw toks s' "AS" = true)
    (he : bodyFrom toks s = bodyFrom toks s') : s = s' := by
  have hno : ∀ {s s' : ℤ}, isKw toks s' "AS" = true → bodyFrom toks s = bodyFrom toks s' →
      ¬s < s' := by
    intro s s' h' he hlt
    have hbody : s' < bodyFrom toks s := he ▸ lt_bodyFrom toks s'
    rcases between_bodyFrom hlt hbody with hk | hk
    · exact absurd (isKw_unique h' hk) (by decide)
    · exact absurd (isKw_unique h' hk) (by decide)
  have h1 := hno h' he
  have h2 := hno h he.symm
  omega

variable (hb : buildGroups toks = some b)
include hb

theorem closeOf_group (hp : isPunct toks k '(' = true) (hc : b.closeOf k = some q) :
    ∃ g x, at? b.opens_ k = some g ∧ at? b.groups g = some x ∧ x.openAt = k ∧ x.closeAt = q := by
  obtain ⟨b', hb', hwf, htoks⟩ := buildGroups_yields toks
  obtain rfl := Option.some_inj.mp (hb.symm.trans hb')
  obtain ⟨g, hg, hg0⟩ := hwf.opened k (htoks.symm ▸ hp)
  obtain ⟨-, -, hopen⟩ := hwf.opens_mem k g hg
  obtain ⟨x, hx, hxk⟩ := hopen hg0
  refine ⟨g, x, hg, hx, hxk, ?_⟩
  simpa [Brackets.closeOf, hg, not_lt.mpr hg0, hx] using hc

theorem paren_of_closeOf (hp : isPunct toks k '(' = true) (hc : b.closeOf k = some q)
    (hq : q < toks.length) : isPunct toks q ')' = true := by
  obtain ⟨g, x, -, hx, -, rfl⟩ := closeOf_group hb hp hc
  rcases (closings_of_buildGroups hb).paren g x hx with h | h
  · omega
  · exact h.2

theorem closeOf_inj {k' : ℤ} (hp : isPunct toks k '(' = true) (hp' : isPunct toks k' '(' = true)
    (hc : b.closeOf k = some q) (hc' : b.closeOf k' = some q) (hq : q < toks.length) : k = k' := by
  obtain ⟨g, x, -, hx, rfl, rfl⟩ := closeOf_group hb hp hc
  obtain ⟨g', x', -, hx', rfl, he⟩ := closeOf_group hb hp' hc'
  obtain rfl := (closings_of_buildGroups hb).distinct g g' x x' hx hx' he.symm hq
  rw [Option.some_inj.mp (hx.symm.trans hx')]

theorem opens_inj {k' g : ℤ} (hp : isPunct toks k '(' = true)
    (ho : at? b.opens_ k = some g) (ho' : at? b.opens_ k' = some g) : k = k' := by
  obtain ⟨b', hb', hwf, htoks⟩ := buildGroups_yields toks
  obtain rfl := Option.some_inj.mp (hb.symm.trans hb')
  obtain ⟨g₁, hg₁, hpos⟩ := hwf.opened k (htoks.symm ▸ hp)
  obtain rfl := Option.some_inj.mp (ho.symm.trans hg₁)
  obtain ⟨x, hx, hxk⟩ := (hwf.opens_mem k g ho).2.2 hpos
  obtain ⟨x', hx', hxk'⟩ := (hwf.opens_mem k' g ho').2.2 hpos
  obtain rfl := Option.some_inj.mp (hx.symm.trans hx')
  exact hxk.symm.trans hxk'

end Layout

section Lists

variable {toks : List Sym} {b : Brackets} {i i' j j' p p' : ℤ} {c c' : Cte}

/-- The item `c` of a WITH list is at `p`, and its body opens at `j`. -/
structure ItemAt (b : Brackets) (p : ℤ) (c : Cte) (j : ℤ) : Prop where
  ident : isIdent b.toks p = true
  columns : ∃ s, columnList b (p + 1) = some (c.columns, s) ∧ isKw b.toks s "AS" = true ∧
    bodyFrom b.toks s = j
  opens : isPunct b.toks j '(' = true
  body : at? b.opens_ j = some c.body

/-- Where the list of a WITH starts. -/
def listFrom (toks : List Sym) (i : ℤ) : ℤ := skipKw toks "RECURSIVE" (i + 1)

/-- The items that the list of the WITH at `i` reaches. -/
inductive Listed (b : Brackets) (i : ℤ) : ℤ → Cte → ℤ → Prop
  | first {c : Cte} {j : ℤ} (item : ItemAt b (listFrom b.toks i) c j) :
    Listed b i (listFrom b.toks i) c j
  | next {p : ℤ} {c : Cte} {j close : ℤ} {c' : Cte} {j' : ℤ} (before : Listed b i p c j)
    (closed : b.closeOf j = some close) (comma : isPunct b.toks (close + 1) ',' = true)
    (item : ItemAt b (close + 2) c' j') : Listed b i (close + 2) c' j'

theorem Listed.item (h : Listed b i p c j) : ItemAt b p c j := by
  cases h with
  | first item => exact item
  | next _ _ _ item => exact item

/-- One turn of the list. -/
theorem cteTurn_eq_some {p : ℤ} {ctes : List Cte} {turn : Turn (ℤ × List Cte) (List Cte)}
    (h : cteTurn b (p, ctes) = some turn) : turn = .done ctes ∨
      ∃ c j close, ItemAt b p c j ∧ textAt b.toks p = some c.name ∧ b.closeOf j = some close ∧
        turn = if isPunct b.toks (close + 1) ',' then .next (close + 2, ctes ++ [c])
          else .done (ctes ++ [c]) := by
  unfold cteTurn at h
  split_ifs at h with hid
  · obtain ⟨name, hname, h⟩ := Option.bind_eq_some_iff.mp h
    obtain ⟨⟨columns, s⟩, hcols, h⟩ := Option.bind_eq_some_iff.mp h
    dsimp only at h
    split_ifs at h with has hopen
    · exact .inl (Option.some_inj.mp h).symm
    · exact .inl (Option.some_inj.mp h).symm
    · obtain ⟨body, hbody, h⟩ := Option.bind_eq_some_iff.mp h
      obtain ⟨close, hclose, h⟩ := Option.bind_eq_some_iff.mp h
      have hparen : isPunct b.toks (bodyFrom b.toks s) '(' = true := by
        rw [bodyFrom]
        simpa using hopen
      refine .inr ⟨{ name := name, columns := columns, body := body }, _, close,
        ⟨hid, ⟨s, hcols, by simpa using has, rfl⟩, hparen, hbody⟩, hname, hclose, ?_⟩
      split_ifs at h ⊢
      · exact (Option.some_inj.mp h).symm
      · exact (Option.some_inj.mp h).symm
  · exact .inl (Option.some_inj.mp h).symm

/-- The CTEs that the WITH at `i` lists. -/
def withCtes (b : Brackets) (i : ℤ) : Option (List Cte) :=
  loop (cteTurn b) (b.toks.length + 1) (listFrom b.toks i, [])

/-- The list is read from an item on that it reaches. -/
def Reaches (b : Brackets) (i p : ℤ) : Prop :=
  p = listFrom b.toks i ∨ ∃ p' c j close, Listed b i p' c j ∧ b.closeOf j = some close ∧
    isPunct b.toks (close + 1) ',' = true ∧ p = close + 2

theorem Reaches.listed (h : Reaches b i p) (hitem : ItemAt b p c j) : Listed b i p c j := by
  rcases h with rfl | ⟨p', c', j', close, hbefore, hclose, hcomma, rfl⟩
  · exact .first hitem
  · exact .next hbefore hclose hcomma hitem

theorem listed_of_mem {ctes : List Cte} (h : withCtes b i = some ctes) (hc : c ∈ ctes) :
    ∃ p j, Listed b i p c j := by
  have hadd : ∀ {p j : ℤ} {c : Cte} {ctes : List Cte}, Reaches b i p → ItemAt b p c j →
      (∀ c ∈ ctes, ∃ p j, Listed b i p c j) → ∀ c' ∈ ctes ++ [c], ∃ p j, Listed b i p c' j := by
    intro p j c ctes hp hitem hctes c' hc'
    rcases List.mem_append.mp hc' with hc' | hc'
    · exact hctes c' hc'
    · rw [List.mem_singleton.mp hc']
      exact ⟨p, j, hp.listed hitem⟩
  refine loop_post (fun s : ℤ × List Cte => Reaches b i s.1 ∧ ∀ c ∈ s.2, ∃ p j, Listed b i p c j)
    (fun ctes => ∀ c ∈ ctes, ∃ p j, Listed b i p c j) ?_ ?_ ⟨.inl rfl, by simp⟩ h c hc
  · rintro ⟨p, ctes⟩ s' ⟨hp, hctes⟩ hturn
    rcases cteTurn_eq_some hturn with hdone | ⟨c, j, close, hitem, -, hclose, hnext⟩
    · cases hdone
    · split_ifs at hnext with hcomma
      obtain rfl := Turn.next.inj hnext
      exact ⟨.inr ⟨p, c, j, close, hp.listed hitem, hclose, hcomma, rfl⟩, hadd hp hitem hctes⟩
  · rintro ⟨p, ctes⟩ ctes' ⟨hp, hctes⟩ hturn
    rcases cteTurn_eq_some hturn with hdone | ⟨c, j, close, hitem, -, hclose, hnext⟩
    · obtain rfl := Turn.done.inj hdone
      exact hctes
    · split_ifs at hnext with hcomma
      obtain rfl := Turn.done.inj hnext
      exact hadd hp hitem hctes

theorem Listed.reaches (h : Listed b i p c j) : Reaches b i p := by
  cases h with
  | first item => exact .inl rfl
  | next before closed comma item => exact .inr ⟨_, _, _, _, before, closed, comma, rfl⟩

theorem listFrom_unique (h : isKw toks i "WITH" = true) (h' : isKw toks i' "WITH" = true)
    (he : listFrom toks i = listFrom toks i') : i = i' := by
  have hno : ∀ {k k' : ℤ}, isKw toks k "WITH" = true → isKw toks (k' + 1) "RECURSIVE" = true →
      k ≠ k' + 1 := by
    rintro k k' hw hr rfl
    exact absurd (isKw_unique hw hr) (by decide)
  rcases skipKw_cases toks "RECURSIVE" (i + 1) with h1 | ⟨h1, hr⟩ <;>
    rcases skipKw_cases toks "RECURSIVE" (i' + 1) with h2 | ⟨h2, hr'⟩ <;>
    unfold listFrom at he
  · omega
  · have := hno h hr'
    omega
  · have := hno h' hr
    omega
  · omega

/-- No comma stands right before a list. -/
theorem before_listFrom (h : isKw toks i "WITH" = true)
    (hcomma : isPunct toks (listFrom toks i - 1) ',' = true) : False := by
  rcases skipKw_cases toks "RECURSIVE" (i + 1) with h1 | ⟨h1, hr⟩ <;>
    rw [listFrom, h1] at hcomma
  · exact isKw_isPunct h (by simpa using hcomma)
  · exact isKw_isPunct hr (by simpa using hcomma)

variable (hb : buildGroups toks = some b)
include hb

/-- An item is known by where its body opens. -/
theorem ItemAt.unique (h : ItemAt b p c j) (h' : ItemAt b p' c' j) : p = p' := by
  obtain rfl := toks_of_buildGroups hb
  obtain ⟨s, hcols, has, hj⟩ := h.columns
  obtain ⟨s', hcols', has', hj'⟩ := h'.columns
  obtain rfl := as_unique has has' (hj.trans hj'.symm)
  have hs := bounds_of_isKw has
  -- either a column list ends right before AS, or the name is right before it
  have hread : ∀ {p : ℤ} {cols : List Text}, columnList b (p + 1) = some (cols, s) →
      (isPunct b.toks (p + 1) '(' = true ∧ b.closeOf (p + 1) = some (s - 1)) ∨ p = s - 1 := by
    intro p cols h
    unfold columnList at h
    split_ifs at h with hp
    · obtain ⟨columns, -, h⟩ := Option.bind_eq_some_iff.mp h
      obtain ⟨close, hclose, h⟩ := Option.bind_eq_some_iff.mp h
      have he := (Prod.mk.inj (Option.some_inj.mp h)).2
      exact .inl ⟨hp, by rw [hclose]; congr 1; omega⟩
    · have he := (Prod.mk.inj (Option.some_inj.mp h)).2
      exact .inr (by omega)
  rcases hread hcols with ⟨hp, hclose⟩ | hp
  · rcases hread hcols' with ⟨hp', hclose'⟩ | hp'
    · have := closeOf_inj hb hp hp' hclose hclose' (by omega)
      omega
    · have hparen := paren_of_closeOf hb hp hclose (by omega)
      exact (isIdent_isPunct (hp' ▸ h'.ident) hparen).elim
  · rcases hread hcols' with ⟨hp', hclose'⟩ | hp'
    · have hparen := paren_of_closeOf hb hp' hclose' (by omega)
      exact (isIdent_isPunct (hp ▸ h.ident) hparen).elim
    · omega

/-- An item is in the list of one WITH only. -/
theorem Listed.unique (hi : isKw toks i "WITH" = true) (hi' : isKw toks i' "WITH" = true)
    (h : Listed b i p c j) (h' : Listed b i' p c' j') : i = i' := by
  obtain rfl := toks_of_buildGroups hb
  induction h generalizing c' j' with
  | first item =>
    rcases h'.reaches with he | ⟨p', d, k, close, -, -, hcomma, he⟩
    · exact listFrom_unique hi hi' he
    · refine (before_listFrom hi ?_).elim
      rw [he, show close + 2 - 1 = close + 1 by ring]
      exact hcomma
  | @next p c j close c₁ j₁ before closed comma item ih =>
    rcases h'.reaches with he | ⟨p', d, k, close', hbefore, hclose, hcomma, he⟩
    · refine (before_listFrom hi' ?_).elim
      rw [← he, show close + 2 - 1 = close + 1 by ring]
      exact comma
    · have hlt := bounds_of_isPunct comma
      obtain rfl : close = close' := by omega
      obtain rfl := closeOf_inj hb before.item.opens hbefore.item.opens closed hclose (by omega)
      obtain rfl := before.item.unique hb hbefore.item
      exact ih hbefore

end Lists

section Definitions

variable {toks : List Sym} {b : Brackets} {i i' j p : ℤ} {n n' : Text} {c c' : Cte}

/-- The WITH at `i` defines the name `n`, as `c`. -/
def Defines (b : Brackets) (i : ℤ) (n : Text) (c : Cte) : Prop :=
  isKw b.toks i "WITH" = true ∧
    ∃ cs, withCtes b i = some cs ∧ cs.find? (fun c => ieq c.name n) = some c

/-- A CTE tells which WITH it comes from. -/
theorem Defines.unique (hb : buildGroups toks = some b) (h : Defines b i n c)
    (h' : Defines b i' n' c) : i = i' := by
  obtain rfl := toks_of_buildGroups hb
  obtain ⟨hi, cs, hcs, hc⟩ := h
  obtain ⟨hi', cs', hcs', hc'⟩ := h'
  obtain ⟨p, j, hlist⟩ := listed_of_mem hcs (List.mem_of_find?_eq_some hc)
  obtain ⟨p', j', hlist'⟩ := listed_of_mem hcs' (List.mem_of_find?_eq_some hc')
  obtain rfl := opens_inj hb hlist.item.opens hlist.item.body hlist'.item.body
  obtain rfl := hlist.item.unique hb hlist'.item
  exact hlist.unique hb hi hi' hlist'

/-- A turn of a WITH list keeps the CTEs that came before the list. -/
theorem cteTurn_append (ctes cs : List Cte) (p : ℤ) : cteTurn b (p, ctes ++ cs) =
    (cteTurn b (p, cs)).map fun turn =>
      match turn with
      | .next s => .next (s.1, ctes ++ s.2)
      | .done cs => .done (ctes ++ cs) := by
  unfold cteTurn
  split_ifs
  · cases textAt b.toks p with
    | none => rfl
    | some name =>
      cases columnList b (p + 1) with
      | none => rfl
      | some r =>
        obtain ⟨columns, s⟩ := r
        simp only [Option.bind_eq_bind, Option.bind_some]
        split_ifs
        · rfl
        · rfl
        · generalize skipKw b.toks "MATERIALIZED" (skipKw b.toks "NOT" (s + 1)) = j
          cases at? b.opens_ j with
          | none => rfl
          | some body =>
            cases b.closeOf j with
            | none => rfl
            | some close =>
              simp only [Option.bind_some, List.append_assoc]
              split_ifs <;> rfl
  · rfl

theorem loop_append (ctes cs : List Cte) (p : ℤ) (m : ℕ) : loop (cteTurn b) m (p, ctes ++ cs) =
    (loop (cteTurn b) m (p, cs)).map (ctes ++ ·) := by
  induction m generalizing p cs with
  | zero => rfl
  | succ m ih =>
    have hturn := cteTurn_append (b := b) ctes cs p
    cases h : cteTurn b (p, cs) with
    | none =>
      rw [h] at hturn
      simp [loop, h, hturn]
    | some turn =>
      rw [h] at hturn
      cases turn with
      | next s => rw [loop_next hturn, loop_next h, ih]
      | done cs' =>
        rw [loop_done hturn, loop_done h]
        rfl

/-- One token of `collectCtes`. -/
def withTurn (b : Brackets) (ctes : List Cte) (i : ℤ) : Option (List Cte) :=
  if isKw b.toks i "WITH" then
    loop (cteTurn b) (b.toks.length + 1) (skipKw b.toks "RECURSIVE" (i + 1), ctes)
  else some ctes

theorem withTurn_eq_some {ctes ctes' : List Cte} (h : withTurn b ctes i = some ctes') :
    (isKw b.toks i "WITH" = false ∧ ctes' = ctes) ∨
      (isKw b.toks i "WITH" = true ∧ ∃ cs, withCtes b i = some cs ∧ ctes' = ctes ++ cs) := by
  unfold withTurn at h
  split_ifs at h with hw
  · have happ := loop_append (b := b) ctes [] (listFrom b.toks i) (b.toks.length + 1)
    rw [List.append_nil] at happ
    rw [show skipKw b.toks "RECURSIVE" (i + 1) = listFrom b.toks i from rfl, happ] at h
    obtain ⟨cs, hcs, rfl⟩ := Option.map_eq_some_iff.mp h
    exact .inr ⟨hw, cs, hcs, rfl⟩
  · exact .inl ⟨by simpa using hw, (Option.some_inj.mp h).symm⟩

/-- What the tokens before `k` say of a name. -/
def FoundBefore (b : Brackets) (n : Text) (k : ℤ) (ctes : List Cte) : Prop :=
  (ctes.find? (fun c => ieq c.name n) = none ∧ ∀ i < k, ∀ c, ¬Defines b i n c) ∨
    ∃ i < k, ∃ c, ctes.find? (fun c => ieq c.name n) = some c ∧ Defines b i n c ∧
      ∀ i' < i, ∀ c', ¬Defines b i' n c'

theorem FoundBefore.turn {k : ℤ} {ctes ctes' : List Cte} (h : FoundBefore b n k ctes)
    (hturn : withTurn b ctes k = some ctes') : FoundBefore b n (k + 1) ctes' := by
  rcases h with ⟨hnone, hno⟩ | ⟨i, hi, c, hfind, hdef, hfirst⟩
  · rcases withTurn_eq_some hturn with ⟨hw, rfl⟩ | ⟨hw, cs, hcs, rfl⟩
    · refine .inl ⟨hnone, fun i hi c hdef => ?_⟩
      rcases eq_or_ne i k with rfl | hne
      · rw [hdef.1] at hw
        cases hw
      · exact hno i (by omega) c hdef
    · cases hfind : cs.find? fun c => ieq c.name n with
      | none =>
        refine .inl ⟨by rw [List.find?_append, hnone, hfind]; rfl, fun i hi c hdef => ?_⟩
        rcases eq_or_ne i k with rfl | hne
        · obtain ⟨-, cs', hcs', hc⟩ := hdef
          obtain rfl := Option.some_inj.mp (hcs.symm.trans hcs')
          rw [hfind] at hc
          cases hc
        · exact hno i (by omega) c hdef
      | some c =>
        exact .inr ⟨k, by omega, c, by rw [List.find?_append, hnone, hfind]; rfl,
          ⟨hw, cs, hcs, hfind⟩, hno⟩
  · refine .inr ⟨i, by omega, c, ?_, hdef, hfirst⟩
    rcases withTurn_eq_some hturn with ⟨-, rfl⟩ | ⟨-, cs, -, rfl⟩
    · exact hfind
    · rw [List.find?_append, hfind]
      rfl

/-- The CTE that is found for a name comes from the first WITH that defines it. -/
theorem find_first {ctes : List Cte} (h : collectCtes b = some ctes) (n : Text) :
    (ctes.find? (fun c => ieq c.name n) = none ∧ ∀ i c, ¬Defines b i n c) ∨
      ∃ i c, ctes.find? (fun c => ieq c.name n) = some c ∧ Defines b i n c ∧
        ∀ i' < i, ∀ c', ¬Defines b i' n c' := by
  have hstart : FoundBefore b n 0 [] := .inl ⟨rfl, fun i hi c hdef => by
    have := bounds_of_isKw hdef.1
    omega⟩
  have hrun : (upTo 0 b.size).foldlM (withTurn b) [] = some ctes := h
  rcases foldlM_upTo_post (FoundBefore b n) (Int.natCast_nonneg _)
    (fun k s s' _ _ hs hturn => hs.turn hturn) hstart hrun with ⟨hnone, hno⟩ | ⟨i, -, c, hrest⟩
  · refine .inl ⟨hnone, fun i c hdef => hno i ?_ c hdef⟩
    have := bounds_of_isKw hdef.1
    exact this.2
  · exact .inr ⟨i, c, hrest⟩

end Definitions

section Scopes

/-- The group of the token at `i` is the group `g`, or one around it. -/
def Encloses (b : Brackets) (i g : ℤ) : Prop :=
  ∃ outer, b.groupOf i = some outer ∧ b.isAncestorOrSelf outer g = some true

/-- Of the WITHs around the group `g` that define the name, the one at `i` lies deepest. -/
def Innermost (b : Brackets) (n : Text) (g i : ℤ) : Prop :=
  Encloses b i g ∧ ∀ i' c', Defines b i' n c' → Encloses b i' g →
    ∀ outer outer' d d', b.groupOf i = some outer → b.groupOf i' = some outer' →
      b.depthOf outer = some d → b.depthOf outer' = some d' → d' ≤ d

end Scopes
end DearSql
