import DearSql.Fillings

/-! The walks that find the context of a position, over a statement and over the one whose closed
group is filled: no peek at a token goes past a parenthesis of the group. -/
namespace DearSql
open Lexing Loops

section Tokens

variable {toks : List Sym} {i : ℤ} {c d : Char} {kw : String} {kws : List String}

theorem isPunct_of_isPunct (h : isPunct toks i c = true) (hne : c ≠ d) :
    isPunct toks i d = false := by
  rw [isPunct, decide_eq_true_eq] at h
  simp [isPunct, h, hne]

theorem isPunct_of_isIdent (h : isIdent toks i = true) : isPunct toks i c = false :=
  Bool.eq_false_iff.mpr fun hp => isIdent_isPunct h hp

theorem isPunct_of_isKw (h : isKw toks i kw = true) : isPunct toks i c = false :=
  Bool.eq_false_iff.mpr fun hp => isKw_isPunct h hp

theorem isPunct_of_isKwIn (h : isKwIn toks i kws = true) : isPunct toks i c = false := by
  obtain ⟨kw, -, hkw⟩ := List.any_eq_true.mp h
  exact isPunct_of_isKw hkw

theorem isPunct_of_isWord {tok : Sym} (h : at? toks i = some tok) (hword : tok.isWord = true) :
    isPunct toks i c = false := by
  refine Bool.eq_false_iff.mpr fun hp => ?_
  rw [isPunct, decide_eq_true_eq, h, Option.some_inj] at hp
  simp [hp, Sym.isWord] at hword

end Tokens

namespace Filled

variable {p g : ℤ} {n m : ℕ} {b b' : Brackets} {i : ℤ} {kw : String} {c : Char}

section Reads

variable (F : Filled p n g m b b')
include F

protected theorem isPunct : isPunct b'.toks (widen p n i) c = isPunct b.toks i c := by
  rw [isPunct, isPunct, F.toks]

protected theorem isKw : isKw b'.toks (widen p n i) kw = isKw b.toks i kw := by
  rw [isKw, isKw, F.toks]

protected theorem isKwIn {kws : List String} :
    isKwIn b'.toks (widen p n i) kws = isKwIn b.toks i kws := by
  simp only [isKwIn, F.isKw]

protected theorem isIdent : isIdent b'.toks (widen p n i) = isIdent b.toks i := by
  rw [isIdent, isIdent, F.toks]

protected theorem isNameIdent : isNameIdent b'.toks (widen p n i) = isNameIdent b.toks i := by
  rw [isNameIdent, isNameIdent, F.toks]

protected theorem textAt : textAt b'.toks (widen p n i) = textAt b.toks i := by
  rw [textAt, textAt, F.toks]

theorem p_nonneg : 0 ≤ p := (bounds_of_isPunct F.paren).1

protected theorem widen_nonneg : 0 ≤ widen p n i ↔ 0 ≤ i :=
  widen_nonneg (by have := F.p_nonneg; omega)

theorem startsWith : statementStartsWith b'.toks kw = statementStartsWith b.toks kw := by
  have h0 : widen p n 0 = 0 := widen_of_le F.p_nonneg
  rw [statementStartsWith, statementStartsWith, ← F.isKw (i := 0), h0]

theorem length_le : b.toks.length ≤ b'.toks.length := by
  have h := F.size
  have hle := le_widen (k := p) (n := n) (i := b.size)
  rw [← h] at hle
  exact Int.ofNat_le.mp hle

/-- No group closes at `p`, so behind its parenthesis the same tokens follow. -/
theorem closeOf_next {close : ℤ} (hp : isPunct b.toks i '(' = true)
    (h : b.closeOf i = some close) :
    b'.closeOf (widen p n i) = some (widen p n close) ∧
      widen p n (close + 1) = widen p n close + 1 := by
  obtain ⟨k, hk, h⟩ := Option.bind_eq_some_iff.mp h
  obtain ⟨k', hk', hk0⟩ := F.wf.opened i hp
  obtain rfl := Option.some_inj.mp (hk.symm.trans hk')
  rw [if_neg (not_lt.mpr hk0)] at h
  obtain ⟨x, hx, h⟩ := Option.bind_eq_some_iff.mp h
  have hwide : 0 ≤ widen g m k := (widen_nonneg (by have := F.pos; omega)).mpr hk0
  rw [← Option.some_inj.mp h]
  refine ⟨?_, widen_succ (F.closeAt_ne k x hx)⟩
  rw [Brackets.closeOf, F.openings i k hk, Option.bind_eq_bind, Option.bind_some,
    if_neg (not_lt.mpr hwide), F.groups k x hx]
  rfl

/-- Behind another token than an opening parenthesis. -/
theorem next (h : isPunct b.toks i '(' = false) : widen p n (i + 1) = widen p n i + 1 := by
  refine widen_succ ?_
  rintro rfl
  rw [F.paren] at h
  cases h

theorem ne_close (h : isPunct b.toks i ')' = false) : i ≠ p + 1 := by
  rintro rfl
  rw [F.partner] at h
  cases h

/-- Before another token than a closing parenthesis. -/
theorem prev (h : isPunct b.toks i ')' = false) : widen p n (i - 1) = widen p n i - 1 :=
  widen_pred (F.ne_close h)

end Reads

section Words

variable (F : Filled p n g m b b')
include F

protected theorem isCreateTable {created : Bool} (hi : widen p n (i - 1) = widen p n i - 1)
    (h : isCreateTable b.toks i = some created) :
    isCreateTable b'.toks (widen p n i) = some created := by
  have hle := le_widen (k := p) (n := n) (i := i)
  rw [isCreateTable, ← hi]
  refine loop_map (f := widen p n) (g := id) (fun j t ht => ?_)
    (Nat.succ_le_succ (Int.toNat_le_toNat hle)) h
  rw [createTurn] at ht ⊢
  rw [F.isKwIn, F.isKw]
  split_ifs at ht ⊢ with hword
  · rw [← Option.some_inj.mp ht, Turn.map, F.prev (isPunct_of_isKwIn hword)]
  · rw [← Option.some_inj.mp ht]
    rfl

theorem groupOpen {k : ℤ} {x : Group} (h : at? b.groups k = some x) :
    at? b'.groups (widen g m k) = some (x.widen p n g m) ∧
      widen p n (x.openAt - 1) = widen p n x.openAt - 1 :=
  ⟨F.groups k x h, widen_pred (F.openAt_ne k x h)⟩

protected theorem isTableFrom {found : Bool} (hi : widen p n (i - 1) = widen p n i - 1)
    (h : isTableFrom b i = some found) : isTableFrom b' (widen p n i) = some found := by
  rw [isTableFrom] at h ⊢
  rw [← hi, F.isKw]
  split_ifs at h ⊢
  · exact h
  · obtain ⟨k, hk, h⟩ := Option.bind_eq_some_iff.mp h
    rw [F.marks i k hk, Option.bind_eq_bind, Option.bind_some]
    have hpos : 0 < widen g m k ↔ 0 < k := widen_pos F.pos.le
    split_ifs at h with hk0
    · obtain ⟨x, hx, h⟩ := Option.bind_eq_some_iff.mp h
      obtain ⟨hx', hopen⟩ := F.groupOpen hx
      rw [if_pos (hpos.mpr hk0), hx', Option.bind_eq_bind, Option.bind_some, Group.widen, ← hopen,
        F.isKwIn]
      exact h
    · rw [if_neg (mt hpos.mp hk0)]
      exact h

protected theorem isRelationKeyword {found : Bool} (h : isRelationKeyword b i = some found) :
    isRelationKeyword b' (widen p n i) = some found := by
  rw [isRelationKeyword] at h ⊢
  rw [F.isKw, F.isKw, F.isKwIn]
  split_ifs at h ⊢ with hfrom husing
  · exact F.isTableFrom (F.prev (isPunct_of_isKw hfrom)) h
  · rw [← F.next (isPunct_of_isKw husing), F.isPunct]
    exact h
  · exact h

protected theorem isCast {k : ℤ} {cast : Bool} (h : isCast b k = some cast) :
    isCast b' (widen g m k) = some cast := by
  rw [isCast] at h ⊢
  have hpos : 0 < widen g m k ↔ 0 < k := widen_pos F.pos.le
  split_ifs at h with hk0
  · obtain ⟨x, hx, h⟩ := Option.bind_eq_some_iff.mp h
    obtain ⟨hx', hopen⟩ := F.groupOpen hx
    rw [if_pos (hpos.mpr hk0), hx', Option.bind_eq_bind, Option.bind_some, Group.widen, ← hopen,
      F.isKwIn]
    exact h
  · rw [if_neg (mt hpos.mp hk0)]
    exact h

protected theorem relationSlotEmpty {kw start : ℤ} {slot : Bool}
    (hkw : widen p n (kw + 1) = widen p n kw + 1)
    (h : relationSlotEmpty b kw start = some slot) :
    relationSlotEmpty b' (widen p n kw) (widen p n start) = some slot := by
  rw [relationSlotEmpty, F.isKwIn, ← hkw]
  refine loop_map (f := fun s => (widen p n s.1, s.2)) (g := id) (fun s t ht => ?_)
    (Nat.succ_le_succ F.length_le) h
  rw [slotTurn] at ht ⊢
  simp only [F.isPunct, F.isKwIn, widen_lt]
  split_ifs at ht ⊢ with hlt hparen hcomma hword
  · obtain ⟨close, hclose, rfl⟩ := Option.map_eq_some_iff.mp ht
    obtain ⟨hclose', hnext⟩ := F.closeOf_next hparen hclose
    rw [hclose', Option.map_some, Turn.map, hnext]
  · have hother := isPunct_of_isPunct (d := '(') ((Bool.and_eq_true _ _).mp hcomma).2 (by decide)
    rw [← Option.some_inj.mp ht, Turn.map, F.next hother]
  · rw [← Option.some_inj.mp ht, Turn.map, F.next (isPunct_of_isKwIn hword)]
  · rw [← Option.some_inj.mp ht, Turn.map, F.next (Bool.eq_false_iff.mpr hparen)]
  · rw [← Option.some_inj.mp ht]
    rfl

protected theorem wordContext {start k : ℤ} {crossed : Bool} {found : Option Context}
    (hnext : widen p n (k + 1) = widen p n k + 1) (hprev : widen p n (k - 1) = widen p n k - 1)
    (h : wordContext b start k crossed = some found) :
    wordContext b' (widen p n start) (widen p n k) crossed = some found := by
  rw [wordContext] at h ⊢
  obtain ⟨relation, hrelation, h⟩ := Option.bind_eq_some_iff.mp h
  rw [F.isRelationKeyword hrelation, Option.bind_eq_bind, Option.bind_some]
  simp only [F.isKw, F.isKwIn]
  cases relation with
  | false => exact h
  | true =>
    obtain ⟨create, hcreate, h⟩ := Option.bind_eq_some_iff.mp h
    simp only [F.isCreateTable hprev hcreate, Option.bind_some, if_true]
    split_ifs at h ⊢
    · exact h
    · exact h
    · obtain ⟨slot, hslot, h⟩ := Option.bind_eq_some_iff.mp h
      rw [F.relationSlotEmpty hnext hslot, Option.bind_some]
      exact h

end Words

section Paths

variable (F : Filled p n g m b b')
include F

protected theorem qualifierBefore {path : List Text} {first : ℤ} (hi : i ≠ p + 1)
    (h : qualifierBefore b.toks i = some (path, first)) :
    qualifierBefore b'.toks (widen p n i) = some (path, widen p n first) ∧ first ≠ p + 1 := by
  have hle := le_widen (k := p) (n := n) (i := i)
  refine ⟨?_, ?_⟩
  · rw [qualifierBefore, ← widen_pred hi]
    refine loop_map (f := fun s => (widen p n s.1, s.2.1, widen p n s.2.2))
      (g := fun r => (r.1, widen p n r.2)) (fun s t ht => ?_)
      (Nat.succ_le_succ (Int.toNat_le_toNat hle)) h
    rw [qualifierTurn] at ht ⊢
    simp only [F.isPunct]
    by_cases hdot : isPunct b.toks s.1 '.' = true
    · have hprev := F.prev (isPunct_of_isPunct (d := ')') hdot (by decide))
      simp only [hdot, true_and, ← hprev, F.isIdent, F.textAt] at ht ⊢
      split_ifs at ht ⊢ with hident
      · obtain ⟨t, htext, rfl⟩ := Option.map_eq_some_iff.mp ht
        have hprev' := F.prev (isPunct_of_isIdent hident)
        rw [htext, Option.map_some, Turn.map, show s.1 - 2 = s.1 - 1 - 1 by ring, hprev', hprev]
        congr 3
        ring
      · rw [← Option.some_inj.mp ht]
        rfl
    · rw [if_neg fun hd => hdot hd.1] at ht ⊢
      rw [← Option.some_inj.mp ht]
      rfl
  · refine loop_post (fun s : ℤ × List Text × ℤ => s.2.2 ≠ p + 1) (fun r => r.2 ≠ p + 1)
      (fun s s' hs hnext => ?_) (fun s r hs hdone => ?_) hi h
    · rw [qualifierTurn] at hnext
      split_ifs at hnext with hd
      · obtain ⟨t, -, hturn⟩ := Option.map_eq_some_iff.mp hnext
        obtain rfl := Turn.next.inj hturn
        exact F.ne_close (isPunct_of_isIdent hd.2)
      · cases hnext
    · rw [qualifierTurn] at hdone
      split_ifs at hdone with hd
      · obtain ⟨t, -, hturn⟩ := Option.map_eq_some_iff.mp hdone
        cases hturn
      · obtain rfl := Turn.done.inj (Option.some_inj.mp hdone)
        exact hs

protected theorem pathBefore {path : List Text} {first : ℤ} (hi : isPunct b.toks i '(' = true)
    (h : pathBefore b.toks i = some (path, first)) :
    pathBefore b'.toks (widen p n i) = some (path, widen p n first) ∧ first ≠ p + 1 := by
  have hother := isPunct_of_isPunct (d := ')') hi (by decide)
  rw [pathBefore] at h ⊢
  rw [← F.prev hother, F.isIdent]
  split_ifs at h ⊢ with hident
  · have hident' := F.ne_close (isPunct_of_isIdent hident)
    obtain ⟨⟨parts, start⟩, hparts, h⟩ := Option.bind_eq_some_iff.mp h
    obtain ⟨name, hname, h⟩ := Option.bind_eq_some_iff.mp h
    obtain ⟨rfl, rfl⟩ := Prod.mk.inj (Option.some_inj.mp h)
    obtain ⟨hparts', hstart⟩ := F.qualifierBefore hident' hparts
    simp only [hparts', F.textAt, hname, Option.bind_eq_bind, Option.bind_some, widen_inj]
    split_ifs
    · exact ⟨rfl, hident'⟩
    · exact ⟨rfl, hstart⟩
  · obtain ⟨rfl, rfl⟩ := Prod.mk.inj (Option.some_inj.mp h)
    exact ⟨rfl, F.ne_close hother⟩

protected theorem openContext {found : Option Context} (hi : isPunct b.toks i '(' = true)
    (h : openContext b i = some found) : openContext b' (widen p n i) = some found := by
  have hprev := F.prev (isPunct_of_isPunct (d := ')') hi (by decide))
  rw [openContext] at h ⊢
  obtain ⟨⟨path, first⟩, hpath, h⟩ := Option.bind_eq_some_iff.mp h
  obtain ⟨hpath', hfirst⟩ := F.pathBefore hi hpath
  rw [hpath', Option.bind_eq_bind, Option.bind_some]
  simp only [← widen_pred hfirst, ← hprev, F.isKw, F.startsWith]
  exact h

end Paths

section Back

/-- The walk back from behind a closed group to before it. -/
theorem contextBack_closed {start : ℤ} {crossed : Bool} {j k d : ℕ}
    (hopen : isPunct b.toks j '(' = true) (hclose : isPunct b.toks k ')' = true)
    (hinner : contextBack b start k (d + 1) crossed = contextBack b start (j + 1) (d + 1) crossed) :
    contextBack b start (k + 1) d crossed = contextBack b start j d crossed := by
  have hother := isPunct_of_isPunct (d := ')') hopen (by decide)
  rw [contextBack, if_pos hclose, hinner, contextBack, if_neg (by simp [hother]), if_pos hopen,
    if_pos (Nat.succ_pos d)]
  rfl

/-- The walk back over the tokens of a group around which the position is not. -/
theorem contextBack_balanced {xs inner ys : List Sym} {start : ℤ} {crossed : Bool}
    (hin : Balanced inner) (hb : b.toks = xs ++ inner ++ ys) (d : ℕ) :
    contextBack b start (xs.length + inner.length) (d + 1) crossed =
      contextBack b start xs.length (d + 1) crossed := by
  induction hin generalizing xs ys d with
  | nil => rfl
  | @token t ts hopen hclose _ ih =>
    have hat : at? b.toks (xs.length : ℤ) = some t := by simp [hb]
    have hrest := @ih (xs ++ [t]) ys (by simp [hb]) d
    rw [List.length_append, List.length_singleton] at hrest
    rw [List.length_cons, show xs.length + (ts.length + 1) = xs.length + 1 + ts.length by omega,
      hrest, contextBack, if_neg (by simp [isPunct, hat, hclose]),
      if_neg (by simp [isPunct, hat, hopen]), if_pos (Nat.succ_pos d)]
  | @group zs us _ _ ihz ihu =>
    have hopen : isPunct b.toks (xs.length : ℤ) '(' = true := by simp [isPunct, hb]
    have hclose : isPunct b.toks ((xs.length + 1 + zs.length : ℕ) : ℤ) ')' = true := by
      rw [isPunct, hb, at?_ofNat]
      simp [List.getElem?_append, show ¬xs.length + 1 + zs.length < xs.length by omega,
        show xs.length + 1 + zs.length - xs.length = zs.length + 1 by omega]
    have hrest := @ihu (xs ++ .punct '(' :: zs ++ [.punct ')']) ys (by simp [hb]) d
    have hinner := @ihz (xs ++ [.punct '(']) (.punct ')' :: us ++ ys) (by simp [hb]) (d + 1)
    simp only [List.length_append, List.length_cons, List.length_nil] at hrest hinner ⊢
    rw [show xs.length + (zs.length + 1 + (us.length + 1)) =
      xs.length + (zs.length + 1) + (0 + 1) + us.length by omega, hrest,
      show xs.length + (zs.length + 1) + (0 + 1) = xs.length + 1 + zs.length + 1 by omega]
    exact contextBack_closed hopen hclose hinner

variable (F : Filled p n g m b b')
include F

/-- Both walks leave the group out: they come to its closing parenthesis and go on before it. -/
theorem contextBack_group {P : ℕ} (hP : p = P) (start : ℤ) (d : ℕ) (crossed : Bool) :
    contextBack b start (P + 2) d crossed = contextBack b start P d crossed ∧
      contextBack b' start (P + 2 + n) d crossed = contextBack b' start P d crossed := by
  subst hP
  have hopen := F.paren
  have hclose := F.partner
  have hopen' := F.isPunct (i := P) (c := '(')
  have hclose' := F.isPunct (i := P + 1) (c := ')')
  rw [widen_of_le le_rfl, hopen] at hopen'
  rw [widen_of_lt (by omega), hclose] at hclose'
  refine ⟨contextBack_closed hopen (by exact_mod_cast hclose) rfl, ?_⟩
  obtain ⟨pre, inner, post, hin, hpre, rfl, -, -, -, htoks⟩ := F.filling
  have hlen : (pre ++ [Sym.punct '(']).length = P + 1 := by
    rw [List.length_append, List.length_singleton]
    omega
  have hsplit : b'.toks = pre ++ [.punct '('] ++ inner ++ .punct ')' :: post := by simp [htoks]
  have hinner := @contextBack_balanced b' _ inner _ start crossed hin hsplit d
  rw [hlen] at hinner
  rw [show P + 2 + inner.length = P + 1 + inner.length + 1 by omega]
  refine contextBack_closed hopen' ?_ hinner
  push_cast
  exact hclose'

protected theorem contextBack {start : ℤ} {k k' d : ℕ} {crossed : Bool} {context : Context}
    (hk : (k : ℤ) ≠ p + 1) (hk' : (k' : ℤ) = widen p n k) (hstart : widen p n start = 0 ↔ start = 0)
    (h : contextBack b start k d crossed = some context) :
    contextBack b' (widen p n start) k' d crossed = some context := by
  induction k using Nat.strong_induction_on generalizing k' d crossed with
  | _ k ih =>
    obtain ⟨P, hP⟩ := Int.eq_ofNat_of_zero_le F.p_nonneg
    cases k with
    | zero =>
      obtain rfl : k' = 0 := by
        rw [widen_of_le (by simpa using F.p_nonneg)] at hk'
        exact_mod_cast hk'
      rw [contextBack] at h ⊢
      rw [← h]
      simp only [hstart]
    | succ j =>
      by_cases hj : (j : ℤ) = p + 1
      · obtain rfl : j = P + 1 := by omega
        obtain rfl : k' = P + 2 + n := by
          rw [widen_of_lt (by push_cast; omega)] at hk'
          omega
        rw [(F.contextBack_group hP start d crossed).1] at h
        rw [(F.contextBack_group hP (widen p n start) d crossed).2]
        exact ih P (by omega) (by omega) (by rw [widen_of_le (by omega)]) h
      have hwide : widen p n ((j : ℤ) + 1) = widen p n j + 1 :=
        widen_succ (by push_cast at hk; omega)
      rw [Nat.cast_succ, hwide] at hk'
      obtain ⟨j', rfl⟩ : ∃ j', k' = j' + 1 := by
        have := F.widen_nonneg.mpr (Int.natCast_nonneg j)
        exact ⟨k' - 1, by omega⟩
      have hj' : (j' : ℤ) = widen p n j := by
        push_cast at hk'
        omega
      have ih {d crossed} := @ih j (Nat.lt_succ_self j) j' d crossed hj hj'
      have hprev : widen p n ((j : ℤ) - 1) = widen p n j - 1 := widen_pred hj
      rw [contextBack] at h ⊢
      rw [hj', F.isPunct, F.isPunct, F.toks]
      split_ifs at h ⊢ with hclose hopen hdeep hcrossed hdeep
      · exact ih h
      · exact ih h
      · exact ih h
      · obtain ⟨found, hfound, h⟩ := Option.bind_eq_some_iff.mp h
        rw [F.openContext hopen hfound, Option.bind_some]
        cases found with
        | none => exact ih h
        | some context' => exact h
      · exact ih h
      · obtain ⟨tok, htok, h⟩ := Option.bind_eq_some_iff.mp h
        rw [htok, Option.bind_some]
        split_ifs at h ⊢ with hword
        · exact ih h
        · obtain ⟨found, hfound, h⟩ := Option.bind_eq_some_iff.mp h
          rw [F.wordContext hwide hprev hfound, Option.bind_some]
          cases found with
          | none => exact ih h
          | some context' => exact h

/-- The context of a position outside of the group. -/
protected theorem detectContext {start : ℤ} {context : Context} (hstart : start ≠ p + 1)
    (h0 : 0 ≤ start) (h : detectContext b start = some context) :
    detectContext b' (widen p n start) = some context := by
  have hprev : widen p n (start - 1) = widen p n start - 1 := widen_pred hstart
  have hzero : widen p n start = 0 ↔ start = 0 := by
    have := widen_pos (n := n) (i := start) F.p_nonneg
    have := F.widen_nonneg.mpr h0
    omega
  rw [detectContext] at h ⊢
  rw [← hprev, F.isKw, F.startsWith, F.startsWith]
  by_cases has : isKw b.toks (start - 1) "AS" = true
  · rw [if_pos has] at h ⊢
    obtain ⟨k, hk, h⟩ := Option.bind_eq_some_iff.mp h
    obtain ⟨cast, hcast, h⟩ := Option.bind_eq_some_iff.mp h
    rw [F.marks _ k hk, Option.bind_eq_bind, Option.bind_some, F.isCast hcast]
    exact h
  · rw [if_neg has] at h ⊢
    have hwide := F.widen_nonneg.mpr h0
    refine F.contextBack (by omega) ?_ hzero h
    rw [Int.toNat_of_nonneg h0, Int.toNat_of_nonneg hwide]

end Back

end Filled
end DearSql
