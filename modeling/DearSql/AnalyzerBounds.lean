import DearSql.Grouping

/-! The analyzer reads no list outside its bounds and ends, for every list of tokens. -/
namespace DearSql
open Lexing Loops

section Predicates

variable {toks : List Sym} {i : ℤ}

theorem bounds_of_isPunct {c : Char} (h : isPunct toks i c = true) : 0 ≤ i ∧ i < toks.length := by
  rw [isPunct, decide_eq_true_eq] at h
  exact ⟨(at?_bounds h).1, (at?_bounds h).2.1⟩

theorem bounds_of_isKw {kw : String} (h : isKw toks i kw = true) : 0 ≤ i ∧ i < toks.length := by
  unfold isKw at h
  split at h
  · rename_i t ht
    exact ⟨(at?_bounds ht).1, (at?_bounds ht).2.1⟩
  · cases h

theorem bounds_of_isKwIn {kws : List String} (h : isKwIn toks i kws = true) :
    0 ≤ i ∧ i < toks.length := by
  obtain ⟨kw, -, hkw⟩ := List.any_eq_true.mp h
  exact bounds_of_isKw hkw

theorem bounds_of_isIdent (h : isIdent toks i = true) : 0 ≤ i ∧ i < toks.length := by
  unfold isIdent at h
  split at h
  · rename_i t ht
    exact ⟨(at?_bounds ht).1, (at?_bounds ht).2.1⟩
  · rename_i t ht
    exact ⟨(at?_bounds ht).1, (at?_bounds ht).2.1⟩
  · cases h

theorem isIdent_of_isNameIdent (h : isNameIdent toks i = true) : isIdent toks i = true := by
  unfold isNameIdent at h
  unfold isIdent
  split at h
  · simp
  · simp
  · cases h

theorem textAt_yields (h : isIdent toks i = true) : Yields (textAt toks i) fun _ => True := by
  obtain ⟨h0, hi⟩ := bounds_of_isIdent h
  exact (Yields.at toks h0 hi).map fun _ _ => trivial

theorem le_skipKw (toks : List Sym) (kw : String) (j : ℤ) : j ≤ skipKw toks kw j := by
  unfold skipKw
  split_ifs <;> omega

end Predicates

section Walks

variable (toks : List Sym)

theorem isCreateTable_yields (i : ℤ) : Yields (isCreateTable toks i) fun _ => True := by
  refine loop_total (fun _ => True) (fun j : ℤ => (j + 1).toNat) (fun j _ => ?_) trivial (by omega)
  unfold createTurn
  split_ifs with h
  · have := bounds_of_isKwIn h
    exact .next trivial (by omega)
  · exact .done trivial

theorem skip_yields {j : ℤ} (hj : 0 ≤ j) :
    Yields (loop (skipTurn toks) (toks.length + 1) j) fun k => j ≤ k := by
  refine loop_total (fun k => j ≤ k) (fun k : ℤ => (toks.length - k).toNat) (fun k hk => ?_) le_rfl
    (by omega)
  unfold skipTurn
  split_ifs with h
  · have := bounds_of_isKwIn h
    exact .next (by omega) (by omega)
  · exact .done hk

theorem path_yields {j : ℤ} (hj : 0 ≤ j) (path : List Text) :
    Yields (loop (pathTurn toks) (toks.length + 1) (j, path)) fun p => j ≤ p.1 := by
  refine loop_total (fun s => j ≤ s.1) (fun s : ℤ × List Text => (toks.length - s.1).toNat)
    (fun s hs => ?_) le_rfl (by simp only; omega)
  unfold pathTurn
  split_ifs with h
  · obtain ⟨t, ht, -⟩ := textAt_yields h.2
    have := bounds_of_isPunct h.1
    rw [ht]
    change Advances _ _ _ _ (some (.next (s.1 + 2, s.2 ++ [t])))
    exact .next (by simp only; omega) (by simp only; omega)
  · exact .done hs

theorem qualifierBefore_yields (i : ℤ) :
    Yields (qualifierBefore toks i) fun p => p.2 ≤ i ∧ (0 ≤ i → 0 ≤ p.2) := by
  refine loop_total (fun s => s.1 = s.2.2 - 1 ∧ s.2.2 ≤ i ∧ (0 ≤ i → 0 ≤ s.2.2))
    (fun s : ℤ × List Text × ℤ => (s.1 + 1).toNat) (fun s hs => ?_) ⟨rfl, le_rfl, id⟩
    (by simp only; omega)
  obtain ⟨h1, h2, h3⟩ := hs
  unfold qualifierTurn
  split_ifs with h
  · obtain ⟨t, ht, -⟩ := textAt_yields h.2
    have := bounds_of_isPunct h.1
    have := bounds_of_isIdent h.2
    rw [ht]
    change Advances _ _ _ _ (some (.next (s.1 - 2, t :: s.2.1, s.1 - 1)))
    exact .next ⟨by simp only; omega, by simp only; omega, fun _ => by simp only; omega⟩
      (by simp only; omega)
  · exact .done ⟨h2, h3⟩

end Walks

/-- A group index, or a negative number for no group. -/
def Cte.Fits (b : Brackets) (c : Cte) : Prop := c.body < b.groups.length

structure RelationRef.Fits (b : Brackets) (r : RelationRef) : Prop where
  group_lt : r.group < b.groups.length
  derived_lt : r.derived < b.groups.length

section Reads

variable {b : Brackets} (h : b.WF)
include h

theorem Brackets.groupAt_yields (index : ℤ) :
    Yields (b.groupAt index) fun g => 0 ≤ g ∧ g < b.groups.length := by
  have hpos : 0 < b.groups.length := List.length_pos_iff.mpr h.groups_ne
  have hrun := foldlM_yields (f := b.stackTurn) (l := upTo 0 (min index b.size)) (s := [0])
    (fun stack => stack ≠ [] ∧ ∀ g ∈ stack, 0 ≤ g ∧ g < (b.groups.length : ℤ))
    (fun stack i _ hs => ?_) ⟨by simp, by simpa using hpos⟩
  · refine hrun.bind fun stack hs => ?_
    obtain ⟨g, rest, rfl⟩ := List.exists_cons_of_ne_nil hs.1
    exact yields_some (hs.2 g (by simp))
  · unfold Brackets.stackTurn
    split_ifs with ho hc
    · refine (b.opens_yields h ho).map fun g hg => ⟨by simp, ?_⟩
      exact List.forall_mem_cons.mpr ⟨hg, hs.2⟩
    · obtain ⟨g, rest, rfl⟩ := List.exists_cons_of_ne_nil hs.1
      simp only [Bool.and_eq_true, decide_eq_true_eq, List.length_cons] at hc
      refine yields_some ⟨?_, fun g hg => hs.2 g (List.mem_cons_of_mem _ hg)⟩
      rintro hnil
      simp at hnil
      simp [hnil] at hc
    · exact yields_some hs

theorem Brackets.identsInGroup_yields {i : ℤ} (hi : isPunct b.toks i '(' = true) :
    Yields (b.identsInGroup i) fun _ => True := by
  have hi0 := bounds_of_isPunct hi
  refine (b.opens_yields h hi).bind fun g hg => ?_
  rw [if_neg (by omega)]
  refine (b.closeOf_yields h hi).bind fun c hc => ?_
  refine Yields.bind (mapM_yields (Q := fun _ => True) fun k hk => ?_) fun _ _ => yields_some trivial
  have hk := mem_upTo.mp hk
  refine (b.groupOf_yields h (by omega) (by omega)).bind fun inner _ => ?_
  split_ifs with hident
  · exact (textAt_yields hident.2).map fun _ _ => trivial
  · exact yields_some trivial

theorem columnList_yields {j : ℤ} : Yields (columnList b j) fun p => j ≤ p.2 := by
  unfold columnList
  split_ifs with hp
  · refine (b.identsInGroup_yields h hp).bind fun columns _ => ?_
    refine (b.closeOf_yields h hp).bind fun c hc => yields_some ?_
    simp only
    omega
  · exact yields_some le_rfl

theorem cteTurn_advances {s : ℤ × List Cte} (hs : 0 ≤ s.1 ∧ ∀ c ∈ s.2, c.Fits b) :
    Advances (fun s : ℤ × List Cte => 0 ≤ s.1 ∧ ∀ c ∈ s.2, c.Fits b)
      (fun s => (b.toks.length - s.1).toNat)
      (fun ctes => ∀ c ∈ ctes, c.Fits b) s (cteTurn b s) := by
  unfold cteTurn
  split_ifs with hid
  · have hlt := bounds_of_isIdent hid
    obtain ⟨name, hname, -⟩ := textAt_yields hid
    obtain ⟨⟨columns, j⟩, hcols, hj⟩ := columnList_yields h (j := s.1 + 1)
    simp only [hname, hcols, Option.bind_eq_bind, Option.bind_some]
    split_ifs with has hp
    · exact .done hs.2
    · exact .done hs.2
    · rw [Bool.not_eq_true', Bool.not_eq_false] at hp
      obtain ⟨body, hbody, hfit⟩ := b.opens_yields h hp
      obtain ⟨close, hclose, hc⟩ := b.closeOf_yields h hp
      have h1 := le_skipKw b.toks "NOT" (j + 1)
      have h2 := le_skipKw b.toks "MATERIALIZED" (skipKw b.toks "NOT" (j + 1))
      have hctes : ∀ c ∈ s.2 ++ [({ name := name, columns := columns, body := body } : Cte)],
          c.Fits b := by
        intro c hc
        rcases List.mem_append.mp hc with hc | hc
        · exact hs.2 c hc
        · rw [List.mem_singleton.mp hc]
          exact hfit.2
      simp only [hbody, hclose, Option.bind_some]
      split_ifs with hcomma
      · exact .next ⟨by simp only at hj ⊢; omega, hctes⟩ (by simp only at hj ⊢; omega)
      · exact .done hctes
  · exact .done hs.2

theorem collectCtes_yields : Yields (collectCtes b) fun ctes => ∀ c ∈ ctes, c.Fits b := by
  refine foldlM_yields (fun ctes : List Cte => ∀ c ∈ ctes, c.Fits b) (fun ctes i hi hs => ?_) (by simp)
  have hi := (mem_upTo.mp hi).1
  split_ifs with hw
  · have := le_skipKw b.toks "RECURSIVE" (i + 1)
    exact loop_total _ _ (fun s hs => cteTurn_advances h hs) ⟨by simp only; omega, hs⟩
      (by simp only; omega)
  · exact yields_some hs

theorem isTableFrom_yields {i : ℤ} (h0 : 0 ≤ i) (hi : i < b.size) :
    Yields (isTableFrom b i) fun _ => True := by
  unfold isTableFrom
  split_ifs with hd
  · exact yields_some trivial
  · refine (b.groupOf_yields h h0 hi).bind fun g hg => ?_
    split_ifs with hpos
    · exact (b.groups_yields h hg.1 hg.2).bind fun x _ => yields_some trivial
    · exact yields_some trivial

theorem isRelationKeyword_yields {i : ℤ} (h0 : 0 ≤ i) (hi : i < b.size) :
    Yields (isRelationKeyword b i) fun _ => True := by
  unfold isRelationKeyword
  split_ifs
  · exact isTableFrom_yields h h0 hi
  · exact yields_some trivial
  · exact yields_some trivial

/-- A FROM item takes at least one token. -/
theorem relationHead_yields (into : Bool) {g j : ℤ} (hg : g < b.groups.length) (hj : 0 ≤ j) :
    Yields (relationHead b into g j) fun r => ∀ p ∈ r, j < p.2 ∧ p.1.Fits b ∧ j < b.size := by
  have hpos : 0 < b.groups.length := List.length_pos_iff.mpr h.groups_ne
  unfold relationHead
  split_ifs with hp hn
  · have hlt := bounds_of_isPunct hp
    refine (b.opens_yields h hp).bind fun d hd => ?_
    refine (b.closeOf_yields h hp).bind fun c hc => yields_some ?_
    rintro p ⟨⟩
    exact ⟨by simp only; omega, ⟨hg, hd.2⟩, hlt.2⟩
  · have hid := isIdent_of_isNameIdent hn
    have hlt := bounds_of_isIdent hid
    refine (textAt_yields hid).bind fun name _ => ?_
    refine (path_yields b.toks (by omega : 0 ≤ j + 1) [name]).bind fun p hpath => ?_
    obtain ⟨k, path⟩ := p
    simp only at hpath ⊢
    split_ifs with hfn
    · have hfn := (Bool.and_eq_true _ _).mp hfn
      refine (b.closeOf_yields h hfn.2).bind fun c hc => yields_some ?_
      rintro p ⟨⟩
      exact ⟨by simp only; omega, ⟨hg, by simp only; omega⟩, hlt.2⟩
    · refine yields_some ?_
      rintro p ⟨⟩
      exact ⟨by simp only; omega, ⟨hg, by simp only; omega⟩, hlt.2⟩
  · exact yields_some (by simp)

omit h in
theorem aliasAt_yields (toks : List Sym) (into : Bool) (j : ℤ) :
    Yields (aliasAt toks into j) fun p => j ≤ p.2 := by
  unfold aliasAt
  split_ifs with has hid hn
  · exact (textAt_yields hid).map fun _ _ => by simp only; omega
  · exact yields_some (by simp only; omega)
  · have hid := isIdent_of_isNameIdent ((Bool.and_eq_true _ _).mp hn).2
    exact (textAt_yields hid).map fun _ _ => by simp only; omega
  · exact yields_some le_rfl

theorem relationTail_yields (into : Bool) {r : RelationRef} (hr : r.Fits b) (j : ℤ) :
    Yields (relationTail b into r j) fun p => j ≤ p.2 ∧ p.1.Fits b := by
  unfold relationTail
  refine (aliasAt_yields b.toks into j).bind fun p hp => ?_
  obtain ⟨alias_, k⟩ := p
  have htail : Yields (aliasColumns b r alias_ k) fun p => k ≤ p.2 := by
    unfold aliasColumns
    split_ifs
    · exact columnList_yields h
    · exact yields_some le_rfl
  refine htail.bind fun p hp' => yields_some ⟨?_, hr.group_lt, hr.derived_lt⟩
  simp only at hp hp' ⊢
  omega

theorem relationTurn_advances (list into : Bool) {g : ℤ} (hg : g < b.groups.length)
    {s : ℤ × List RelationRef} (hs : 0 ≤ s.1 ∧ ∀ r ∈ s.2, r.Fits b) :
    Advances (fun s : ℤ × List RelationRef => 0 ≤ s.1 ∧ ∀ r ∈ s.2, r.Fits b)
      (fun s => (b.toks.length - s.1).toNat)
      (fun refs => ∀ r ∈ refs, r.Fits b) s (relationTurn b list into g s) := by
  unfold relationTurn
  split_ifs with hlt
  · obtain ⟨inner, hinner, -⟩ := b.groupOf_yields h hs.1 hlt
    simp only [hinner, Option.bind_eq_bind, Option.bind_some]
    split_ifs with hne
    · exact .done hs.2
    obtain ⟨j, hj, hjle⟩ := skip_yields b.toks hs.1
    obtain ⟨head, hhead, hfit⟩ := relationHead_yields h into hg (by omega : 0 ≤ j)
    simp only [hj, hhead, Option.bind_some]
    cases head with
    | none => exact .done hs.2
    | some p =>
      obtain ⟨r, k⟩ := p
      obtain ⟨hk, hr, hjlt⟩ := hfit _ rfl
      obtain ⟨⟨r', k'⟩, htail, hk', hr'⟩ := relationTail_yields h into hr k
      simp only [htail, Option.bind_some] at hk hk' ⊢
      have hrefs : ∀ x ∈ (if r'.name ≠ [] then s.2 ++ [r'] else s.2), x.Fits b := by
        split_ifs
        · intro x hx
          rcases List.mem_append.mp hx with hx | hx
          · exact hs.2 x hx
          · exact List.mem_singleton.mp hx ▸ hr'
        · exact hs.2
      generalize (if r'.name ≠ [] then s.2 ++ [r'] else s.2) = refs at hrefs
      have hsize : b.size = b.toks.length := rfl
      split_ifs
      · exact .next ⟨by simp only; omega, hrefs⟩ (by simp only; omega)
      · exact .done hrefs
  · exact .done hs.2

theorem collectRefs_yields : Yields (collectRefs b) fun refs => ∀ r ∈ refs, r.Fits b := by
  refine foldlM_yields (fun refs : List RelationRef => ∀ r ∈ refs, r.Fits b) (fun refs i hi hs => ?_) (by simp)
  have hi := mem_upTo.mp hi
  unfold refTurn
  refine (Yields.at b.toks hi.1 hi.2).bind fun tok _ => ?_
  split_ifs with hw
  · exact yields_some hs
  · refine (isRelationKeyword_yields h hi.1 hi.2).bind fun relation _ => ?_
    refine (isCreateTable_yields b.toks i).bind fun create _ => ?_
    split_ifs
    · exact yields_some hs
    · refine (b.groupOf_yields h hi.1 hi.2).bind fun g hg => ?_
      exact loop_total _ _ (fun s hs => relationTurn_advances h _ _ hg.2 hs)
        ⟨by simp only; omega, hs⟩ (by simp only; omega)

theorem relationSlotEmpty_yields {kw start : ℤ} (hkw : 0 ≤ kw) (hstart : start ≤ b.size) :
    Yields (relationSlotEmpty b kw start) fun _ => True := by
  have hsize : b.size = b.toks.length := rfl
  refine loop_total (fun s => 0 ≤ s.1) (fun s : ℤ × ℕ => (b.toks.length - s.1).toNat)
    (fun s hs => ?_) (by simp only; omega) (by simp only; omega)
  unfold slotTurn
  split_ifs with hlt hp hcomma hword
  · obtain ⟨c, hc, hc'⟩ := b.closeOf_yields h hp
    rw [hc]
    change Advances _ _ _ _ (some (.next (c + 1, s.2 + 1)))
    exact .next (by simp only; omega) (by simp only; omega)
  · exact .next (by simp only; omega) (by simp only; omega)
  · exact .next (by simp only; omega) (by simp only; omega)
  · exact .next (by simp only; omega) (by simp only; omega)
  · exact .done trivial

omit h in
theorem openContext_yields (b : Brackets) (k : ℤ) : Yields (openContext b k) fun _ => True := by
  have hpath : Yields (pathBefore b.toks k) fun _ => True := by
    unfold pathBefore
    split_ifs with hid
    · refine (qualifierBefore_yields b.toks (k - 1)).bind fun p _ => ?_
      exact (textAt_yields hid).bind fun name _ => yields_some trivial
    · exact yields_some trivial
  unfold openContext
  refine hpath.bind fun p _ => ?_
  obtain ⟨path, chainStart⟩ := p
  simp only
  split_ifs <;> exact yields_some trivial

theorem wordContext_yields {start k : ℤ} (hk : 0 ≤ k) (hlt : k < b.size) (hstart : start ≤ b.size)
    (crossed : Bool) : Yields (wordContext b start k crossed) fun _ => True := by
  unfold wordContext
  refine (isRelationKeyword_yields h hk hlt).bind fun relation _ => ?_
  cases relation with
  | true =>
    refine (isCreateTable_yields b.toks k).bind fun create _ => ?_
    split_ifs
    · exact yields_some trivial
    · exact yields_some trivial
    · exact (relationSlotEmpty_yields h hk hstart).bind fun slot _ => yields_some trivial
  | false =>
    simp only [Bool.false_eq_true, if_false]
    split_ifs <;> exact yields_some trivial

theorem contextBack_yields {start : ℤ} (hstart : start ≤ b.size) {n : ℕ} (hn : n ≤ b.size)
    (depth : ℕ) (crossed : Bool) :
    Yields (contextBack b start n depth crossed) fun _ => True := by
  induction n generalizing depth crossed with
  | zero => exact yields_some trivial
  | succ k ih =>
    have ih := fun depth crossed => ih (by omega) depth crossed
    have hlt : (k : ℤ) < b.size := by omega
    unfold contextBack
    split_ifs
    · exact ih _ _
    · exact ih _ _
    · exact ih _ _
    · refine (openContext_yields b k).bind fun found _ => ?_
      cases found with
      | none => exact ih _ _
      | some c => exact yields_some trivial
    · exact ih _ _
    · refine (Yields.at b.toks (by omega) hlt).bind fun tok _ => ?_
      split_ifs
      · exact ih _ _
      · refine (wordContext_yields h (by omega) hlt hstart crossed).bind fun found _ => ?_
        cases found with
        | none => exact ih _ _
        | some c => exact yields_some trivial

theorem detectContext_yields {start : ℤ} (h0 : 0 ≤ start) (hstart : start ≤ b.size) :
    Yields (detectContext b start) fun _ => True := by
  unfold detectContext
  by_cases has : isKw b.toks (start - 1) "AS" = true
  · rw [if_pos has]
    have hlt := bounds_of_isKw has
    refine (b.groupOf_yields h hlt.1 hlt.2).bind fun g hg => ?_
    have hcast : Yields (isCast b g) fun _ => True := by
      unfold isCast
      split_ifs
      · exact (b.groups_yields h hg.1 hg.2).bind fun x _ => yields_some trivial
      · exact yields_some trivial
    refine hcast.bind fun cast _ => ?_
    split_ifs <;> exact yields_some trivial
  · rw [if_neg has]
    have hn : (start.toNat : ℤ) ≤ b.size := by omega
    exact contextBack_yields h hstart hn 0 false

end Reads
end DearSql
