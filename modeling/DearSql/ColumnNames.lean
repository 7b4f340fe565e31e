import DearSql.CompleteBounds

/-! Where the names of columns come from: the tokens of the statement and the catalog. -/
namespace DearSql
open Lexing Loops

variable {P : Text → Prop}

section Sources

variable {b : Brackets} (htoks : ∀ t ∈ b.toks, P t.text)
include htoks

theorem textAt_ensures (i : ℤ) : Ensures (textAt b.toks i) P :=
  (ensures_self (at? b.toks i)).map fun t ht => htoks t (at?_bounds ht).2.2

theorem identsInGroup_ensures (i : ℤ) : Ensures (b.identsInGroup i) fun xs => ∀ x ∈ xs, P x := by
  refine (ensures_self _).bind fun g _ => ?_
  split_ifs
  · exact ensures_some (by simp)
  refine (ensures_self _).bind fun close _ => ?_
  refine (mapM_ensures (Q := fun found => ∀ x ∈ found, P x) fun k _ => ?_).bind
    fun found hfound => ensures_some fun x hx => ?_
  · refine (ensures_self _).bind fun inner _ => ?_
    split_ifs
    · exact (textAt_ensures htoks k).map fun t ht => by simpa using ht
    · exact ensures_some (by simp)
  · obtain ⟨o, ho, hox⟩ := List.mem_filterMap.mp hx
    exact hfound o ho x hox

theorem columnList_ensures (j : ℤ) : Ensures (columnList b j) fun p => ∀ x ∈ p.1, P x := by
  unfold columnList
  split_ifs
  · refine (identsInGroup_ensures htoks j).bind fun columns hcolumns => ?_
    exact (ensures_self _).bind fun close _ => ensures_some hcolumns
  · exact ensures_some (by simp)

theorem cteTurn_ensures {s : ℤ × List Cte} (hs : ∀ c ∈ s.2, ∀ x ∈ c.columns, P x) :
    Ensures (cteTurn b s) (Turn.Keeps (fun s => ∀ c ∈ s.2, ∀ x ∈ c.columns, P x)
      fun ctes => ∀ c ∈ ctes, ∀ x ∈ c.columns, P x) := by
  unfold cteTurn
  split_ifs
  · refine (ensures_self _).bind fun name _ => ?_
    refine (columnList_ensures htoks _).bind fun p hp => ?_
    dsimp only
    split_ifs
    · exact ensures_some hs
    · exact ensures_some hs
    refine (ensures_self _).bind fun body _ => (ensures_self _).bind fun close _ => ?_
    have hctes : ∀ c ∈ s.2 ++ [({ name := name, columns := p.1, body := body } : Cte)],
        ∀ x ∈ c.columns, P x := by
      intro c hc
      rcases List.mem_append.mp hc with hc | hc
      · exact hs c hc
      · rw [List.mem_singleton.mp hc]
        exact hp
    split_ifs
    · exact ensures_some hctes
    · exact ensures_some hctes
  · exact ensures_some hs

theorem collectCtes_ensures :
    Ensures (collectCtes b) fun ctes => ∀ c ∈ ctes, ∀ x ∈ c.columns, P x := by
  refine foldlM_ensures _ (fun ctes i _ hs => ?_) (by simp)
  split_ifs
  · exact loop_ensures (fun s => ∀ c ∈ s.2, ∀ x ∈ c.columns, P x)
      (fun s hs => cteTurn_ensures htoks hs) hs
  · exact ensures_some hs

/-- Columns listed after an alias have the property, and a plain relation has none. -/
structure RelationRef.AliasesIn (P : Text → Prop) (r : RelationRef) : Prop where
  columns : ∀ x ∈ r.columnAliases, P x
  plain : r.derived < 0 → r.function = false → r.columnAliases = []

theorem relationTail_ensures (into : Bool) (r : RelationRef) (j : ℤ) :
    Ensures (relationTail b into r j) fun p => p.1.AliasesIn P := by
  refine (ensures_self _).bind fun q _ => ?_
  have hcols : Ensures (aliasColumns b r q.1 q.2) fun p => (∀ x ∈ p.1, P x) ∧
      (r.derived < 0 → r.function = false → p.1 = []) := by
    unfold aliasColumns
    split_ifs with h
    · refine (columnList_ensures htoks _).imp fun p hp => ⟨hp, fun hd hf => ?_⟩
      rcases h.2 with h | h
      · omega
      · rw [hf] at h
        cases h
    · exact ensures_some ⟨by simp, fun _ _ => rfl⟩
  exact hcols.bind fun p hp => ensures_some ⟨hp.1, hp.2⟩

theorem relationTurn_ensures (list into : Bool) (g : ℤ) {s : ℤ × List RelationRef}
    (hs : ∀ r ∈ s.2, r.AliasesIn P) : Ensures (relationTurn b list into g s)
      (Turn.Keeps (fun s => ∀ r ∈ s.2, r.AliasesIn P) fun refs => ∀ r ∈ refs, r.AliasesIn P) := by
  unfold relationTurn
  split_ifs
  · refine (ensures_self _).bind fun inner _ => ?_
    split_ifs
    · exact ensures_some hs
    refine (ensures_self _).bind fun j _ => (ensures_self _).bind fun head _ => ?_
    cases head with
    | none => exact ensures_some hs
    | some p =>
      refine (relationTail_ensures htoks into p.1 p.2).bind fun q hq => ?_
      have hrefs : ∀ r ∈ (if q.1.name ≠ [] then s.2 ++ [q.1] else s.2), r.AliasesIn P := by
        intro r hr
        split_ifs at hr
        · rcases List.mem_append.mp hr with hr | hr
          · exact hs r hr
          · rw [List.mem_singleton.mp hr]
            exact hq
        · exact hs r hr
      dsimp only
      generalize (if q.1.name ≠ [] then s.2 ++ [q.1] else s.2) = refs at hrefs ⊢
      split_ifs
      · exact ensures_some hrefs
      · exact ensures_some hrefs
  · exact ensures_some hs

theorem collectRefs_ensures : Ensures (collectRefs b) fun refs => ∀ r ∈ refs, r.AliasesIn P := by
  refine foldlM_ensures _ (fun refs i _ hs => ?_) (by simp)
  refine (ensures_self _).bind fun tok _ => ?_
  split_ifs
  · exact ensures_some hs
  refine (ensures_self _).bind fun relation _ => (ensures_self _).bind fun create _ => ?_
  split_ifs
  · exact ensures_some hs
  · exact (ensures_self _).bind fun g _ => loop_ensures (fun s => ∀ r ∈ s.2, r.AliasesIn P)
      (fun s hs => relationTurn_ensures htoks _ _ _ hs) hs

end Sources

/-- Every column has a name with the property. -/
def Named (P : Text → Prop) (cols : List ColInfo) : Prop := ∀ c ∈ cols, P c.name

namespace Analyzer

variable {a : Analyzer}

/-- The names that the columns of references are made of have the property. -/
structure DrawsFrom (a : Analyzer) (P : Text → Prop) : Prop where
  toks : ∀ t ∈ a.toks, P t.text
  ctes : ∀ c ∈ a.ctes, ∀ x ∈ c.columns, P x
  refs : ∀ r ∈ a.refs, r.AliasesIn P
  catalog : ∀ path, a.pathCte path = none → Named P (a.catalogColumns path)

theorem named_applyAliases {cols : List ColInfo} {aliases : List Text} (hcols : Named P cols)
    (ha : ∀ x ∈ aliases, P x) : Named P (applyAliases cols aliases) := by
  induction cols, aliases using applyAliases.induct with
  | case1 cols => simpa [applyAliases] using hcols
  | case2 x xs ih =>
    obtain ⟨hx, hxs⟩ := List.forall_mem_cons.mp ha
    exact List.forall_mem_cons.mpr ⟨hx, ih hcols hxs⟩
  | case3 c cols x xs ih =>
    obtain ⟨hx, hxs⟩ := List.forall_mem_cons.mp ha
    exact List.forall_mem_cons.mpr ⟨hx, ih (List.forall_mem_cons.mp hcols).2 hxs⟩

theorem findRef_ensures (name : Text) (g : ℤ) :
    Ensures (a.findRef name g) fun found => ∀ r ∈ found, r ∈ a.refs := by
  refine (foldlM_ensures (fun best => ∀ r ∈ best.2, r ∈ a.refs) (fun best r hr hs => ?_)
    (by simp)).map fun best hbest => hbest
  unfold nearerTurn
  split_ifs
  · exact ensures_some hs
  refine (ensures_self _).bind fun visible _ => ?_
  split_ifs
  · exact ensures_some hs
  refine (ensures_self _).bind fun d _ => ensures_some ?_
  split_ifs
  · rintro x ⟨⟩
    exact hr
  · exact hs

theorem findRefIn_ensures (name : Text) (g : ℤ) :
    Ensures (a.findRefIn name g) fun found => ∀ r ∈ found, r ∈ a.refs := by
  unfold findRefIn
  split
  · rename_i r hr
    refine ensures_some ?_
    rintro x ⟨⟩
    exact List.mem_of_find?_eq_some hr
  · exact findRef_ensures name g

theorem columnInfo_ensures (refCols : RelationRef → Option (List ColInfo)) (info : ColInfo)
    (refs : List RelationRef) :
    Ensures (columnInfo refCols info refs) fun c => c.name = info.name := by
  induction refs generalizing info with
  | nil => exact ensures_some rfl
  | cons r refs ih =>
    refine (ensures_self _).bind fun cols _ => ?_
    dsimp only
    split_ifs
    · exact ensures_some (by split <;> rfl)
    · exact (ih _).imp fun c hc => hc.trans (by split <;> rfl)

variable (h : a.DrawsFrom P)
include h

section Items

variable {refCols : RelationRef → Option (List ColInfo)}
  (hcols : ∀ r ∈ a.refs, Ensures (refCols r) (Named P))
include hcols

omit h in
theorem starColumns_ensures (item : List ℤ) (g : ℤ) :
    Ensures (a.starColumns refCols item g) (Named P) := by
  simp only [starColumns]
  split_ifs
  · refine (mapM_ensures fun r hr => hcols r (mem_visibleRefsIn hr)).map fun found hfound c hc => ?_
    obtain ⟨cols, hmem, hc⟩ := List.mem_flatten.mp hc
    exact hfound cols hmem c hc
  · refine (ensures_self _).bind fun dot _ => (ensures_self _).bind fun owner _ => ?_
    split_ifs
    · refine (ensures_self _).bind fun name _ => ?_
      refine (findRefIn_ensures name g).bind fun found hfound => ?_
      cases found with
      | none => exact ensures_some (by simp [Named])
      | some r => exact hcols r (hfound r rfl)
    · exact ensures_some (by simp [Named])
  · exact ensures_some (by simp [Named])

theorem deriveItem_ensures (item : List ℤ) (g : ℤ) :
    Ensures (a.deriveItem refCols item g) (Named P) := by
  unfold deriveItem
  by_cases hnil : item = []
  · rw [if_pos hnil]
    exact ensures_some (by simp [Named])
  rw [if_neg hnil]
  refine (ensures_self _).bind fun last _ => (ensures_self _).bind fun tok htok => ?_
  have hname : P tok.text := h.toks tok (at?_bounds htok).2.2
  have hone : ∀ {c : ColInfo}, c.name = tok.text → Named P [c] := fun hc c' hc' => by
    rw [List.mem_singleton.mp hc', hc]
    exact hname
  by_cases hstar : tok = .op ['*']
  · rw [if_pos hstar]
    exact starColumns_ensures hcols item g
  rw [if_neg hstar]
  by_cases hid : (!isIdent a.toks last) = true
  · rw [if_pos hid]
    exact ensures_some (by simp [Named])
  rw [if_neg hid]
  refine (ensures_self _).bind fun before _ => ?_
  split_ifs
  · exact ensures_some (hone rfl)
  · refine Ensures.map (P := fun c => c.name = tok.text) ?_ fun c hc => hone hc
    exact (ensures_self _).bind fun owner _ => columnInfo_ensures refCols _ _
  · exact ensures_some (by simp [Named])
  · exact ensures_some (hone rfl)
  · exact ensures_some (by simp [Named])

end Items

theorem selectColumns_ensures {refCols : RelationRef → ℕ → Option (List ColInfo)} {g : ℤ}
    {depth : ℕ} (hcols : ∀ r ∈ a.refs, Ensures (refCols r (depth + 1)) (Named P)) :
    Ensures (a.selectColumns refCols g depth) (Named P) := by
  unfold selectColumns
  split_ifs
  · exact ensures_some (by simp [Named])
  · refine (ensures_self _).bind fun items _ => ?_
    refine (mapM_ensures fun item _ => deriveItem_ensures h hcols item g).bind
      fun found hfound => ensures_some fun c hc => ?_
    obtain ⟨cols, hmem, hc⟩ := List.mem_flatten.mp hc
    exact hfound cols hmem c hc

/-- The columns of a reference are named by tokens and by the catalog entries that no CTE hides. -/
theorem columnsWithin_ensures {n depth : ℕ} {r : RelationRef} (hr : r ∈ a.refs) :
    Ensures (a.columnsWithin n r depth) (Named P) := by
  induction n generalizing r depth with
  | zero => exact ensures_none
  | succ n ih =>
    rw [columnsWithin, columnsStep]
    split_ifs
    · exact ensures_some (by simp [Named])
    have hsource : Ensures (a.sourceColumns (a.columnsWithin n) r depth) (Named P) := by
      unfold sourceColumns
      split_ifs
      · exact selectColumns_ensures h fun r hr => ih hr
      · exact ensures_some (by simp [Named])
      · cases hc : a.pathCte r.path with
        | none => exact ensures_some (h.catalog r.path hc)
        | some c =>
          have haliases := h.ctes c (mem_of_pathCte hc)
          dsimp only [cteColumns]
          split_ifs
          · exact (selectColumns_ensures h fun r hr => ih hr).map
              fun cols hcols => named_applyAliases hcols haliases
          · exact ensures_some (named_applyAliases (by simp [Named]) haliases)
    exact hsource.map fun cols hcols => named_applyAliases hcols (h.refs r hr).columns

end Analyzer
end DearSql
