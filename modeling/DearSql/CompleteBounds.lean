import DearSql.AnalyzerBounds

/-! Completion and resolution read no list outside its bounds and end, for every text. -/
namespace DearSql
open Lexing Loops

theorem Brackets.past_yields {b : Brackets} (h : b.WF) (k : ℤ) :
    Yields (b.past k) fun next => k < next := by
  unfold Brackets.past
  split_ifs with hp
  · exact (b.closeOf_yields h hp).map fun c hc => by omega
  · exact yields_some (by omega)

namespace Analyzer

/-- What `analyze` makes. -/
structure WF (a : Analyzer) : Prop where
  brackets : a.toBrackets.WF
  ctes : ∀ c ∈ a.ctes, c.Fits a.toBrackets
  refs : ∀ r ∈ a.refs, r.Fits a.toBrackets

end Analyzer

theorem analyze_eq_some {catalog : CompletionCatalog} {toks : List Sym} {a : Analyzer}
    (h : analyze catalog toks = some a) :
    buildGroups toks = some a.toBrackets ∧ collectCtes a.toBrackets = some a.ctes ∧
      collectRefs a.toBrackets = some a.refs ∧ a.catalog = catalog := by
  obtain ⟨b, hb, h⟩ := Option.bind_eq_some_iff.mp h
  obtain ⟨ctes, hctes, h⟩ := Option.bind_eq_some_iff.mp h
  obtain ⟨refs, hrefs, h⟩ := Option.bind_eq_some_iff.mp h
  obtain rfl := Option.some_inj.mp h
  exact ⟨hb, hctes, hrefs, rfl⟩

theorem analyze_yields (catalog : CompletionCatalog) (toks : List Sym) :
    Yields (analyze catalog toks) fun a => a.WF ∧ a.toks = toks ∧ a.catalog = catalog := by
  refine (buildGroups_yields toks).bind fun b hb => ?_
  refine (collectCtes_yields hb.1).bind fun ctes hctes => ?_
  refine (collectRefs_yields hb.1).bind fun refs hrefs => ?_
  exact yields_some ⟨⟨hb.1, hctes, hrefs⟩, hb.2, rfl⟩

namespace Analyzer

variable {a : Analyzer} (h : a.WF)
include h

section Names

theorem findRef_yields (name : Text) {g : ℤ} (hg : g < a.groups.length) :
    Yields (a.findRef name g) fun r => ∀ x ∈ r, x ∈ a.refs := by
  have hrun := foldlM_yields (f := a.nearerTurn name g) (l := a.refs) (s := (-1, none))
    (fun best => ∀ x ∈ best.2, x ∈ a.refs) (fun best r hr hs => ?_) (by simp)
  · exact hrun.map fun best hbest => hbest
  · unfold nearerTurn
    split_ifs with hname
    · exact yields_some hs
    refine (a.isAncestorOrSelf_yields h.brackets r.group hg).bind fun visible _ => ?_
    split_ifs
    · exact yields_some hs
    refine (a.depthOf_yields h.brackets (h.refs r hr).group_lt).bind fun d _ => yields_some ?_
    split_ifs
    · rintro x ⟨⟩
      exact hr
    · exact hs

theorem visibleRefs_yields {g : ℤ} (hg : g < a.groups.length) :
    Yields (a.visibleRefs g) fun refs => ∀ r ∈ refs, r ∈ a.refs := by
  have hrun := mapM_yields (f := a.withDepth g) (l := a.refs)
    (Q := fun found => ∀ p ∈ found, p.2 ∈ a.refs) fun r hr => ?_
  · refine hrun.bind fun found hfound => yields_some fun r hr => ?_
    obtain ⟨p, hp, rfl⟩ := List.mem_map.mp hr
    rw [List.mem_insertionSort, List.mem_filterMap] at hp
    obtain ⟨o, ho, rfl⟩ := hp
    exact hfound _ ho p rfl
  · unfold withDepth
    refine (a.isAncestorOrSelf_yields h.brackets r.group hg).bind fun visible _ => ?_
    split_ifs
    · refine (a.depthOf_yields h.brackets (h.refs r hr).group_lt).map fun d _ => ?_
      rintro p ⟨⟩
      exact hr
    · exact yields_some (by simp)

omit h in
theorem mem_visibleRefsIn {g : ℤ} {r : RelationRef} (hr : r ∈ a.visibleRefsIn g) : r ∈ a.refs :=
  (List.mem_filter.mp hr).1

theorem findRefIn_yields (name : Text) {g : ℤ} (hg : g < a.groups.length) :
    Yields (a.findRefIn name g) fun r => ∀ x ∈ r, x ∈ a.refs := by
  unfold findRefIn
  cases hf : a.refs.find? fun r => r.group = g ∧ ieq r.name name with
  | none => exact findRef_yields h name hg
  | some r =>
    refine yields_some ?_
    rintro x ⟨⟩
    exact List.mem_of_find?_eq_some hf

end Names

section SelectList

/-- The items of a select list are made of token indices. -/
def Indices (a : Analyzer) (item : List ℤ) : Prop := ∀ k ∈ item, 0 ≤ k ∧ k < a.size

theorem selectItems_yields {g : ℤ} (h0 : 0 ≤ g) (hg : g < a.groups.length) :
    Yields (a.selectItems g) fun items => ∀ item ∈ items, a.Indices item := by
  have hsize : a.size = a.toks.length := rfl
  refine (a.groups_yields h.brackets h0 hg).bind fun x hx => ?_
  have hopen := hx.openAt_ge
  generalize hstop : min x.closeAt a.size = stop
  have hstop : stop ≤ a.size := hstop ▸ min_le_right _ _
  have hselect : Yields (loop (a.selectTurn g stop) (a.toks.length + 2) (x.openAt + 1))
      fun k => 0 ≤ k := by
    refine loop_total (fun k => 0 ≤ k) (fun k : ℤ => (a.toks.length + 1 - k).toNat) (fun k hk => ?_)
      (by omega) (by omega)
    unfold selectTurn
    split_ifs with hlt
    · obtain ⟨inner, hinner, -⟩ := a.groupOf_yields h.brackets hk (by omega : k < a.size)
      simp only [hinner, Option.bind_eq_bind, Option.bind_some]
      split_ifs
      · exact .done hk
      · exact .next (by omega) (by omega)
    · exact .done hk
  refine hselect.bind fun k hk => ?_
  split_ifs with hend
  · exact yields_some (by simp)
  have hmod : Yields (loop (a.modifierTurn stop) (a.toks.length + 1) (k + 1)) fun k => 0 ≤ k := by
    refine loop_total (fun k => 0 ≤ k) (fun k : ℤ => (a.toks.length - k).toNat) (fun k hk => ?_)
      (by omega) (by omega)
    unfold modifierTurn
    split_ifs with hlt hkw hon htop
    · obtain ⟨c, hc, hc'⟩ := a.closeOf_yields h.brackets hon.2
      rw [hc]
      change Advances _ _ _ _ (some (.next (c + 1)))
      exact .next (by omega) (by omega)
    · exact .next (by omega) (by omega)
    · obtain ⟨c, hc, hc'⟩ := a.past_yields h.brackets (k + 1)
      have := le_skipKw a.toks "PERCENT" c
      rw [hc]
      change Advances _ _ _ _ (some (.next (skipKw a.toks "PERCENT" c)))
      exact .next (by omega) (by omega)
    · exact .done hk
    · exact .done hk
  refine hmod.bind fun k hk => ?_
  refine loop_total
    (fun s : ℤ × List ℤ × List (List ℤ) =>
      0 ≤ s.1 ∧ a.Indices s.2.1 ∧ ∀ item ∈ s.2.2, a.Indices item)
    (fun s => (a.toks.length - s.1).toNat) (fun s hs => ?_) ⟨hk, by simp [Indices], by simp⟩
    (by simp only; omega)
  obtain ⟨k, item, items⟩ := s
  obtain ⟨hk, hitem, hitems⟩ := hs
  have hsnoc : ∀ x ∈ items ++ [item], a.Indices x := fun x hx => by
    rcases List.mem_append.mp hx with hx | hx
    · exact hitems x hx
    · exact List.mem_singleton.mp hx ▸ hitem
  simp only [itemTurn]
  simp only at hk
  split_ifs with hlt hkw hcomma
  · exact .done hsnoc
  · exact .next ⟨by simp only; omega, by simp [Indices], hsnoc⟩ (by simp only; omega)
  · obtain ⟨c, hc, hc'⟩ := a.past_yields h.brackets k
    rw [hc]
    change Advances _ _ _ _ (some (.next (c, item ++ [k], items)))
    refine .next ⟨by simp only; omega, fun i hi => ?_, hitems⟩ (by simp only; omega)
    rcases List.mem_append.mp hi with hi | hi
    · exact hitem i hi
    · rw [List.mem_singleton.mp hi]
      omega
  · exact .done hsnoc

variable {refCols : RelationRef → Option (List ColInfo)}
  (hcols : ∀ r ∈ a.refs, Yields (refCols r) fun _ => True)
include hcols

omit h in
theorem columnInfo_yields (info : ColInfo) {refs : List RelationRef} (hrefs : ∀ r ∈ refs, r ∈ a.refs) :
    Yields (columnInfo refCols info refs) fun _ => True := by
  induction refs generalizing info with
  | nil => exact yields_some trivial
  | cons r refs ih =>
    obtain ⟨hr, hrefs⟩ := List.forall_mem_cons.mp hrefs
    refine (hcols r hr).bind fun cols _ => ?_
    simp only
    split_ifs
    · exact yields_some trivial
    · exact ih _ hrefs

omit hcols h in
theorem item_yields {item : List ℤ} (hitem : a.Indices item) {i : ℤ} (h0 : 0 ≤ i)
    (hi : i < item.length) : Yields (at? item i) fun k => 0 ≤ k ∧ k < a.size := by
  obtain ⟨k, hk, hat⟩ := at?_isSome h0 hi
  exact ⟨k, hat, hitem k hk⟩

theorem starColumns_yields {item : List ℤ} (hitem : a.Indices item) {g : ℤ}
    (hg : g < a.groups.length) : Yields (a.starColumns refCols item g) fun _ => True := by
  simp only [starColumns]
  split_ifs with h1 h3
  · exact (mapM_yields fun r hr => hcols r (mem_visibleRefsIn hr)).map fun _ _ => trivial
  · refine (item_yields hitem (by omega) (by omega)).bind fun dot _ => ?_
    refine (item_yields hitem (by omega) (by omega)).bind fun owner _ => ?_
    split_ifs with hdot
    · refine (textAt_yields hdot.2).bind fun name _ => ?_
      refine (findRefIn_yields h name hg).bind fun r hr => ?_
      cases r with
      | none => exact yields_some trivial
      | some r => exact hcols r (hr r rfl)
    · exact yields_some trivial
  · exact yields_some trivial

theorem chainColumn_yields {item : List ℤ} (hitem : a.Indices item) {g : ℤ}
    (hg : g < a.groups.length) (name : Text) :
    Yields (a.chainColumn refCols item g name) fun _ => True := by
  have howner : Yields (a.chainOwner item g) fun r => ∀ x ∈ r, x ∈ a.refs := by
    simp only [chainOwner]
    split_ifs
    · refine (item_yields hitem (by omega) (by omega)).bind fun owner ho => ?_
      obtain ⟨tok, -, htok⟩ := at?_isSome ho.1 ho.2
      refine Yields.bind (P := fun _ => True) ⟨_, by rw [textAt, htok]; rfl, trivial⟩ fun t _ => ?_
      exact findRefIn_yields h t hg
    · exact yields_some (by simp)
  refine howner.bind fun owner ho => columnInfo_yields hcols _ fun r hr => ?_
  cases owner with
  | some x => exact List.mem_singleton.mp hr ▸ ho x rfl
  | none =>
    simp only at hr
    split_ifs at hr
    · exact mem_visibleRefsIn hr
    · simp at hr

theorem deriveItem_yields {item : List ℤ} (hitem : a.Indices item) {g : ℤ}
    (hg : g < a.groups.length) : Yields (a.deriveItem refCols item g) fun _ => True := by
  unfold deriveItem
  by_cases hnil : item = []
  · rw [if_pos hnil]
    exact yields_some trivial
  rw [if_neg hnil]
  have hlen := List.length_pos_iff.mpr hnil
  refine (item_yields hitem (by omega) (by omega)).bind fun last hlast => ?_
  refine (Yields.at a.toks hlast.1 hlast.2).bind fun tok _ => ?_
  by_cases hstar : tok = .op ['*']
  · rw [if_pos hstar]
    exact starColumns_yields h hcols hitem hg
  rw [if_neg hstar]
  by_cases hid : (!isIdent a.toks last) = true
  · rw [if_pos hid]
    exact yields_some trivial
  rw [if_neg hid]
  have hbefore : Yields (a.tokenBefore item) fun _ => True := by
    simp only [tokenBefore]
    split_ifs
    · refine (item_yields hitem (by omega) (by omega)).bind fun k hk => ?_
      exact (Yields.at a.toks hk.1 hk.2).bind fun tok _ => yields_some trivial
    · exact yields_some trivial
  refine hbefore.bind fun before _ => ?_
  split_ifs
  · exact yields_some trivial
  · exact (chainColumn_yields h hcols hitem hg _).map fun _ _ => trivial
  · exact yields_some trivial
  · exact yields_some trivial
  · exact yields_some trivial

end SelectList

section Columns

theorem selectColumns_yields {refCols : RelationRef → ℕ → Option (List ColInfo)} {depth : ℕ}
    (hcols : depth ≤ 6 → ∀ r ∈ a.refs, Yields (refCols r (depth + 1)) fun _ => True) {g : ℤ}
    (h0 : 0 ≤ g) (hg : g < a.groups.length) :
    Yields (a.selectColumns refCols g depth) fun _ => True := by
  unfold selectColumns
  split_ifs with hdepth
  · exact yields_some trivial
  · refine (selectItems_yields h h0 hg).bind fun items hitems => ?_
    refine (mapM_yields fun item hi => deriveItem_yields h (hcols (by omega)) (hitems item hi) hg).bind
      fun _ _ => yields_some trivial

theorem cteColumns_yields {refCols : RelationRef → ℕ → Option (List ColInfo)} {depth : ℕ}
    (hcols : depth + 1 ≤ 6 → ∀ r ∈ a.refs, Yields (refCols r (depth + 2)) fun _ => True) {c : Cte}
    (hc : c ∈ a.ctes) : Yields (a.cteColumns refCols c depth) fun _ => True := by
  unfold cteColumns
  split_ifs with h0
  · exact (selectColumns_yields h hcols h0 (h.ctes c hc)).map fun _ _ => trivial
  · exact yields_some trivial

omit h in
theorem mem_of_pathCte {path : List Text} {c : Cte} (hc : a.pathCte path = some c) : c ∈ a.ctes := by
  unfold pathCte at hc
  split at hc
  · exact List.mem_of_find?_eq_some hc
  · cases hc

/-- Each call of `refColumns` from inside itself is two levels deeper, so the depth check ends
the recursion, also where CTEs and derived tables refer to themselves. -/
theorem columnsWithin_yields {n depth : ℕ} (hn : 6 < depth + 2 * n) {r : RelationRef}
    (hr : r ∈ a.refs) : Yields (a.columnsWithin (n + 1) r depth) fun _ => True := by
  induction n generalizing depth r with
  | zero =>
    have hdepth : 6 < depth := by omega
    rw [columnsWithin, columnsStep, if_pos hdepth]
    exact yields_some trivial
  | succ n ih =>
    rw [columnsWithin, columnsStep]
    split_ifs with hdepth
    · exact yields_some trivial
    have hcols : ∀ r ∈ a.refs, Yields (a.columnsWithin (n + 1) r (depth + 2)) fun _ => True :=
      fun r hr => ih (by omega) hr
    have hsource : Yields (a.sourceColumns (a.columnsWithin (n + 1)) r depth) fun _ => True := by
      unfold sourceColumns
      split_ifs with h0
      · exact selectColumns_yields h (fun _ => hcols) h0 (h.refs r hr).derived_lt
      · exact yields_some trivial
      · cases hc : a.pathCte r.path with
        | none => exact yields_some trivial
        | some c => exact cteColumns_yields h (fun _ => hcols) (mem_of_pathCte hc)
    exact hsource.map fun _ _ => trivial

theorem refColumns_yields {r : RelationRef} (hr : r ∈ a.refs) :
    Yields (a.refColumns r) fun _ => True := columnsWithin_yields h (by omega) hr

theorem cteColumnsAt_yields {c : Cte} (hc : c ∈ a.ctes) :
    Yields (a.cteColumnsAt c) fun _ => True :=
  cteColumns_yields h (fun _ _ hr => columnsWithin_yields h (by omega) hr) hc

theorem pathRef_yields (path : List Text) {g : ℤ} (hg : g < a.groups.length) :
    Yields (a.pathRef path g) fun r => ∀ x ∈ r, x ∈ a.refs := by
  unfold pathRef
  split
  · exact findRef_yields h _ hg
  · exact yields_some (by simp)

end Columns

section Offers

variable (e : Emitter)

theorem memberOffers_yields (qualifier : List Text) {g : ℤ} (hg : g < a.groups.length) (kind : Ctx) :
    Yields (a.memberOffers e qualifier g kind) fun _ => True := by
  have hcols : Yields (a.memberColumns qualifier g kind) fun _ => True := by
    unfold memberColumns
    split_ifs
    · refine (pathRef_yields h qualifier hg).bind fun r hr => ?_
      cases r with
      | some r => exact refColumns_yields h (hr r rfl)
      | none =>
        cases hc : a.pathCte qualifier with
        | some c => simpa only [hc] using cteColumnsAt_yields h (mem_of_pathCte hc)
        | none => simpa only [hc] using yields_some trivial
    · exact yields_some trivial
  exact hcols.bind fun cols _ => yields_some trivial

theorem targetOffers_yields (target : List Text) :
    Yields (a.targetOffers e target) fun _ => True := by
  have hcte : Yields (a.targetCte target) fun _ => True := by
    unfold targetCte
    cases hc : a.pathCte target with
    | some c => exact cteColumnsAt_yields h (mem_of_pathCte hc)
    | none => exact yields_some trivial
  exact hcte.bind fun cols _ => yields_some trivial

omit h in
theorem mem_of_firstOfName {α : Type} {name : α → Text} {seen : List Text} {xs : List α} {x : α}
    (hx : x ∈ firstOfName name seen xs) : x ∈ xs := by
  induction xs generalizing seen with
  | nil => simp [firstOfName] at hx
  | cons y ys ih =>
    rw [firstOfName] at hx
    split_ifs at hx
    · exact List.mem_cons_of_mem _ (ih hx)
    · rcases List.mem_cons.mp hx with rfl | hx
      · exact List.mem_cons_self
      · exact List.mem_cons_of_mem _ (ih hx)

theorem columnOffers_yields {g : ℤ} (hg : g < a.groups.length) :
    Yields (a.columnOffers e g) fun _ => True := by
  refine (visibleRefs_yields h hg).bind fun refs hrefs => ?_
  refine Yields.bind (mapM_yields (Q := fun _ => True) fun r hr => ?_) fun _ _ => yields_some trivial
  exact (refColumns_yields h (hrefs r (mem_of_firstOfName hr))).bind fun cols _ => yields_some trivial

theorem offers_yields {cur : ℤ} (h0 : 0 ≤ cur) (hcur : cur ≤ a.size) :
    Yields (a.offers e cur) fun _ => True := by
  refine (qualifierBefore_yields a.toks cur).bind fun p hp => ?_
  obtain ⟨qualifier, chainStart⟩ := p
  simp only at hp
  refine (a.groupAt_yields h.brackets cur).bind fun g hg => ?_
  refine (detectContext_yields h.brackets (hp.2 h0) (by omega)).bind fun ctx _ => ?_
  by_cases hq : qualifier ≠ []
  · rw [if_pos hq]
    exact memberOffers_yields h e qualifier hg.2 ctx.kind
  · rw [if_neg hq]
    cases ctx.kind with
    | targetColumns => exact targetOffers_yields h e ctx.target
    | column => exact columnOffers_yields h e hg.2
    | _ => exact yields_some trivial

end Offers

section Resolve

variable (out : ResolvedIdentifier)

omit h in
theorem firstFound_yields {tries : List (Option (Option ResolvedIdentifier))}
    (ht : ∀ t ∈ tries, Yields t fun _ => True) : Yields (firstFound tries) fun _ => True := by
  induction tries with
  | nil => exact yields_some trivial
  | cons t tries ih =>
    obtain ⟨h1, h2⟩ := List.forall_mem_cons.mp ht
    refine h1.bind fun r _ => ?_
    cases r with
    | some out => exact yields_some trivial
    | none => exact ih h2

theorem resolveMember_yields (qualifier : List Text) (name : Text) {g : ℤ}
    (hg : g < a.groups.length) : Yields (a.resolveMember out qualifier name g) fun _ => True := by
  have href : Yields (a.refMember out qualifier name g) fun _ => True := by
    refine (pathRef_yields h qualifier hg).bind fun r hr => ?_
    cases r with
    | none => exact yields_some trivial
    | some r => exact (refColumns_yields h (hr r rfl)).bind fun cols _ => yields_some trivial
  have hcte : Yields (a.cteMember out qualifier name) fun _ => True := by
    unfold cteMember
    cases hc : a.pathCte qualifier with
    | none => exact yields_some trivial
    | some c => exact (cteColumnsAt_yields h (mem_of_pathCte hc)).bind fun cols _ => yields_some trivial
  apply firstFound_yields
  simp only [List.forall_mem_cons]
  exact ⟨href, hcte, yields_some trivial, yields_some trivial, yields_some trivial, by simp⟩

theorem asColumn_yields (name : Text) {g : ℤ} (hg : g < a.groups.length) (ctx : Context) :
    Yields (a.asColumn out name g ctx) fun _ => True := by
  unfold asColumn
  split_ifs
  · exact yields_some trivial
  refine (visibleRefs_yields h hg).bind fun refs hrefs => ?_
  induction refs with
  | nil => exact yields_some trivial
  | cons r refs ih =>
    obtain ⟨hr, hrefs⟩ := List.forall_mem_cons.mp hrefs
    refine (refColumns_yields h hr).bind fun cols _ => ?_
    cases columnIn cols name with
    | some c => exact yields_some trivial
    | none => exact ih hrefs

theorem resolveBare_yields (name : Text) {g : ℤ} (hg : g < a.groups.length) (isQualifier : Bool)
    (ctx : Context) : Yields (a.resolveBare out name g isQualifier ctx) fun _ => True := by
  have href : Yields (a.asRef out name g) fun _ => True :=
    (findRef_yields h name hg).bind fun r _ => yields_some trivial
  have hcol := asColumn_yields h out name hg ctx
  have hsome : ∀ x : Option ResolvedIdentifier, Yields (some x) fun _ => True :=
    fun _ => yields_some trivial
  unfold resolveBare
  split_ifs <;> apply firstFound_yields <;> simp only [List.forall_mem_cons]
  · exact ⟨hsome _, hsome _, hsome _, by simp⟩
  · exact ⟨href, hsome _, hsome _, hsome _, by simp⟩
  · exact ⟨hsome _, hsome _, hsome _, by simp⟩
  · exact ⟨href, hsome _, hsome _, by simp⟩
  · exact ⟨hcol, href, hsome _, hsome _, hsome _, by simp⟩

theorem resolveName_yields {i : ℤ} (h0 : 0 ≤ i) (hi : i < a.size) :
    Yields (a.resolveName out i) fun _ => True := by
  refine Yields.bind ((Yields.at a.toks h0 hi).map (Q := fun _ => True) fun _ _ => trivial)
    fun name _ => ?_
  refine (qualifierBefore_yields a.toks i).bind fun p _ => ?_
  refine (a.groupOf_yields h.brackets h0 hi).bind fun g hg => ?_
  obtain ⟨qualifier, chainStart⟩ := p
  by_cases hq : qualifier ≠ []
  · simp only
    rw [if_pos hq]
    exact resolveMember_yields h out qualifier name hg.2
  · simp only
    rw [if_neg hq]
    exact (detectContext_yields h.brackets h0 hi.le).bind fun ctx _ =>
      resolveBare_yields h out name hg.2 _ ctx

end Resolve
end Analyzer

section Matching

theorem ifind_bounds {s p : Text} (hp : p ≠ []) {start pos : ℕ} (h : ifind s p start = some pos) :
    start ≤ pos ∧ pos + p.length ≤ s.length ∧ ieq (slice s pos (pos + p.length)) p := by
  rw [ifind, if_neg hp] at h
  have hmem := List.mem_of_find?_eq_some h
  obtain ⟨i, hi, he⟩ := List.mem_iff_getElem.mp hmem
  rw [List.length_drop, List.length_range] at hi
  rw [List.getElem_drop, List.getElem_range] at he
  have := List.length_pos_iff.mpr hp
  exact ⟨by omega, by omega, by simpa using List.find?_some h⟩

theorem istartsWith_of_ifind {s p : Text} (hp : p ≠ []) (h : ifind s p 0 = some 0) :
    istartsWith s p = true := by
  obtain ⟨-, hlen, he⟩ := ifind_bounds hp h
  rw [istartsWith, Bool.and_eq_true, decide_eq_true_eq]
  exact ⟨by omega, by simpa [slice] using he⟩

/-- The byte before an occurrence is read only where there is one: an occurrence at the front is
a prefix. -/
theorem matchTier_yields (label pre : Text) (fuzzy : Bool) :
    Yields (matchTier label pre fuzzy) fun _ => True := by
  unfold matchTier
  split_ifs with hnil hpre hstart
  · exact yields_some trivial
  · exact yields_some trivial
  · exact yields_some trivial
  have hfirst : ∀ pos, ifind label pre 0 = some pos → 0 < pos := fun pos hpos => by
    rcases Nat.eq_zero_or_pos pos with rfl | hlt
    · exact absurd (istartsWith_of_ifind hnil hpos) hstart
    · exact hlt
  have hlen := List.length_pos_iff.mpr hnil
  have hrun : Yields (loop (boundaryTurn label pre) (label.length + 2) (ifind label pre 0))
      fun _ => True := by
    refine loop_total (fun found => ∀ pos ∈ found, 0 < pos ∧ pos < label.length)
      (fun found => found.elim 0 fun pos => label.length + 1 - pos) (fun found hf => ?_)
      (fun pos hpos => ⟨hfirst pos hpos, ?_⟩) ?_
    · cases found with
      | none => exact .done trivial
      | some pos =>
        obtain ⟨hpos, hlt⟩ := hf pos rfl
        obtain ⟨before, -, hbefore⟩ := at?_isSome (l := label) (i := (pos : ℤ) - 1) (by omega) (by omega)
        obtain ⟨here, -, hhere⟩ := at?_isSome (l := label) (i := (pos : ℤ)) (by omega) (by omega)
        simp only [boundaryTurn, hbefore, hhere, Option.bind_eq_bind, Option.bind_some]
        split_ifs
        · exact .done trivial
        · refine .next (fun next hnext => ?_) ?_
          · have := ifind_bounds hnil hnext
            omega
          · cases hnext : ifind label pre (pos + 1) with
            | none => simp only [Option.elim_none, Option.elim_some]; omega
            | some next =>
              have := ifind_bounds hnil hnext
              simp only [Option.elim_some]
              omega
    · have := ifind_bounds hnil hpos
      omega
    · cases ifind label pre 0 with
      | none => simp
      | some pos => simp only [Option.elim_some]; omega
  exact hrun.map fun _ _ => trivial

theorem Emitter.take_yields (e : Emitter) (offers : List Offer) :
    Yields (e.take offers) fun _ => True := by
  have hadd : ∀ o ∈ offers, Yields (e.add o) fun _ => True := fun o _ => by
    unfold Emitter.add
    by_cases hk : e.quoted ∧ (o.kind = .keyword ∨ o.kind = .function)
    · rw [if_pos hk]
      exact yields_some trivial
    · rw [if_neg hk]
      refine (matchTier_yields o.label e.prefix_ o.fuzzy).bind fun tier _ => ?_
      split_ifs <;> exact yields_some trivial
  have hitems : Yields (e.items offers) fun _ => True := (mapM_yields hadd).map fun _ _ => trivial
  exact hitems.map fun _ _ => trivial

end Matching

section Main

theorem typedFrom_cur (sql : Text) (cursor i : ℕ) (toks : List Token) :
    (typedFrom sql cursor i toks).cur ≤ i + toks.length := by
  induction toks generalizing i with
  | nil => simp [typedFrom]
  | cons t ts ih =>
    rw [typedFrom, List.length_cons]
    split_ifs
    · simp only; omega
    · simp only; omega
    · simp only; omega
    · exact (ih (i + 1)).trans (by omega)

theorem identifierFrom_index {offset i : ℕ} {at_ : Option (ℕ × Token)} {toks : List Token}
    (hat : ∀ p ∈ at_, p.1 < i) {p : ℕ × Token} (hp : identifierFrom offset i at_ toks = some p) :
    p.1 < i + toks.length := by
  induction toks generalizing i at_ with
  | nil => exact hat p hp
  | cons t ts ih =>
    have hlen : i + (t :: ts).length = i + 1 + ts.length := by
      rw [List.length_cons]
      omega
    rw [identifierFrom] at hp
    rw [hlen]
    split_ifs at hp with hid hin hat'
    · exact ih (fun p hp => (hat p hp).trans (by omega)) hp
    · obtain rfl : (i, t) = p := by simpa using hp
      simp only
      omega
    · refine ih (fun p hp => ?_) hp
      cases hp
      simp
    · exact ih (fun p hp => (hat p hp).trans (by omega)) hp

theorem offersAt_yields (sql : Text) (cursor : ℕ) (catalog : CompletionCatalog)
    (type : DatabaseType) : Yields (offersAt sql cursor catalog type) fun _ => True := by
  simp only [offersAt]
  by_cases hsql : (!isSqlDialect type) = true
  · rw [if_pos hsql]
    exact yields_some trivial
  rw [if_neg hsql]
  refine (analyze_yields catalog _).bind fun a ha => ?_
  split_ifs
  · exact yields_some trivial
  have hcur := typedFrom_cur sql cursor 0
    (statementTokens (tokenize sql (dialectFor type)) cursor sql.length)
  have hsize : a.size =
      (statementTokens (tokenize sql (dialectFor type)) cursor sql.length).length := by
    rw [Brackets.size, ha.2.1, syms, List.length_map]
  exact (a.offers_yields ha.1 _ (by omega) (by omega)).bind fun offers _ => yields_some trivial

theorem complete_yields (sql : Text) (cursor : ℕ) (catalog : CompletionCatalog)
    (type : DatabaseType) : Yields (complete sql cursor catalog type) fun _ => True :=
  (offersAt_yields sql (min cursor sql.length) catalog type).bind fun p _ =>
    (Emitter.take_yields _ p.2).bind fun _ _ => yields_some trivial

theorem resolveIdentifierAt_yields (sql : Text) (offset : ℕ) (catalog : CompletionCatalog)
    (type : DatabaseType) : Yields (resolveIdentifierAt sql offset catalog type) fun _ => True := by
  simp only [resolveIdentifierAt]
  split_ifs
  · exact yields_some trivial
  refine (analyze_yields catalog _).bind fun a ha => ?_
  cases hid : identifierFrom (min offset sql.length) 0 none
      (statementTokens (tokenize sql (dialectFor type)) (min offset sql.length) sql.length) with
  | none => exact yields_some trivial
  | some p =>
    have hp := identifierFrom_index (by simp) hid
    have hsize : a.size = (statementTokens (tokenize sql (dialectFor type)) (min offset sql.length)
        sql.length).length := by
      rw [Brackets.size, ha.2.1, syms, List.length_map]
    exact a.resolveName_yields ha.1 _ (by omega) (by omega)

/-- Completion and resolution have a result on every text, at every cursor: no read is out of
range and every loop and recursion ends. -/
theorem completion_in_bounds (sql : Text) (cursor : ℕ) (catalog : CompletionCatalog)
    (type : DatabaseType) :
    (∃ r, complete sql cursor catalog type = some r) ∧
      (∃ r, resolveIdentifierAt sql cursor catalog type = some r) ∧
      (∀ label pre fuzzy, ∃ tier, matchTier label pre fuzzy = some tier) ∧
      ∀ toks, ∃ a, analyze catalog toks = some a ∧
        (∀ r ∈ a.refs, ∃ cols, a.refColumns r = some cols) ∧
        ∀ c ∈ a.ctes, ∃ cols, a.cteColumnsAt c = some cols := by
  have hsome : ∀ {α : Type} {o : Option α}, Yields o (fun _ => True) → ∃ x, o = some x :=
    fun ⟨x, hx, _⟩ => ⟨x, hx⟩
  refine ⟨hsome (complete_yields sql cursor catalog type),
    hsome (resolveIdentifierAt_yields sql cursor catalog type),
    fun label pre fuzzy => hsome (matchTier_yields label pre fuzzy), fun toks => ?_⟩
  obtain ⟨a, ha, hwf, -⟩ := analyze_yields catalog toks
  exact ⟨a, ha, fun r hr => hsome (a.refColumns_yields hwf hr),
    fun c hc => hsome (a.cteColumnsAt_yields hwf hc)⟩

end Main
end DearSql
