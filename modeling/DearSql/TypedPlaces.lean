import DearSql.CompleteBounds
import DearSql.GroupTree
import DearSql.Items

/-! The place of a completion: the qualifier before it, its context, and what the statement puts in
scope there. It decides what is offered, and the word that is typed changes only the scope. -/
namespace DearSql
open Lexing Loops

section Place

/-- The names that a statement puts in scope at a place, as offers without their inserted texts,
and whether no reference is in reach of an expression. -/
structure Scope where
  names : List Offer := []
  bare : Bool := false
  deriving DecidableEq, Repr

structure Place where
  qualifier : List Text
  ctx : Context
  scope : Scope
  deriving DecidableEq, Repr

def scopeColumns (cols : List ColInfo) (owner : Text) : List Offer :=
  cols.map fun c =>
    { label := c.name, kind := .column, detail := c.type, owner := owner, insert := [], bonus := 900 }

namespace Analyzer

variable (a : Analyzer)

def refNames (r : RelationRef) : Option (List Offer) :=
  (a.refColumns r).map fun cols => scopeColumns cols r.name ++
    [{ label := r.name, kind := .alias_, detail := a.refDetail r, insert := [], bonus := 750 }]

/-- The CTEs in a table slot, the columns behind a qualifier or of a target, and in an expression
the references in reach with their columns. -/
def scopeOf (qualifier : List Text) (group : ℤ) (ctx : Context) : Option Scope :=
  if qualifier ≠ [] then
    (a.memberColumns qualifier group ctx.kind).map fun cols =>
      { names := scopeColumns cols (qualifier.getLastD []) }
  else
    match ctx.kind with
    | .relation =>
      some { names := a.ctes.map fun c =>
        { label := c.name, kind := .table, detail := "cte".toList, insert := [], bonus := 950 } }
    | .targetColumns =>
      (a.targetCte ctx.target).map fun cols =>
        { names := scopeColumns (if cols = [] then a.catalogColumns ctx.target else cols)
            (ctx.target.getLastD []) }
    | .column => do
      let refs ← a.visibleRefs group
      let named ← (firstOfName RelationRef.name [] refs).mapM a.refNames
      some { names := named.flatten, bare := refs = [] }
    | .none | .statementStart | .keyword | .afterRelation => some {}

def placeAt (cur : ℤ) : Option Place := do
  let (qualifier, chainStart) ← qualifierBefore a.toks cur
  let group ← a.groupAt cur
  let ctx ← detectContext a.toBrackets chainStart
  let scope ← a.scopeOf qualifier group ctx
  some ⟨qualifier, ctx, scope⟩

end Analyzer

/-- What else a place is offered: keywords, functions and names of the catalog. -/
def Emitter.general (e : Emitter) (catalog : CompletionCatalog) (qualifier : List Text) (kind : Ctx)
    (bare : Bool) : List Offer :=
  if qualifier ≠ [] then addSchemaMembers e catalog qualifier 700 (kind ≠ .relation)
  else
    match kind with
    | .none | .targetColumns => []
    | .statementStart => addKeywords e statementKeywords 500 300
    | .keyword => addKeywords e [] 500 0
    | .afterRelation => addKeywords e clauseKeywords 400 400
    | .relation => addRelations e catalog 900 880 ++ addSchemas e catalog 700 ++
      if e.prefix_ = [] then []
      else ((sqlKeywords e.type).filter relationKeywords.contains).map fun kw =>
        { label := kw, kind := .keyword, insert := e.keyword kw, bonus := 300, fuzzy := false }
    | .column => addFunctions e catalog 600 ++ addKeywords e [] 450 0 ++
      (if bare then addRelations e catalog 300 280 else []) ++
      (if e.type = .ORACLE then
        catalog.sequences.map fun s =>
          { label := s.name, kind := .sequence, detail := "sequence".toList, owner := s.schema
            insert := e.name s.name, bonus := 200 }
      else [])

theorem kind_addRelations {e : Emitter} {catalog : CompletionCatalog} {b1 b2 : ℤ} {o : Offer}
    (ho : o ∈ addRelations e catalog b1 b2) : o.kind ≠ .column := by
  rcases List.mem_append.mp ho with ho | ho
  all_goals
    obtain ⟨t, -, rfl⟩ := List.mem_map.mp ho
    simp [addRelation]

/-- Columns are offered for what is in scope only. -/
theorem kind_general {e : Emitter} {catalog : CompletionCatalog} {qualifier : List Text}
    {kind : Ctx} {bare : Bool} {o : Offer} (ho : o ∈ e.general catalog qualifier kind bare) :
    o.kind ≠ .column := by
  have hkeywords {boosted : List Text} {base boost : ℤ}
      (ho : o ∈ addKeywords e boosted base boost) : o.kind ≠ .column := by
    obtain ⟨kw, -, rfl⟩ := List.mem_map.mp ho
    simp
  unfold Emitter.general at ho
  by_cases hq : qualifier ≠ []
  · rw [if_pos hq] at ho
    exact kind_addSchemaMembers ho
  rw [if_neg hq] at ho
  cases kind with
  | none | targetColumns => cases ho
  | statementStart | keyword | afterRelation => exact hkeywords ho
  | relation =>
    rcases List.mem_append.mp ho with ho | ho
    · rcases List.mem_append.mp ho with ho | ho
      · exact kind_addRelations ho
      · obtain ⟨_, -, rfl⟩ := List.mem_map.mp ho
        simp
    · split_ifs at ho
      · cases ho
      · obtain ⟨_, -, rfl⟩ := List.mem_map.mp ho
        simp
  | column =>
    simp only [List.mem_append] at ho
    rcases ho with ((ho | ho) | ho) | ho
    · rcases List.mem_append.mp ho with ho | ho
      all_goals
        obtain ⟨_, -, rfl⟩ := List.mem_map.mp ho
        simp
    · exact hkeywords ho
    · split_ifs at ho
      · exact kind_addRelations ho
      · cases ho
    · split_ifs at ho
      · obtain ⟨_, -, rfl⟩ := List.mem_map.mp ho
        simp
      · cases ho

/-- An offer without the text that is inserted, which follows the case of what is typed. -/
def Offer.plain (o : Offer) : Offer := { o with insert := [] }

variable {a : Analyzer} {e : Emitter}

theorem plain_addColumns (e : Emitter) (cols : List ColInfo) (owner : Text) :
    (addColumns e cols owner 900).map Offer.plain = scopeColumns cols owner := by
  simp [addColumns, scopeColumns, Offer.plain]

theorem refNames_eq (r : RelationRef) :
    a.refNames r = (a.refOffers e r).map (List.map Offer.plain) := by
  unfold Analyzer.refNames Analyzer.refOffers
  cases a.refColumns r with
  | none => rfl
  | some cols =>
    simp only [Option.map_some, Option.bind_eq_bind, Option.bind_some, List.map_append,
      plain_addColumns]
    rfl

theorem mapM_refNames {refs : List RelationRef} {named : List (List Offer)}
    (h : refs.mapM (a.refOffers e) = some named) :
    refs.mapM a.refNames = some (named.map (List.map Offer.plain)) := by
  induction refs generalizing named with
  | nil =>
    cases h
    rfl
  | cons r refs ih =>
    rw [List.mapM_cons] at h ⊢
    obtain ⟨x, hx, h⟩ := Option.bind_eq_some_iff.mp h
    obtain ⟨xs, hxs, h⟩ := Option.bind_eq_some_iff.mp h
    cases h
    rw [refNames_eq (e := e), hx, ih hxs]
    rfl

/-- The offers of a place are the names in scope and what else it is offered. -/
theorem offers_placeAt {cur : ℤ} {offers : List Offer} (h : a.offers e cur = some offers) :
    ∃ place own, a.placeAt cur = some place ∧ own.map Offer.plain = place.scope.names ∧
      offers = own ++ e.general a.catalog place.qualifier place.ctx.kind place.scope.bare := by
  obtain ⟨⟨qualifier, start⟩, hq, h⟩ := Option.bind_eq_some_iff.mp h
  obtain ⟨group, hg, h⟩ := Option.bind_eq_some_iff.mp h
  obtain ⟨ctx, hc, h⟩ := Option.bind_eq_some_iff.mp h
  suffices hscope : ∃ scope own, a.scopeOf qualifier group ctx = some scope ∧
      own.map Offer.plain = scope.names ∧
      offers = own ++ e.general a.catalog qualifier ctx.kind scope.bare by
    obtain ⟨scope, own, hs, hown, hall⟩ := hscope
    refine ⟨⟨qualifier, ctx, scope⟩, own, ?_, hown, hall⟩
    simp [Analyzer.placeAt, hq, hg, hc, hs]
  unfold Analyzer.scopeOf Emitter.general
  by_cases hmember : qualifier ≠ []
  · rw [if_pos hmember] at h
    obtain ⟨cols, hcols, h⟩ := Option.bind_eq_some_iff.mp h
    refine ⟨_, addColumns e cols (qualifier.getLastD []) 900,
      by rw [if_pos hmember, hcols]; rfl, plain_addColumns e _ _, ?_⟩
    rw [if_pos hmember, ← Option.some_inj.mp h]
  rw [if_neg hmember] at h
  simp only [if_neg hmember]
  cases hk : ctx.kind with
  | none | statementStart | keyword | afterRelation =>
    rw [hk] at h
    exact ⟨_, [], rfl, rfl, (Option.some_inj.mp h).symm⟩
  | relation =>
    rw [hk] at h
    refine ⟨_, a.ctes.map fun c =>
      { label := c.name, kind := .table, detail := "cte".toList, insert := e.name c.name
        bonus := 950 }, rfl, by rw [List.map_map]; rfl, ?_⟩
    rw [← Option.some_inj.mp h, Analyzer.relationOffers, List.append_assoc, List.append_assoc,
      ← List.append_assoc (addRelations _ _ _ _)]
  | targetColumns =>
    rw [hk] at h
    obtain ⟨cols, hcols, h⟩ := Option.bind_eq_some_iff.mp h
    refine ⟨_, _, by rw [hcols]; rfl, plain_addColumns e _ _, ?_⟩
    rw [← Option.some_inj.mp h, List.append_nil]
  | column =>
    rw [hk] at h
    obtain ⟨refs, hrefs, h⟩ := Option.bind_eq_some_iff.mp h
    obtain ⟨named, hnamed, h⟩ := Option.bind_eq_some_iff.mp h
    refine ⟨_, named.flatten, by
      rw [hrefs, Option.bind_eq_bind, Option.bind_some, mapM_refNames hnamed]
      rfl, List.map_flatten, ?_⟩
    rw [← Option.some_inj.mp h]
    simp only [decide_eq_true_eq, List.append_assoc]

end Place

section Retyped

/-- The path that ends before a place is read off the tokens in front of it. -/
theorem qualifierBefore_congr {toks toks' : List Sym} {i : ℤ}
    (hat : ∀ j, j < i → at? toks' j = at? toks j) :
    qualifierBefore toks' i = qualifierBefore toks i := by
  refine loop_congr (fun s : ℤ × List Text × ℤ => s.1 < i) (fun s hs => ?_)
    (fun s s' hs hnext => ?_) (by simp only; omega)
  · rw [qualifierTurn, qualifierTurn, isPunct, isPunct, isIdent, isIdent, textAt, textAt,
      hat s.1 hs, hat (s.1 - 1) (by omega)]
  · rw [qualifierTurn] at hnext
    split_ifs at hnext
    · obtain ⟨t, -, hturn⟩ := Option.map_eq_some_iff.mp hnext
      obtain rfl := Turn.next.inj hturn
      simp only
      omega
    · cases hnext

/-- The same tokens in the same groups, but for the word at `cur`. -/
structure Retyped (cur : ℤ) (b b' : Brackets) : Prop where
  groups : b'.groups = b.groups
  marks : b'.groupOf_ = b.groupOf_
  openings : b'.opens_ = b.opens_
  length : b'.toks.length = b.toks.length
  other : ∀ i, i ≠ cur → at? b'.toks i = at? b.toks i
  word : ∃ w w', at? b.toks cur = some (.word w) ∧ at? b'.toks cur = some (.word w')
  built : buildGroups b.toks = some b

theorem at?_other {α : Type} (before after : List α) (x y : α) {i : ℤ} (h : i ≠ before.length) :
    at? (before ++ x :: after) i = at? (before ++ y :: after) i := by
  by_cases h0 : i < 0
  · rw [at?_neg h0, at?_neg h0]
  obtain ⟨n, rfl⟩ := Int.eq_ofNat_of_zero_le (not_lt.mp h0)
  rw [at?_ofNat, at?_ofNat]
  rcases Nat.lt_or_gt_of_ne fun he : n = before.length => h (by rw [he]) with hlt | hgt
  · rw [List.getElem?_append_left hlt, List.getElem?_append_left hlt]
  · obtain ⟨k, rfl⟩ := Nat.exists_eq_add_of_lt hgt
    rw [List.getElem?_append_right (by omega), List.getElem?_append_right (by omega),
      show before.length + k + 1 - before.length = k + 1 by omega]
    rfl

theorem isPunct_retyped {toks toks' : List Sym} {cur : ℤ}
    (hother : ∀ i, i ≠ cur → at? toks' i = at? toks i)
    (hword : ∃ w w', at? toks cur = some (.word w) ∧ at? toks' cur = some (.word w')) (i : ℤ)
    (c : Char) : isPunct toks' i c = isPunct toks i c := by
  by_cases hi : i = cur
  · obtain ⟨w, w', hw, hw'⟩ := hword
    simp [isPunct, hi, hw, hw']
  · rw [isPunct, isPunct, hother i hi]

theorem retyped_buildGroups {before after : List Sym} {w : Text} (w' : Text) {b : Brackets}
    (h : buildGroups (before ++ .word w :: after) = some b) :
    ∃ b', buildGroups (before ++ .word w' :: after) = some b' ∧ Retyped before.length b b' := by
  have hother : ∀ i, i ≠ (before.length : ℤ) →
      at? (before ++ .word w' :: after) i = at? (before ++ .word w :: after) i :=
    fun i hi => at?_other before after _ _ hi
  have hword : ∃ u u', at? (before ++ .word w :: after) before.length = some (.word u) ∧
      at? (before ++ .word w' :: after) before.length = some (.word u') := by simp
  have hlen : (before ++ .word w' :: after).length = (before ++ .word w :: after).length := by simp
  have hturn : groupTurn (before ++ .word w' :: after) = groupTurn (before ++ .word w :: after) := by
    funext s i
    rw [groupTurn, groupTurn, isPunct_retyped hother hword, isPunct_retyped hother hword, hlen]
  have hb := h
  unfold buildGroups at h ⊢
  rw [hturn, hlen]
  obtain ⟨s, hs, h⟩ := Option.bind_eq_some_iff.mp h
  obtain rfl := Option.some_inj.mp h
  exact ⟨⟨before ++ .word w' :: after, s.groups, s.groupOf_, s.opens_⟩, by rw [hs]; rfl,
    ⟨rfl, rfl, rfl, hlen, hother, hword, hb⟩⟩

namespace Retyped

variable {cur i : ℤ} {b b' : Brackets} {kw : String} {c : Char} (R : Retyped cur b b')
include R

section Reads

protected theorem isPunct : isPunct b'.toks i c = isPunct b.toks i c :=
  isPunct_retyped R.other R.word i c

protected theorem isIdent : isIdent b'.toks i = isIdent b.toks i := by
  by_cases hi : i = cur
  · obtain ⟨w, w', hw, hw'⟩ := R.word
    simp [isIdent, hi, hw, hw']
  · rw [isIdent, isIdent, R.other i hi]

protected theorem isKw (hi : i ≠ cur) : isKw b'.toks i kw = isKw b.toks i kw := by
  rw [isKw, isKw, R.other i hi]

protected theorem isKwIn {kws : List String} (hi : i ≠ cur) :
    isKwIn b'.toks i kws = isKwIn b.toks i kws := by
  simp only [isKwIn, R.isKw hi]

protected theorem textAt (hi : i ≠ cur) : textAt b'.toks i = textAt b.toks i := by
  rw [textAt, textAt, R.other i hi]

protected theorem closeOf : b'.closeOf i = b.closeOf i := by
  rw [Brackets.closeOf, Brackets.closeOf, R.openings, R.groups]

protected theorem groupOf : b'.groupOf i = b.groupOf i := by
  rw [Brackets.groupOf, Brackets.groupOf, R.marks]

protected theorem groupAt : b'.groupAt i = b.groupAt i := by
  have hturn : b'.stackTurn = b.stackTurn := by
    funext stack j
    rw [Brackets.stackTurn, Brackets.stackTurn, R.isPunct, R.isPunct, R.openings]
  rw [Brackets.groupAt, Brackets.groupAt, hturn, Brackets.size, Brackets.size, R.length]

/-- The group of a token before `cur` opens before it. -/
theorem opens_before {g : ℤ} {x : Group} (hi : i < cur) (hg : b.groupOf i = some g)
    (hx : at? b.groups g = some x) : x.openAt - 1 ≠ cur := by
  obtain ⟨h0, hlt, -⟩ := at?_bounds hg
  obtain ⟨hwf, -⟩ := wf_of_buildGroups R.built
  rw [hwf.lengthOf] at hlt
  obtain ⟨g', hg', y, hy, hin, -⟩ := (places_of_buildGroups R.built).groupOf i h0 hlt
  obtain rfl := Option.some_inj.mp (hg.symm.trans hg')
  obtain rfl := Option.some_inj.mp (hx.symm.trans hy)
  have := hin.1
  omega

end Reads

section Words

protected theorem isCreateTable (hi : i ≤ cur) : isCreateTable b'.toks i = isCreateTable b.toks i := by
  refine loop_congr (fun j => j < cur) (fun j hj => ?_) (fun j k hj hk => ?_) (by omega)
  · rw [createTurn, createTurn, R.isKwIn hj.ne, R.isKw hj.ne]
  · rw [createTurn] at hk
    split_ifs at hk
    · obtain rfl := Turn.next.inj (Option.some_inj.mp hk)
      omega
    · cases hk

protected theorem isTableFrom (hi : i < cur) : isTableFrom b' i = isTableFrom b i := by
  rw [isTableFrom, isTableFrom, R.isKw (by omega), R.groupOf, R.groups]
  split_ifs
  · rfl
  cases hg : b.groupOf i with
  | none => rfl
  | some g =>
    simp only [Option.bind_eq_bind, Option.bind_some]
    split_ifs
    · cases hx : at? b.groups g with
      | none => rfl
      | some x =>
        simp only [Option.bind_some]
        rw [R.isKwIn (R.opens_before hi hg hx)]
    · rfl

protected theorem isRelationKeyword (hi : i < cur) :
    isRelationKeyword b' i = isRelationKeyword b i := by
  rw [isRelationKeyword, isRelationKeyword, R.isKw hi.ne, R.isKw hi.ne, R.isTableFrom hi, R.isPunct,
    R.isKwIn hi.ne]

protected theorem relationSlotEmpty {start : ℤ} (hi : i < cur) (hstart : start ≤ cur) :
    relationSlotEmpty b' i start = relationSlotEmpty b i start := by
  rw [relationSlotEmpty, relationSlotEmpty, R.length, R.isKwIn hi.ne]
  refine loop_congr (fun _ => True) (fun s _ => ?_) (fun _ _ _ _ => trivial) trivial
  by_cases hlt : s.1 < start
  · simp only [slotTurn, R.isPunct, R.closeOf, R.isKwIn (show s.1 ≠ cur by omega)]
  · rw [slotTurn, slotTurn, if_neg hlt, if_neg hlt]

protected theorem wordContext {start : ℤ} (hi : i < cur) (hstart : start ≤ cur) (crossed : Bool) :
    wordContext b' start i crossed = wordContext b start i crossed := by
  rw [wordContext, wordContext, R.isRelationKeyword hi, R.isCreateTable hi.le,
    R.relationSlotEmpty hi hstart]
  simp only [R.isKw hi.ne, R.isKwIn hi.ne]

end Words

section Back

protected theorem qualifierBefore (hi : i ≤ cur) :
    qualifierBefore b'.toks i = qualifierBefore b.toks i :=
  qualifierBefore_congr fun j hj => R.other j (by omega)

protected theorem pathBefore (hi : i < cur) : pathBefore b'.toks i = pathBefore b.toks i := by
  rw [pathBefore, pathBefore, R.isIdent, R.qualifierBefore (by omega), R.textAt (by omega)]

protected theorem openContext (h0 : 0 ≤ i) (hi : i < cur) : openContext b' i = openContext b i := by
  rw [openContext, openContext, R.pathBefore hi]
  cases hp : pathBefore b.toks i with
  | none => rfl
  | some p =>
    have hle : p.2 ≤ i := by
      rw [pathBefore] at hp
      split_ifs at hp
      · obtain ⟨⟨path, first⟩, hq, hfirst, -⟩ := qualifierBefore_yields b.toks (i - 1)
        rw [hq, Option.bind_eq_bind, Option.bind_some] at hp
        obtain ⟨name, -, hp⟩ := Option.bind_eq_some_iff.mp hp
        obtain rfl := Option.some_inj.mp hp
        simp only at hfirst ⊢
        split_ifs <;> omega
      · obtain rfl := Option.some_inj.mp hp
        exact le_rfl
    simp only [Option.bind_eq_bind, Option.bind_some, statementStartsWith,
      R.isKw (show p.2 - 1 ≠ cur by omega), R.isKw (show i - 1 ≠ cur by omega),
      R.isKw (show (0 : ℤ) ≠ cur by omega)]
    rfl

protected theorem contextBack {start : ℤ} (hstart : start ≤ cur) (k : ℕ) (hk : k ≤ start) (depth : ℕ)
    (crossed : Bool) : contextBack b' start k depth crossed = contextBack b start k depth crossed := by
  induction k generalizing depth crossed with
  | zero => rfl
  | succ k ih =>
    have hlt : (k : ℤ) < cur := by omega
    have ih := ih (by omega)
    simp only [contextBack, R.isPunct, R.openContext (by omega) hlt, R.other k hlt.ne,
      R.wordContext hlt hstart, ih]

protected theorem isCast {g : ℤ} (hi : i < cur) (hg : b.groupOf i = some g) :
    isCast b' g = isCast b g := by
  rw [isCast, isCast, R.groups]
  split_ifs
  · cases hx : at? b.groups g with
    | none => rfl
    | some x =>
      simp only [Option.bind_eq_bind, Option.bind_some]
      rw [R.isKwIn (R.opens_before hi hg hx)]
  · rfl

/-- What is typed at `cur` does not change the context of a place up to it. -/
protected theorem detectContext {start : ℤ} (h0 : 0 ≤ start) (hstart : start ≤ cur) :
    detectContext b' start = detectContext b start := by
  have hback := R.contextBack hstart start.toNat (by omega) 0 false
  rw [detectContext, detectContext, R.isKw (by omega), R.groupOf, hback]
  by_cases has : isKw b.toks (start - 1) "AS" = true
  · have hpos := (bounds_of_isKw has).1
    have hfirst : ∀ kw, statementStartsWith b'.toks kw = statementStartsWith b.toks kw :=
      fun kw => R.isKw (by omega)
    rw [if_pos has, if_pos has, hfirst, hfirst]
    cases hg : b.groupOf (start - 1) with
    | none => rfl
    | some g =>
      simp only [Option.bind_eq_bind, Option.bind_some,
        R.isCast (show start - 1 < cur by omega) hg]
  · rw [if_neg has, if_neg has]

end Back

end Retyped

/-- Nor does it change what is before the place. -/
theorem place_retyped {a a' : Analyzer} {place place' : Place} {cur : ℤ}
    (R : Retyped cur a.toBrackets a'.toBrackets) (hcur : 0 ≤ cur)
    (h : a.placeAt cur = some place) (h' : a'.placeAt cur = some place') :
    place'.qualifier = place.qualifier ∧ place'.ctx = place.ctx := by
  obtain ⟨⟨qualifier, start⟩, hq, hle, h0⟩ := qualifierBefore_yields a.toks cur
  rw [Analyzer.placeAt, R.qualifierBefore le_rfl, R.groupAt, hq, Option.bind_eq_bind,
    Option.bind_some] at h'
  rw [Analyzer.placeAt, hq, Option.bind_eq_bind, Option.bind_some] at h
  simp only [R.detectContext (h0 hcur) hle] at h'
  obtain ⟨group, hg, h⟩ := Option.bind_eq_some_iff.mp h
  obtain ⟨ctx, hc, h⟩ := Option.bind_eq_some_iff.mp h
  obtain ⟨scope, -, h⟩ := Option.bind_eq_some_iff.mp h
  rw [hg, Option.bind_eq_bind, Option.bind_some, hc, Option.bind_eq_bind, Option.bind_some] at h'
  obtain ⟨scope', -, h'⟩ := Option.bind_eq_some_iff.mp h'
  obtain rfl := Option.some_inj.mp h
  obtain rfl := Option.some_inj.mp h'
  exact ⟨rfl, rfl⟩

end Retyped
end DearSql
