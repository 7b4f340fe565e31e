import DearSql.Resolved

/-! A bare word is looked up as a reference, a CTE, a relation, a schema and a column, whichever its
context allows. A keyword is no exception. -/
namespace DearSql
open Lexing Loops Best

/-- A bare name leads to no relation where none has the name. -/
theorem findRelation_eq_none {catalog : CompletionCatalog} {name : Text} :
    findRelation catalog [name] = none ↔ ∀ r ∈ catalog.relations, ieq r.table.name name = false := by
  have hfind := findRelation_eq catalog [] name
  rw [List.nil_append] at hfind
  rw [hfind]
  have hbest := @isBest_foldl _ (Answers name [])
    (fun r => relationRank catalog name r.table) (fun r => relationRank_nonneg catalog name r.table)
    catalog.relations
  have hanswers : ∀ r : Relation, Answers name [] r = ieq r.table.name name := fun r => by
    simp [Answers, qualifierMatches]
  generalize catalog.relations.foldl _ _ = best at hbest
  obtain ⟨b, o⟩ := best
  cases o with
  | none => exact iff_of_true rfl fun r hr => hanswers r ▸ hbest.2 r hr
  | some x =>
    obtain ⟨-, front, back, hl, hx, -⟩ := hbest
    refine iff_of_false (by simp) fun h => ?_
    have := h x (by simp [hl])
    rw [← hanswers, hx] at this
    cases this

namespace Analyzer

variable {a : Analyzer} {out : ResolvedIdentifier} {name : Text} {g : ℤ}

/-- A reference of the group or of one around it. -/
def InScope (a : Analyzer) (g : ℤ) (r : RelationRef) : Prop :=
  r ∈ a.refs ∧ a.isAncestorOrSelf r.group g = some true

/-- Nothing that a bare name is looked up among in the context has the name. -/
structure NamesNothing (a : Analyzer) (g : ℤ) (ctx : Context) (name : Text) : Prop where
  cte : ∀ c ∈ a.ctes, ieq c.name name = false
  relation : ∀ r ∈ a.catalog.relations, ieq r.table.name name = false
  schema : ctx.kind ≠ .afterRelation →
    ∀ s ∈ allSchemas a.catalog, ∀ seg ∈ splitPath s, ieq seg name = false
  ref : ctx.kind ≠ .relation → ∀ r, a.InScope g r → ieq r.name name = false
  column : ctx.kind ≠ .relation → ctx.kind ≠ .afterRelation → ctx.kind ≠ .targetColumns →
    ∀ r, a.InScope g r → ∀ cols, a.refColumns r = some cols → ∀ c ∈ cols, ieq c.name name = false
  target : ctx.kind = .targetColumns → ∀ rel, findRelation a.catalog ctx.target = some rel →
    ∀ c ∈ rel.table.columns, ieq c.name name = false

theorem firstFound_eq_none {tries : List (Option (Option ResolvedIdentifier))} :
    firstFound tries = some none ↔ ∀ try_ ∈ tries, try_ = some none := by
  induction tries with
  | nil => simp [firstFound]
  | cons try_ rest ih =>
    rw [List.forall_mem_cons, ← ih, firstFound]
    cases try_ with
    | none => simp
    | some found => cases found <;> simp

theorem columnIn_eq_none {cols : List ColInfo} :
    columnIn cols name = none ↔ ∀ c ∈ cols, ieq c.name name = false := by
  simp [columnIn, List.find?_eq_none]

theorem asCte_eq_none : a.asCte out name = none ↔ ∀ c ∈ a.ctes, ieq c.name name = false := by
  simp [asCte, findCte, List.find?_eq_none]

theorem asRelation_eq_none :
    a.asRelation out name = none ↔ ∀ r ∈ a.catalog.relations, ieq r.table.name name = false := by
  rw [asRelation, Option.map_eq_none_iff, findRelation_eq_none]

theorem asSchema_eq_none : a.asSchema out name = none ↔
    ∀ s ∈ allSchemas a.catalog, ∀ seg ∈ splitPath s, ieq seg name = false := by
  simp [asSchema, List.find?_eq_none]

theorem relationColumn_eq_none {path : List Text} : a.relationColumn out path name = none ↔
    ∀ rel, findRelation a.catalog path = some rel →
      ∀ c ∈ rel.table.columns, ieq c.name name = false := by
  unfold relationColumn
  cases findRelation a.catalog path with
  | none => simp
  | some rel =>
    have hcols : columnIn (tableColumns rel.table) name = none ↔
        ∀ c ∈ rel.table.columns, ieq c.name name = false := by
      simp [columnIn_eq_none, tableColumns]
    rw [Option.bind_eq_bind, Option.bind_some]
    simp only [Option.some_inj, forall_eq']
    rw [← hcols]
    cases columnIn (tableColumns rel.table) name <;> simp

variable (h : a.WF)
include h

theorem findRef_eq_none (hg : g < a.groups.length) : a.findRef name g = some none ↔
    ∀ r, a.InScope g r → ieq r.name name = false := by
  have hrun : ∀ l : List RelationRef, (∀ r ∈ l, r ∈ a.refs) → ∀ best : ℤ × Option RelationRef,
      (best.2 = none → best.1 = -1) → Yields (l.foldlM (a.nearerTurn name g) best) fun best' =>
        (best'.2 = none ↔ best.2 = none ∧ ∀ r ∈ l, a.isAncestorOrSelf r.group g = some true →
          ieq r.name name = false) := by
    intro l
    induction l with
    | nil => exact fun _ best _ => yields_some (by simp)
    | cons r l ih =>
      intro hl best hbest
      obtain ⟨hr, hl⟩ := List.forall_mem_cons.mp hl
      obtain ⟨visible, hvisible, -⟩ := a.isAncestorOrSelf_yields h.brackets r.group hg
      obtain ⟨d, hd, hd0⟩ := a.depthOf_yields h.brackets (h.refs r hr).group_lt
      rw [List.foldlM_cons]
      by_cases hname : ieq r.name name = true
      · cases visible with
        | false =>
          have hturn : a.nearerTurn name g best r = some best := by
            simp [nearerTurn, hname, hvisible]
          rw [hturn]
          refine (ih hl best hbest).imp fun best' hbest' => hbest'.trans ?_
          simp [hvisible]
        | true =>
          have hturn : a.nearerTurn name g best r =
              some (if best.1 < d then (d, some r) else best) := by
            simp [nearerTurn, hname, hvisible, hd]
          have hsome : (if best.1 < d then (d, some r) else best).2 ≠ none := by
            split_ifs with hlt
            · simp
            · intro hnone
              have := hbest hnone
              omega
          rw [hturn]
          refine (ih hl _ fun hnone => absurd hnone hsome).imp fun best' hbest' => hbest'.trans ?_
          simp [hsome, hvisible, hname]
      · have hturn : a.nearerTurn name g best r = some best := by
          simp [nearerTurn, hname]
        rw [hturn]
        refine (ih hl best hbest).imp fun best' hbest' => hbest'.trans ?_
        simp [hname]
  obtain ⟨best, hfold, hnone⟩ := hrun a.refs (fun _ hr => hr) (-1, none) fun _ => rfl
  rw [findRef, hfold]
  simp only [Option.map_some, Option.some_inj, hnone, true_and, InScope, and_imp]

theorem mem_visibleRefs (hg : g < a.groups.length) : Yields (a.visibleRefs g) fun refs =>
    ∀ r, r ∈ refs ↔ a.InScope g r := by
  have hfound : ∀ l : List RelationRef, (∀ r ∈ l, r ∈ a.refs) → Yields (l.mapM (a.withDepth g))
      fun found => ∀ r, (∃ d, some (d, r) ∈ found) ↔
        r ∈ l ∧ a.isAncestorOrSelf r.group g = some true := by
    intro l
    induction l with
    | nil => exact fun _ => yields_some (by simp)
    | cons x l ih =>
      intro hl
      obtain ⟨hx, hl⟩ := List.forall_mem_cons.mp hl
      obtain ⟨visible, hvisible, -⟩ := a.isAncestorOrSelf_yields h.brackets x.group hg
      obtain ⟨d, hd, -⟩ := a.depthOf_yields h.brackets (h.refs x hx).group_lt
      have hturn : a.withDepth g x = some (if visible then some (d, x) else none) := by
        cases visible <;> simp [withDepth, hvisible, hd]
      rw [List.mapM_cons, hturn]
      refine (ih hl).bind fun found hfound => yields_some fun r => ?_
      rw [List.mem_cons, or_and_right, ← hfound r]
      cases visible with
      | false =>
        have hne : ¬(r = x ∧ a.isAncestorOrSelf r.group g = some true) := by
          rintro ⟨rfl, hr⟩
          rw [hvisible] at hr
          cases hr
        simp [hne]
      | true =>
        simp only [List.mem_cons, if_true, Option.some_inj, Prod.mk.injEq, exists_or]
        refine or_congr ⟨?_, ?_⟩ Iff.rfl
        · rintro ⟨d', -, rfl⟩
          exact ⟨rfl, hvisible⟩
        · rintro ⟨rfl, -⟩
          exact ⟨d, rfl, rfl⟩
  refine (hfound a.refs fun _ hr => hr).bind fun found hfound => yields_some fun r => ?_
  rw [InScope, ← hfound r, List.mem_map]
  simp only [List.mem_insertionSort, List.mem_filterMap, id]
  constructor
  · rintro ⟨p, ⟨o, ho, rfl⟩, rfl⟩
    exact ⟨p.1, ho⟩
  · rintro ⟨d, hd⟩
    exact ⟨(d, r), ⟨_, hd, rfl⟩, rfl⟩

theorem columnOfRefs_eq_none {refs : List RelationRef} (hrefs : ∀ r ∈ refs, r ∈ a.refs) :
    a.columnOfRefs out name refs = some none ↔ ∀ r ∈ refs, ∀ cols, a.refColumns r = some cols →
      ∀ c ∈ cols, ieq c.name name = false := by
  induction refs with
  | nil => simp [columnOfRefs]
  | cons r refs ih =>
    obtain ⟨hr, hrefs⟩ := List.forall_mem_cons.mp hrefs
    obtain ⟨cols, hcols, -⟩ := refColumns_yields h hr
    rw [List.forall_mem_cons, ← ih hrefs, columnOfRefs, hcols]
    simp only [Option.bind_eq_bind, Option.bind_some, Option.some_inj, forall_eq']
    rw [← columnIn_eq_none]
    cases columnIn cols name <;> simp

theorem resolveBare_eq_none (hg : g < a.groups.length) {ctx : Context} :
    a.resolveBare out name g false ctx = some none ↔ a.NamesNothing g ctx name := by
  have href : a.asRef out name g = some none ↔ ∀ r, a.InScope g r → ieq r.name name = false := by
    rw [← findRef_eq_none h hg]
    obtain ⟨found, hfound, -⟩ := findRef_yields h name hg
    rw [asRef, hfound]
    cases found <;> simp
  obtain ⟨refs, hrefs, hmem⟩ := mem_visibleRefs h hg
  have hcolumns := @columnOfRefs_eq_none a out name h refs fun r hr => ((hmem r).mp hr).1
  simp only [hmem] at hcolumns
  unfold resolveBare
  simp only [Bool.false_eq_true, false_and, if_false]
  have hctx : ∀ {k : Ctx}, k ≠ ctx.kind → ¬ctx.kind = k := fun hk he => hk he.symm
  by_cases hrelation : ctx.kind = .relation
  · rw [if_pos hrelation, firstFound_eq_none]
    simp only [List.forall_mem_cons, Option.some_inj, asCte_eq_none, asRelation_eq_none,
      asSchema_eq_none, List.not_mem_nil, false_implies, implies_true, and_true]
    constructor
    · rintro ⟨hcte, hrel, hschema⟩
      exact ⟨hcte, hrel, fun _ => hschema, fun hk => absurd hrelation hk,
        fun hk => absurd hrelation hk, fun hk => by rw [hrelation] at hk; cases hk⟩
    · intro hn
      exact ⟨hn.cte, hn.relation, hn.schema (by simp [hrelation])⟩
  rw [if_neg hrelation]
  by_cases hafter : ctx.kind = .afterRelation
  · rw [if_pos hafter, firstFound_eq_none]
    simp only [List.forall_mem_cons, Option.some_inj, href, asCte_eq_none, asRelation_eq_none,
      List.not_mem_nil, false_implies, implies_true, and_true]
    constructor
    · rintro ⟨href, hrel, hcte⟩
      exact ⟨hcte, hrel, fun hk => absurd hafter hk, fun _ => href, fun _ hk => absurd hafter hk,
        fun hk => by rw [hafter] at hk; cases hk⟩
    · intro hn
      exact ⟨hn.ref hrelation, hn.relation, hn.cte⟩
  rw [if_neg hafter, firstFound_eq_none]
  simp only [List.forall_mem_cons, Option.some_inj, href, asCte_eq_none, asRelation_eq_none,
    asSchema_eq_none, List.not_mem_nil, false_implies, implies_true, and_true, asColumn]
  by_cases htarget : ctx.kind = .targetColumns
  · rw [if_pos htarget, Option.some_inj, relationColumn_eq_none]
    constructor
    · rintro ⟨htargets, href, hcte, hrel, hschema⟩
      exact ⟨hcte, hrel, fun _ => hschema, fun _ => href, fun _ _ hk => absurd htarget hk,
        fun _ => htargets⟩
    · intro hn
      exact ⟨hn.target htarget, hn.ref hrelation, hn.cte, hn.relation, hn.schema hafter⟩
  · rw [if_neg htarget, hrefs, Option.bind_eq_bind, Option.bind_some, hcolumns]
    constructor
    · rintro ⟨hcols, href, hcte, hrel, hschema⟩
      exact ⟨hcte, hrel, fun _ => hschema, fun _ => href, fun _ _ _ => hcols,
        fun hk => absurd hk htarget⟩
    · intro hn
      exact ⟨hn.column hrelation hafter htarget, hn.ref hrelation, hn.cte, hn.relation,
        hn.schema hafter⟩

end Analyzer

/-- An unquoted reserved word of a statement, with no dot beside it, under an offset. -/
structure KeywordAt where
  sql : Text
  offset : ℕ
  type : DatabaseType
  sqlDialect : isSqlDialect type = true
  index : ℕ
  token : Token
  picked : identifierFrom (min offset sql.length) 0 none
    (statementTokens (tokenize sql (dialectFor type)) (min offset sql.length) sql.length) =
      some (index, token)
  word : token.kind.kind = .word
  reserved : inSet reservedWords token.kind.text = true
  noDotBefore : isPunct (syms (statementTokens (tokenize sql (dialectFor type))
    (min offset sql.length) sql.length)) (index - 1) '.' = false
  noDotAfter : isPunct (syms (statementTokens (tokenize sql (dialectFor type))
    (min offset sql.length) sql.length)) (index + 1) '.' = false

namespace KeywordAt

variable (q : KeywordAt) (catalog : CompletionCatalog)

def toks : List Token :=
  statementTokens (tokenize q.sql (dialectFor q.type)) (min q.offset q.sql.length) q.sql.length

/-- Neither the catalog nor the statement declares the word where the lookups of its context go. -/
def Undeclared : Prop :=
  ∀ a g ctx, analyze catalog (syms q.toks) = some a → a.groupOf q.index = some g →
    detectContext a.toBrackets q.index = some ctx → a.NamesNothing g ctx q.token.kind.text

/-- A keyword resolves to nothing exactly where nothing has its name. -/
theorem keyword_unresolved_iff :
    resolveIdentifierAt q.sql q.offset catalog q.type = some none ↔ q.Undeclared catalog := by
  obtain ⟨a, ha, h, htoks, -⟩ := analyze_yields catalog (syms q.toks)
  obtain ⟨hmem, hident⟩ := picked_spec q.picked
  have hat : at? a.toks q.index = some q.token.kind.sym := by
    rw [htoks, syms, at?_ofNat, List.getElem?_map, toks, hmem]
    rfl
  have hbounds := at?_bounds hat
  obtain ⟨g, hgroup, hg⟩ := a.groupOf_yields h.brackets hbounds.1 hbounds.2.1
  obtain ⟨ctx, hctx, -⟩ := detectContext_yields h.brackets hbounds.1 hbounds.2.1.le
  have hname : textAt a.toks q.index = some q.token.kind.text := by
    rw [textAt, hat, Option.map_some, hident.text]
  have hqualifier : qualifierBefore a.toks q.index = some ([], (q.index : ℤ)) := by
    have hturn : qualifierTurn a.toks (q.index - 1, [], q.index) = some (.done ([], q.index)) := by
      have hno : isPunct a.toks (q.index - 1) '.' = false := htoks ▸ q.noDotBefore
      simp [qualifierTurn, hno]
    exact loop_done hturn
  have hdot : isPunct a.toks (q.index + 1) '.' = false := htoks ▸ q.noDotAfter
  have hresolve : ∀ out, a.resolveName out q.index =
      a.resolveBare out q.token.kind.text g false ctx := by
    intro out
    rw [Analyzer.resolveName, hname, hqualifier]
    simp only [Option.bind_eq_bind, Option.bind_some, hgroup, hctx, hdot, ne_eq, not_true_eq_false,
      if_false]
  have hpicked := q.picked
  have ha' := ha
  rw [toks] at ha'
  rw [resolveIdentifierAt]
  simp only [q.sqlDialect, ha', hpicked, Option.bind_eq_bind, Option.bind_some, Bool.not_true,
    Bool.false_eq_true, if_false, hresolve]
  rw [Analyzer.resolveBare_eq_none h hg.2]
  constructor
  · intro hn a' g' ctx' ha' hg' hctx'
    obtain rfl := Option.some_inj.mp (ha.symm.trans ha')
    obtain rfl := Option.some_inj.mp (hgroup.symm.trans hg')
    obtain rfl := Option.some_inj.mp (hctx.symm.trans hctx')
    exact hn
  · exact fun hn => hn a g ctx ha hgroup hctx

end KeywordAt

/-- `ORDER` behind a table of that name. -/
def orderKeyword : KeywordAt where
  sql := "SELECT * FROM \"order\" ORDER BY 1".toList
  offset := 22
  type := .POSTGRESQL
  sqlDialect := rfl
  index := 4
  token := { kind := { kind := .word, text := "ORDER".toList }, start := 22, stop := 27 }
  picked := by decide
  word := rfl
  reserved := by decide
  noDotBefore := by decide
  noDotAfter := by decide

/-- The keyword resolves to the table. -/
theorem order_resolves : ¬∀ catalog, resolveIdentifierAt orderKeyword.sql orderKeyword.offset
    catalog orderKeyword.type = some none := by
  intro h
  have hcatalog := h { tables := [{ name := "order".toList }] }
  revert hcatalog
  decide

end DearSql
