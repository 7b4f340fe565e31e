import DearSql.InsertedNames
import DearSql.LongerPrefixes
import DearSql.Resolved

/-! A column that is offered behind a qualifier and goes in there, and what its name resolves to
then. -/
namespace DearSql
open Lexing Loops

section Behind

/-- A column of that name, whatever the case. -/
def HasColumn (cols : List ColInfo) (name : Text) : Prop := ∃ c ∈ cols, ieq c.name name = true

instance (cols : List ColInfo) (name : Text) : Decidable (HasColumn cols name) :=
  inferInstanceAs (Decidable (∃ c ∈ cols, ieq c.name name = true))

/-- The identifier resolves to a column of that name. -/
def MeansColumn (found : Option ResolvedIdentifier) (name : Text) : Prop :=
  ∃ out ∈ found, out.kind = .column ∧ ieq out.column name = true

/-- A lookup among `cols` gives the record of the column, or nothing where there is none. -/
def Looks (cols : List ColInfo) (name : Text) (found : Option ResolvedIdentifier) : Prop :=
  ∃ out : ResolvedIdentifier, found = (columnIn cols name).map out.setColumn

theorem looks_nil (name : Text) : Looks [] name none := ⟨{}, rfl⟩

theorem hasColumn_append {xs ys : List ColInfo} {name : Text} :
    HasColumn (xs ++ ys) name ↔ HasColumn xs name ∨ HasColumn ys name := by
  simp only [HasColumn, List.mem_append, or_and_right, exists_or]

theorem hasColumn_iff {cols : List ColInfo} {name : Text} :
    HasColumn cols name ↔ (columnIn cols name).isSome = true := by
  rw [columnIn, List.find?_isSome]
  rfl

/-- The first lookup that finds a column decides, and what is tried behind them gives no column. -/
theorem meansColumn_firstFound {name : Text}
    {tries : List (List ColInfo × Option ResolvedIdentifier)}
    (htries : ∀ p ∈ tries, Looks p.1 name p.2) {others : List (Option ResolvedIdentifier)}
    (hothers : ∀ found ∈ others, ∀ out ∈ found, out.kind ≠ .column) :
    ∃ found, firstFound (tries.map (fun p => some p.2) ++ others.map some) = some found ∧
      (MeansColumn found name ↔ HasColumn (tries.flatMap Prod.fst) name) := by
  induction tries with
  | nil =>
    induction others with
    | nil => exact ⟨none, rfl, by simp [MeansColumn, HasColumn]⟩
    | cons o others ih =>
      obtain ⟨ho, hrest⟩ := List.forall_mem_cons.mp hothers
      cases o with
      | none => exact ih hrest
      | some out =>
        refine ⟨some out, rfl, ?_⟩
        simp [MeansColumn, HasColumn, ho out rfl]
  | cons p tries ih =>
    obtain ⟨⟨out, hout⟩, htries⟩ := List.forall_mem_cons.mp htries
    rw [List.flatMap_cons, hasColumn_append, hasColumn_iff, List.map_cons, List.cons_append, hout]
    cases hc : columnIn p.1 name with
    | none =>
      obtain ⟨found, hfound, hiff⟩ := ih htries
      exact ⟨found, hfound, by rw [hiff]; simp⟩
    | some c =>
      refine ⟨_, rfl, iff_of_true ⟨_, rfl, rfl, (columnIn_eq_some hc).2⟩ (.inl rfl)⟩

namespace Analyzer

variable {a : Analyzer}

/-- The columns of the reference that a qualifier names in scope. -/
def columnsOfRef (a : Analyzer) (qualifier : List Text) (group : ℤ) : Option (List ColInfo) := do
  match ← a.pathRef qualifier group with
  | some r => a.refColumns r
  | none => some []

/-- The columns of all that a qualifier may name: a reference, a CTE, a relation of the catalog. -/
def columnsBehind (a : Analyzer) (qualifier : List Text) (group : ℤ) : Option (List ColInfo) := do
  let own ← a.columnsOfRef qualifier group
  let cte ← a.targetCte qualifier
  some (own ++ (cte ++ a.catalogColumns qualifier))

theorem looks_relationColumn (out : ResolvedIdentifier) (qualifier : List Text) (name : Text) :
    Looks (a.catalogColumns qualifier) name (a.relationColumn out qualifier name) := by
  rw [relationColumn, catalogColumns]
  cases findRelation a.catalog qualifier with
  | none => exact looks_nil name
  | some rel =>
    refine ⟨out.setRelation rel, ?_⟩
    simp only [Option.bind_eq_bind, Option.bind_some, Option.map_some, Option.getD_some]
    cases columnIn (tableColumns rel.table) name <;> rfl

variable (h : a.WF) {g : ℤ} (hg : g < a.groups.length) (qualifier : List Text) (name : Text)
  (out : ResolvedIdentifier)
include h

theorem cteMember_looks : ∃ cte found, a.targetCte qualifier = some cte ∧
    a.cteMember out qualifier name = some found ∧ Looks cte name found := by
  unfold targetCte cteMember
  cases hc : a.pathCte qualifier with
  | none => exact ⟨[], none, rfl, rfl, looks_nil name⟩
  | some c =>
    obtain ⟨cols, hcols, -⟩ := cteColumnsAt_yields h (mem_of_pathCte hc)
    exact ⟨cols, _, hcols, by simp only [hcols]; rfl, { out with relation := c.name }, rfl⟩

include hg

theorem refMember_looks : ∃ own found, a.columnsOfRef qualifier g = some own ∧
    a.refMember out qualifier name g = some found ∧ Looks own name found := by
  obtain ⟨r, hr, hrefs⟩ := pathRef_yields h qualifier hg
  simp only [columnsOfRef, refMember, hr, Option.bind_eq_bind, Option.bind_some]
  cases r with
  | none => exact ⟨[], none, rfl, rfl, looks_nil name⟩
  | some r =>
    obtain ⟨cols, hcols, -⟩ := refColumns_yields h (hrefs r rfl)
    exact ⟨cols, _, hcols, by simp only [hcols]; rfl, a.describeRef out r, rfl⟩

/-- What is offered behind a qualifier are columns of what it may name. -/
theorem qualifiedColumns_behind : ∃ cols all, a.qualifiedColumns qualifier g = some cols ∧
    a.columnsBehind qualifier g = some all ∧ cols ⊆ all := by
  obtain ⟨r, hr, hrefs⟩ := pathRef_yields h qualifier hg
  obtain ⟨cte, -, hcte, -⟩ := cteMember_looks h qualifier [] {}
  cases r with
  | some r =>
    obtain ⟨cols, hcols, -⟩ := refColumns_yields h (hrefs r rfl)
    refine ⟨cols, cols ++ (cte ++ a.catalogColumns qualifier), ?_, ?_, List.subset_append_left _ _⟩
    · simp only [qualifiedColumns, hr, hcols, Option.bind_eq_bind, Option.bind_some]
    · simp only [columnsBehind, columnsOfRef, hr, hcols, hcte, Option.bind_eq_bind,
        Option.bind_some]
  | none =>
    have hall : a.columnsBehind qualifier g = some ([] ++ (cte ++ a.catalogColumns qualifier)) := by
      simp only [columnsBehind, columnsOfRef, hr, hcte, Option.bind_eq_bind, Option.bind_some]
    unfold targetCte at hcte
    cases hc : a.pathCte qualifier with
    | some c =>
      rw [hc] at hcte
      refine ⟨cte, _, ?_, hall, List.subset_append_left _ _⟩
      simp only [qualifiedColumns, hr, hc, hcte, Option.bind_eq_bind, Option.bind_some]
    | none =>
      refine ⟨a.catalogColumns qualifier, _, ?_, hall, List.subset_append_right _ _⟩
      simp only [qualifiedColumns, hr, hc, Option.bind_eq_bind, Option.bind_some]

/-- A qualified name resolves to a column exactly when what the qualifier may name has one. -/
theorem resolveMember_column_iff : ∃ found all, a.resolveMember out qualifier name g = some found ∧
    a.columnsBehind qualifier g = some all ∧ a.catalogColumns qualifier ⊆ all ∧
    (MeansColumn found name ↔ HasColumn all name) := by
  obtain ⟨own, found₁, hown, href, h₁⟩ := refMember_looks h hg qualifier name out
  obtain ⟨cte, found₂, hcte, hmember, h₂⟩ := cteMember_looks h qualifier name out
  obtain ⟨found, hfound, hiff⟩ := @meansColumn_firstFound name
    [(own, found₁), (cte, found₂),
      (a.catalogColumns qualifier, a.relationColumn out qualifier name)]
    (by
      simp only [List.forall_mem_cons]
      exact ⟨h₁, h₂, looks_relationColumn out qualifier name, by simp⟩)
    [a.schemaMember out qualifier name, a.sequenceMember out qualifier name]
    (by
      simp only [List.forall_mem_cons]
      refine ⟨fun r hr => ?_, fun r hr => ?_, by simp⟩
      · obtain ⟨rel, -, rfl⟩ := Option.map_eq_some_iff.mp hr
        simp only [ResolvedIdentifier.setRelation]
        split_ifs <;> simp
      · obtain ⟨s, -, rfl⟩ := Option.map_eq_some_iff.mp hr
        simp)
  refine ⟨found, own ++ (cte ++ a.catalogColumns qualifier), ?_, ?_, ?_, by simpa using hiff⟩
  · rw [resolveMember, href, hmember]
    exact hfound
  · simp only [columnsBehind, hown, hcte, Option.bind_eq_bind, Option.bind_some]
  · exact fun c hc => List.mem_append_right _ (List.mem_append_right _ hc)

end Analyzer
end Behind

section Names

theorem at?_front {α : Type} (pre ys : List α) {i : ℤ} (hi : i < pre.length) :
    at? (pre ++ ys) i = at? pre i := by
  by_cases h0 : i < 0
  · rw [at?_neg h0, at?_neg h0]
  · obtain ⟨n, rfl⟩ := Int.eq_ofNat_of_zero_le (not_lt.mp h0)
    rw [at?_ofNat, at?_ofNat, List.getElem?_append_left (by omega)]

theorem qualifierBefore_front (front ts : List Token) :
    qualifierBefore (syms (front ++ ts)) front.length =
      qualifierBefore (syms front) front.length := by
  rw [syms, List.map_append]
  exact qualifierBefore_congr fun _ hj => at?_front _ _ (by rwa [List.length_map])

theorem dot_of_qualifier {toks : List Sym} {i : ℤ} {qualifier : List Text} {start : ℤ}
    (h : qualifierBefore toks i = some (qualifier, start)) (hq : qualifier ≠ []) :
    isPunct toks (i - 1) '.' = true := by
  by_contra hno
  rw [qualifierBefore, loop, qualifierTurn, if_neg (by simp [hno])] at h
  obtain ⟨rfl, -⟩ := Prod.mk.inj (Option.some_inj.mp h)
  exact hq rfl

end Names

section Understood

variable {sql : Text} {cursor : ℕ} {catalog : CompletionCatalog} {type : DatabaseType}

/-- The qualifier before what is typed, and the columns of all that it may name. -/
def membersAt (sql : Text) (cursor : ℕ) (catalog : CompletionCatalog) (type : DatabaseType) :
    Option (List Text × List ColInfo) := do
  let toks := statementTokens (tokenize sql (dialectFor type)) cursor sql.length
  let a ← analyze catalog (syms toks)
  let cur := (typedFrom sql cursor 0 toks).cur
  let (qualifier, _) ← qualifierBefore a.toks cur
  let group ← a.groupAt cur
  let cols ← a.columnsBehind qualifier group
  some (qualifier, cols)

/-- The text with an item in the place of what is typed. -/
def CompletionResult.inserted (r : CompletionResult) (sql : Text) (it : CompletionItem) : Text :=
  sql.take r.replaceStart ++ (it.insertText ++ sql.drop r.replaceEnd)

/-- An item comes from an offer at the place that is typed. -/
theorem offer_of_item {r : CompletionResult} (hr : complete sql cursor catalog type = some r)
    {it : CompletionItem} (hit : it ∈ r.items) :
    ∃ a offers, analyze catalog (syms (statementTokens (tokenize sql (dialectFor type))
        (min cursor sql.length) sql.length)) = some a ∧ isSqlDialect type = true ∧
      insideLiteral (min cursor sql.length) (tokenize sql (dialectFor type)) = false ∧
      r.replaceStart = (typedPlace sql (min cursor sql.length) (dialectFor type)).replaceStart ∧
      a.offers ((typedPlace sql (min cursor sql.length) (dialectFor type)).emitter type)
        (typedPlace sql (min cursor sql.length) (dialectFor type)).cur = some offers ∧
      ∃ o ∈ offers, it.label = o.label ∧ it.kind = o.kind ∧ it.insertText = o.insert := by
  obtain ⟨⟨typed, offers⟩, hoffers, hr⟩ := Option.bind_eq_some_iff.mp hr
  obtain ⟨items, hitems, hr⟩ := Option.bind_eq_some_iff.mp hr
  obtain rfl := Option.some_inj.mp hr
  obtain ⟨added, hadded, rfl⟩ := Option.map_eq_some_iff.mp hitems
  obtain ⟨o, ho, hadd⟩ :=
    mem_items hadded (mem_sortItems.mp ((firstOfKey_sublist _ _).subset hit))
  simp only [offersAt] at hoffers
  by_cases hsql : isSqlDialect type = true
  · rw [if_neg (by simp [hsql])] at hoffers
    obtain ⟨a, ha, hoffers⟩ := Option.bind_eq_some_iff.mp hoffers
    by_cases hlit : insideLiteral (min cursor sql.length) (tokenize sql (dialectFor type)) = true
    · rw [if_pos hlit, Option.some_inj, Prod.mk.injEq] at hoffers
      obtain ⟨rfl, rfl⟩ := hoffers
      cases ho
    · rw [if_neg hlit] at hoffers
      obtain ⟨found, hfound, hoffers⟩ := Option.bind_eq_some_iff.mp hoffers
      rw [Option.some_inj, Prod.mk.injEq] at hoffers
      obtain ⟨rfl, rfl⟩ := hoffers
      obtain ⟨tier, -, -, rfl⟩ := item_of_add hadd
      exact ⟨a, found, ha, hsql, by simpa using hlit, rfl, hfound, o, ho, rfl, rfl, rfl⟩
  · rw [if_pos (by simpa using hsql), Option.some_inj, Prod.mk.injEq] at hoffers
    obtain ⟨rfl, rfl⟩ := hoffers
    cases ho

/-- A column behind a qualifier is one of what the qualifier may name. -/
theorem column_of_offer {a : Analyzer} (h : a.WF) {e : Emitter} {cur : ℤ} {offers : List Offer}
    (hoffers : a.offers e cur = some offers) {qualifier : List Text} {start : ℤ}
    (hq : qualifierBefore a.toks cur = some (qualifier, start)) (hne : qualifier ≠ [])
    {o : Offer} (ho : o ∈ offers) (hk : o.kind = .column) :
    ∃ group cols, a.groupAt cur = some group ∧ a.columnsBehind qualifier group = some cols ∧
      ∃ c ∈ cols, o.label = c.name ∧ o.insert = e.name c.name := by
  obtain ⟨group, hgroup, hpos, hlt⟩ := a.groupAt_yields h.brackets cur
  simp only [Analyzer.offers, hq, hgroup, Option.bind_eq_bind, Option.bind_some] at hoffers
  obtain ⟨ctx, -, hoffers⟩ := Option.bind_eq_some_iff.mp hoffers
  rw [if_pos hne] at hoffers
  obtain ⟨cols, hcols, hoffers⟩ := Option.bind_eq_some_iff.mp hoffers
  obtain rfl := Option.some_inj.mp hoffers
  obtain ⟨own, all, hown, hall, hsub⟩ := a.qualifiedColumns_behind h hlt qualifier
  refine ⟨group, all, hgroup, hall, ?_⟩
  rcases List.mem_append.mp ho with ho | ho
  · obtain ⟨c, hc, rfl⟩ := List.mem_map.mp ho
    refine ⟨c, hsub ?_, rfl, rfl⟩
    unfold Analyzer.memberColumns at hcols
    split_ifs at hcols
    · rwa [← Option.some_inj.mp (hown.symm.trans hcols)] at hc
    · obtain rfl := Option.some_inj.mp hcols
      cases hc
  · exact absurd hk (kind_addSchemaMembers ho)

end Understood

section Resolves

variable {sql : Text} {cursor i : ℕ} {ts us : List Token} {t : Token}

/-- The loop of `complete` stops at the token that starts at the cursor. -/
theorem typedFrom_at (ht : t.start = cursor)
    (hts : ∀ x ∈ ts, x.start < cursor ∧ ¬TypedAt cursor x) :
    (typedFrom sql cursor i (ts ++ t :: us)).cur = i + ts.length := by
  induction ts generalizing i with
  | nil => rw [List.nil_append, typedFrom, if_pos ht.ge]; rfl
  | cons x ts ih =>
    obtain ⟨⟨hlt, hno⟩, hts⟩ := List.forall_mem_cons.mp hts
    rw [List.cons_append, typedFrom, if_neg (by omega), if_neg fun h => hno ⟨hlt, .inl h⟩,
      if_neg fun h => hno ⟨hlt, .inr ⟨h.1, h.2.symm⟩⟩, ih hts, List.length_cons]
    omega

/-- So does that of `resolveIdentifierAt`, where it is an identifier. -/
theorem identifierFrom_at (ht : t.start = cursor) (hlt : t.start < t.stop)
    (hident : t.kind.kind = .word ∨ t.kind.kind = .quotedIdent) (hts : ∀ x ∈ ts, x.stop ≤ cursor)
    (at_ : Option (ℕ × Token)) :
    identifierFrom cursor i at_ (ts ++ t :: us) = some (i + ts.length, t) := by
  induction ts generalizing i at_ with
  | nil =>
    rw [List.nil_append, identifierFrom, if_neg (by tauto), if_pos ⟨ht.le, by omega⟩]
    rfl
  | cons x ts ih =>
    obtain ⟨hx, hts⟩ := List.forall_mem_cons.mp hts
    have hlen : i + (x :: ts).length = i + 1 + ts.length := by
      rw [List.length_cons]
      omega
    rw [List.cons_append, identifierFrom, hlen]
    split_ifs with hk hin
    · exact ih hts _
    · omega
    all_goals exact ih hts _

/-- At an identifier behind a qualifier the two lookups agree: it resolves to a column exactly when
what the qualifier may name has one of that name. -/
theorem member_resolves_iff {catalog : CompletionCatalog} {type : DatabaseType} {front : List Token}
    (hsql : isSqlDialect type = true)
    (htoks : statementTokens (tokenize sql (dialectFor type)) t.start sql.length = front ++ t :: us)
    (hident : t.kind.kind = .word ∨ t.kind.kind = .quotedIdent)
    (hfront : ∀ x ∈ front, x.start < t.start ∧ x.stop ≤ t.start ∧ ¬TypedAt t.start x)
    {qualifier : List Text} {start : ℤ}
    (hq : qualifierBefore (syms front) front.length = some (qualifier, start))
    (hne : qualifier ≠ []) :
    ∃ cols found, membersAt sql t.start catalog type = some (qualifier, cols) ∧
      resolveIdentifierAt sql t.start catalog type = some found ∧
      (∀ rel ∈ findRelation catalog qualifier, tableColumns rel.table ⊆ cols) ∧
      (MeansColumn found t.kind.text ↔ HasColumn cols t.kind.text) := by
  have ht : t ∈ tokenize sql (dialectFor type) :=
    mem_of_statementTokens (by rw [htoks]; simp)
  have hlt := start_lt_stop ht
  have hstop := (tokenize_partitions sql (dialectFor type)).inside t ht
  have hmin : min t.start sql.length = t.start := by omega
  obtain ⟨a, ha, hwf, hsyms, hcatalog⟩ := analyze_yields catalog (syms (front ++ t :: us))
  have hq : qualifierBefore a.toks front.length = some (qualifier, start) := by
    rw [hsyms, qualifierBefore_front, hq]
  have hat : at? a.toks front.length = some t.kind.sym := by
    rw [hsyms, syms, at?_ofNat, List.getElem?_map, List.getElem?_append_right le_rfl]
    simp
  have hname : textAt a.toks front.length = some t.kind.text := by
    rw [textAt, hat]
    rcases hident with h | h <;> simp [TokInfo.sym, h, Sym.text]
  have hopen : isPunct a.toks front.length ')' = false := by
    rw [isPunct, hat]
    rcases hident with h | h <;> simp [TokInfo.sym, h]
  obtain ⟨hpos, hsize, -⟩ := at?_bounds hat
  obtain ⟨group, hgroup, -, hbound⟩ := a.groupAt_yields hwf.brackets front.length
  have hgroupOf := (places_of_buildGroups (analyze_eq_some ha).1).groupAt _ hpos hsize hopen
  rw [hgroup] at hgroupOf
  obtain ⟨found, cols, hfound, hcols, hsub, hiff⟩ := a.resolveMember_column_iff hwf hbound qualifier
    t.kind.text { start := t.start, stop := t.stop }
  refine ⟨cols, found, ?_, ?_, fun rel hrel => ?_, hiff⟩
  · have hcur := @typedFrom_at sql t.start 0 front us t rfl
      fun x hx => ⟨(hfront x hx).1, (hfront x hx).2.2⟩
    rw [Nat.zero_add] at hcur
    simp only [membersAt, htoks, ha, hcur, hq, hgroup, hcols, Option.bind_eq_bind, Option.bind_some]
  · have hid := @identifierFrom_at t.start 0 front us t rfl hlt hident
      (fun x hx => (hfront x hx).2.1) none
    rw [Nat.zero_add] at hid
    simp only [resolveIdentifierAt, hmin, hsql, htoks, ha, hid, Bool.not_true, Option.bind_eq_bind,
      Option.bind_some, Analyzer.resolveName, hname, hq, ← hgroupOf, if_pos hne, hfound]
    rfl
  · rw [← hcatalog] at hrel
    rwa [Analyzer.catalogColumns, hrel] at hsub

end Resolves

end DearSql
