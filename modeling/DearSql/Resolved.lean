import DearSql.ColumnNames
import DearSql.RelationPaths
import DearSql.Statements

/-! What an identifier resolves to. The record is put together by steps that each take the catalog
relation and the column from one place. -/
namespace DearSql
open Lexing Loops Best

section Lookups

variable {catalog : CompletionCatalog} {rel : Relation} {path : List Text} {name : Text}

theorem findRelation_eq (catalog : CompletionCatalog) (path : List Text) (name : Text) :
    findRelation catalog (path ++ [name]) = (catalog.relations.foldl
      (keepBest (Answers name path) fun r => relationRank catalog name r.table) (-1, none)).2 := by
  rw [findRelation, List.getLast?_append, List.getLast?_singleton]
  simp only [Option.some_or, List.dropLast_concat, consider_eq]

theorem mem_of_findRelation (h : findRelation catalog path = some rel) :
    rel ∈ catalog.relations := by
  rcases List.eq_nil_or_concat path with rfl | ⟨qual, name, rfl⟩
  · cases h
  rw [List.concat_eq_append, findRelation_eq] at h
  have hbest := @isBest_foldl _ (Answers name qual)
    (fun r => relationRank catalog name r.table) (fun r => relationRank_nonneg catalog name r.table)
    catalog.relations
  generalize catalog.relations.foldl _ _ = best at h hbest
  obtain ⟨b, o⟩ := best
  obtain rfl : o = some rel := h
  obtain ⟨-, front, back, hl, -⟩ := hbest
  simp [hl]

theorem columnIn_eq_some {cols : List ColInfo} {c : ColInfo} (h : columnIn cols name = some c) :
    c ∈ cols ∧ ieq c.name name = true := by
  rw [columnIn] at h
  have hname := List.find?_some h
  exact ⟨List.mem_of_find?_eq_some h, hname⟩

theorem mem_tableColumns {t : Table} {c : ColInfo} (h : c ∈ tableColumns t) :
    ∃ col ∈ t.columns, c.column = some col ∧ c.name = col.name := by
  obtain ⟨col, hcol, rfl⟩ := List.mem_map.mp h
  exact ⟨col, hcol, rfl, rfl⟩

end Lookups

section Consistency

/-- The record that starts as `out` and is filled in for the identifier `name` holds together. -/
structure Coherent (catalog : CompletionCatalog) (name : Text) (out r : ResolvedIdentifier) :
    Prop where
  start : r.start = out.start
  stop : r.stop = out.stop
  column : r.kind = .column → ieq r.column name = true
  table : r.kind = .table → ∃ t ∈ catalog.tables, r.table = some t
  view : r.kind = .view → ∃ t ∈ catalog.views, r.table = some t
  relation : ∀ t, r.table = some t → r.relation = t.name ∧ r.schema = t.schema
  columnInfo : ∀ t c, r.table = some t → r.columnInfo = some c → c ∈ t.columns ∧ c.name = r.column

/-- A record no lookup has filled in yet. -/
def Blank (out : ResolvedIdentifier) : Prop := out.table = none ∧ out.columnInfo = none

namespace Analyzer

variable {a : Analyzer} {out r : ResolvedIdentifier} {name : Text} {rel : Relation} {c : ColInfo}

theorem coherent_setRelation (hout : Blank out) (hrel : rel ∈ a.catalog.relations) :
    Coherent a.catalog name out (out.setRelation rel) := by
  refine ⟨rfl, rfl, fun h => ?_, fun h => ?_, fun h => ?_, fun t ht => ?_, fun t c ht hc => ?_⟩
  · simp only [ResolvedIdentifier.setRelation] at h
    split_ifs at h
  · simp only [ResolvedIdentifier.setRelation] at h
    split_ifs at h with hview
    rcases List.mem_append.mp hrel with hrel | hrel
    · obtain ⟨t, ht, rfl⟩ := List.mem_map.mp hrel
      exact ⟨t, ht, rfl⟩
    · obtain ⟨t, ht, rfl⟩ := List.mem_map.mp hrel
      exact absurd rfl hview
  · simp only [ResolvedIdentifier.setRelation] at h
    split_ifs at h with hview
    rcases List.mem_append.mp hrel with hrel | hrel
    · obtain ⟨t, ht, rfl⟩ := List.mem_map.mp hrel
      cases hview
    · obtain ⟨t, ht, rfl⟩ := List.mem_map.mp hrel
      exact ⟨t, ht, rfl⟩
  · obtain rfl := Option.some_inj.mp ht
    exact ⟨rfl, rfl⟩
  · rw [show (out.setRelation rel).columnInfo = out.columnInfo from rfl, hout.2] at hc
    cases hc

/-- A column beside the relation it belongs to. -/
theorem coherent_setColumn (h : ∀ t, r.table = some t → (r.relation = t.name ∧ r.schema = t.schema) ∧
      c ∈ tableColumns t) (hstart : r.start = out.start) (hstop : r.stop = out.stop)
    (hname : ieq c.name name = true) : Coherent a.catalog name out (r.setColumn c) := by
  refine ⟨hstart, hstop, fun _ => hname, fun hk => ?_, fun hk => ?_, fun t ht => (h t ht).1,
    fun t col ht hcol => ?_⟩
  · cases hk
  · cases hk
  · obtain ⟨col', hmem, hcol', hname'⟩ := mem_tableColumns (h t ht).2
    rw [show (r.setColumn c).columnInfo = c.column from rfl, hcol'] at hcol
    obtain rfl := Option.some_inj.mp hcol
    exact ⟨hmem, hname'.symm⟩

/-- A relation is set for a reference that stands for it only. -/
theorem describeRef_cases (a : Analyzer) (out : ResolvedIdentifier) (ref : RelationRef) :
    (∃ rel, findRelation a.catalog ref.path = some rel ∧ ref.derived < 0 ∧ ref.function = false ∧
      a.pathCte ref.path = none ∧
      a.describeRef out ref = { out with alias_ := ref.alias_ }.setRelation rel) ∨
    ((a.describeRef out ref).table = out.table ∧ (a.describeRef out ref).kind = .alias_ ∧
      (a.describeRef out ref).columnInfo = out.columnInfo ∧
      (a.describeRef out ref).start = out.start ∧ (a.describeRef out ref).stop = out.stop) := by
  by_cases h : ref.derived < 0 ∧ !ref.function ∧ (a.pathCte ref.path).isNone
  · rw [describeRef, if_pos h]
    cases hfind : findRelation a.catalog ref.path with
    | none => exact .inr ⟨rfl, rfl, rfl, rfl, rfl⟩
    | some rel =>
      refine .inl ⟨rel, rfl, h.1, by simpa using h.2.1, ?_, rfl⟩
      simpa using h.2.2
  · rw [describeRef, if_neg h]
    exact .inr ⟨rfl, rfl, rfl, rfl, rfl⟩

theorem coherent_describeRef (hout : Blank out) (ref : RelationRef) :
    Coherent a.catalog name out (a.describeRef out ref) := by
  rcases a.describeRef_cases out ref with ⟨rel, hrel, -, -, -, he⟩ | ⟨ht, hk, -, hs, he⟩
  · have hblank : Blank { out with alias_ := ref.alias_ } := hout
    have h := @coherent_setRelation a _ name rel hblank (mem_of_findRelation hrel)
    rw [he]
    exact { h with }
  · refine ⟨hs, he, ?_, ?_, ?_, ?_, ?_⟩ <;> simp [ht, hk, hout.1]

/-- A plain reference has the columns of its CTE or of the catalog. -/
theorem refColumns_plain {ref : RelationRef} (haliases : ref.columnAliases = [])
    (hderived : ref.derived < 0) (hfunction : ref.function = false) (hcte : a.pathCte ref.path = none) :
    a.refColumns ref = some (a.catalogColumns ref.path) := by
  have happly : ∀ cols : List ColInfo, applyAliases cols [] = cols := fun cols => by
    cases cols <;> rfl
  rw [refColumns, columnsWithin, columnsStep, if_neg (by omega), haliases, sourceColumns,
    if_neg (not_le.mpr hderived), hfunction, hcte]
  simp [happly]

/-- What is read of the references of an analyzed statement. -/
structure PlainRefs (a : Analyzer) : Prop extends a.WF where
  aliases : ∀ ref ∈ a.refs, ref.derived < 0 → ref.function = false → ref.columnAliases = []

theorem coherent_refColumn (h : a.PlainRefs) (hout : Blank out) {ref : RelationRef}
    (href : ref ∈ a.refs) {cols : List ColInfo} (hcols : a.refColumns ref = some cols)
    (hc : columnIn cols name = some c) :
    Coherent a.catalog name out ((a.describeRef out ref).setColumn c) := by
  obtain ⟨hmem, hname⟩ := columnIn_eq_some hc
  rcases a.describeRef_cases out ref with ⟨rel, hrel, hderived, hfunction, hcte, he⟩ |
    ⟨ht, -, -, hstart, hstop⟩
  · rw [refColumns_plain (h.aliases ref href hderived hfunction) hderived hfunction hcte] at hcols
    obtain rfl := Option.some_inj.mp hcols
    rw [catalogColumns, hrel] at hmem
    rw [he]
    refine coherent_setColumn (fun t ht => ?_) rfl rfl hname
    obtain rfl := Option.some_inj.mp ht
    exact ⟨⟨rfl, rfl⟩, hmem⟩
  · refine coherent_setColumn (fun t ht' => ?_) hstart hstop hname
    rw [ht, hout.1] at ht'
    cases ht'

theorem coherent_relationColumn (path : List Text)
    (h : a.relationColumn out path name = some r) : Coherent a.catalog name out r := by
  obtain ⟨rel, -, h⟩ := Option.bind_eq_some_iff.mp h
  obtain ⟨c, hc, h⟩ := Option.bind_eq_some_iff.mp h
  obtain rfl := Option.some_inj.mp h
  obtain ⟨hmem, hname⟩ := columnIn_eq_some hc
  refine coherent_setColumn (fun t ht => ?_) rfl rfl hname
  obtain rfl := Option.some_inj.mp ht
  exact ⟨⟨rfl, rfl⟩, hmem⟩

/-- A record without a catalog relation. -/
theorem coherent_of_none (ht : r.table = none) (hk : r.kind ≠ .table) (hv : r.kind ≠ .view)
    (hc : r.kind = .column → ieq r.column name = true) (hstart : r.start = out.start)
    (hstop : r.stop = out.stop) : Coherent a.catalog name out r := by
  refine ⟨hstart, hstop, hc, fun h => absurd h hk, fun h => absurd h hv, fun t h => ?_,
    fun t c h => ?_⟩
  · rw [ht] at h
    cases h
  · rw [ht] at h
    cases h

variable (h : a.PlainRefs) (hout : Blank out)
include h hout

theorem refMember_ensures (qualifier : List Text) (g : ℤ) :
    Ensures (a.refMember out qualifier name g) fun o => ∀ r ∈ o, Coherent a.catalog name out r := by
  have hpath : Ensures (a.pathRef qualifier g) fun found => ∀ ref ∈ found, ref ∈ a.refs := by
    unfold pathRef
    split
    · exact findRef_ensures _ g
    · exact ensures_some (by simp)
  refine hpath.bind fun found hfound => ?_
  cases found with
  | none => exact ensures_some (by simp)
  | some ref =>
    refine (ensures_self _).bind fun cols hcols => ensures_some fun r hr => ?_
    obtain ⟨c, hc, rfl⟩ := Option.map_eq_some_iff.mp hr
    exact coherent_refColumn h hout (hfound ref rfl) hcols hc

omit h in
theorem cteMember_ensures (qualifier : List Text) :
    Ensures (a.cteMember out qualifier name) fun o => ∀ r ∈ o, Coherent a.catalog name out r := by
  unfold cteMember
  split
  · exact ensures_some (by simp)
  · refine (ensures_self _).bind fun cols _ => ensures_some fun r hr => ?_
    obtain ⟨c, hc, rfl⟩ := Option.map_eq_some_iff.mp hr
    exact coherent_of_none hout.1 (by simp [ResolvedIdentifier.setColumn])
      (by simp [ResolvedIdentifier.setColumn]) (fun _ => (columnIn_eq_some hc).2) rfl rfl

omit h hout in
theorem firstFound_ensures {P : ResolvedIdentifier → Prop}
    {tries : List (Option (Option ResolvedIdentifier))}
    (htries : ∀ try_ ∈ tries, Ensures try_ fun o => ∀ r ∈ o, P r) :
    Ensures (firstFound tries) fun o => ∀ r ∈ o, P r := by
  induction tries with
  | nil => exact ensures_some (by simp)
  | cons try_ rest ih =>
    obtain ⟨htry, hrest⟩ := List.forall_mem_cons.mp htries
    refine htry.bind fun o ho => ?_
    cases o with
    | none => exact ih hrest
    | some r => exact ensures_some ho

theorem resolveMember_ensures (qualifier : List Text) (g : ℤ) :
    Ensures (a.resolveMember out qualifier name g)
      fun o => ∀ r ∈ o, Coherent a.catalog name out r := by
  refine firstFound_ensures ?_
  simp only [List.forall_mem_cons, List.not_mem_nil, false_implies, implies_true, and_true]
  refine ⟨refMember_ensures h hout qualifier g, cteMember_ensures hout qualifier,
    ensures_some fun r hr => coherent_relationColumn qualifier hr, ensures_some fun r hr => ?_,
    ensures_some fun r hr => ?_⟩
  · obtain ⟨rel, hrel, rfl⟩ := Option.map_eq_some_iff.mp hr
    exact coherent_setRelation hout (mem_of_findRelation hrel)
  · obtain ⟨s, -, rfl⟩ := Option.map_eq_some_iff.mp hr
    exact coherent_of_none hout.1 (by simp) (by simp) (by simp) rfl rfl

theorem columnOfRefs_ensures {refs : List RelationRef} (hrefs : ∀ ref ∈ refs, ref ∈ a.refs) :
    Ensures (a.columnOfRefs out name refs) fun o => ∀ r ∈ o, Coherent a.catalog name out r := by
  induction refs with
  | nil => exact ensures_some (by simp)
  | cons ref refs ih =>
    obtain ⟨href, hrefs⟩ := List.forall_mem_cons.mp hrefs
    refine (ensures_self _).bind fun cols hcols => ?_
    cases hc : columnIn cols name with
    | none => exact ih hrefs
    | some c =>
      refine ensures_some ?_
      rintro r ⟨⟩
      exact coherent_refColumn h hout href hcols hc

theorem resolveBare_ensures {g : ℤ} (hg : g < a.groups.length) (isQualifier : Bool)
    (ctx : Context) : Ensures (a.resolveBare out name g isQualifier ctx)
      fun o => ∀ r ∈ o, Coherent a.catalog name out r := by
  have href : Ensures (a.asRef out name g) fun o => ∀ r ∈ o, Coherent a.catalog name out r := by
    refine (ensures_self _).bind fun found _ => ensures_some fun r hr => ?_
    obtain ⟨ref, -, rfl⟩ := Option.map_eq_some_iff.mp hr
    exact coherent_describeRef hout ref
  have hcte : Ensures (some (a.asCte out name))
      fun o => ∀ r ∈ o, Coherent a.catalog name out r := by
    refine ensures_some fun r hr => ?_
    obtain ⟨c, -, rfl⟩ := Option.map_eq_some_iff.mp hr
    exact coherent_of_none hout.1 (by simp) (by simp) (by simp) rfl rfl
  have hrelation : Ensures (some (a.asRelation out name))
      fun o => ∀ r ∈ o, Coherent a.catalog name out r := by
    refine ensures_some fun r hr => ?_
    obtain ⟨rel, hrel, rfl⟩ := Option.map_eq_some_iff.mp hr
    exact coherent_setRelation hout (mem_of_findRelation hrel)
  have hschema : Ensures (some (a.asSchema out name))
      fun o => ∀ r ∈ o, Coherent a.catalog name out r := by
    refine ensures_some fun r hr => ?_
    obtain ⟨s, -, rfl⟩ := Option.map_eq_some_iff.mp hr
    exact coherent_of_none hout.1 (by simp) (by simp) (by simp) rfl rfl
  have hcolumn : Ensures (a.asColumn out name g ctx)
      fun o => ∀ r ∈ o, Coherent a.catalog name out r := by
    unfold asColumn
    split_ifs
    · exact ensures_some fun r hr => coherent_relationColumn ctx.target hr
    · obtain ⟨refs, hrefs, hmem⟩ := visibleRefs_yields h.toWF hg
      rw [hrefs]
      exact columnOfRefs_ensures h hout hmem
  unfold resolveBare
  dsimp only
  split_ifs <;> refine firstFound_ensures ?_ <;>
    simp only [List.forall_mem_cons, List.not_mem_nil, false_implies, implies_true, and_true]
  · exact ⟨hcte, hschema, hrelation⟩
  · exact ⟨href, hcte, hrelation, hschema⟩
  · exact ⟨hcte, hrelation, hschema⟩
  · exact ⟨href, hrelation, hcte⟩
  · exact ⟨hcolumn, href, hcte, hrelation, hschema⟩

end Analyzer
end Consistency

section Tokens

variable {offset i : ℕ} {at_ : Option (ℕ × Token)} {toks : List Token} {p : ℕ × Token}

/-- An identifier token around the offset. -/
structure Token.IdentAt (t : Token) (offset : ℕ) : Prop where
  ident : t.kind.kind = .word ∨ t.kind.kind = .quotedIdent
  start_le : t.start ≤ offset
  le_stop : offset ≤ t.stop

theorem Token.IdentAt.text {t : Token} (h : t.IdentAt offset) : t.kind.sym.text = t.kind.text := by
  rcases h.ident with h | h <;> simp [TokInfo.sym, h, Sym.text]

theorem identifierFrom_spec (htoks : ∀ t ∈ toks, t.start ≤ t.stop)
    (h : identifierFrom offset i at_ toks = some p) :
    at_ = some p ∨ ∃ k, p.1 = i + k ∧ toks[k]? = some p.2 ∧ Token.IdentAt p.2 offset := by
  induction toks generalizing i at_ with
  | nil => exact .inl h
  | cons t ts ih =>
    obtain ⟨ht, hts⟩ := List.forall_mem_cons.mp htoks
    have hlater : ∀ {k : ℕ}, ts[k]? = some p.2 → (t :: ts)[k + 1]? = some p.2 := fun h => h
    rw [identifierFrom] at h
    split_ifs at h with hkind hin hend
    · rcases ih hts h with h | ⟨k, hp, hk, hident⟩
      · exact .inl h
      · exact .inr ⟨k + 1, by omega, hlater hk, hident⟩
    · obtain rfl := Option.some_inj.mp h
      exact .inr ⟨0, rfl, rfl, by tauto, hin.1, hin.2.le⟩
    · rcases ih hts h with h | ⟨k, hp, hk, hident⟩
      · obtain rfl := Option.some_inj.mp h
        exact .inr ⟨0, rfl, rfl, by tauto, hend ▸ ht, hend.le⟩
      · exact .inr ⟨k + 1, by omega, hlater hk, hident⟩
    · rcases ih hts h with h | ⟨k, hp, hk, hident⟩
      · exact .inl h
      · exact .inr ⟨k + 1, by omega, hlater hk, hident⟩

/-- The token that is resolved is an identifier of the statement, at the offset. -/
theorem picked_spec {sql : Text} {d : Dialect}
    (h : identifierFrom offset 0 none (statementTokens (tokenize sql d) offset sql.length) = some p) :
    (statementTokens (tokenize sql d) offset sql.length)[p.1]? = some p.2 ∧
      Token.IdentAt p.2 offset := by
  have htoks : ∀ t ∈ statementTokens (tokenize sql d) offset sql.length, t.start ≤ t.stop := by
    intro t ht
    have hmem := List.mem_of_mem_take (List.mem_of_mem_drop (List.mem_filter.mp ht).1)
    exact ((tokenize_partitions sql d).nonempty t hmem).le
  rcases identifierFrom_spec htoks h with h | ⟨k, hp, hk, hident⟩
  · cases h
  · obtain rfl : p.1 = k := by omega
    exact ⟨hk, hident⟩

end Tokens

section Resolution

/-- What holds of the identifier resolved at an offset of a text. -/
structure SelfConsistent (sql : Text) (offset : ℕ) (catalog : CompletionCatalog)
    (type : DatabaseType) (r : ResolvedIdentifier) : Prop where
  start_le : r.start ≤ min offset sql.length
  le_stop : min offset sql.length ≤ r.stop
  token : ∃ t ∈ statementTokens (tokenize sql (dialectFor type)) (min offset sql.length) sql.length,
    (t.kind.kind = .word ∨ t.kind.kind = .quotedIdent) ∧ r.start = t.start ∧ r.stop = t.stop ∧
      (r.kind = .column → ieq r.column t.kind.text = true)
  table : r.kind = .table → ∃ t ∈ catalog.tables, r.table = some t
  view : r.kind = .view → ∃ t ∈ catalog.views, r.table = some t
  relation : ∀ t, r.table = some t → r.relation = t.name ∧ r.schema = t.schema
  columnInfo : ∀ t c, r.table = some t → r.columnInfo = some c → c ∈ t.columns ∧ c.name = r.column

theorem analyze_plainRefs (catalog : CompletionCatalog) (toks : List Sym) :
    Yields (analyze catalog toks) fun a => a.PlainRefs ∧ a.toks = toks ∧ a.catalog = catalog := by
  obtain ⟨a, ha, hwf, htoks, hcatalog⟩ := analyze_yields catalog toks
  refine ⟨a, ha, ⟨hwf, fun ref href => ?_⟩, htoks, hcatalog⟩
  obtain ⟨b, -, hb⟩ := Option.bind_eq_some_iff.mp ha
  obtain ⟨ctes, -, hb⟩ := Option.bind_eq_some_iff.mp hb
  obtain ⟨refs, hrefs, hb⟩ := Option.bind_eq_some_iff.mp hb
  obtain rfl := Option.some_inj.mp hb
  exact (collectRefs_ensures (fun _ _ => trivial) refs hrefs ref href
    : ref.AliasesIn fun _ => True).plain

theorem Analyzer.resolveName_ensures {a : Analyzer} (h : a.PlainRefs) {out : ResolvedIdentifier}
    (hout : Blank out) {i : ℤ} {s : Sym} (hi : at? a.toks i = some s) :
    Ensures (a.resolveName out i) fun o => ∀ r ∈ o, Coherent a.catalog s.text out r := by
  have hbounds := at?_bounds hi
  have htext : textAt a.toks i = some s.text := by
    rw [textAt, hi]
    rfl
  obtain ⟨g, hgroup, hg⟩ := a.groupOf_yields h.brackets hbounds.1 hbounds.2.1
  rw [resolveName, htext, hgroup]
  simp only [Option.bind_eq_bind, Option.bind_some]
  refine (ensures_self _).bind fun p _ => ?_
  split_ifs
  · exact resolveMember_ensures h hout p.1 g
  · exact (ensures_self _).bind fun ctx _ => resolveBare_ensures h hout hg.2 _ ctx

/-- Whatever an identifier resolves to, its fields agree with each other and with the catalog. -/
theorem resolved_consistent (sql : Text) (offset : ℕ) (catalog : CompletionCatalog)
    (type : DatabaseType) : ∃ found, resolveIdentifierAt sql offset catalog type = some found ∧
      ∀ r ∈ found, SelfConsistent sql offset catalog type r := by
  obtain ⟨found, hfound, -⟩ := resolveIdentifierAt_yields sql offset catalog type
  refine ⟨found, hfound, ?_⟩
  simp only [resolveIdentifierAt] at hfound
  split_ifs at hfound
  · obtain rfl := Option.some_inj.mp hfound
    simp
  obtain ⟨a, ha, h, htoks, rfl⟩ := analyze_plainRefs catalog
    (syms (statementTokens (tokenize sql (dialectFor type)) (min offset sql.length) sql.length))
  rw [ha, Option.bind_eq_bind, Option.bind_some] at hfound
  cases hpicked : identifierFrom (min offset sql.length) 0 none
      (statementTokens (tokenize sql (dialectFor type)) (min offset sql.length) sql.length) with
  | none =>
    rw [hpicked] at hfound
    obtain rfl := Option.some_inj.mp hfound
    simp
  | some p =>
    obtain ⟨i, t⟩ := p
    obtain ⟨hmem, hident⟩ := picked_spec hpicked
    rw [hpicked] at hfound
    have hat : at? a.toks i = some t.kind.sym := by
      rw [htoks, syms, at?_ofNat, List.getElem?_map, hmem]
      rfl
    intro r hr
    have hblank : Blank { start := t.start, stop := t.stop } := ⟨rfl, rfl⟩
    have hc := Analyzer.resolveName_ensures h hblank hat found hfound r hr
    rw [hident.text] at hc
    exact ⟨hc.start ▸ hident.start_le, hc.stop ▸ hident.le_stop,
      ⟨t, List.mem_of_getElem? hmem, hident.ident, hc.start, hc.stop, hc.column⟩,
      hc.table, hc.view, hc.relation, hc.columnInfo⟩

end Resolution

end DearSql
