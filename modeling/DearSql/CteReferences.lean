import DearSql.CteScopes
import DearSql.ColumnNames

/-! What the name of a FROM item stands for: the CTE of the first WITH of the statement that
defines it, wherever that WITH is. -/
namespace DearSql
open Lexing Loops

/-- A plain name that a statement reads from. -/
structure NamedRef (toks : List Sym) where
  brackets : Brackets
  groups : buildGroups toks = some brackets
  refs : List RelationRef
  collected : collectRefs brackets = some refs
  ref : RelationRef
  mem : ref ∈ refs
  name : Text
  path : ref.path = [name]
  derived : ref.derived < 0
  function : ref.function = false

/-- The token at `i` is in a group that is closed. -/
def InClosed (b : Brackets) (i : ℤ) : Prop :=
  ∃ g x, b.groupOf i = some g ∧ at? b.groups g = some x ∧ x.closeAt < b.size

/-- The WITH at `i` is the first to define the name `n`. -/
def DefinesFirst (b : Brackets) (i : ℤ) (n : Text) (c : Cte) : Prop :=
  Defines b i n c ∧ ∀ i' < i, ∀ c', ¬Defines b i' n c'

theorem DefinesFirst.unique {b : Brackets} {n : Text} {i i' : ℤ} {c c' : Cte}
    (h : DefinesFirst b i n c) (h' : DefinesFirst b i' n c') : i = i' := by
  have h1 : ¬i' < i := fun hlt => h.2 i' hlt c' h'.1
  have h2 : ¬i < i' := fun hlt => h'.2 i hlt c h.1
  omega

namespace NamedRef

variable {toks : List Sym} (q : NamedRef toks)

/-- No WITH around the reference defines its name. -/
def Outside : Prop :=
  ∀ i c, Defines q.brackets i q.name c → ¬Encloses q.brackets i q.ref.group

/-- A reference outside the WITHs that define its name, one of them in a closed group, shows the
columns of the catalog. -/
def ShowsCatalog : Prop :=
  (∃ i c, Defines q.brackets i q.name c ∧ InClosed q.brackets i) → q.Outside →
    ∀ catalog a, analyze catalog toks = some a →
      a.refColumns q.ref = some (a.catalogColumns [q.name])

/-- A reference that WITHs around it define gets the innermost definition, and its columns. -/
def ShowsInnermost : Prop :=
  ¬q.Outside → ∀ catalog a, analyze catalog toks = some a →
    ∃ i c, Defines q.brackets i q.name c ∧ Innermost q.brackets q.name q.ref.group i ∧
      a.pathCte q.ref.path = some c ∧ a.refColumns q.ref = a.cteColumns (a.columnsWithin 4) c 0

/-- CTEs are visible in the scope of their WITH only. -/
def Scoped : Prop := q.ShowsCatalog ∧ q.ShowsInnermost

/-- The first WITH that defines the name is the innermost around the reference, or no WITH in a
closed group defines it. -/
def Undisturbed : Prop :=
  (q.Outside → ∀ i c, Defines q.brackets i q.name c → ¬InClosed q.brackets i) ∧
    (¬q.Outside → ∀ i c, DefinesFirst q.brackets i q.name c →
      Innermost q.brackets q.name q.ref.group i)

end NamedRef

section Lookup

variable {catalog : CompletionCatalog} {toks : List Sym} {a : Analyzer}

variable (q : NamedRef toks)

theorem NamedRef.analyzed (h : analyze catalog toks = some a) :
    a.toBrackets = q.brackets ∧ q.ref ∈ a.refs := by
  obtain ⟨hb, -, hrefs, -⟩ := analyze_eq_some h
  obtain hbr := Option.some_inj.mp (hb.symm.trans q.groups)
  refine ⟨hbr, ?_⟩
  rw [hbr] at hrefs
  rw [Option.some_inj.mp (hrefs.symm.trans q.collected)]
  exact q.mem

/-- A plain name shows its CTE, or its catalog entry. -/
theorem NamedRef.refColumns_eq (a : Analyzer) : a.refColumns q.ref =
    match a.findCte q.name with
    | some c => a.cteColumns (a.columnsWithin 4) c 0
    | none => some (a.catalogColumns [q.name]) := by
  have haliases : q.ref.columnAliases = [] :=
    (collectRefs_ensures (fun _ _ => trivial) q.refs q.collected q.ref q.mem
      : q.ref.AliasesIn fun _ => True).plain q.derived q.function
  have hsource : a.refColumns q.ref = a.sourceColumns (a.columnsWithin 4) q.ref 0 := by
    rw [Analyzer.refColumns, Analyzer.columnsWithin, Analyzer.columnsStep, if_neg (by omega),
      haliases]
    cases a.sourceColumns (a.columnsWithin 4) q.ref 0 with
    | none => rfl
    | some cols => simp [applyAliases]
  rw [hsource, Analyzer.sourceColumns, if_neg (not_le.mpr q.derived), q.function, q.path]
  rfl

/-- What is found for the name comes from the first WITH that defines it. -/
theorem NamedRef.findCte_first (h : analyze catalog toks = some a) :
    (a.findCte q.name = none ∧ ∀ i c, ¬Defines q.brackets i q.name c) ∨
      ∃ i c, a.findCte q.name = some c ∧ DefinesFirst q.brackets i q.name c := by
  obtain ⟨-, hctes, -, -⟩ := analyze_eq_some h
  obtain ⟨hbr, -⟩ := q.analyzed h
  rw [hbr] at hctes
  exact find_first hctes q.name

end Lookup

section Fresh

/-- A catalog with one table. -/
def tableCatalog (n column : Text) : CompletionCatalog :=
  { tables := [{ name := n, columns := [{ name := column }] }] }

variable {n z : Text} {toks : List Sym} {a : Analyzer}

theorem catalogColumns_named (hcatalog : a.catalog = tableCatalog n z) :
    a.catalogColumns [n] = [{ name := z, column := some { name := z } }] := by
  have hfind : findRelation a.catalog [n] =
      some ⟨{ name := n, columns := [{ name := z }] }, false⟩ := by
    rw [hcatalog]
    simp [findRelation, tableCatalog, CompletionCatalog.relations, consider, ieq, qualifierMatches,
      relationRank]
  rw [Analyzer.catalogColumns, hfind]
  rfl

theorem catalogColumns_other (hcatalog : a.catalog = tableCatalog n z) {path : List Text}
    (hpath : ∀ m, path = [m] → ieq n m = false) : a.catalogColumns path = [] := by
  have hfind : findRelation a.catalog path = none := by
    rw [hcatalog]
    rcases List.eq_nil_or_concat path with rfl | ⟨qual, m, rfl⟩
    · rfl
    have hmiss : (!ieq n m || !qualifierMatches [] qual) = true := by
      cases qual with
      | nil => simp [hpath m rfl]
      | cons x xs => simp [qualifierMatches, splitPath]
    simp [findRelation, tableCatalog, CompletionCatalog.relations, consider, hmiss]
  rw [Analyzer.catalogColumns, hfind]
  rfl

/-- No token has the text. -/
theorem exists_fresh (toks : List Sym) : ∃ z : Text, ∀ t ∈ toks, t.text ≠ z := by
  obtain ⟨z, hz⟩ := Infinite.exists_notMem_finset (toks.map Sym.text).toFinset
  refine ⟨z, fun t ht he => hz ?_⟩
  rw [List.mem_toFinset]
  exact List.mem_map.mpr ⟨t, ht, he⟩

theorem drawsFrom (h : analyze (tableCatalog n z) toks = some a) {c : Cte} (hc : a.findCte n = some c) :
    a.DrawsFrom fun x => ∃ t ∈ toks, t.text = x := by
  obtain ⟨hb, hctes, hrefs, hcatalog⟩ := analyze_eq_some h
  obtain rfl := toks_of_buildGroups hb
  have htoks : ∀ t ∈ a.toks, ∃ t' ∈ a.toks, t'.text = t.text := fun t ht => ⟨t, ht, rfl⟩
  refine ⟨htoks, collectCtes_ensures htoks _ hctes, collectRefs_ensures htoks _ hrefs,
    fun path hpath => ?_⟩
  rw [catalogColumns_other hcatalog]
  · simp [Named]
  · rintro m rfl
    -- the name of the table is the one a CTE hides
    by_contra hm
    have hsame : a.findCte m = a.findCte n := by
      have hlower : lower n = lower m := by simpa [ieq] using hm
      simp [Analyzer.findCte, ieq, hlower]
    rw [Analyzer.pathCte, hsame, hc] at hpath
    cases hpath

/-- A name that a CTE hides cannot show the columns of every catalog. -/
theorem NamedRef.hidden (q : NamedRef toks)
    (hcatalog : ∀ catalog a, analyze catalog toks = some a →
      a.refColumns q.ref = some (a.catalogColumns [q.name])) (i : ℤ) (c : Cte) :
    ¬Defines q.brackets i q.name c := by
  intro hdef
  obtain ⟨z, hz⟩ := exists_fresh toks
  obtain ⟨a, ha, -⟩ := analyze_yields (tableCatalog q.name z) toks
  rcases q.findCte_first ha with ⟨-, hno⟩ | ⟨i', c', hfind, -⟩
  · exact hno i c hdef
  · have hcols := hcatalog _ a ha
    rw [catalogColumns_named (analyze_eq_some ha).2.2.2] at hcols
    have hnamed := Analyzer.columnsWithin_ensures (drawsFrom ha hfind) (q.analyzed ha).2 _ hcols
    obtain ⟨t, ht, he⟩ := hnamed _ List.mem_cons_self
    exact hz t ht he

end Fresh

namespace NamedRef

variable {toks : List Sym} (q : NamedRef toks)

theorem showsCatalog_iff : q.ShowsCatalog ↔
    (q.Outside → ∀ i c, Defines q.brackets i q.name c → ¬InClosed q.brackets i) := by
  constructor
  · intro h hout i c hdef hclosed
    exact q.hidden (h ⟨i, c, hdef, hclosed⟩ hout) i c hdef
  · rintro h ⟨i, c, hdef, hclosed⟩ hout
    exact (h hout i c hdef hclosed).elim

theorem showsInnermost_iff : q.ShowsInnermost ↔
    (¬q.Outside → ∀ i c, DefinesFirst q.brackets i q.name c →
      Innermost q.brackets q.name q.ref.group i) := by
  constructor
  · intro h hin i c hfirst
    obtain ⟨a, ha, -⟩ := analyze_yields {} toks
    obtain ⟨i₁, c₁, hdef, hinner, hpath, -⟩ := h hin {} a ha
    rcases q.findCte_first ha with ⟨-, hno⟩ | ⟨i₂, c₂, hfind, hfirst'⟩
    · exact absurd hfirst.1 (hno i c)
    · rw [q.path, Analyzer.pathCte, hfind] at hpath
      obtain rfl := Option.some_inj.mp hpath
      obtain rfl := hdef.unique q.groups hfirst'.1
      obtain rfl := hfirst.unique hfirst'
      exact hinner
  · intro h hin catalog a ha
    rcases q.findCte_first ha with ⟨-, hno⟩ | ⟨i, c, hfind, hfirst⟩
    · exact (hin fun i c hdef => (hno i c hdef).elim).elim
    · refine ⟨i, c, hfirst.1, h hin i c hfirst, ?_, ?_⟩
      · rw [q.path, Analyzer.pathCte, hfind]
      · rw [q.refColumns_eq, hfind]

/-- CTEs keep to the scope of their WITH where the first WITH that defines the name is the
innermost around the reference. -/
theorem scoped_iff : q.Scoped ↔ q.Undisturbed := and_congr q.showsCatalog_iff q.showsInnermost_iff

end NamedRef

/-- `SELECT * FROM n WHERE k IN (WITH n AS (SELECT 1 AS a) SELECT a FROM n)`. -/
def leakToks : List Sym :=
  [.word "SELECT".toList, .op ['*'], .word "FROM".toList, .word ['n'], .word "WHERE".toList,
    .word ['k'], .word "IN".toList, .punct '(', .word "WITH".toList, .word ['n'],
    .word "AS".toList, .punct '(', .word "SELECT".toList, .literal, .word "AS".toList, .word ['a'],
    .punct ')', .word "SELECT".toList, .word ['a'], .word "FROM".toList, .word ['n'], .punct ')']

/-- The name in the outer FROM. -/
def leaked : NamedRef leakToks where
  brackets :=
    { toks := leakToks, groups := [⟨-1, -1, 22⟩, ⟨0, 7, 21⟩, ⟨1, 11, 16⟩]
      groupOf_ := [0, 0, 0, 0, 0, 0, 0, 0, 1, 1, 1, 1, 2, 2, 2, 2, 1, 1, 1, 1, 1, 0]
      opens_ := [-1, -1, -1, -1, -1, -1, -1, 1, -1, -1, -1, 2, -1, -1, -1, -1, -1, -1, -1, -1, -1,
        -1] }
  groups := by decide +kernel
  refs := [{ name := ['n'], path := [['n']] }, { name := ['n'], path := [['n']], group := 1 }]
  collected := by decide +kernel
  ref := { name := ['n'], path := [['n']] }
  mem := by decide
  name := ['n']
  path := rfl
  derived := by decide
  function := rfl

/-- The outer name gets the CTE of the subquery. -/
theorem inner_cte_leaks : ¬leaked.Scoped := by
  have hwith : ∀ i ∈ upTo 0 22, isKw leakToks i "WITH" = true → i = 8 := by decide +kernel
  have hout : leaked.Outside := by
    rintro i c ⟨hi, -⟩ ⟨outer, hgroup, hanc⟩
    have hbounds := bounds_of_isKw hi
    obtain rfl := hwith i (mem_upTo.mpr hbounds) hi
    obtain rfl : outer = 1 := Option.some_inj.mp (hgroup.symm.trans (by decide +kernel))
    exact absurd hanc (by decide +kernel)
  have hdef : Defines leaked.brackets 8 leaked.name { name := ['n'], body := 2 } :=
    ⟨by decide +kernel, [{ name := ['n'], body := 2 }], by decide +kernel, by decide +kernel⟩
  have hclosed : InClosed leaked.brackets 8 := ⟨1, ⟨0, 7, 21⟩, by decide, by decide, by decide⟩
  rintro ⟨hcatalog, -⟩
  exact leaked.showsCatalog_iff.mp hcatalog hout 8 _ hdef hclosed

example : (analyze (tableCatalog ['n'] ['z']) leakToks).bind (fun a => a.refColumns leaked.ref) =
    some [{ name := ['a'] }] := by decide +kernel

end DearSql
