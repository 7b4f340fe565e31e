import DearSql.FromLists
import DearSql.StarColumns

/-! Star queries over each other, written as a chain of CTEs and as derived tables. -/
namespace DearSql
open Lexing Loops

section Statements

/-- `c AS (SELECT * FROM prev)`. -/
def cteToks (prev c : Name) : List Sym :=
  c.sym :: .word "AS".toList :: .punct '(' :: (starToks ++ [prev.sym]) ++ [.punct ')']

/-- The further items of a WITH list, each over the one before it. -/
def moreCtes (prev : Name) : List Name → List Sym
  | [] => []
  | c :: cs => .punct ',' :: (cteToks prev c ++ moreCtes c cs)

/-- A table, or `(SELECT * FROM ...) c` for each name, the outermost first. -/
def sourceToks (t : Name) : List Name → List Sym
  | [] => [t.sym]
  | c :: cs => .punct '(' :: (starToks ++ sourceToks t cs) ++ [.punct ')', c.sym]

/-- `SELECT x. FROM`. -/
def selectToks (x : Name) : List Sym :=
  [.word "SELECT".toList, x.sym, .punct '.', .word "FROM".toList]

/-- A chain of star queries over a table of the catalog, and the alias of the last one. -/
structure StarChain (catalog : CompletionCatalog) where
  table : Name
  relation : Relation
  found : findRelation catalog [table.text] = some relation
  first : Name
  rest : List Name
  distinct : (first :: rest).Pairwise fun c c' => ieq c.text c'.text = false
  alias_ : Name

namespace StarChain

variable {catalog : CompletionCatalog} (q : StarChain catalog)

def names : List Name := q.first :: q.rest

theorem queries_ne_nil : q.first :: q.rest ≠ [] := List.cons_ne_nil _ _

def cteStatement : List Sym :=
  .word "WITH".toList :: (cteToks q.table q.first ++ moreCtes q.first q.rest) ++
    (selectToks q.alias_ ++ [((q.first :: q.rest).getLast q.queries_ne_nil).sym, q.alias_.sym])

def derivedStatement : List Sym :=
  selectToks q.alias_ ++ sourceToks q.table (q.alias_ :: q.names.dropLast.reverse)

end StarChain
end Statements

section Bodies

variable {b : Brackets} {pre xs src post : List Sym} {t : Sym} {refs : List RelationRef}

/-- A token right inside a parenthesis. -/
theorem groupOf_inside (hb : buildGroups (pre ++ .punct '(' :: (xs ++ t :: post)) = some b)
    (hxs : Balanced xs) (ht : t ≠ .punct ')') :
    b.groupOf (pre.length + 1 + xs.length) = some (opened pre).1 := by
  have hsplit : pre ++ .punct '(' :: (xs ++ t :: post) = (pre ++ [.punct '('] ++ xs) ++ t :: post := by
    simp
  rw [hsplit] at hb
  have h := groupOf_of_opened hb ht
  rw [opened_balanced _ hxs, opened_open] at h
  have hlen : ((pre ++ [Sym.punct '('] ++ xs).length : ℤ) = pre.length + 1 + xs.length := by
    simp only [List.length_append, List.length_singleton]
    push_cast
    ring
  rw [hlen] at h
  exact h

theorem balanced_star : Balanced starToks := balanced_of_plain (by decide)

theorem opened_star (pre : List Sym) : opened (pre ++ .punct '(' :: starToks) =
    ((opened pre).1 + 1, (opened pre).1 :: (opened pre).2) := by
  have h := opened_balanced (pre ++ [.punct '(']) balanced_star
  have hnone : opens starToks = 0 := rfl
  rw [opened_open, hnone] at h
  simpa using h

theorem balanced_body (hsrc : Balanced src) : Balanced (starToks ++ src) := balanced_star.append hsrc

/-- FROM in a parenthesised star query. -/
theorem isRelationKeyword_body
    (hb : buildGroups (pre ++ .punct '(' :: (starToks ++ src) ++ .punct ')' :: post) = some b)
    (hsrc : Balanced src) (hbefore : isKwIn b.toks (pre.length - 1) fromCalls = false) :
    isRelationKeyword b (pre.length + 3) = some true := by
  have htoks := toks_of_buildGroups hb
  have hsees : Sees b.toks pre.length (.punct '(' :: (starToks ++ src) ++ .punct ')' :: post) :=
    ⟨pre, by rw [htoks]; simp, rfl⟩
  have hstar : at? b.toks (pre.length + 1 + 1) = some (.op ['*']) := hsees.tail.tail.at
  have hfrom : at? b.toks (pre.length + 1 + 1 + 1) = some (.word "FROM".toList) :=
    hsees.tail.tail.tail.at
  obtain ⟨top, -, hgroup⟩ := group_of_opened hb (balanced_body hsrc)
  have hsplit : pre ++ .punct '(' :: (starToks ++ src) ++ .punct ')' :: post =
      pre ++ .punct '(' :: ([.word "SELECT".toList, .op ['*']] ++ .word "FROM".toList ::
        (src ++ .punct ')' :: post)) := by simp [starToks]
  rw [hsplit] at hb
  have hg := groupOf_inside hb (balanced_of_plain (by decide)) (by decide)
  refine isRelationKeyword_from (i := pre.length + 3) hfrom ?_ hg fun _ => ⟨_, hgroup, hbefore⟩
  rw [show (pre.length : ℤ) + 3 - 1 = pre.length + 1 + 1 by ring, isKw_of_at hstar]
  rfl

/-- The group of a parenthesised star query and what it selects. -/
theorem selectsAll_body {a : Analyzer} {r : RelationRef}
    (hb : buildGroups (pre ++ .punct '(' :: (starToks ++ src) ++ .punct ')' :: post) =
      some a.toBrackets) (hsrc : Balanced src)
    (hrefs : a.visibleRefsIn (opened pre).1 = [r]) : a.SelectsAll (opened pre).1 r := by
  have htoks := toks_of_buildGroups hb
  have hsees : Sees a.toks (pre.length + 1) (starToks ++ (src ++ .punct ')' :: post)) := by
    have h : Sees a.toks pre.length (.punct '(' :: (starToks ++ (src ++ .punct ')' :: post))) :=
      ⟨pre, by rw [htoks]; simp, rfl⟩
    exact h.tail
  have hstar : at? a.toks (pre.length + 1 + 1) = some (.op ['*']) := hsees.tail.at
  obtain ⟨top, -, hgroup⟩ := group_of_opened hb (balanced_body hsrc)
  have hlen : ((starToks ++ src).length : ℤ) = 3 + src.length := by
    simp [starToks]
    ring
  have hsize : (pre.length : ℤ) + 1 + (starToks ++ src).length ≤ a.size := by
    rw [Brackets.size, htoks]
    simp
    omega
  have hsplit : pre ++ .punct '(' :: (starToks ++ src) ++ .punct ')' :: post =
      pre ++ .punct '(' :: ([] ++ .word "SELECT".toList :: (.op ['*'] :: .word "FROM".toList ::
        (src ++ .punct ')' :: post))) := by simp [starToks]
  rw [hsplit] at hb
  have hg := groupOf_inside hb .nil (by decide)
  have hitems := selectItems_star hgroup hsees (by simpa using hg) (by omega) hsize
  refine selectsAll_star hitems ?_ hrefs
  rw [← hstar]
  congr 1

/-- The table of a FROM clause and nothing after it. -/
theorem relationTurn_table {p : Name} {g j : ℤ} (hg : b.groupOf j = some g)
    (h : Sees b.toks j (p.sym :: post)) (hpost : EndsItem post)
    (hcomma : post.head? ≠ some (.punct ',')) : relationTurn b true false g (j, refs) =
      some (.done (refs ++ [FromItem.ref { head := p } g])) := by
  have hview : Sees b.toks j (FromItem.toks { head := p } ++ post) := h
  have hturn := relationTurn_item hg hview hpost true refs
  have hno : isPunct b.toks (j + (FromItem.toks { head := p }).length) ',' = false := by
    have hrest : Sees b.toks (j + (FromItem.toks { head := p }).length) post := h.tail
    rw [hrest.isPunct]
    exact decide_eq_false hcomma
  rw [hno] at hturn
  exact hturn

end Bodies

section Derived

variable {b : Brackets} {pre post : List Sym} {t : Name} {names : List Name} {g : ℤ}
  {refs : List RelationRef}

theorem balanced_source (t : Name) (names : List Name) : Balanced (sourceToks t names) := by
  induction names with
  | nil => exact balanced_of_plain (by simp [sourceToks, t.ne_punct])
  | cons c cs ih =>
    exact .group (balanced_body ih) (balanced_of_plain (by simp [c.ne_punct]))

/-- What a source declares in group `g`, when the next group is `next`. -/
def sourceRef (t : Name) (g next : ℤ) : List Name → RelationRef
  | [] => FromItem.ref { head := t } g
  | c :: _ => { name := c.text, alias_ := c.text, group := g, derived := next }

/-- What is declared inside a source. -/
def innerRefs (t : Name) (next : ℤ) : List Name → List RelationRef
  | [] => []
  | _ :: cs => sourceRef t next (next + 1) cs :: innerRefs t (next + 1) cs

theorem relationTurn_source (hb : buildGroups (pre ++ sourceToks t names ++ post) = some b)
    (hpost : EndsItem post) (hcomma : post.head? ≠ some (.punct ','))
    (hg : b.groupOf pre.length = some g) : relationTurn b true false g (pre.length, refs) =
      some (.done (refs ++ [sourceRef t g (opened pre).1 names])) := by
  have htoks := toks_of_buildGroups hb
  have hsees : Sees b.toks pre.length (sourceToks t names ++ post) :=
    ⟨pre, by rw [htoks, List.append_assoc], rfl⟩
  match names with
  | [] => exact relationTurn_table hg hsees hpost hcomma
  | c :: cs =>
    let inner := starToks ++ sourceToks t cs
    have hsplit : pre ++ sourceToks t (c :: cs) ++ post =
        pre ++ .punct '(' :: inner ++ .punct ')' :: (c.sym :: post) := by
      simp [sourceToks, inner]
    have hat : at? b.toks pre.length = some (.punct '(') := hsees.at
    obtain ⟨j, hj⟩ : ∃ j : ℤ, j = pre.length + 1 + inner.length + 1 := ⟨_, rfl⟩
    have hname : Sees b.toks j (c.sym :: post) := by
      have h : Sees b.toks pre.length ((.punct '(' :: inner) ++ (.punct ')' :: (c.sym :: post))) :=
        ⟨pre, by rw [htoks, hsplit]; simp, rfl⟩
      have hlen : (pre.length : ℤ) + (Sym.punct '(' :: inner).length + 1 = j := by
        rw [hj, List.length_cons]
        push_cast
        ring
      exact hlen ▸ h.drop.tail
    rw [hsplit] at hb
    have hinner : Balanced inner := balanced_body (balanced_source t cs)
    have hclose := closeOf_of_opened hb hinner
    have hopening : buildGroups (pre ++ .punct '(' :: (inner ++ .punct ')' :: (c.sym :: post))) =
        some b := by simpa using hb
    have hopens := opens_of_opened hopening
    have hskip : loop (skipTurn b.toks) (b.toks.length + 1) pre.length = some (pre.length : ℤ) := by
      refine loop_done ?_
      rw [skipTurn, isKwIn_of_at hat]
      rfl
    have hhead : relationHead b false g pre.length =
        some (some ({ group := g, derived := (opened pre).1 }, j)) := by
      rw [relationHead, isPunct_of_at hat, if_pos (by rfl), hopens, hclose, hj]
      rfl
    have halias : aliasAt b.toks false j = some (c.text, j + 1) := by
      rw [aliasAt, isKw_of_at hname.at, isNameIdent_of_at hname.at, textAt_of_at hname.at,
        c.isKw (by decide), c.isNameIdent]
      rfl
    have hcols : ∀ r : RelationRef, aliasColumns b r c.text (j + 1) = some ([], j + 1) := by
      intro r
      have hno : post.head? ≠ some (.punct '(') := fun hp => (hpost _ hp).2.1 rfl
      rw [aliasColumns, columnList, hname.tail.isPunct, decide_eq_false hno]
      simp
    have hlist : isPunct b.toks (j + 1) ',' = false := by
      rw [hname.tail.isPunct]
      exact decide_eq_false hcomma
    have htail : relationTail b false { group := g, derived := (opened pre).1 } j =
        some (sourceRef t g (opened pre).1 (c :: cs), j + 1) := by
      rw [relationTail, halias, Option.bind_eq_bind, Option.bind_some]
      simp only [hcols, Option.bind_eq_bind, Option.bind_some]
      simp [sourceRef, c.text_ne]
    unfold relationTurn
    rw [if_pos (by exact hsees.lt), hg]
    simp only [Option.bind_eq_bind, Option.bind_some, ne_eq, not_true, if_false, hskip, hhead, htail,
      hlist, Bool.and_false, Bool.false_eq_true]
    simp [sourceRef, c.text_ne]

/-- FROM in a parenthesised star query starts a list of the group. -/
theorem refTurn_body {src : List Sym} {head : Sym} {rest : List Sym} (hsrc : src = head :: rest)
    (hb : buildGroups (pre ++ .punct '(' :: (starToks ++ src) ++ .punct ')' :: post) = some b)
    (hbalanced : Balanced src) (hbefore : isKwIn b.toks (pre.length - 1) fromCalls = false)
    {r : RelationRef}
    (hlist : b.groupOf (pre.length + 4) = some (opened pre).1 →
      relationTurn b true false (opened pre).1 (pre.length + 4, refs) = some (.done (refs ++ [r]))) :
    refsOver b pre.length (.punct '(' :: starToks) refs = some (refs ++ [r]) := by
  have htoks := toks_of_buildGroups hb
  have hsees : Sees b.toks pre.length (.punct '(' :: (starToks ++ (src ++ .punct ')' :: post))) :=
    ⟨pre, by rw [htoks]; simp, rfl⟩
  have hfrom : at? b.toks (pre.length + 1 + 1 + 1) = some (.word "FROM".toList) :=
    hsees.tail.tail.tail.at
  have hrel : isRelationKeyword b (pre.length + 1 + 1 + 1) = some true :=
    isRelationKeyword_body hb hbalanced hbefore
  have hhead : head ≠ .punct ')' := by
    rintro rfl
    rw [hsrc] at hbalanced
    cases hbalanced with
    | token hopen hclose _ => exact hclose rfl
  have hgroup : b.groupOf (pre.length + 1 + 1 + 1) = some (opened pre).1 := by
    have hsplit : pre ++ .punct '(' :: (starToks ++ src) ++ .punct ')' :: post =
        pre ++ .punct '(' :: ([.word "SELECT".toList, .op ['*']] ++ .word "FROM".toList ::
          (src ++ .punct ')' :: post)) := by simp [starToks]
    rw [hsplit] at hb
    exact groupOf_inside hb (balanced_of_plain (by decide)) (by decide)
  have hinside : b.groupOf (pre.length + 4) = some (opened pre).1 := by
    have hsplit : pre ++ .punct '(' :: (starToks ++ src) ++ .punct ')' :: post =
        pre ++ .punct '(' :: (starToks ++ head :: (rest ++ .punct ')' :: post)) := by simp [hsrc]
    rw [hsplit] at hb
    exact groupOf_inside hb balanced_star hhead
  have hparse : parseRelationList b (pre.length + 1 + 1 + 1) refs = some (refs ++ [r]) := by
    have hkw : isKwIn b.toks (pre.length + 1 + 1 + 1) ["FROM", "USING"] = true := by
      rw [isKwIn_of_at hfrom]
      decide
    have hinto : isKw b.toks (pre.length + 1 + 1 + 1) "INTO" = false := by
      rw [isKw_of_at hfrom]
      decide
    rw [parseRelationList, hgroup, Option.bind_eq_bind, Option.bind_some, hkw, hinto]
    exact loop_done (hlist hinside)
  rw [refsOver_cons, refTurn_quiet hsees.at (by decide), Option.bind_some, starToks, refsOver_cons,
    refTurn_quiet hsees.tail.at (by decide), Option.bind_some, refsOver_cons,
    refTurn_quiet hsees.tail.tail.at (by decide), Option.bind_some, refsOver_cons,
    refTurn_list hfrom hrel (by decide), hparse, Option.bind_some, refsOver_nil]

theorem sourceToks_cons (t : Name) (names : List Name) :
    ∃ head rest, sourceToks t names = head :: rest := by
  cases names <;> exact ⟨_, _, rfl⟩

/-- What a source adds besides its own reference. -/
theorem refsOver_source (hb : buildGroups (pre ++ sourceToks t names ++ post) = some b)
    (hbefore : isKwIn b.toks (pre.length - 1) fromCalls = false) (refs : List RelationRef) :
    refsOver b pre.length (sourceToks t names) refs =
      some (refs ++ innerRefs t (opened pre).1 names) := by
  have htoks := toks_of_buildGroups hb
  induction names generalizing pre post refs with
  | nil =>
    have hsees : Sees b.toks pre.length ([t.sym] ++ post) :=
      ⟨pre, by rw [htoks]; simp [sourceToks], rfl⟩
    rw [sourceToks, refsOver_quiet hsees (by simp [quiet_name]), innerRefs, List.append_nil]
  | cons c cs ih =>
    let before := pre ++ .punct '(' :: starToks
    obtain ⟨head, rest, hsrc⟩ := sourceToks_cons t cs
    have hsplit : pre ++ sourceToks t (c :: cs) ++ post =
        pre ++ .punct '(' :: (starToks ++ sourceToks t cs) ++ .punct ')' :: (c.sym :: post) := by
      simp [sourceToks]
    have hsplit' : pre ++ sourceToks t (c :: cs) ++ post =
        before ++ sourceToks t cs ++ .punct ')' :: (c.sym :: post) := by
      simp [sourceToks, before]
    have hopened : opened before = _ := opened_star pre
    have hlen : (before.length : ℤ) = pre.length + 4 := by simp [before, starToks]
    have hend : EndsItem (.punct ')' :: (c.sym :: post)) := by
      rintro u ⟨⟩
      decide
    have hb' := hb
    rw [hsplit'] at hb'
    have hfirst : refsOver b pre.length (.punct '(' :: starToks) refs =
        some (refs ++ [sourceRef t (opened pre).1 ((opened pre).1 + 1) cs]) :=
      refTurn_body hsrc (hsplit ▸ hb) (balanced_source t cs) hbefore fun hg => by
        have hturn : relationTurn b true false (opened pre).1 (before.length, refs) =
            some (.done (refs ++ [sourceRef t (opened pre).1 (opened before).1 cs])) :=
          relationTurn_source hb' hend (by simp) (by rw [hlen]; exact hg)
        rwa [hlen, hopened] at hturn
    have hfrom : isKwIn b.toks (before.length - 1) fromCalls = false := by
      have hsees : Sees b.toks pre.length
          ([.punct '(', .word "SELECT".toList, .op ['*']] ++ .word "FROM".toList ::
            (sourceToks t cs ++ .punct ')' :: (c.sym :: post))) :=
        ⟨pre, by rw [htoks, hsplit]; simp [starToks], rfl⟩
      have hat : at? b.toks (pre.length + 3) = some (.word "FROM".toList) := hsees.drop.at
      rw [hlen, show (pre.length : ℤ) + 4 - 1 = pre.length + 3 by ring, isKwIn_of_at hat]
      decide
    have hrest := ih hb' hfrom (refs ++ [sourceRef t (opened pre).1 ((opened pre).1 + 1) cs])
      (by rw [htoks, hsplit'])
    have hclose : Sees b.toks (before.length + (sourceToks t cs).length)
        ([.punct ')', c.sym] ++ post) := by
      have h : Sees b.toks before.length (sourceToks t cs ++ ([.punct ')', c.sym] ++ post)) :=
        ⟨before, by rw [htoks, hsplit']; simp, rfl⟩
      exact h.drop
    have hquiet : ∀ u ∈ [.punct ')', c.sym], u.isKwIn relationWords = false := by
      simp only [List.mem_cons, List.not_mem_nil, or_false, forall_eq_or_imp, forall_eq]
      exact ⟨rfl, quiet_name c⟩
    have htoks' : sourceToks t (c :: cs) =
        (.punct '(' :: starToks) ++ (sourceToks t cs ++ [.punct ')', c.sym]) := by
      simp [sourceToks]
    have hpre : (pre.length : ℤ) + (Sym.punct '(' :: starToks).length = before.length := by
      rw [hlen]
      rfl
    rw [htoks', refsOver_append, hfirst, Option.bind_some, hpre, refsOver_append, hrest,
      Option.bind_some, refsOver_quiet hclose hquiet, hopened, innerRefs, List.append_assoc,
      List.singleton_append]

@[simp] theorem sourceRef_group (t : Name) (g next : ℤ) (names : List Name) :
    (sourceRef t g next names).group = g := by
  cases names <;> rfl

theorem innerRefs_group {next : ℤ} : ∀ r ∈ innerRefs t next names, next ≤ r.group := by
  induction names generalizing next with
  | nil => simp [innerRefs]
  | cons c cs ih =>
    intro r hr
    rcases List.mem_cons.mp hr with rfl | hr
    · simp
    · have := ih r hr
      omega

/-- The reference is to the name alone. -/
structure Names (r : RelationRef) (c : Name) : Prop where
  path : r.path = [c.text]
  derived : r.derived = -1
  function : r.function = false
  columnAliases : r.columnAliases = []

theorem isTable_name {a : Analyzer} {p : Name} {rel : Relation} {r : RelationRef} (hr : Names r p)
    (hcte : a.findCte p.text = none) (hfound : findRelation a.catalog [p.text] = some rel) :
    a.IsTable r (tableColumns rel.table) := by
  intro refCols depth
  have hpath : a.pathCte r.path = none := by
    rw [hr.path]
    exact hcte
  have hcols : a.catalogColumns r.path = tableColumns rel.table := by
    rw [Analyzer.catalogColumns, hr.path, hfound]
    rfl
  rw [Analyzer.sourceColumns, hr.derived, if_neg (by decide), hr.function, hpath, hcols]
  rfl

/-- One star query for each name lies over the table. -/
theorem exposes_source {a : Analyzer} {rel : Relation}
    (hb : buildGroups (pre ++ sourceToks t names ++ post) = some a.toBrackets)
    (hctes : a.ctes = []) (hfound : findRelation a.catalog [t.text] = some rel)
    (hrefs : ∀ k, (opened pre).1 ≤ k →
      a.visibleRefsIn k = (innerRefs t (opened pre).1 names).filter fun r => r.group = k) (g : ℤ) :
    a.Exposes (tableColumns rel.table) names.length (sourceRef t g (opened pre).1 names) := by
  induction names generalizing pre post g with
  | nil => exact .table (isTable_name ⟨rfl, rfl, rfl, rfl⟩ (by simp [Analyzer.findCte, hctes]) hfound) rfl
  | cons c cs ih =>
    let before := pre ++ .punct '(' :: starToks
    have hsplit : pre ++ sourceToks t (c :: cs) ++ post =
        pre ++ .punct '(' :: (starToks ++ sourceToks t cs) ++ .punct ')' :: (c.sym :: post) := by
      simp [sourceToks]
    have hsplit' : pre ++ sourceToks t (c :: cs) ++ post =
        before ++ sourceToks t cs ++ .punct ')' :: (c.sym :: post) := by
      simp [sourceToks, before]
    have hopened : opened before = _ := opened_star pre
    have hhere : a.visibleRefsIn (opened pre).1 =
        [sourceRef t (opened pre).1 ((opened pre).1 + 1) cs] := by
      rw [hrefs _ le_rfl, innerRefs, List.filter_cons_of_pos (by simp), List.cons_inj_right,
        List.filter_eq_nil_iff]
      intro r hr hk
      have := innerRefs_group r hr
      simp only [decide_eq_true_eq] at hk
      omega
    have hb' := hb
    rw [hsplit'] at hb'
    have hrest := ih hb' (fun k hk => by
      rw [hopened] at hk
      simp only at hk
      rw [hrefs k (by omega), innerRefs, List.filter_cons_of_neg (by simp; omega), hopened])
      (opened pre).1
    rw [hopened] at hrest
    have hsource : ∀ (refCols : RelationRef → ℕ → Option (List ColInfo)) (depth : ℕ),
        a.sourceColumns refCols (sourceRef t g (opened pre).1 (c :: cs)) depth =
          a.selectColumns refCols (opened pre).1 (depth + 1) := by
      intro refCols depth
      have hpos := opened_pos pre
      rw [Analyzer.sourceColumns, if_pos (by simp only [sourceRef]; omega)]
      rfl
    exact .star ⟨(opened pre).1, selectsAll_body (hsplit ▸ hb) (balanced_source t cs) hhere,
      hsource⟩ rfl hrest

end Derived
end DearSql
