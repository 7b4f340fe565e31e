import DearSql.Items

/-! A table name that the completer inserts, read back as a FROM item with an alias. -/
namespace DearSql
open Lexing Loops

/-- A query that selects from the table `n` under the alias `x`. -/
def aliasStatement (n : Text) (type : DatabaseType) : Text :=
  "SELECT x. FROM ".toList ++ quoteIdentifierIfNeeded n type ++ " x".toList

section Tokens

variable {d : Dialect} {prev : Option Char} {pos : ℕ}

theorem lexFrom_scan {u rest : Text} {t : TokInfo}
    (h : scanToken d prev (u ++ rest) = some (t, u.length)) :
    lexFrom (scanToken d) prev pos 0 (u ++ rest) =
      ⟨t, pos, pos + u.length⟩ :: lexFrom (scanToken d) (lastOf prev u) (pos + u.length) 0 rest := by
  rw [lexFrom_step (bounded_scanToken d) h, List.take_left, List.drop_left]

theorem lexFrom_blank {c : Char} (hc : isspace c = true) (rest : Text) :
    lexFrom (scanToken d) prev pos 0 (c :: rest) =
      lexFrom (scanToken d) (some c) (pos + 1) 0 rest :=
  lexFrom_pass (scanToken_eq_none.mpr hc)

theorem wordStops_space (d : Dialect) (rest : Text) : WordStops d (' ' :: rest) := by
  intro c hc
  obtain rfl : ' ' = c := by simpa using hc
  exact ⟨by decide, fun _ => by decide⟩

theorem wordStops_dot (d : Dialect) (rest : Text) : WordStops d ('.' :: rest) := by
  intro c hc
  obtain rfl : '.' = c := by simpa using hc
  exact ⟨by decide, fun _ => by decide⟩

/-- A name and what follows a blank. -/
theorem infosFrom_name_blank (type : DatabaseType) (n rest : Text) :
    ∃ p, infosFrom (dialectFor type) prev (quoteIdentifierIfNeeded n type ++ ' ' :: rest) =
      nameInfo false type n :: infosFrom (dialectFor type) p (' ' :: rest) := by
  have hscan := @scan_name prev ⟨[], false, type⟩ n (' ' :: rest)
    (by cases builderFor type <;> simp [Builder.closeQuote]) (wordStops_space _ rest)
  exact ⟨_, infosFrom_scan hscan⟩

def wordToken (w : Text) (start stop : ℕ) : Token := ⟨{ kind := .word, text := w }, start, stop⟩

def selectWord : Text := ['S', 'E', 'L', 'E', 'C', 'T']

def fromWord : Text := ['F', 'R', 'O', 'M']

theorem scan_bytes {c : Char} {cs rest : Text} (hc : isIdentStartByte c = true)
    (hcs : (cs.all isIdentByte) = true) (hrest : WordStops d rest) :
    scanToken d prev ((c :: cs) ++ rest) =
      some ({ kind := .word, text := c :: cs }, (c :: cs).length) :=
  scan_word hc (List.all_eq_true.mp hcs) hrest

theorem aliasStatement_eq (n : Text) (type : DatabaseType) :
    aliasStatement n type = selectWord ++ ' ' :: (['x'] ++ (['.'] ++ ' ' :: (fromWord ++
      ' ' :: (quoteIdentifierIfNeeded n type ++ ' ' :: ['x'])))) := by
  have h1 : "SELECT x. FROM ".toList =
      selectWord ++ ' ' :: (['x'] ++ (['.'] ++ ' ' :: (fromWord ++ [' ']))) := by
    simp [selectWord, fromWord]
  have h2 : " x".toList = ' ' :: ['x'] := by simp
  unfold aliasStatement
  generalize quoteIdentifierIfNeeded n type = q
  rw [h1, h2]
  simp only [List.append_assoc, List.cons_append, List.nil_append]

/-- The tokens of the statement, the first four with their ranges. -/
theorem tokenize_aliasStatement (n : Text) (type : DatabaseType) :
    ∃ tail, tokenize (aliasStatement n type) (dialectFor type) =
        wordToken selectWord 0 6 :: wordToken ['x'] 7 8 :: ⟨dotInfo, 8, 9⟩ ::
          wordToken fromWord 10 14 :: tail ∧
      tail.map Lexeme.kind = [nameInfo false type n, { kind := .word, text := ['x'] }] := by
  generalize hd : dialectFor type = d
  generalize hrest : quoteIdentifierIfNeeded n type ++ ' ' :: ['x'] = rest
  have hselect : ∀ v : Text, scanToken d none (selectWord ++ ' ' :: v) =
      some ({ kind := .word, text := selectWord }, selectWord.length) := fun v =>
    scan_bytes (by decide) (by decide) (wordStops_space d v)
  have hx : ∀ v : Text, scanToken d (some ' ') (['x'] ++ (['.'] ++ v)) =
      some ({ kind := .word, text := ['x'] }, (['x'] : Text).length) := fun v =>
    scan_bytes (by decide) (by decide) (wordStops_dot d v)
  have hdot : ∀ v : Text, scanToken d (some 'x') (['.'] ++ ' ' :: v) =
      some (dotInfo, (['.'] : Text).length) := by
    intro v
    subst hd
    cases type <;> rfl
  have hfrom : ∀ v : Text, scanToken d (some ' ') (fromWord ++ ' ' :: v) =
      some ({ kind := .word, text := fromWord }, fromWord.length) := fun v =>
    scan_bytes (by decide) (by decide) (wordStops_space d v)
  refine ⟨lexFrom (scanToken d) (some 'M') 14 0 (' ' :: rest), ?_, ?_⟩
  · rw [aliasStatement_eq, hrest, tokenize, lex]
    rw [lexFrom_scan (hselect _), lexFrom_blank (by decide), lexFrom_scan (hx _),
      show lastOf (some ' ') ['x'] = some 'x' from rfl, lexFrom_scan (hdot _),
      lexFrom_blank (by decide), lexFrom_scan (hfrom _)]
    rfl
  · subst hd hrest
    obtain ⟨p, hp⟩ := @infosFrom_name_blank (some ' ') type n ['x']
    have hlast : infosFrom (dialectFor type) (some ' ') (['x'] ++ []) =
        { kind := .word, text := ['x'] } :: infosFrom (dialectFor type) (some 'x') [] :=
      infosFrom_scan (scan_bytes (by decide) (by decide) (by simp [WordStops]))
    rw [List.append_nil] at hlast
    rw [map_kind_lexFrom, infosFrom_blank (by decide), hp, infosFrom_blank (by decide), hlast,
      infosFrom_nil]

end Tokens

section Words

variable {n : Text}

theorem upper_of_ieq {a b : Text} (h : ieq a b = true) : upper a = upper b := by
  have hup : ∀ t : Text, upper (lower t) = upper t := fun t => by
    simp [upper, lower]
  rw [ieq, decide_eq_true_eq] at h
  rw [← hup a, h, hup b]

theorem ieq_false_of_inSet {set : List Text} {word : Text} (h : inSet set n = false)
    (hword : upper word ∈ set) : ieq n word = false := by
  by_contra hne
  have heq := upper_of_ieq (by simpa using hne)
  simp only [inSet, heq] at h
  simp [hword] at h

/-- Words that start a list of relations, or a WITH list: none goes bare into a statement. -/
theorem reserved_listWords : ∀ kw ∈ ["WITH", "FROM", "USING", "JOIN", "UPDATE", "INTO", "TABLE"],
    upper kw.toList ∈ reservedWords := by decide

/-- What may stand before a FROM item ends an item too, or is reserved. -/
theorem itemWords_known : ∀ kw ∈ itemWords,
    upper kw.toList ∈ reservedWords ∨ upper kw.toList ∈ notAliasWords := by decide

theorem notAliasWords_upper : ∀ w ∈ notAliasWords, w ≠ ['X'] := by decide

end Words

section Analysis

/-- The tokens of the statement as the analyzer reads them. -/
def aliasSyms (s : Sym) : List Sym :=
  [.word selectWord, .word ['x'], .punct '.', .word fromWord, s, .word ['x']]

def aliasBrackets (s : Sym) : Brackets where
  toks := aliasSyms s
  groups := [⟨-1, -1, 6⟩]
  groupOf_ := [0, 0, 0, 0, 0, 0]
  opens_ := [-1, -1, -1, -1, -1, -1]

/-- The table under its alias. -/
def aliasRef (n : Text) : RelationRef := { name := ['x'], alias_ := ['x'], path := [n] }

/-- The alias as a table of its own. -/
def bareRef : RelationRef := { name := ['x'], path := [['x']] }

theorem collectCtes_alias {s : Sym} (h : isKw (aliasSyms s) 4 "WITH" = false) :
    collectCtes (aliasBrackets s) = some [] := by
  have hwith : ∀ i ∈ upTo 0 6, isKw (aliasSyms s) i "WITH" = false := by
    have hup : upTo 0 6 = [0, 1, 2, 3, 4, 5] := by decide
    rw [hup]
    simp only [List.mem_cons, List.not_mem_nil, or_false, forall_eq_or_imp, forall_eq]
    exact ⟨rfl, rfl, rfl, rfl, h, rfl⟩
  obtain ⟨ctes, hctes, rfl⟩ : Yields (collectCtes (aliasBrackets s)) fun ctes => ctes = [] := by
    refine foldlM_yields (fun ctes => ctes = []) (fun ctes i hi hnil => ?_) rfl
    have hi : isKw (aliasBrackets s).toks i "WITH" = false := hwith i hi
    rw [if_neg (by simp [hi])]
    exact yields_some hnil
  exact hctes

/-- The item that the list keyword reads at `j`, where the words before it are skipped. -/
theorem parse_from (n : Text) (refs : List RelationRef) :
    parseRelationList (aliasBrackets (.word n)) 3 refs =
      some (if isKwIn (aliasSyms (.word n)) 4 itemWords then refs ++ [bareRef]
        else if inSet notAliasWords n then refs else refs ++ [aliasRef n]) := by
  let b := aliasBrackets (.word n)
  have hparse : parseRelationList b 3 refs = loop (relationTurn b true false 0) 7 (4, refs) := rfl
  have hlt : ((4, refs) : ℤ × List RelationRef).1 < b.size := (by decide : (4 : ℤ) < 6)
  have hgroup : b.groupOf ((4, refs) : ℤ × List RelationRef).1 = some 0 := rfl
  have hhead : relationHead b false 0 4 =
      if (!inSet notAliasWords n) = true then some (some ({ path := [n] }, 5)) else some none := rfl
  have hskip : loop (skipTurn b.toks) (b.toks.length + 1) 4 =
      if isKwIn (aliasSyms (.word n)) 4 itemWords then some 5 else some 4 := by
    change loop (skipTurn (aliasSyms (.word n))) 7 4 = _
    rw [loop, skipTurn]
    split_ifs <;> rfl
  have hturn : relationTurn b true false 0 (4, refs) = some (.done
      (if isKwIn (aliasSyms (.word n)) 4 itemWords then refs ++ [bareRef]
        else if inSet notAliasWords n then refs else refs ++ [aliasRef n])) := by
    unfold relationTurn
    rw [if_pos hlt, hgroup, Option.bind_eq_bind, Option.bind_some, if_neg (not_not.mpr rfl), hskip]
    by_cases hk : isKwIn (aliasSyms (.word n)) 4 itemWords = true
    · rw [if_pos hk, if_pos hk]
      rfl
    · rw [if_neg hk, if_neg hk, Option.bind_eq_bind, Option.bind_some, hhead]
      by_cases hn : inSet notAliasWords n = true
      · rw [if_neg (by simp [hn]), if_pos hn]
        rfl
      · rw [if_pos (by simpa using hn), if_neg hn]
        rfl
  exact hparse.trans (loop_done hturn)

theorem collectRefs_quoted (n : Text) :
    collectRefs (aliasBrackets (.quotedIdent n)) = some [aliasRef n] := rfl

/-- The relations of the statement with a bare name: the table under its alias, unless the name
is one of the words that end a FROM item. -/
theorem collectRefs_word {n : Text} (hres : inSet reservedWords n = false) :
    ∃ refs, collectRefs (aliasBrackets (.word n)) = some refs ∧
      if inSet notAliasWords n then ∀ r ∈ refs, r = bareRef else refs = [aliasRef n] := by
  have hkw : ∀ kw ∈ ["WITH", "FROM", "USING", "JOIN", "UPDATE", "INTO", "TABLE"],
      isKw (aliasSyms (.word n)) 4 kw = false := fun kw hkw =>
    ieq_false_of_inSet hres (reserved_listWords kw hkw)
  let b := aliasBrackets (.word n)
  let straight : Bool := isKw (aliasSyms (.word n)) 4 "STRAIGHT_JOIN"
  have hrun : collectRefs b = (parseRelationList b 3 []).bind fun refs =>
      (refTurn b refs 4).bind fun refs => (refTurn b refs 5).bind some := rfl
  have hrel : isRelationKeyword b 4 = some straight := by
    change isRelationKeyword (aliasBrackets (.word n)) 4 = _
    simp only [isRelationKeyword, isKwIn, aliasBrackets, List.any_cons, List.any_nil,
      hkw "FROM" (by decide), hkw "USING" (by decide), hkw "JOIN" (by decide),
      hkw "UPDATE" (by decide), hkw "INTO" (by decide), hkw "TABLE" (by decide),
      Bool.false_eq_true, if_false, Bool.false_or, Bool.or_false, straight]
  have hnext : ∀ refs, parseRelationList b 4 refs = some (refs ++ [bareRef]) := by
    intro refs
    have hloop : parseRelationList b 4 refs =
        loop (relationTurn b (isKwIn (aliasSyms (.word n)) 4 ["FROM", "USING"])
          (isKw (aliasSyms (.word n)) 4 "INTO") 0) 7 (5, refs) := rfl
    rw [hloop, hkw "INTO" (by decide), isKwIn, List.any_cons, hkw "FROM" (by decide),
      List.any_cons, hkw "USING" (by decide)]
    rfl
  have hword : ∀ refs, refTurn b refs 4 = some (if straight then refs ++ [bareRef] else refs) := by
    intro refs
    have hturn : refTurn b refs 4 = (isRelationKeyword b 4).bind fun relation =>
        if (!relation || (isKw (aliasSyms (.word n)) 4 "TABLE" && false)) = true then some refs
        else parseRelationList b 4 refs := rfl
    rw [hturn, hrel, Option.bind_some, hnext, Bool.and_false, Bool.or_false]
    cases straight <;> rfl
  have hlast : ∀ refs, refTurn b refs 5 = some refs := by
    intro refs
    obtain ⟨create, hcreate, -⟩ := isCreateTable_yields b.toks 5
    have hturn : refTurn b refs 5 = (isCreateTable b.toks 5).bind fun _ => some refs := rfl
    rw [hturn, hcreate, Option.bind_some]
  refine ⟨_, by rw [hrun, parse_from, Option.bind_some, hword, Option.bind_some, hlast,
    Option.bind_some], ?_⟩
  by_cases hn : inSet notAliasWords n = true
  · rw [if_pos hn]
    intro r
    split_ifs <;> simp
  · have hbare : ∀ kw : String, upper kw.toList ∈ notAliasWords →
        isKw (aliasSyms (.word n)) 4 kw = false := fun kw hkw =>
      ieq_false_of_inSet (by simpa using hn) hkw
    have hskip : isKwIn (aliasSyms (.word n)) 4 itemWords = false := by
      rw [isKwIn, List.any_eq_false]
      intro kw hmem
      rw [Bool.not_eq_true]
      rcases itemWords_known kw hmem with hkw | hkw
      · exact ieq_false_of_inSet hres hkw
      · exact hbare kw hkw
    have hstraight : straight = false := hbare "STRAIGHT_JOIN" (by decide)
    rw [if_neg hn, hskip, hstraight, if_neg hn]
    rfl

/-- An analysis of the statement. -/
def aliasAnalyzer (catalog : CompletionCatalog) (s : Sym) (refs : List RelationRef) : Analyzer :=
  { aliasBrackets s with catalog := catalog, ctes := [], refs := refs }

variable {catalog : CompletionCatalog} {t : Table}

theorem analyze_alias {s : Sym} {refs : List RelationRef}
    (hgroups : buildGroups (aliasSyms s) = some (aliasBrackets s))
    (hwith : isKw (aliasSyms s) 4 "WITH" = false)
    (hrefs : collectRefs (aliasBrackets s) = some refs) :
    analyze catalog (aliasSyms s) = some (aliasAnalyzer catalog s refs) := by
  rw [analyze, hgroups, Option.bind_eq_bind, Option.bind_some, collectCtes_alias hwith,
    Option.bind_eq_bind, Option.bind_some, hrefs]
  rfl

/-- What a path of one name leads to where there is one table. -/
theorem findRelation_single (htables : catalog.tables = [t]) (hviews : catalog.views = [])
    (p : Text) :
    findRelation catalog [p] = if ieq t.name p then some ⟨t, false⟩ else none := by
  have hrels : catalog.relations = [⟨t, false⟩] := by
    simp [CompletionCatalog.relations, htables, hviews]
  have hfind : findRelation catalog [p] = (consider catalog p [] (-1, none) ⟨t, false⟩).2 := by
    simp [findRelation, hrels]
  have hrank : -1 < relationRank catalog p t := by
    unfold relationRank
    split_ifs <;> decide
  rw [hfind, consider, qualifierMatches, if_pos rfl]
  cases ieq t.name p
  · rfl
  · simp [hrank]

theorem qualifiedColumns_aliasRef {n : Text} {s : Sym} (htables : catalog.tables = [t])
    (hviews : catalog.views = []) (hname : t.name = n) :
    (aliasAnalyzer catalog s [aliasRef n]).qualifiedColumns [['x']] 0 = some (tableColumns t) := by
  have hcols : (aliasAnalyzer catalog s [aliasRef n]).qualifiedColumns [['x']] 0 =
      some (applyAliases ((aliasAnalyzer catalog s [aliasRef n]).catalogColumns [n]) []) := rfl
  have hn : ieq t.name n = true := by simp [hname, ieq]
  have hfind : findRelation (aliasAnalyzer catalog s [aliasRef n]).catalog [n] = some ⟨t, false⟩ := by
    rw [show (aliasAnalyzer catalog s [aliasRef n]).catalog = catalog from rfl,
      findRelation_single htables hviews, if_pos hn]
  rw [hcols, Analyzer.catalogColumns, hfind]
  simp [applyAliases]

theorem qualifiedColumns_bareRef {s : Sym} {refs : List RelationRef}
    (htables : catalog.tables = [t]) (hviews : catalog.views = [])
    (hname : ieq t.name ['x'] = false) (hrefs : ∀ r ∈ refs, r = bareRef) :
    (aliasAnalyzer catalog s refs).qualifiedColumns [['x']] 0 = some [] := by
  let a := aliasAnalyzer catalog s refs
  have hcols : a.catalogColumns [['x']] = [] := by
    have hfind : findRelation a.catalog [['x']] = none := by
      rw [show a.catalog = catalog from rfl, findRelation_single htables hviews, hname]
      rfl
    rw [Analyzer.catalogColumns, hfind]
    rfl
  have hturn : ∀ best, a.nearerTurn ['x'] 0 best bareRef =
      some (if best.1 < 0 then (0, some bareRef) else best) := fun _ => rfl
  have hfind : Yields (a.pathRef [['x']] 0) fun found => ∀ r ∈ found, r = bareRef := by
    have hfold := foldlM_yields (f := a.nearerTurn ['x'] 0) (l := refs) (s := (-1, none))
      (fun best => ∀ r ∈ best.2, r = bareRef) (fun best r hr hbest => by
        rw [hrefs r hr, hturn]
        split_ifs
        · exact yields_some (by simp)
        · exact yields_some hbest) (by simp)
    exact hfold.map fun _ hbest => hbest
  obtain ⟨found, hfound, hbare⟩ := hfind
  change a.qualifiedColumns [['x']] 0 = some []
  rw [Analyzer.qualifiedColumns, hfound, Option.bind_eq_bind, Option.bind_some]
  cases found with
  | none =>
    have hnone : a.pathCte [['x']] = none := rfl
    simp only [hnone, hcols]
  | some r =>
    obtain rfl := hbare r rfl
    have href : a.refColumns bareRef = some (applyAliases (a.catalogColumns [['x']]) []) := rfl
    simp only [href, hcols, applyAliases]

theorem offers_alias {s : Sym} {refs : List RelationRef} {cols : List ColInfo} (e : Emitter)
    (hcols : (aliasAnalyzer catalog s refs).qualifiedColumns [['x']] 0 = some cols) :
    (aliasAnalyzer catalog s refs).offers e 3 = some (addColumns e cols ['x'] 900 ++
      addSchemaMembers e catalog [['x']] 700 true) := by
  have hoffers : (aliasAnalyzer catalog s refs).offers e 3 =
      (aliasAnalyzer catalog s refs).memberOffers e [['x']] 0 .column := rfl
  have hmember : (aliasAnalyzer catalog s refs).memberOffers e [['x']] 0 .column =
      ((aliasAnalyzer catalog s refs).qualifiedColumns [['x']] 0).bind fun cols =>
        some (addColumns e cols ['x'] 900 ++ addSchemaMembers e catalog [['x']] 700 true) := rfl
  rw [hoffers, hmember, hcols, Option.bind_some]

end Analysis
section Statement

/-- A name or a dot. -/
def NameOrDot (t : TokInfo) : Prop := t.kind = .word ∨ t.kind = .quotedIdent ∨ t = dotInfo

variable {all : List Token}

/-- A token of the statement itself, outside which the cursor can be anywhere. -/
def Ordinary (t : TokInfo) : Prop :=
  t.isSemi = false ∧ (t.kind = .word ∨ t.kind = .quotedIdent ∨ t.kind = .punct ∨ t.kind = .op)

theorem NameOrDot.ordinary {t : TokInfo} (h : NameOrDot t) : Ordinary t := by
  rcases h with hk | hk | hk
  · exact ⟨by simp [TokInfo.isSemi, hk], .inl hk⟩
  · exact ⟨by simp [TokInfo.isSemi, hk], .inr (.inl hk)⟩
  · rw [hk]
    exact ⟨rfl, .inr (.inr (.inl rfl))⟩

theorem statementTokens_ordinary (h : ∀ t ∈ all, Ordinary t.kind) (offset length : ℕ) :
    statementTokens all offset length = all := by
  have hspan : ∀ (i : ℕ) (ts : List Token) (span : StatementSpan),
      (∀ t ∈ ts, Ordinary t.kind) → statementAtFrom offset i ts span = span := by
    intro i ts
    induction ts generalizing i with
    | nil => exact fun _ _ => rfl
    | cons t ts ih =>
      intro span hts
      rw [statementAtFrom, if_neg (by simp [(hts t List.mem_cons_self).1])]
      exact ih _ _ fun u hu => hts u (List.mem_cons_of_mem _ hu)
  rw [statementTokens, statementAt, hspan 0 all _ h, List.drop_zero, List.take_length,
    List.filter_eq_self]
  intro t ht
  rcases (h t ht).2 with hk | hk | hk | hk <;> simp [hk]

theorem insideLiteral_ordinary (h : ∀ t ∈ all, Ordinary t.kind) (cursor : ℕ) :
    insideLiteral cursor all = false := by
  induction all with
  | nil => rfl
  | cons t ts ih =>
    have hbars : barsCursor cursor t = false := by
      rcases (h t List.mem_cons_self).2 with hk | hk | hk | hk <;> simp [barsCursor, hk]
    rw [insideLiteral, hbars, ih fun u hu => h u (List.mem_cons_of_mem _ hu)]
    simp

/-- The name of the table, as the analyzer reads it. -/
def nameSym (n : Text) (type : DatabaseType) : Sym :=
  if identifierNeedsQuoting n type then .quotedIdent n else .word n

theorem offersAt_alias {n : Text} {type : DatabaseType} {catalog : CompletionCatalog}
    {refs : List RelationRef} {cols : List ColInfo} (htype : isSqlDialect type = true)
    (ha : analyze catalog (aliasSyms (nameSym n type)) =
      some (aliasAnalyzer catalog (nameSym n type) refs))
    (hcols : (aliasAnalyzer catalog (nameSym n type) refs).qualifiedColumns [['x']] 0 = some cols) :
    offersAt (aliasStatement n type) 9 catalog type =
      some ({ cur := 3, replaceStart := 9, replaceEnd := 9 },
        addColumns ⟨[], false, type⟩ cols ['x'] 900 ++
          addSchemaMembers ⟨[], false, type⟩ catalog [['x']] 700 true) := by
  obtain ⟨tail, htokens, htail⟩ := tokenize_aliasStatement n type
  have hordinary : ∀ t ∈ tokenize (aliasStatement n type) (dialectFor type), Ordinary t.kind := by
    suffices h : ∀ t ∈ tokenize (aliasStatement n type) (dialectFor type), NameOrDot t.kind from
      fun t ht => (h t ht).ordinary
    have hname : NameOrDot (nameInfo false type n) := by
      unfold nameInfo
      split_ifs
      · exact .inr (.inl rfl)
      · exact .inl rfl
    have hkinds : ∀ k ∈ tail.map Lexeme.kind, NameOrDot k := by
      rw [htail]
      simp only [List.mem_cons, List.not_mem_nil, or_false, forall_eq_or_imp, forall_eq]
      exact ⟨hname, .inl rfl⟩
    rw [htokens]
    simp only [List.mem_cons, forall_eq_or_imp]
    exact ⟨.inl rfl, .inl rfl, .inr (.inr rfl), .inl rfl, fun t ht =>
      hkinds _ (List.mem_map_of_mem ht)⟩
  have hsyms : syms (tokenize (aliasStatement n type) (dialectFor type)) =
      aliasSyms (nameSym n type) := by
    have hname : (nameInfo false type n).sym = nameSym n type := by
      unfold nameInfo nameSym
      rw [Bool.false_or]
      split_ifs <;> rfl
    have hrest : syms tail = [nameSym n type, .word ['x']] := by
      have hmap : syms tail = (tail.map Lexeme.kind).map TokInfo.sym := by
        rw [List.map_map]
        rfl
      rw [hmap, htail, List.map_cons, hname]
      rfl
    have hfirst : syms (tokenize (aliasStatement n type) (dialectFor type)) =
        .word selectWord :: .word ['x'] :: .punct '.' :: .word fromWord :: syms tail := by
      rw [htokens]
      rfl
    rw [hfirst, hrest]
    rfl
  have htyped : typedFrom (aliasStatement n type) 9 0
      (tokenize (aliasStatement n type) (dialectFor type)) =
        { cur := 3, replaceStart := 9, replaceEnd := 9 } := by
    rw [htokens]
    rfl
  rw [offersAt, if_neg (by simp [htype])]
  simp only [statementTokens_ordinary hordinary, hsyms, ha, insideLiteral_ordinary hordinary, htyped,
    Option.bind_eq_bind, Option.bind_some, Bool.false_eq_true, if_false]
  have hoffers := offers_alias ⟨[], false, type⟩ hcols
  change ((aliasAnalyzer catalog (nameSym n type) refs).offers ⟨[], false, type⟩ 3).bind _ = _
  rw [hoffers, Option.bind_some]

end Statement
section ColumnItems

theorem doubling_append (q : Char) (s t : Text) :
    doubling q (s ++ t) = doubling q s ++ doubling q t := by
  induction s with
  | nil => rfl
  | cons c cs ih =>
    rw [List.cons_append, doubling, doubling, ih]
    split_ifs <;> rfl

theorem length_le_doubling (q : Char) (s : Text) : s.length ≤ (doubling q s).length := by
  induction s with
  | nil => exact le_rfl
  | cons c cs ih =>
    rw [doubling]
    split_ifs <;> simp only [List.length_cons] <;> omega

variable {e : Emitter}

/-- A name with the separator of the keys in it is quoted, so it is longer than its start. -/
theorem length_name_lt (e : Emitter) (l u : Text) :
    (e.name l).length < (e.name (l ++ '\x1f' :: u)).length := by
  let b := builderFor e.type
  have hneeds : identifierNeedsQuoting (l ++ '\x1f' :: u) e.type = true := by
    have hbyte : byteNeedsQuoting e.type '\x1f' = true := by
      cases e.type <;> decide
    have hany : (l ++ '\x1f' :: u).any (byteNeedsQuoting e.type) = true := by
      simp [hbyte]
    cases hl : l ++ '\x1f' :: u with
    | nil => simp at hl
    | cons c cs =>
      rw [hl] at hany
      simp [identifierNeedsQuoting, hany]
  have hlong : e.name (l ++ '\x1f' :: u) = b.quoteIdentifier (l ++ '\x1f' :: u) := by
    unfold Emitter.name quoteIdentifierIfNeeded
    rw [hneeds]
    simp [b]
  have hshort : (e.name l).length ≤ (b.quoteIdentifier l).length := by
    have hle := length_le_doubling b.closeQuote l
    unfold Emitter.name quoteIdentifierIfNeeded
    split_ifs
    · exact le_rfl
    · exact le_rfl
    · simp only [Builder.quoteIdentifier, List.cons_append, List.length_cons, List.length_append]
      omega
  rw [hlong]
  refine lt_of_le_of_lt hshort ?_
  have hrest := length_le_doubling b.closeQuote ('\x1f' :: u)
  simp only [List.length_cons] at hrest
  simp only [Builder.quoteIdentifier, doubling_append, List.cons_append, List.length_cons,
    List.length_append]
  omega

/-- A label and the name inserted for it tell where the one ends and the other starts. -/
theorem label_of_key {l₁ l₂ : Text}
    (h : l₁ ++ '\x1f' :: e.name l₁ = l₂ ++ '\x1f' :: e.name l₂) : l₁ = l₂ := by
  have hcut : ∀ {l m u : Text}, m = l ++ '\x1f' :: u →
      '\x1f' :: e.name l = '\x1f' :: u ++ '\x1f' :: e.name m → False := by
    intro l m u hm he
    have hlen := congrArg List.length he
    have hlt := length_name_lt e l u
    rw [← hm] at hlt
    simp only [List.length_cons, List.length_append] at hlen
    omega
  rcases List.append_eq_append_iff.mp h with ⟨u, hm, he⟩ | ⟨u, hm, he⟩
  · cases u with
    | nil => simpa using hm.symm
    | cons c u =>
      obtain ⟨rfl, -⟩ := List.cons.inj he
      exact (hcut hm he).elim
  · cases u with
    | nil => simpa using hm
    | cons c u =>
      obtain ⟨rfl, -⟩ := List.cons.inj he
      exact (hcut hm he).elim

variable {cols : List ColInfo} {owner : Text} {bonus : ℤ} {others : List Offer}

/-- The item of an offer that nothing typed is compared with. -/
def Offer.item (o : Offer) : CompletionItem :=
  ⟨o.label, o.kind, o.detail, o.owner, o.insert, 4000 + o.bonus⟩

theorem items_untyped (hq : e.quoted = false) (hp : e.prefix_ = []) (offers : List Offer) :
    e.items offers = some (offers.map Offer.item) := by
  have hadd : ∀ o : Offer, e.add o = some (some o.item) := by
    intro o
    rw [Emitter.add, if_neg (by simp [hq]), hp, matchTier, if_pos rfl]
    rfl
  have hmap : offers.mapM e.add = some (offers.map fun o => some o.item) := by
    induction offers with
    | nil => rfl
    | cons o offers ih =>
      rw [List.mapM_cons, hadd, ih]
      rfl
  rw [Emitter.items, hmap]
  simp

/-- With nothing typed, the columns offered are all listed. -/
theorem column_items (hq : e.quoted = false) (hp : e.prefix_ = [])
    (hothers : ∀ o ∈ others, o.kind ≠ .column) {items : List CompletionItem}
    (h : e.take (addColumns e cols owner bonus ++ others) = some items) (label : Text) :
    (∃ it ∈ items, it.kind = .column ∧ it.label = label) ↔ ∃ c ∈ cols, c.name = label := by
  let offers := addColumns e cols owner bonus ++ others
  have hitems : items = firstOfKey [] (sortItems (offers.map Offer.item)) := by
    rw [Emitter.take, items_untyped hq hp] at h
    exact (Option.some_inj.mp h).symm
  have hcolumn : ∀ it ∈ offers.map Offer.item, it.kind = .column →
      (∃ c ∈ cols, c.name = it.label) ∧ it.insertText = e.name it.label ∧ it.owner = owner := by
    intro it hit hk
    obtain ⟨o, ho, rfl⟩ := List.mem_map.mp hit
    rcases List.mem_append.mp ho with ho | ho
    · obtain ⟨c, hc, rfl⟩ := List.mem_map.mp ho
      exact ⟨⟨c, hc, rfl⟩, rfl, rfl⟩
    · exact absurd hk (hothers o ho)
  have hmem : ∀ it ∈ items, it ∈ offers.map Offer.item := fun it hit =>
    mem_sortItems.mp ((firstOfKey_sublist _ _).subset (hitems ▸ hit))
  constructor
  · rintro ⟨it, hit, hk, rfl⟩
    exact (hcolumn it (hmem it hit) hk).1
  · rintro ⟨c, hc, rfl⟩
    let o : Offer := { label := c.name, kind := .column, detail := c.type, owner := owner
                       insert := e.name c.name, bonus := bonus }
    have ho : o ∈ offers := List.mem_append_left _ (List.mem_map.mpr ⟨c, hc, rfl⟩)
    have hit : o.item ∈ sortItems (offers.map Offer.item) :=
      mem_sortItems.mpr (List.mem_map.mpr ⟨o, ho, rfl⟩)
    obtain ⟨y, hy, hkey⟩ := exists_firstOf hit
    have hyitems : y ∈ items := by
      rw [hitems]
      exact mem_firstOfKey.mpr ⟨by simp, hy⟩
    have hk : y.kind = .column := kind_of_key hkey
    obtain ⟨-, hinsert, howner⟩ := hcolumn y (hmem y hyitems) hk
    refine ⟨y, hyitems, hk, label_of_key (e := e) ?_⟩
    rw [itemKey, itemKey, hk, hinsert, howner] at hkey
    have hfront : (y.label ++ '\x1f' :: e.name y.label) ++ '\x1f' :: owner =
        (c.name ++ '\x1f' :: e.name c.name) ++ '\x1f' :: owner := by
      simpa [Offer.item, o] using hkey
    exact List.append_cancel_right hfront

end ColumnItems

/-- The completer offers a column of the table for the alias that follows the table's name. -/
def OffersColumn (n : Text) (type : DatabaseType) (catalog : CompletionCatalog) (c : Column) : Prop :=
  ∃ r, complete (aliasStatement n type) 9 catalog type = some r ∧
    ∃ it ∈ r.items, it.kind = .column ∧ it.label = c.name

/-- Among the names inserted bare, the analyzer reads back those that do not end a FROM item. -/
theorem inserted_name_read_back {n : Text} {type : DatabaseType} (htype : isSqlDialect type = true)
    {catalog : CompletionCatalog} {t : Table} (htables : catalog.tables = [t])
    (hviews : catalog.views = []) (hname : t.name = n) {c : Column} (hc : c ∈ t.columns) :
    OffersColumn n type catalog c ↔
      identifierNeedsQuoting n type = true ∨ inSet notAliasWords n = false := by
  have hlen : min 9 (aliasStatement n type).length = 9 := by
    rw [aliasStatement_eq]
    generalize fromWord ++ ' ' :: (quoteIdentifierIfNeeded n type ++ ' ' :: ['x']) = rest
    simp [selectWord]
  -- the columns offered are those of what the alias stands for
  have hoffers : ∀ refs {cols}, analyze catalog (aliasSyms (nameSym n type)) =
        some (aliasAnalyzer catalog (nameSym n type) refs) →
      (aliasAnalyzer catalog (nameSym n type) refs).qualifiedColumns [['x']] 0 = some cols →
      (OffersColumn n type catalog c ↔ ∃ x ∈ cols, x.name = c.name) := by
    intro refs cols ha hcols
    let e : Emitter := ⟨[], false, type⟩
    let others := addSchemaMembers e catalog [['x']] 700 true
    have hothers : ∀ o ∈ others, o.kind ≠ .column := fun o ho => kind_addSchemaMembers ho
    obtain ⟨items, hitems, -⟩ := Emitter.take_yields e (addColumns e cols ['x'] 900 ++ others)
    have hcomplete : complete (aliasStatement n type) 9 catalog type = some ⟨items, 9, 9⟩ := by
      rw [complete, hlen, offersAt_alias htype ha hcols, Option.bind_eq_bind, Option.bind_some]
      change (e.take (addColumns e cols ['x'] 900 ++ others)).bind _ = _
      rw [hitems]
      rfl
    rw [← column_items rfl rfl hothers hitems c.name, OffersColumn, hcomplete]
    simp
  have hthis : ∃ x ∈ tableColumns t, x.name = c.name :=
    ⟨_, List.mem_map.mpr ⟨c, hc, rfl⟩, rfl⟩
  by_cases hneeds : identifierNeedsQuoting n type = true
  · have hsym : nameSym n type = .quotedIdent n := if_pos hneeds
    refine iff_of_true ((hoffers [aliasRef n] ?_
      (qualifiedColumns_aliasRef htables hviews hname)).mpr hthis) (.inl hneeds)
    rw [hsym]
    exact analyze_alias rfl rfl (collectRefs_quoted n)
  · have hsym : nameSym n type = .word n := if_neg hneeds
    have hres : inSet reservedWords n = false := by
      cases hn : n with
      | nil => simp [hn, identifierNeedsQuoting] at hneeds
      | cons ch cs =>
        have hno := hneeds
        rw [hn] at hno
        simp only [identifierNeedsQuoting, Bool.or_eq_true, not_or, Bool.not_eq_true] at hno
        exact hno.2
    obtain ⟨refs, hrefs, hword⟩ := collectRefs_word hres
    have hwith : isKw (aliasSyms (.word n)) 4 "WITH" = false :=
      ieq_false_of_inSet hres (reserved_listWords _ (by decide))
    have ha : analyze catalog (aliasSyms (nameSym n type)) =
        some (aliasAnalyzer catalog (nameSym n type) refs) := by
      rw [hsym]
      exact analyze_alias rfl hwith hrefs
    by_cases hset : inSet notAliasWords n = true
    · rw [if_pos hset] at hword
      have hx : ieq t.name ['x'] = false := by
        rw [hname]
        by_contra hne
        have hup : upper n = ['X'] := upper_of_ieq (by simpa using hne)
        have hmem : upper n ∈ notAliasWords := by simpa [inSet] using hset
        exact notAliasWords_upper _ hmem hup
      refine iff_of_false (fun h => ?_) (by simp [hneeds, hset])
      obtain ⟨x, hmem, -⟩ :=
        (hoffers _ ha (qualifiedColumns_bareRef htables hviews hx hword)).mp h
      exact absurd hmem List.not_mem_nil
    · rw [if_neg hset] at hword
      subst hword
      exact iff_of_true ((hoffers _ ha (qualifiedColumns_aliasRef htables hviews hname)).mpr hthis)
        (.inr (by simpa using hset))

/-- A catalog with one table, of one column. -/
def oneTable (n : Text) : CompletionCatalog where
  tables := [{ name := n, columns := [{ name := ['c'] }] }]

theorem inserted_name_read_back_t :
    OffersColumn ['t'] .POSTGRESQL (oneTable ['t']) { name := ['c'] } ↔
      identifierNeedsQuoting ['t'] .POSTGRESQL = true ∨ inSet notAliasWords ['t'] = false :=
  inserted_name_read_back (t := { name := ['t'], columns := [{ name := ['c'] }] })
    (by decide) rfl rfl rfl List.mem_cons_self

def startName : Text := ['s', 't', 'a', 'r', 't']

/-- A table named `start` goes in bare and is not read back. -/
theorem start_not_read_back :
    ¬OffersColumn startName .POSTGRESQL (oneTable startName) { name := ['c'] } := by
  have hnone : (complete (aliasStatement startName .POSTGRESQL) 9 (oneTable startName)
      .POSTGRESQL).map (fun r => r.items.any fun it => it.label = ['c']) = some false := by
    decide
  obtain ⟨r, hr, hany⟩ := Option.map_eq_some_iff.mp hnone
  rintro ⟨r', hr', it, hit, -, hlabel⟩
  obtain rfl : r = r' := Option.some_inj.mp (hr.symm.trans hr')
  exact List.any_eq_false.mp hany it hit (by simp [hlabel])

end DearSql
