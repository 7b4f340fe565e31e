import DearSql.AliasWords
import DearSql.Ranking

/-! A table name that is typed after FROM, byte by byte, and what is offered on the way. -/
namespace DearSql
open Lexing Loops

/-- A query with the start of a table name at its end. -/
def typedStatement (p : Text) : Text := "SELECT * FROM ".toList ++ p

section Tokens

variable {type : DatabaseType} {p : Text} {t : TokInfo}

def starInfo : TokInfo := { kind := .op, text := ['*'] }

/-- The tokens where the typed text is one token `t`. -/
def typedTokens (t : TokInfo) (p : Text) : List Token :=
  [wordToken selectWord 0 6, ⟨starInfo, 7, 8⟩, wordToken fromWord 9 13, ⟨t, 14, 14 + p.length⟩]

theorem typedStatement_eq (p : Text) :
    typedStatement p = selectWord ++ ' ' :: (['*'] ++ ' ' :: (fromWord ++ ' ' :: p)) := rfl

theorem tokenize_typed (h : scanToken (dialectFor type) (some ' ') p = some (t, p.length)) :
    tokenize (typedStatement p) (dialectFor type) = typedTokens t p := by
  have hselect : ∀ v : Text, scanToken (dialectFor type) none (selectWord ++ ' ' :: v) =
      some ({ kind := .word, text := selectWord }, selectWord.length) := fun v =>
    scan_bytes (by decide) (by decide) (wordStops_space _ v)
  have hstar : ∀ v : Text, scanToken (dialectFor type) (some ' ') (['*'] ++ ' ' :: v) =
      some (starInfo, (['*'] : Text).length) := by
    intro v
    cases type <;> rfl
  have hfrom : ∀ v : Text, scanToken (dialectFor type) (some ' ') (fromWord ++ ' ' :: v) =
      some ({ kind := .word, text := fromWord }, fromWord.length) := fun v =>
    scan_bytes (by decide) (by decide) (wordStops_space _ v)
  have hlast := @lexFrom_scan (dialectFor type) (some ' ') 14 p [] t
  rw [List.append_nil] at hlast
  rw [typedStatement_eq, tokenize, lex, lexFrom_scan (hselect _), lexFrom_blank (by decide),
    lexFrom_scan (hstar _), lexFrom_blank (by decide), lexFrom_scan (hfrom _),
    lexFrom_blank (by decide)]
  exact congrArg _ (congrArg _ (congrArg _ (hlast h)))

theorem length_typed (p : Text) : (typedStatement p).length = 14 + p.length := by
  rw [typedStatement_eq]
  simp [selectWord, fromWord]
  omega

theorem slice_typed (p : Text) : slice (typedStatement p) 14 (14 + p.length) = p := by
  have hdrop : (typedStatement p).drop 14 = p := by
    rw [typedStatement_eq]
    rfl
  rw [slice, hdrop, Nat.add_sub_cancel_left, List.take_length]

theorem ordinary_typed (ht : t.kind = .word ∨ t.kind = .quotedIdent) :
    ∀ u ∈ typedTokens t p, Ordinary u.kind := by
  have hlast : Ordinary t := by
    rcases ht with hk | hk
    · exact ⟨by simp [TokInfo.isSemi, hk], .inl hk⟩
    · exact ⟨by simp [TokInfo.isSemi, hk], .inr (.inl hk)⟩
  simp only [typedTokens, List.mem_cons, List.not_mem_nil, or_false, forall_eq_or_imp, forall_eq]
  exact ⟨⟨rfl, .inl rfl⟩, ⟨rfl, .inr (.inr (.inr rfl))⟩, ⟨rfl, .inl rfl⟩, hlast⟩

end Tokens

section Analysis

variable {catalog : CompletionCatalog} {s : Sym}

def typedSyms (s : Sym) : List Sym := [.word selectWord, .op ['*'], .word fromWord, s]

def typedBrackets (s : Sym) : Brackets where
  toks := typedSyms s
  groups := [⟨-1, -1, 4⟩]
  groupOf_ := [0, 0, 0, 0]
  opens_ := [-1, -1, -1, -1]

def typedAnalyzer (catalog : CompletionCatalog) (s : Sym) (refs : List RelationRef) : Analyzer :=
  { typedBrackets s with catalog := catalog, ctes := [], refs := refs }

/-- A WITH that is typed has no list behind it. -/
theorem collectCtes_typed (s : Sym) : collectCtes (typedBrackets s) = some [] := by
  have hlast : collectCtes (typedBrackets s) = (if isKw (typedSyms s) 3 "WITH" then
      loop (cteTurn (typedBrackets s)) 5 (4, []) else some []).bind some := rfl
  rw [hlast]
  split_ifs <;> rfl

theorem analyze_typed (hgroups : buildGroups (typedSyms s) = some (typedBrackets s)) :
    ∃ refs, analyze catalog (typedSyms s) = some (typedAnalyzer catalog s refs) := by
  obtain ⟨a, ha, -⟩ := analyze_yields catalog (typedSyms s)
  have h := ha
  rw [analyze, hgroups, Option.bind_eq_bind, Option.bind_some, collectCtes_typed,
    Option.bind_eq_bind, Option.bind_some] at h
  obtain ⟨refs, -, h⟩ := Option.bind_eq_some_iff.mp h
  exact ⟨refs, ha.trans h.symm⟩

/-- What the place of a relation asks for. -/
def slotOffers (e : Emitter) (catalog : CompletionCatalog) : List Offer :=
  (typedAnalyzer catalog (.word []) []).relationOffers e

/-- A name that is being typed stands where a relation goes. -/
theorem offers_typed (e : Emitter) (refs : List RelationRef) :
    (typedAnalyzer catalog s refs).offers e 3 = some (slotOffers e catalog) := rfl

/-- Behind a name in quotes the item is complete. -/
theorem offers_closed (e : Emitter) (refs : List RelationRef) (k : Text) :
    (typedAnalyzer catalog (.quotedIdent k) refs).offers e 4 =
      some (addKeywords e clauseKeywords 400 400) := rfl

end Analysis

section Positions

variable {type : DatabaseType} {catalog : CompletionCatalog} {p : Text} {t : TokInfo}

theorem typedFrom_last {cursor : ℕ} (sql : Text) (h : 14 < cursor) :
    typedFrom sql cursor 0 (typedTokens t p) =
      typedFrom sql cursor 3 [⟨t, 14, 14 + p.length⟩] := by
  have h0 : ¬cursor ≤ 0 := by omega
  have h6 : ¬cursor ≤ 6 := by omega
  have h7 : ¬cursor ≤ 7 := by omega
  have h9 : ¬cursor ≤ 9 := by omega
  have h13 : ¬cursor ≤ 13 := by omega
  rw [typedTokens, typedFrom, typedFrom, typedFrom]
  simp only [wordToken, starInfo, h0, h6, h7, h9, h13, and_false, if_false, false_and, reduceCtorEq]

/-- The position at the end of the text, where the typed text is the one token `t`. -/
theorem offersAt_end {typed : Typed} {offers : List Offer} (htype : isSqlDialect type = true)
    (hscan : scanToken (dialectFor type) (some ' ') p = some (t, p.length))
    (ht : t.kind = .word ∨ t.kind = .quotedIdent)
    (htyped : typedFrom (typedStatement p) (14 + p.length) 0 (typedTokens t p) = typed)
    (hoffers : ∀ refs,
      (typedAnalyzer catalog t.sym refs).offers (typed.emitter type) typed.cur = some offers) :
    offersAt (typedStatement p) (14 + p.length) catalog type = some (typed, offers) := by
  have hgroups : buildGroups (typedSyms t.sym) = some (typedBrackets t.sym) := by
    rcases ht with hk | hk <;> rw [TokInfo.sym, hk] <;> rfl
  obtain ⟨refs, ha⟩ := @analyze_typed catalog t.sym hgroups
  have hsyms : syms (typedTokens t p) = typedSyms t.sym := rfl
  rw [offersAt, if_neg (by simp [htype])]
  simp only [tokenize_typed hscan, statementTokens_ordinary (ordinary_typed ht), hsyms, ha,
    insideLiteral_ordinary (ordinary_typed ht), htyped, Option.bind_eq_bind, Option.bind_some,
    Bool.false_eq_true, if_false]
  rw [hoffers refs, Option.bind_some]

/-- A word is typed in the place of a relation. -/
theorem offersAt_word {c : Char} {cs : Text} (htype : isSqlDialect type = true)
    (hc : isIdentStartByte c = true) (hcs : ∀ ch ∈ cs, isIdentByte ch = true) :
    ∃ start stop, offersAt (typedStatement (c :: cs)) (14 + (c :: cs).length) catalog type =
      some ({ cur := 3, prefix_ := c :: cs, replaceStart := start, replaceEnd := stop },
        slotOffers ⟨c :: cs, false, type⟩ catalog) := by
  have hscan := @scan_word (dialectFor type) (some ' ') c cs [] hc hcs (by simp [WordStops])
  rw [List.append_nil] at hscan
  refine ⟨14, 14 + (c :: cs).length, offersAt_end htype hscan (.inl rfl) ?_ (offers_typed _)⟩
  rw [typedFrom_last _ (by simp), typedFrom, if_neg (by simp), if_pos ⟨rfl, le_rfl⟩, slice_typed]

/-- So is a name in quotes that are not closed. -/
theorem offersAt_open {m : Text} (htype : isSqlDialect type = true)
    (hm : (builderFor type).closeQuote ∉ m) :
    ∃ start stop, offersAt (typedStatement ((builderFor type).openQuote :: m))
        (14 + ((builderFor type).openQuote :: m).length) catalog type =
      some ({ cur := 3, quoted := true, prefix_ := m, replaceStart := start, replaceEnd := stop },
        slotOffers ⟨m, true, type⟩ catalog) := by
  let q := (builderFor type).openQuote
  have hscan : scanToken (dialectFor type) (some ' ') (q :: m) =
      some ({ kind := .quotedIdent, closed := false, text := m }, (q :: m).length) := by
    rw [scan_openQuote (quotes_builderFor type), quotedToken, scanQuoted_unfinished hm,
      List.length_cons, Nat.add_comm]
  refine ⟨14, 14 + (q :: m).length, offersAt_end htype hscan (.inr rfl) ?_ (offers_typed _)⟩
  have hslice : slice (typedStatement (q :: m)) 15 (14 + (q :: m).length) = m := by
    have hdrop : (typedStatement (q :: m)).drop 15 = m := by
      rw [typedStatement_eq]
      rfl
    rw [slice, hdrop, List.length_cons, show 14 + (m.length + 1) - 15 = m.length by omega,
      List.take_length]
  rw [typedFrom_last _ (by simp), typedFrom, if_neg (by simp), if_neg (by simp),
    if_pos ⟨rfl, .inr rfl⟩, hslice]

/-- Behind a closed name the FROM item is complete. -/
theorem offersAt_closed (k : Text) (htype : isSqlDialect type = true) :
    ∃ typed, offersAt (typedStatement ((builderFor type).quoteIdentifier k))
        (14 + ((builderFor type).quoteIdentifier k).length) catalog type =
      some (typed, addKeywords (typed.emitter type) clauseKeywords 400 400) := by
  have hscan := @scan_quoteIdentifier _ _ (quotes_builderFor type) (some ' ') k [] (by simp)
  rw [List.append_nil] at hscan
  let stop := 14 + ((builderFor type).quoteIdentifier k).length
  refine ⟨{ cur := 4, replaceStart := stop, replaceEnd := stop },
    offersAt_end htype hscan (.inr rfl) ?_ fun refs => offers_closed _ refs k⟩
  have hlen : 0 < ((builderFor type).quoteIdentifier k).length := by
    simp [Builder.quoteIdentifier]
  rw [typedFrom_last _ (by omega), typedFrom, if_neg (by simp [Builder.quoteIdentifier]),
    if_neg (by simp [identInfo]),
    if_neg (by simp [identInfo]), typedFrom]

end Positions

section TableItems

variable {e : Emitter} {catalog : CompletionCatalog} {t u : Table} {added : List CompletionItem}
  {it : CompletionItem} {tier : ℤ}

theorem matchTier_start {label pre : Text} (hne : pre ≠ []) (h : pre <+: label) (fuzzy : Bool) :
    matchTier label pre fuzzy = some 4150 := by
  rw [matchTier, if_neg hne, if_pos (List.isPrefixOf_iff_prefix.mpr h)]

/-- Only a label that goes on as typed gets the best tier. -/
theorem matchTier_cases {label pre : Text} {fuzzy : Bool} (hne : pre ≠ [])
    (h : matchTier label pre fuzzy = some tier) : tier = 4150 ∧ pre <+: label ∨ tier ≤ 4000 := by
  rw [matchTier, if_neg hne] at h
  split_ifs at h with h1 h2
  · exact .inl ⟨(Option.some_inj.mp h).symm, List.isPrefixOf_iff_prefix.mp h1⟩
  · exact .inr (Option.some_inj.mp h).ge
  · obtain ⟨boundary, -, rfl⟩ := Option.map_eq_some_iff.mp h
    refine .inr ?_
    cases boundary
    · simp only [Bool.false_eq_true, if_false, fuzzyTier]
      split_ifs <;> norm_num
    · norm_num

/-- The item of a table in the place of a relation. -/
def tableItem (e : Emitter) (catalog : CompletionCatalog) (t : Table) (tier : ℤ) :
    CompletionItem where
  label := t.name
  kind := .table
  detail := "table".toList
  owner := t.schema
  insertText := e.path (insertedSchema catalog t) t.name
  score := tier + if isLocal catalog t then 900 else 860

theorem tableItem_eq (e : Emitter) (catalog : CompletionCatalog) (t : Table) (tier : ℤ) :
    let o := addRelation e catalog .table 900 t
    tableItem e catalog t tier =
      ⟨o.label, o.kind, o.detail, o.owner, o.insert, tier + o.bonus⟩ := by
  simp only [tableItem, addRelation, reduceCtorEq, if_false]
  split_ifs <;> rfl

theorem slot_table {o : Offer} (ho : o ∈ slotOffers e catalog) (hk : o.kind = .table) :
    ∃ u ∈ catalog.tables, o = addRelation e catalog .table 900 u := by
  simp only [slotOffers, Analyzer.relationOffers, typedAnalyzer, List.map_nil, List.nil_append,
    List.mem_append] at ho
  obtain ((ho | ho) | ho) := ho
  · rcases List.mem_append.mp ho with ho | ho
    · obtain ⟨u, hu, rfl⟩ := List.mem_map.mp ho
      exact ⟨u, hu, rfl⟩
    · obtain ⟨u, -, rfl⟩ := List.mem_map.mp ho
      cases hk
  · obtain ⟨seg, -, rfl⟩ := List.mem_map.mp ho
    cases hk
  · split_ifs at ho
    · cases ho
    · obtain ⟨kw, -, rfl⟩ := List.mem_map.mp ho
      cases hk

theorem slot_of_table (ht : t ∈ catalog.tables) :
    addRelation e catalog .table 900 t ∈ slotOffers e catalog := by
  simp only [slotOffers, Analyzer.relationOffers, typedAnalyzer, List.map_nil, List.nil_append]
  exact List.mem_append_left _ (List.mem_append_left _
    (List.mem_append_left _ (List.mem_map_of_mem ht)))

/-- The tables among the items. -/
theorem item_of_table (hadded : e.items (slotOffers e catalog) = some added) (hit : it ∈ added)
    (hk : it.kind = .table) :
    ∃ u ∈ catalog.tables, ∃ tier, matchTier u.name e.prefix_ true = some tier ∧
      it = tableItem e catalog u tier := by
  obtain ⟨o, ho, hadd⟩ := mem_items hadded hit
  obtain ⟨tier, htier, -, rfl⟩ := item_of_add hadd
  obtain ⟨u, hu, rfl⟩ := slot_table ho hk
  exact ⟨u, hu, tier, htier, (tableItem_eq e catalog u tier).symm⟩

theorem mem_of_table (hadded : e.items (slotOffers e catalog) = some added)
    (ht : t ∈ catalog.tables) (htier : matchTier t.name e.prefix_ true = some tier) (h0 : 0 ≤ tier)
    (htyped : e.quoted = true ∨ ieq t.name e.prefix_ = false) : tableItem e catalog t tier ∈ added := by
  refine mem_items_of_add hadded (slot_of_table ht) ?_
  have hkind : (addRelation e catalog .table 900 t).kind = .table := rfl
  rw [Emitter.add, if_neg (by simp [hkind])]
  change (matchTier t.name e.prefix_ true).bind _ = _
  rw [htier, Option.bind_some, if_neg (not_lt.mpr h0), if_neg]
  · rw [tableItem_eq]
  · rintro ⟨-, hieq, hq⟩
    rcases htyped with h | h
    · simp [h] at hq
    · simp [addRelation, h] at hieq

theorem tableItem_congr (hname : u.name = t.name) (hschema : u.schema = t.schema) (tier : ℤ) :
    tableItem e catalog u tier = tableItem e catalog t tier := by
  have hlocal : isLocal catalog u = isLocal catalog t := by
    rw [isLocal, isLocal, hschema]
  simp only [tableItem, insertedSchema, hlocal, hname, hschema]

/-- There is one item for a table that is typed so far. -/
theorem eq_of_entry (hadded : e.items (slotOffers e catalog) = some added) (hne : e.prefix_ ≠ [])
    (hpre : e.prefix_ <+: t.name) (hit : it ∈ added) (hk : it.kind = .table)
    (hl : it.label = t.name) (ho : it.owner = t.schema) : it = tableItem e catalog t 4150 := by
  obtain ⟨u, -, tier, htier, rfl⟩ := item_of_table hadded hit hk
  have hname : u.name = t.name := hl
  rw [hname, matchTier_start hne hpre] at htier
  rw [tableItem_congr hname ho, ← Option.some_inj.mp htier]

theorem less_of_score {a b : CompletionItem} (h : b.score < a.score) : itemLess a b = true := by
  rw [itemLess, if_pos h.ne']
  exact decide_eq_true h

theorem iless_append (n : Text) (c : Char) (rest : Text) : iless n (n ++ c :: rest) = true := by
  induction n with
  | nil => rfl
  | cons a n ih =>
    rw [List.cons_append, iless, if_neg (lt_irrefl _), if_neg (lt_irrefl _)]
    exact ih

theorem less_of_label {a b : CompletionItem} {c : Char} {rest : Text} (hs : a.score = b.score)
    (hl : b.label = a.label ++ c :: rest) : itemLess a b = true := by
  have hieq : ieq a.label b.label = false := by
    rw [hl, ieq, decide_eq_false_iff_not]
    intro h
    have := congrArg List.length h
    simp [lower] at this
  rw [itemLess, if_neg (not_not.mpr hs), hieq, hl]
  exact iless_append _ _ _

end TableItems

section Hiding

/-- What the items of tables of the default schema are told apart by, where the names are quoted. -/
def keyText (type : DatabaseType) (t : Table) : Text :=
  t.name ++ '\x1f' :: (builderFor type).quoteIdentifier t.name ++ '\x1f' :: t.schema

/-- A table with a shorter name comes first and has the same key. -/
def Hidden (catalog : CompletionCatalog) (type : DatabaseType) (t : Table) : Prop :=
  ∃ u ∈ catalog.tables, isLocal catalog u = true ∧ u.name ≠ [] ∧
    u.name.length < t.name.length ∧ keyText type u = keyText type t

variable {e : Emitter} {catalog : CompletionCatalog} {t u : Table} {added : List CompletionItem}
  {a b : ℤ}

theorem key_tableItem (ht : isLocal catalog t = true) (tier : ℤ) :
    itemKey (tableItem e catalog t tier) =
      '2' :: '\x1f' :: (t.name ++ '\x1f' :: (e.name t.name ++ '\x1f' :: t.schema)) := by
  simp only [itemKey, tableItem, insertedSchema, if_pos ht, Emitter.path, List.append_assoc,
    List.cons_append]
  rfl

theorem key_eq_iff (ht : isLocal catalog t = true) (hu : isLocal catalog u = true) :
    itemKey (tableItem e catalog u a) = itemKey (tableItem e catalog t b) ↔
      u.name ++ '\x1f' :: (e.name u.name ++ '\x1f' :: u.schema) =
        t.name ++ '\x1f' :: (e.name t.name ++ '\x1f' :: t.schema) := by
  rw [key_tableItem hu, key_tableItem ht]
  simp

theorem keyText_eq (e : Emitter) (hq : e.quoted = true) (t : Table) :
    t.name ++ '\x1f' :: (e.name t.name ++ '\x1f' :: t.schema) = keyText e.type t := by
  rw [keyText, Emitter.name, if_pos hq]
  simp

/-- The item of a table is hidden at no position unless the table is. -/
theorem unhidden_typed (hadded : e.items (slotOffers e catalog) = some added)
    (hx : tableItem e catalog t 4150 ∈ added) (hne : e.prefix_ ≠ []) (ht : isLocal catalog t = true)
    (hsep : e.quoted = true ∨ '\x1f' ∉ t.name)
    (hh : ¬Hidden catalog e.type t) : Unhidden added (tableItem e catalog t 4150) := by
  intro z hz hkey hfields
  refine ⟨_, hx, ⟨rfl, rfl, rfl, rfl⟩, ?_⟩
  obtain ⟨u, hu, tier, htier, rfl⟩ := item_of_table hadded hz (kind_of_key hkey)
  have hcases := matchTier_cases hne htier
  by_cases hlocal : isLocal catalog u = true
  · rcases hcases with ⟨rfl, hpu⟩ | hle
    · have hscore : (tableItem e catalog t 4150).score = (tableItem e catalog u 4150).score := by
        simp only [tableItem, if_pos ht, if_pos hlocal]
      have htext := (key_eq_iff ht hlocal).mp hkey
      have hsame : u.name ≠ t.name := by
        intro hname
        rw [hname] at htext
        have hschema := List.append_cancel_left (List.cons.inj (List.append_cancel_left htext)).2
        rw [tableItem_congr hname (List.cons.inj hschema).2] at hfields
        exact hfields ⟨rfl, rfl, rfl, rfl⟩
      rcases List.append_eq_append_iff.mp htext with ⟨as, hname, has⟩ | ⟨as, hname, has⟩
      · cases as with
        | nil => exact absurd (by simpa using hname.symm) hsame
        | cons c as =>
          obtain ⟨rfl, -⟩ := List.cons.inj has
          have hq : e.quoted = true := hsep.resolve_right fun h => h (by simp [hname])
          refine absurd ⟨u, hu, hlocal, ?_, by simp [hname], ?_⟩ hh
          · exact fun hnil => hne (List.prefix_nil.mp (hnil ▸ hpu))
          · rw [← keyText_eq e hq, ← keyText_eq e hq]
            exact htext
      · cases as with
        | nil => exact absurd (by simpa using hname) hsame
        | cons c as => exact less_of_label hscore hname
    · apply less_of_score
      simp only [tableItem, if_pos ht, if_pos hlocal]
      omega
  · apply less_of_score
    simp only [tableItem, if_pos ht, if_neg hlocal]
    rcases hcases with ⟨rfl, -⟩ | hle <;> omega

/-- A table that hides another one does so where the first byte is typed. -/
theorem hidden_typed {c : Char} {cs : Text} (hadded : e.items (slotOffers e catalog) = some added)
    (hname : t.name = c :: cs) (hpre : e.prefix_ = [c]) (hq : e.quoted = true)
    (ht : isLocal catalog t = true) (hh : Hidden catalog e.type t) :
    ¬Unhidden added (tableItem e catalog t 4150) := by
  obtain ⟨u, hu, hlocal, hune, hlen, htext⟩ := hh
  rw [← keyText_eq e hq, ← keyText_eq e hq] at htext
  have hne : e.prefix_ ≠ [] := by simp [hpre]
  have hcut : ∃ d as, t.name = u.name ++ d :: as := by
    rcases List.append_eq_append_iff.mp htext with ⟨as, hn, -⟩ | ⟨as, hn, -⟩
    · cases as with
      | nil => simp [hn] at hlen
      | cons d as => exact ⟨d, as, hn⟩
    · rw [hn, List.length_append] at hlen
      omega
  obtain ⟨d, as, hcut⟩ := hcut
  have hpu : e.prefix_ <+: u.name := by
    obtain ⟨c', cs', hc'⟩ := List.exists_cons_of_ne_nil hune
    rw [hcut, hc', List.cons_append] at hname
    rw [hpre, hc', (List.cons.inj hname).1]
    exact List.prefix_cons_inj c |>.mpr List.nil_prefix
  have hz := mem_of_table hadded hu (matchTier_start hne hpu true) (by norm_num) (.inl hq)
  intro hun
  obtain ⟨x, hx, hsame, hless⟩ := hun _ hz ((key_eq_iff ht hlocal).mpr htext) fun hs => by
    have hl : u.name = t.name := hs.2.1
    simp [hl] at hlen
  obtain rfl := eq_of_entry hadded hne (by rw [hpre, hname]; exact ⟨cs, rfl⟩) hx hsame.1 hsame.2.1
    hsame.2.2.2
  have hscore : (tableItem e catalog u 4150).score = (tableItem e catalog t 4150).score := by
    simp only [tableItem, if_pos ht, if_pos hlocal]
  have hfirst := itemLess_iff.mp (less_of_label hscore hcut)
  exact lt_asymm hfirst (itemLess_iff.mp hless)

end Hiding

section Offered

/-- The table is offered. -/
def Offered (r : CompletionResult) (t : Table) : Prop :=
  ∃ it ∈ r.items, it.kind = .table ∧ it.label = t.name ∧ it.owner = t.schema

variable {type : DatabaseType} {catalog : CompletionCatalog} {t : Table} {p m : Text}

theorem complete_end {typed : Typed} {offers : List Offer}
    (h : offersAt (typedStatement p) (14 + p.length) catalog type = some (typed, offers)) :
    ∃ added, (typed.emitter type).items offers = some added ∧
      complete (typedStatement p) (typedStatement p).length catalog type =
        some ⟨firstOfKey [] (sortItems added), typed.replaceStart, typed.replaceEnd⟩ := by
  obtain ⟨items, hitems, -⟩ := Emitter.take_yields (typed.emitter type) offers
  obtain ⟨added, hadded, rfl⟩ := Option.map_eq_some_iff.mp hitems
  refine ⟨added, hadded, ?_⟩
  rw [complete, min_self, length_typed, h, Option.bind_eq_bind, Option.bind_some]
  change ((typed.emitter type).take offers).bind _ = _
  rw [hitems]
  rfl

/-- A table that goes on as typed is offered unless its item is hidden. -/
theorem offered_iff {e : Emitter} {added : List CompletionItem} {start stop : ℕ}
    (hadded : e.items (slotOffers e catalog) = some added) (ht : t ∈ catalog.tables)
    (hne : e.prefix_ ≠ []) (hpre : e.prefix_ <+: t.name)
    (htyped : e.quoted = true ∨ ieq t.name e.prefix_ = false) :
    Offered ⟨firstOfKey [] (sortItems added), start, stop⟩ t ↔
      Unhidden added (tableItem e catalog t 4150) := by
  have hx := mem_of_table hadded ht (matchTier_start hne hpre true) (by norm_num) htyped
  rw [← kept_iff hx]
  constructor
  · rintro ⟨it, hit, hk, hl, ho⟩
    have hmem : it ∈ added := mem_sortItems.mp ((firstOfKey_sublist _ _).subset hit)
    obtain rfl := eq_of_entry hadded hne hpre hmem hk hl ho
    refine ⟨_, hit, ⟨rfl, rfl, rfl, rfl⟩, fun z hz hs => ?_⟩
    rw [eq_of_entry hadded hne hpre hz hs.1 hs.2.1 hs.2.2.2]
  · rintro ⟨y, hy, hs, -⟩
    exact ⟨y, hy, hs.1, hs.2.1, hs.2.2.2⟩

theorem not_mem_of_bare {n : Text} {c : Char} (hn : identifierNeedsQuoting n type = false)
    (hc : byteNeedsQuoting type c = true) : c ∉ n := by
  intro hmem
  cases n with
  | nil => cases hmem
  | cons d ds =>
    simp only [identifierNeedsQuoting, Bool.or_eq_false_iff] at hn
    exact List.any_eq_false.mp hn.1.2 c hmem hc

theorem byte_closeQuote (type : DatabaseType) :
    byteNeedsQuoting type (builderFor type).closeQuote = true := by
  cases type <;> decide

theorem byte_separator (type : DatabaseType) : byteNeedsQuoting type '\x1f' = true := by
  cases type <;> decide

theorem separator_of_hidden (h : Hidden catalog type t) : '\x1f' ∈ t.name := by
  obtain ⟨u, -, -, -, hlen, htext⟩ := h
  simp only [keyText, List.append_assoc] at htext
  rcases List.append_eq_append_iff.mp htext with ⟨as, hn, has⟩ | ⟨as, hn, -⟩
  · cases as with
    | nil => simp [hn] at hlen
    | cons d as =>
      obtain ⟨rfl, -⟩ := List.cons.inj has
      simp [hn]
  · rw [hn, List.length_append] at hlen
    omega

/-- A name that goes in bare is offered while it is typed. -/
theorem offered_word {rest : Text} (htype : isSqlDialect type = true) (ht : t ∈ catalog.tables)
    (hlocal : isLocal catalog t = true) (hn : identifierNeedsQuoting t.name type = false)
    (hp : p ++ rest = t.name) (hrest : rest ≠ []) (hne : p ≠ []) :
    ∃ r, complete (typedStatement p) (typedStatement p).length catalog type = some r ∧
      Offered r t := by
  obtain ⟨c, cs, hname, hc, hcs⟩ := bytes_of_unquoted hn
  obtain ⟨d, ps, rfl⟩ := List.exists_cons_of_ne_nil hne
  rw [hname, List.cons_append] at hp
  obtain ⟨rfl, rfl⟩ := List.cons.inj hp
  have hps : ∀ ch ∈ ps, isIdentByte ch = true := fun ch hch => hcs ch (List.mem_append_left _ hch)
  obtain ⟨start, stop, hoffers⟩ := @offersAt_word type catalog d ps htype hc hps
  obtain ⟨added, hadded, hcomplete⟩ := complete_end hoffers
  have hpre : d :: ps <+: t.name := ⟨rest, hname.symm⟩
  have hlonger : ieq t.name (d :: ps) = false := by
    rw [ieq, decide_eq_false_iff_not]
    intro he
    have hlen := congrArg List.length he
    simp only [lower, List.length_map, hname, List.length_cons, List.length_append] at hlen
    exact hrest (List.length_eq_zero_iff.mp (by omega))
  have hsep := not_mem_of_bare hn (byte_separator type)
  refine ⟨_, hcomplete, (offered_iff hadded ht hne hpre (.inr hlonger)).mpr ?_⟩
  have hx := mem_of_table hadded ht (matchTier_start hne hpre true) (by norm_num) (.inr hlonger)
  exact unhidden_typed hadded hx hne hlocal (.inr hsep) fun h => hsep (separator_of_hidden h)

/-- In quotes that are not closed the start of a name offers it unless it is hidden. -/
theorem offered_open (htype : isSqlDialect type = true) (ht : t ∈ catalog.tables)
    (hm : m <+: t.name) (hne : m ≠ []) (hclose : (builderFor type).closeQuote ∉ t.name) :
    ∃ r added, complete (typedStatement ((builderFor type).openQuote :: m))
        (typedStatement ((builderFor type).openQuote :: m)).length catalog type = some r ∧
      Emitter.items ⟨m, true, type⟩ (slotOffers ⟨m, true, type⟩ catalog) = some added ∧
      tableItem ⟨m, true, type⟩ catalog t 4150 ∈ added ∧
      (Offered r t ↔ Unhidden added (tableItem ⟨m, true, type⟩ catalog t 4150)) := by
  obtain ⟨start, stop, hoffers⟩ :=
    @offersAt_open type catalog m htype fun h => hclose (hm.subset h)
  obtain ⟨added, hadded, hcomplete⟩ := complete_end hoffers
  have hx := mem_of_table hadded ht (matchTier_start hne hm true) (by norm_num) (.inl rfl)
  exact ⟨_, added, hcomplete, hadded, hx, offered_iff hadded ht hne hm (.inl rfl)⟩

/-- Behind a closed name no table is offered. -/
theorem not_offered_closed (k : Text) (htype : isSqlDialect type = true) :
    ∃ r, complete (typedStatement ((builderFor type).quoteIdentifier k))
        (typedStatement ((builderFor type).quoteIdentifier k)).length catalog type = some r ∧
      ¬Offered r t := by
  obtain ⟨typed, hoffers⟩ := @offersAt_closed type catalog k htype
  obtain ⟨added, hadded, hcomplete⟩ := complete_end hoffers
  refine ⟨_, hcomplete, ?_⟩
  rintro ⟨it, hit, hk, -⟩
  obtain ⟨o, ho, hadd⟩ := mem_items hadded (mem_sortItems.mp ((firstOfKey_sublist _ _).subset hit))
  obtain ⟨kw, -, rfl⟩ := List.mem_map.mp ho
  obtain ⟨tier, -, -, rfl⟩ := item_of_add hadd
  cases hk

/-- Completing at the end after each proper start of the name that shows a byte of it offers the
table. -/
def StaysOffered (catalog : CompletionCatalog) (type : DatabaseType) (t : Table) : Prop :=
  ∀ p rest, p ++ rest = quoteIdentifierIfNeeded t.name type → rest ≠ [] →
    (if identifierNeedsQuoting t.name type then 2 else 1) ≤ p.length →
    ∃ r, complete (typedStatement p) (typedStatement p).length catalog type = some r ∧ Offered r t

theorem closed_start {close : Char} {n : Text} (h : close ∈ n) :
    ∃ k r, doubling close n = doubling close k ++ close :: close :: doubling close r := by
  obtain ⟨k, r, rfl⟩ := List.append_of_mem h
  exact ⟨k, r, by rw [doubling_append, doubling, if_pos rfl]⟩

/-- A table of the default schema stays on offer while its name is typed exactly when the name has
no closing quote in it and no shorter name hides it. -/
theorem stays_offered_iff (htype : isSqlDialect type = true) (ht : t ∈ catalog.tables)
    (hlocal : isLocal catalog t = true) (hname : t.name ≠ []) :
    StaysOffered catalog type t ↔
      (builderFor type).closeQuote ∉ t.name ∧ ¬Hidden catalog type t := by
  by_cases hneeds : identifierNeedsQuoting t.name type = true
  · have hquoted : quoteIdentifierIfNeeded t.name type = (builderFor type).quoteIdentifier t.name :=
      if_pos hneeds
    rw [StaysOffered, hquoted, if_pos hneeds]
    constructor
    · intro h
      have hclose : (builderFor type).closeQuote ∉ t.name := by
        intro hmem
        -- the first byte of the doubled quote closes the name that is typed
        obtain ⟨k, s, hk⟩ := closed_start hmem
        obtain ⟨r, hr, hoffered⟩ := h ((builderFor type).quoteIdentifier k)
          ((builderFor type).closeQuote :: doubling (builderFor type).closeQuote s ++
            [(builderFor type).closeQuote])
          (by simp [Builder.quoteIdentifier, hk]) (by simp) (by simp [Builder.quoteIdentifier])
        obtain ⟨r', hr', hnot⟩ := @not_offered_closed type catalog t k htype
        obtain rfl := Option.some_inj.mp (hr.symm.trans hr')
        exact hnot hoffered
      refine ⟨hclose, fun hh => ?_⟩
      obtain ⟨c, cs, hc⟩ := List.exists_cons_of_ne_nil hname
      have hm : [c] <+: t.name := ⟨cs, hc.symm⟩
      obtain ⟨r, added, hr, hadded, hx, hiff⟩ :=
        offered_open htype ht hm (List.cons_ne_nil c []) hclose
      obtain ⟨r', hr', hoffered⟩ := h ((builderFor type).openQuote :: [c])
        (cs ++ [(builderFor type).closeQuote])
        (by rw [Builder.quoteIdentifier, doubling_of_not_mem hclose, hc]; rfl) (by simp) le_rfl
      obtain rfl := Option.some_inj.mp (hr.symm.trans hr')
      exact hidden_typed hadded hc rfl rfl hlocal hh (hiff.mp hoffered)
    · rintro ⟨hclose, hh⟩ p rest hp hrest hlen
      rw [Builder.quoteIdentifier, doubling_of_not_mem hclose] at hp
      cases p with
      | nil => simp at hlen
      | cons d m =>
        obtain rfl : d = (builderFor type).openQuote := (List.cons.inj hp).1
        have hm : m ++ rest = t.name ++ [(builderFor type).closeQuote] := (List.cons.inj hp).2
        have hne : m ≠ [] := List.length_pos_iff.mp (Nat.lt_of_succ_lt_succ hlen)
        have hpre : m <+: t.name := by
          refine List.prefix_of_prefix_length_le ⟨rest, hm⟩ (List.prefix_append _ _) ?_
          have hl := congrArg List.length hm
          have hpos := List.length_pos_iff.mpr hrest
          simp only [List.length_append, List.length_cons, List.length_nil] at hl
          omega
        obtain ⟨r, added, hr, hadded, hx, hiff⟩ := offered_open htype ht hpre hne hclose
        exact ⟨r, hr, hiff.mpr (unhidden_typed hadded hx hne hlocal (.inl rfl) hh)⟩
  · have hbare : identifierNeedsQuoting t.name type = false := by simpa using hneeds
    have hquoted : quoteIdentifierIfNeeded t.name type = t.name := if_neg hneeds
    rw [StaysOffered, hquoted, if_neg hneeds]
    refine iff_of_true (fun p rest hp hrest hlen => ?_) ⟨?_, fun hh => ?_⟩
    · exact offered_word htype ht hlocal hbare hp hrest (List.length_pos_iff.mp hlen)
    · exact not_mem_of_bare hbare (byte_closeQuote type)
    · exact not_mem_of_bare hbare (byte_separator type) (separator_of_hidden hh)

theorem stays_offered_t :
    StaysOffered (oneTable ['t']) .POSTGRESQL { name := ['t'], columns := [{ name := ['c'] }] } ↔
      (builderFor .POSTGRESQL).closeQuote ∉ ['t'] ∧
        ¬Hidden (oneTable ['t']) .POSTGRESQL { name := ['t'], columns := [{ name := ['c'] }] } :=
  stays_offered_iff (by decide) List.mem_cons_self (by decide) (by decide)

/-- A name with a quote in it. -/
def quoteName : Text := ['a', '"', 'b']

/-- The table is gone once the first of the two quotes is typed. -/
theorem quote_not_offered :
    ¬StaysOffered (oneTable quoteName) .POSTGRESQL { name := quoteName } := by
  intro h
  obtain ⟨r, hr, hoffered⟩ := h ['"', 'a', '"'] ['"', 'b', '"'] rfl (by decide) (by decide)
  obtain ⟨r', hr', hnot⟩ := @not_offered_closed .POSTGRESQL (oneTable quoteName)
    { name := quoteName } ['a'] (by decide)
  obtain rfl := Option.some_inj.mp (hr.symm.trans hr')
  exact hnot hoffered

end Offered
end DearSql
