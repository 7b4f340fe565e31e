import DearSql.StarChains

/-! Star queries over each other in a WITH list, and what the last one of them shows. -/
namespace DearSql
open Lexing Loops

section Links

/-- One item of the chain: what it selects from, its name and the group of its query. -/
structure Link where
  prev : Name
  name : Name
  body : ℤ

def links (prev : Name) (next : ℤ) : List Name → List Link
  | [] => []
  | c :: cs => ⟨prev, c, next⟩ :: links c (next + 1) cs

def Link.cte (l : Link) : Cte := { name := l.name.text, body := l.body }

def Link.ref (l : Link) : RelationRef := FromItem.ref { head := l.prev } l.body

variable {prev : Name} {next : ℤ} {names : List Name}

theorem le_body : ∀ l ∈ links prev next names, next ≤ l.body := by
  induction names generalizing prev next with
  | nil => simp [links]
  | cons c cs ih =>
    intro l hl
    rcases List.mem_cons.mp hl with rfl | hl
    · exact le_rfl
    · have := ih l hl
      omega

theorem names_links (prev : Name) (next : ℤ) (names : List Name) :
    (links prev next names).map Link.name = names := by
  induction names generalizing prev next with
  | nil => rfl
  | cons c cs ih => simp [links, ih]

/-- Every item selects from the table or from another item. -/
theorem prev_links : ∀ l ∈ links prev next names,
    l.prev = prev ∨ ∃ l' ∈ links prev next names, l'.name = l.prev := by
  induction names generalizing prev next with
  | nil => simp [links]
  | cons c cs ih =>
    intro l hl
    rcases List.mem_cons.mp hl with rfl | hl
    · exact .inl rfl
    · rcases ih l hl with hl | ⟨l', hl', h⟩
      · exact .inr ⟨_, List.mem_cons_self, hl.symm⟩
      · exact .inr ⟨l', List.mem_cons_of_mem _ hl', h⟩

end Links

section Items

variable {b : Brackets} {pre post : List Sym} {prev c : Name} {cs : List Name}
  {refs : List RelationRef}

theorem balanced_cte (prev c : Name) : Balanced (cteToks prev c) := by
  have hbody : Balanced (starToks ++ [prev.sym]) :=
    balanced_body (balanced_of_plain (by simp [prev.ne_punct]))
  exact .token (c.ne_punct _) (c.ne_punct _) (.token (by decide) (by decide) (.group hbody .nil))

theorem balanced_more (c : Name) (cs : List Name) : Balanced (moreCtes c cs) := by
  induction cs generalizing c with
  | nil => exact .nil
  | cons d ds ih =>
    exact .token (by decide) (by decide) ((balanced_cte c d).append (ih d))

theorem length_moreCtes (c : Name) (cs : List Name) : (moreCtes c cs).length = 9 * cs.length := by
  induction cs generalizing c with
  | nil => rfl
  | cons d ds ih =>
    rw [moreCtes, List.length_cons, List.length_append, ih, List.length_cons]
    simp [cteToks, starToks]
    ring

theorem opens_cte (prev c : Name) : opens (cteToks prev c) = 1 := by
  simp [opens, cteToks, starToks, prev.ne_punct, c.ne_punct]

theorem opened_cte (pre : List Sym) (prev c : Name) :
    opened (pre ++ cteToks prev c ++ [.punct ',']) = ((opened pre).1 + 1, (opened pre).2) := by
  have hcomma : Balanced [.punct ','] := balanced_of_plain (by decide)
  rw [List.append_assoc, opened_balanced pre ((balanced_cte prev c).append hcomma), opens_append,
    opens_cte]
  rfl

/-- Up to the parenthesis of an item. -/
def beforeBody (pre : List Sym) (c : Name) : List Sym := pre ++ [c.sym, .word "AS".toList]

theorem opened_beforeBody (pre : List Sym) (c : Name) : opened (beforeBody pre c) = opened pre := by
  have hplain : Balanced [c.sym, .word "AS".toList] := balanced_of_plain (by simp [c.ne_punct])
  have h := opened_balanced pre hplain
  have hnone : opens [c.sym, .word "AS".toList] = 0 := by simp [opens, c.ne_punct]
  rw [beforeBody, h, hnone]
  simp

theorem split_cte (pre post : List Sym) (prev c : Name) : pre ++ cteToks prev c ++ post =
    beforeBody pre c ++ .punct '(' :: (starToks ++ [prev.sym]) ++ .punct ')' :: post := by
  simp [cteToks, beforeBody]

theorem cteTurn_item (hb : buildGroups (pre ++ cteToks prev c ++ post) = some b) (ctes : List Cte) :
    cteTurn b (pre.length, ctes) =
      some (if isPunct b.toks (pre.length + 8) ',' then
        .next (pre.length + 9, ctes ++ [Link.cte ⟨prev, c, (opened pre).1⟩])
      else .done (ctes ++ [Link.cte ⟨prev, c, (opened pre).1⟩])) := by
  have hsees : Sees b.toks pre.length (cteToks prev c ++ post) :=
    ⟨pre, by rw [toks_of_buildGroups hb, List.append_assoc], rfl⟩
  have hname : at? b.toks pre.length = some c.sym := hsees.at
  have has : at? b.toks (pre.length + 1) = some (.word "AS".toList) := hsees.tail.at
  have hopen : at? b.toks (pre.length + 1 + 1) = some (.punct '(') := hsees.tail.tail.at
  rw [split_cte] at hb
  have hlen : ((beforeBody pre c).length : ℤ) = pre.length + 1 + 1 := by
    simp [beforeBody]
    ring
  have hopening : buildGroups (beforeBody pre c ++
      .punct '(' :: ((starToks ++ [prev.sym]) ++ .punct ')' :: post)) = some b := by simpa using hb
  have hbody := opens_of_opened hopening
  have hclose := closeOf_of_opened hb (balanced_body (balanced_of_plain (by simp [prev.ne_punct])))
  have hstar : ((starToks ++ [prev.sym]).length : ℤ) = 4 := by simp [starToks]
  rw [opened_beforeBody, hlen] at hbody
  rw [hlen, hstar] at hclose
  have hcolumns : columnList b (pre.length + 1) = some ([], (pre.length : ℤ) + 1) := by
    rw [columnList, isPunct_of_at has]
    rfl
  have hskip : skipKw b.toks "MATERIALIZED" (skipKw b.toks "NOT" (pre.length + 1 + 1)) =
      pre.length + 1 + 1 := by
    have hnot : skipKw b.toks "NOT" (pre.length + 1 + 1) = pre.length + 1 + 1 := by
      rw [skipKw, isKw_of_at hopen]
      rfl
    rw [hnot, skipKw, isKw_of_at hopen]
    rfl
  have hcomma : (pre.length : ℤ) + 1 + 1 + 1 + 4 + 1 = pre.length + 8 := by ring
  have hnext : (pre.length : ℤ) + 1 + 1 + 1 + 4 + 2 = pre.length + 9 := by ring
  unfold cteTurn
  rw [isIdent_of_at hname, c.isIdent, if_pos rfl, textAt_of_at hname]
  simp only [Option.bind_eq_bind, Option.bind_some, hcolumns]
  rw [isKw_of_at has, if_neg (by decide), hskip, isPunct_of_at hopen, if_neg (by decide), hbody,
    hclose]
  simp only [Option.bind_some, hcomma, hnext]
  split_ifs <;> rfl

theorem length_cteToks (prev c : Name) : (cteToks prev c).length = 8 := rfl

/-- The WITH list is read to its end. -/
theorem loop_ctes (hb : buildGroups (pre ++ (cteToks prev c ++ moreCtes c cs) ++ post) = some b)
    (hpost : post.head? ≠ some (.punct ',')) (ctes : List Cte) {n : ℕ} (hn : cs.length < n) :
    loop (cteTurn b) n (pre.length, ctes) =
      some (ctes ++ (links prev (opened pre).1 (c :: cs)).map Link.cte) := by
  induction cs generalizing pre prev c ctes n with
  | nil =>
    obtain ⟨n, rfl⟩ : ∃ m, n = m + 1 := ⟨n - 1, by omega⟩
    have hsees : Sees b.toks (pre.length + 8) post := by
      have h : Sees b.toks pre.length (cteToks prev c ++ post) :=
        ⟨pre, by rw [toks_of_buildGroups hb]; simp [moreCtes], rfl⟩
      exact h.drop
    have hb' : buildGroups (pre ++ cteToks prev c ++ post) = some b := by simpa [moreCtes] using hb
    have hturn := cteTurn_item hb' ctes
    rw [hsees.isPunct, decide_eq_false hpost] at hturn
    rw [loop_done hturn]
    rfl
  | cons d ds ih =>
    obtain ⟨n, rfl⟩ : ∃ m, n = m + 1 := ⟨n - 1, by omega⟩
    have hsplit : pre ++ (cteToks prev c ++ moreCtes c (d :: ds)) ++ post =
        pre ++ cteToks prev c ++ .punct ',' :: (cteToks c d ++ moreCtes d ds ++ post) := by
      simp [moreCtes]
    have hsplit' : pre ++ (cteToks prev c ++ moreCtes c (d :: ds)) ++ post =
        (pre ++ cteToks prev c ++ [.punct ',']) ++ (cteToks c d ++ moreCtes d ds) ++ post := by
      simp [moreCtes]
    have hsees : Sees b.toks (pre.length + 8)
        (.punct ',' :: (cteToks c d ++ moreCtes d ds ++ post)) := by
      have h : Sees b.toks pre.length
          (cteToks prev c ++ .punct ',' :: (cteToks c d ++ moreCtes d ds ++ post)) :=
        ⟨pre, by rw [toks_of_buildGroups hb, hsplit, List.append_assoc], rfl⟩
      exact h.drop
    have hturn := cteTurn_item (hsplit ▸ hb) ctes
    rw [hsees.isPunct] at hturn
    simp only [List.head?_cons, decide_true, if_true] at hturn
    have hlen : ((pre ++ cteToks prev c ++ [Sym.punct ',']).length : ℤ) = pre.length + 9 := by
      simp [length_cteToks]
    have hb' := hb
    rw [hsplit'] at hb'
    have hrest := ih hb' (ctes ++ [Link.cte ⟨prev, c, (opened pre).1⟩]) (by simpa using hn)
    rw [hlen, opened_cte] at hrest
    rw [loop_next hturn, hrest]
    simp [links]

/-- What the WITH list declares besides the CTEs. -/
theorem refsOver_ctes (hb : buildGroups (pre ++ (cteToks prev c ++ moreCtes c cs) ++ post) = some b)
    (refs : List RelationRef) :
    refsOver b pre.length (cteToks prev c ++ moreCtes c cs) refs =
      some (refs ++ (links prev (opened pre).1 (c :: cs)).map Link.ref) := by
  -- one item: its name and AS, the query with its FROM, and the rest of it
  have hitem : ∀ {pre post : List Sym} {prev c : Name} {refs : List RelationRef},
      buildGroups (pre ++ cteToks prev c ++ post) = some b →
      refsOver b pre.length (cteToks prev c) refs =
        some (refs ++ [Link.ref ⟨prev, c, (opened pre).1⟩]) := by
    intro pre post prev c refs hb
    have htoks := toks_of_buildGroups hb
    have hsees : Sees b.toks pre.length ([c.sym, .word "AS".toList] ++ (.punct '(' :: starToks ++
        (prev.sym :: .punct ')' :: post))) := ⟨pre, by rw [htoks]; simp [cteToks], rfl⟩
    have has : at? b.toks (pre.length + 1) = some (.word "AS".toList) := hsees.tail.at
    have hlen : ((beforeBody pre c).length : ℤ) = pre.length + 2 := by simp [beforeBody]
    have hbefore : isKwIn b.toks ((beforeBody pre c).length - 1) fromCalls = false := by
      rw [hlen, show (pre.length : ℤ) + 2 - 1 = pre.length + 1 by ring, isKwIn_of_at has]
      decide
    have hend : EndsItem (.punct ')' :: post) := by
      rintro u ⟨⟩
      decide
    have hsrc : Sees b.toks (pre.length + 2 + 4) (prev.sym :: .punct ')' :: post) := hsees.drop.drop
    have hb' := hb
    rw [split_cte] at hb'
    have hbody : refsOver b (beforeBody pre c).length (.punct '(' :: starToks) refs =
        some (refs ++ [Link.ref ⟨prev, c, (opened (beforeBody pre c)).1⟩]) :=
      refTurn_body rfl hb' (balanced_of_plain (by simp [prev.ne_punct])) hbefore fun hg => by
        rw [hlen] at hg ⊢
        exact relationTurn_table hg hsrc hend (by simp)
    have hquiet : ∀ t ∈ [c.sym, .word "AS".toList], t.isKwIn relationWords = false := by
      simp only [List.mem_cons, List.not_mem_nil, or_false, forall_eq_or_imp, forall_eq]
      exact ⟨quiet_name c, by decide⟩
    have hlast : ∀ t ∈ [prev.sym, .punct ')'], t.isKwIn relationWords = false := by
      simp only [List.mem_cons, List.not_mem_nil, or_false, forall_eq_or_imp, forall_eq]
      exact ⟨quiet_name prev, by decide⟩
    have hsplit : cteToks prev c = [c.sym, .word "AS".toList] ++ ((.punct '(' :: starToks) ++
        [prev.sym, .punct ')']) := by simp [cteToks]
    rw [hlen, opened_beforeBody] at hbody
    rw [hsplit, refsOver_append, refsOver_quiet hsees hquiet, Option.bind_some, refsOver_append]
    change (refsOver b (pre.length + 2) _ _).bind _ = _
    rw [hbody, Option.bind_some]
    exact refsOver_quiet (hsrc : Sees b.toks _ ([prev.sym, .punct ')'] ++ post)) hlast
  induction cs generalizing pre prev c refs with
  | nil =>
    simp only [moreCtes, List.append_nil] at hb ⊢
    exact hitem hb
  | cons d ds ih =>
    have hsplit : pre ++ (cteToks prev c ++ moreCtes c (d :: ds)) ++ post =
        pre ++ cteToks prev c ++ .punct ',' :: (cteToks c d ++ moreCtes d ds ++ post) := by
      simp [moreCtes]
    have hsplit' : pre ++ (cteToks prev c ++ moreCtes c (d :: ds)) ++ post =
        (pre ++ cteToks prev c ++ [.punct ',']) ++ (cteToks c d ++ moreCtes d ds) ++ post := by
      simp [moreCtes]
    have hcomma : Sees b.toks (pre.length + 8)
        (.punct ',' :: (cteToks c d ++ moreCtes d ds ++ post)) := by
      have h : Sees b.toks pre.length
          (cteToks prev c ++ .punct ',' :: (cteToks c d ++ moreCtes d ds ++ post)) :=
        ⟨pre, by rw [toks_of_buildGroups hb, hsplit, List.append_assoc], rfl⟩
      exact h.drop
    have hlen : ((pre ++ cteToks prev c ++ [Sym.punct ',']).length : ℤ) = pre.length + 8 + 1 := by
      simp [length_cteToks]
      ring
    have hb' := hb
    rw [hsplit'] at hb'
    have hrest := ih hb' (refs ++ [Link.ref ⟨prev, c, (opened pre).1⟩])
    rw [hlen, opened_cte] at hrest
    rw [moreCtes, refsOver_append, hitem (hsplit ▸ hb), Option.bind_some, length_cteToks]
    rw [Nat.cast_ofNat, refsOver_cons, refTurn_quiet hcomma.at (by decide), Option.bind_some, hrest]
    simp [links]

/-- The query of an item selects everything of the item before it. -/
theorem selectsAll_links {a : Analyzer}
    (hb : buildGroups (pre ++ (cteToks prev c ++ moreCtes c cs) ++ post) = some a.toBrackets)
    (hrefs : ∀ k, (opened pre).1 ≤ k → a.visibleRefsIn k =
      ((links prev (opened pre).1 (c :: cs)).map Link.ref).filter fun r => r.group = k) :
    ∀ l ∈ links prev (opened pre).1 (c :: cs), a.SelectsAll l.body l.ref := by
  -- the first item, given what follows it
  have hitem : ∀ {pre post : List Sym} {prev c : Name} (cs : List Name),
      buildGroups (pre ++ cteToks prev c ++ post) = some a.toBrackets →
      (∀ k, (opened pre).1 ≤ k → a.visibleRefsIn k =
        ((links prev (opened pre).1 (c :: cs)).map Link.ref).filter fun r => r.group = k) →
      a.SelectsAll (opened pre).1 (Link.ref ⟨prev, c, (opened pre).1⟩) := by
    intro pre post prev c cs hb hrefs
    have hhere : a.visibleRefsIn (opened pre).1 = [Link.ref ⟨prev, c, (opened pre).1⟩] := by
      rw [hrefs _ le_rfl, links, List.map_cons,
        List.filter_cons_of_pos (p := fun r : RelationRef => decide (r.group = (opened pre).1))
          (decide_eq_true rfl),
        List.cons_inj_right, List.filter_eq_nil_iff]
      intro r hr hk
      obtain ⟨l, hl, rfl⟩ := List.mem_map.mp hr
      have hle := le_body l hl
      have hk : l.body = (opened pre).1 := of_decide_eq_true hk
      omega
    rw [split_cte] at hb
    have h := selectsAll_body (r := Link.ref ⟨prev, c, (opened pre).1⟩) hb
      (balanced_of_plain (by simp [prev.ne_punct])) (by rw [opened_beforeBody]; exact hhere)
    rwa [opened_beforeBody] at h
  induction cs generalizing pre prev c with
  | nil =>
    intro l hl
    obtain rfl := List.mem_singleton.mp hl
    exact hitem [] (by simpa [moreCtes] using hb) hrefs
  | cons d ds ih =>
    intro l hl
    rcases List.mem_cons.mp hl with rfl | hl
    · have hfirst : buildGroups (pre ++ cteToks prev c ++ (moreCtes c (d :: ds) ++ post)) =
          some a.toBrackets := by
        rw [← hb]
        simp
      exact hitem (d :: ds) hfirst hrefs
    · have hb' := hb
      rw [show pre ++ (cteToks prev c ++ moreCtes c (d :: ds)) ++ post =
        (pre ++ cteToks prev c ++ [.punct ',']) ++ (cteToks c d ++ moreCtes d ds) ++ post by
          simp [moreCtes]] at hb'
      have hnext := opened_cte pre prev c
      refine ih hb' (fun k hk => ?_) l (by rw [hnext]; exact hl)
      rw [hnext] at hk ⊢
      simp only at hk
      rw [hrefs k (by omega), links, List.map_cons,
        List.filter_cons_of_neg fun h => ?_]
      have h : (opened pre).1 = k := of_decide_eq_true h
      omega

end Items

section Columns

variable {a : Analyzer} {t : Name} {next : ℤ} {names : List Name}

theorem names_ref (l : Link) : Names l.ref l.prev := ⟨rfl, rfl, rfl, rfl⟩

theorem findCte_links {ls : List Link} (hctes : a.ctes = ls.map Link.cte)
    (hdistinct : (ls.map Link.name).Pairwise fun c c' => ieq c.text c'.text = false) {l : Link}
    (hl : l ∈ ls) : a.findCte l.name.text = some l.cte := by
  rw [Analyzer.findCte, hctes]
  clear hctes
  induction ls with
  | nil => cases hl
  | cons m ms ih =>
    obtain ⟨hm, hms⟩ := List.pairwise_cons.mp hdistinct
    rcases List.mem_cons.mp hl with rfl | hl
    · rw [List.map_cons, List.find?_cons_of_pos (by simp [Link.cte, ieq])]
    · have hne := hm _ (List.mem_map_of_mem hl)
      rw [List.map_cons, List.find?_cons_of_neg (by simpa [Link.cte] using hne), ih hms hl]

theorem isStarOf_link {r : RelationRef} {c : Name} (hr : Names r c) {l : Link}
    (hcte : a.findCte c.text = some l.cte) (hbody : 0 ≤ l.body)
    (hselect : a.SelectsAll l.body l.ref) : a.IsStarOf r l.ref := by
  refine ⟨l.body, hselect, fun refCols depth => ?_⟩
  have hpath : a.pathCte r.path = some l.cte := by
    rw [hr.path]
    exact hcte
  rw [Analyzer.sourceColumns, hr.derived, if_neg (by decide), hr.function, hpath]
  simp only [Bool.false_eq_true, if_false]
  rw [Analyzer.cteColumns, if_pos (by exact hbody)]
  change (a.selectColumns refCols l.body (depth + 1)).map (fun cols => applyAliases cols []) = _
  simp [Analyzer.applyAliases_nil]

/-- From the table on, each item lies one star query higher. -/
theorem exposes_links {cols : List ColInfo} {n : ℕ} {prev : Name}
    (hlinks : ∀ l ∈ links prev next names, a.findCte l.name.text = some l.cte ∧ 0 ≤ l.body ∧
      a.SelectsAll l.body l.ref)
    (hprev : ∀ r, Names r prev → a.Exposes cols n r) :
    ∀ r, Names r ((prev :: names).getLast (by simp)) → a.Exposes cols (n + names.length) r := by
  induction names generalizing prev next n with
  | nil => exact hprev
  | cons c cs ih =>
    obtain ⟨hcte, hbody, hselect⟩ := hlinks ⟨prev, c, next⟩ List.mem_cons_self
    have hrest := @ih (next + 1) (n + 1) c
      (fun l hl => hlinks l (List.mem_cons_of_mem _ hl)) fun r hr =>
        .star (isStarOf_link hr hcte hbody hselect) hr.columnAliases (hprev _ (names_ref _))
    intro r hr
    have h := hrest r (by simpa using hr)
    rwa [List.length_cons, add_comm cs.length 1, ← add_assoc]

/-- Where an item has the name of the table, the table is out of reach. -/
theorem refColumns_shadowed {c : Name}
    (hctes : a.ctes = (links t next names).map Link.cte)
    (hlinks : ∀ l ∈ links t next names, 0 ≤ l.body ∧ a.SelectsAll l.body l.ref)
    (ht : ∃ c ∈ names, ieq c.text t.text = true) {r : RelationRef} (hr : Names r c)
    (hc : c ∈ names) : a.refColumns r = some [] := by
  let R : RelationRef → Prop := fun r =>
    ∃ c : Name, Names r c ∧ ∃ c' ∈ names, ieq c'.text c.text = true
  have hname : ∀ {l : Link}, l ∈ links t next names → l.name ∈ names := fun {l} hl => by
    rw [← names_links t next names]
    exact List.mem_map_of_mem hl
  refine Analyzer.refColumns_circle (R := R) ?_ ⟨c, hr, c, hc, by simp [ieq]⟩
  rintro r ⟨c, hr, c', hc', hieq⟩
  refine ⟨hr.columnAliases, ?_⟩
  -- the item that the name leads to
  obtain ⟨l, hl, hcte⟩ : ∃ l ∈ links t next names, a.findCte c.text = some l.cte := by
    obtain ⟨l', hl', rfl⟩ : ∃ l' ∈ links t next names, l'.name = c' := by
      rw [← names_links t next names] at hc'
      exact List.mem_map.mp hc'
    rw [Analyzer.findCte, hctes, List.find?_map]
    cases hfind : (links t next names).find? ((fun cte => ieq cte.name c.text) ∘ Link.cte) with
    | none => exact absurd hieq (List.find?_eq_none.mp hfind l' hl')
    | some l => exact ⟨l, List.mem_of_find?_eq_some hfind, rfl⟩
  obtain ⟨hbody, hselect⟩ := hlinks l hl
  refine ⟨l.ref, ⟨l.prev, names_ref l, ?_⟩, isStarOf_link hr hcte hbody hselect⟩
  rcases prev_links l hl with hprev | ⟨l', hl', hprev⟩
  · rw [hprev]
    exact ht
  · exact ⟨l'.name, hname hl', by simp [hprev, ieq]⟩

end Columns

section Shown

variable {b : Brackets} {pre post : List Sym} {s : Sym} {x t : Name} {names : List Name}
  {refs : List RelationRef} {i : ℤ}

theorem groupOf_root (hb : buildGroups (pre ++ s :: post) = some b) (hpre : Balanced pre)
    (hs : s ≠ .punct ')') : b.groupOf pre.length = some 0 := by
  have h := groupOf_of_opened hb hs
  have hopened := opened_balanced [] hpre
  rw [List.nil_append] at hopened
  rw [hopened] at h
  exact h

/-- The reference that the statement itself declares. -/
theorem refsOver_select {rest : List Sym} {r : RelationRef}
    (h : Sees b.toks i (selectToks x ++ rest)) (hg : b.groupOf (i + 1 + 1 + 1) = some 0)
    (hturn : relationTurn b true false 0 (i + 1 + 1 + 1 + 1, refs) = some (.done (refs ++ [r]))) :
    refsOver b i (selectToks x) refs = some (refs ++ [r]) := by
  have hdot : at? b.toks (i + 1 + 1) = some (.punct '.') := h.tail.tail.at
  have hfrom : at? b.toks (i + 1 + 1 + 1) = some (.word "FROM".toList) := h.tail.tail.tail.at
  have hrel : isRelationKeyword b (i + 1 + 1 + 1) = some true := by
    refine isRelationKeyword_from hfrom ?_ hg (by simp)
    rw [show i + 1 + 1 + 1 - 1 = i + 1 + 1 by ring, isKw_of_at hdot]
    rfl
  have hparse : parseRelationList b (i + 1 + 1 + 1) refs = some (refs ++ [r]) := by
    have hkw : isKwIn b.toks (i + 1 + 1 + 1) ["FROM", "USING"] = true := by
      rw [isKwIn_of_at hfrom]
      decide
    have hinto : isKw b.toks (i + 1 + 1 + 1) "INTO" = false := by
      rw [isKw_of_at hfrom]
      decide
    rw [parseRelationList, hg, Option.bind_eq_bind, Option.bind_some, hkw, hinto]
    exact loop_done hturn
  rw [selectToks, refsOver_cons, refTurn_quiet h.at (by decide), Option.bind_some, refsOver_cons,
    refTurn_quiet h.tail.at (quiet_name x), Option.bind_some, refsOver_cons,
    refTurn_quiet hdot (by decide), Option.bind_some, refsOver_cons,
    refTurn_list hfrom hrel (by decide), hparse, Option.bind_some, refsOver_nil]

/-- Without a WITH no CTE is added. -/
theorem foldlM_noWith {l : List ℤ} (h : ∀ i ∈ l, isKw b.toks i "WITH" = false) (ctes : List Cte) :
    l.foldlM (fun ctes i => if isKw b.toks i "WITH" = true then
      loop (cteTurn b) (b.toks.length + 1) (skipKw b.toks "RECURSIVE" (i + 1), ctes)
      else some ctes) ctes = some ctes := by
  induction l with
  | nil => rfl
  | cons i l ih =>
    rw [List.foldlM_cons, if_neg (by simp [h i List.mem_cons_self])]
    exact ih fun j hj => h j (List.mem_cons_of_mem _ hj)

theorem isKw_noWith {ts : List Sym} (h : Sees b.toks i ts) (hts : ∀ s ∈ ts, s.isKw "WITH" = false)
    {k : ℤ} (hk : i ≤ k) : isKw b.toks k "WITH" = false := by
  obtain ⟨pre, htoks, rfl⟩ := h
  cases hat : at? b.toks k with
  | none => exact isKw_past hat _
  | some s =>
    rw [isKw_of_at hat]
    obtain ⟨k, rfl⟩ : ∃ n : ℕ, k = n := ⟨k.toNat, by omega⟩
    rw [at?_ofNat, htoks, List.getElem?_append_right (by omega)] at hat
    exact hts s (List.mem_of_getElem? hat)

theorem collectCtes_none (h : ∀ s ∈ b.toks, s.isKw "WITH" = false) : collectCtes b = some [] :=
  foldlM_noWith (fun _ hi => isKw_noWith (sees_all _) h (mem_upTo.mp hi).1) []

theorem collectCtes_first {ts : List Sym} {ctes : List Cte} {c : Name}
    (h : Sees b.toks 0 (.word "WITH".toList :: c.sym :: ts))
    (hts : ∀ s ∈ ts, s.isKw "WITH" = false)
    (hloop : loop (cteTurn b) (b.toks.length + 1) (1, []) = some ctes) :
    collectCtes b = some ctes := by
  have hfirst : isKw b.toks 0 "WITH" = true := by
    rw [isKw_of_at h.at]
    decide
  have hskip : skipKw b.toks "RECURSIVE" (0 + 1) = 1 := by
    rw [skipKw, isKw_of_at h.tail.at, c.isKw (by decide)]
    rfl
  have hrest : ∀ s ∈ c.sym :: ts, s.isKw "WITH" = false :=
    List.forall_mem_cons.mpr ⟨c.isKw (by decide), hts⟩
  rw [collectCtes, upTo_cons (by exact h.lt), List.foldlM_cons, if_pos hfirst, hskip, hloop]
  exact foldlM_noWith (fun i hi => isKw_noWith h.tail hrest (mem_upTo.mp hi).1) ctes

theorem balanced_select (x : Name) : Balanced (selectToks x) :=
  balanced_of_plain (by simp [selectToks, x.ne_punct])

theorem opened_select (x : Name) : opened (selectToks x) = (1, [0]) := by
  have h := opened_balanced [] (balanced_select x)
  have hnone : opens (selectToks x) = 0 := by simp [opens, selectToks, x.ne_punct]
  rw [hnone] at h
  exact h

theorem noWith_name (n : Name) : n.sym.isKw "WITH" = false := n.isKw (by decide)

theorem noWith_ctes (t c : Name) (cs : List Name) :
    ∀ s ∈ cteToks t c ++ moreCtes c cs, s.isKw "WITH" = false := by
  have hitem : ∀ (t c : Name), ∀ s ∈ cteToks t c, s.isKw "WITH" = false := by
    intro t c s hs
    simp only [cteToks, starToks, List.mem_cons, List.mem_append, List.not_mem_nil, or_false] at hs
    rcases hs with (rfl | rfl | rfl | (rfl | rfl | rfl) | rfl) | rfl
    · exact noWith_name c
    · decide
    · rfl
    · decide
    · rfl
    · decide
    · exact noWith_name t
    · rfl
  induction cs generalizing t c with
  | nil => simpa [moreCtes] using hitem t c
  | cons d ds ih =>
    intro s hs
    rcases List.mem_append.mp hs with hs | hs
    · exact hitem t c s hs
    · rcases List.mem_cons.mp hs with rfl | hs
      · rfl
      · exact ih c d s hs

theorem noWith_source (t : Name) (names : List Name) :
    ∀ s ∈ sourceToks t names, s.isKw "WITH" = false := by
  induction names with
  | nil => simp [sourceToks, noWith_name]
  | cons c cs ih =>
    intro s hs
    simp only [sourceToks, starToks, List.mem_cons, List.mem_append, List.not_mem_nil,
      or_false] at hs
    rcases hs with (rfl | (rfl | rfl | rfl) | hs) | rfl | rfl
    · rfl
    · decide
    · rfl
    · decide
    · exact ih s hs
    · rfl
    · exact noWith_name _

theorem noWith_select (x : Name) : ∀ s ∈ selectToks x, s.isKw "WITH" = false := by
  simp only [selectToks, List.mem_cons, List.not_mem_nil, or_false, forall_eq_or_imp, forall_eq]
  exact ⟨by decide, noWith_name x, rfl, by decide⟩

end Shown

namespace StarChain

variable {catalog : CompletionCatalog} (q : StarChain catalog)

/-- The reference that the alias is declared for. -/
def aliasRef : RelationRef :=
  FromItem.ref { head := (q.first :: q.rest).getLast q.queries_ne_nil, alias_ := some (false, q.alias_) } 0

/-- An analysis of the derived tables. -/
theorem analyze_derived : ∃ a, analyze catalog q.derivedStatement = some a ∧
    buildGroups q.derivedStatement = some a.toBrackets ∧ a.catalog = catalog ∧ a.ctes = [] ∧
    a.refs = sourceRef q.table 0 1 (q.alias_ :: q.names.dropLast.reverse) ::
      innerRefs q.table 1 (q.alias_ :: q.names.dropLast.reverse) := by
  obtain ⟨b, hb, -⟩ := buildGroups_yields q.derivedStatement
  have htoks := toks_of_buildGroups hb
  have hopened := opened_select q.alias_
  have hsource : buildGroups (selectToks q.alias_ ++
      sourceToks q.table (q.alias_ :: q.names.dropLast.reverse) ++ []) = some b := by
    rw [List.append_nil]
    exact hb
  have hsees : Sees b.toks 0 (selectToks q.alias_ ++
      sourceToks q.table (q.alias_ :: q.names.dropLast.reverse)) := htoks ▸ sees_all _
  have hbare : Balanced [.word "SELECT".toList, q.alias_.sym, .punct '.'] :=
    balanced_of_plain (by simp [q.alias_.ne_punct])
  have hb' : buildGroups ([.word "SELECT".toList, q.alias_.sym, .punct '.'] ++
      .word "FROM".toList :: sourceToks q.table (q.alias_ :: q.names.dropLast.reverse)) = some b := hb
  have hfrom : b.groupOf 3 = some 0 := groupOf_root hb' hbare (by decide)
  have hopen : b.groupOf 4 = some 0 := groupOf_root hb (balanced_select q.alias_) (by decide)
  have hturn := @relationTurn_source b _ _ _ _ _ [] hsource (by simp [EndsItem]) (by simp) hopen
  have hinside := refsOver_source hsource ?_ [sourceRef q.table 0 1
    (q.alias_ :: q.names.dropLast.reverse)]
  · rw [hopened] at hturn hinside
    have hrefs : collectRefs b = some (sourceRef q.table 0 1
        (q.alias_ :: q.names.dropLast.reverse) ::
          innerRefs q.table 1 (q.alias_ :: q.names.dropLast.reverse)) := by
      rw [collectRefs_eq, htoks, derivedStatement, refsOver_append,
        refsOver_select hsees hfrom hturn, Option.bind_some]
      exact hinside
    have hctes : collectCtes b = some [] := by
      refine collectCtes_none fun s hs => ?_
      rw [htoks] at hs
      rcases List.mem_append.mp hs with hs | hs
      · exact noWith_select _ s hs
      · exact noWith_source _ _ s hs
    refine ⟨{ b with catalog := catalog, ctes := [], refs := _ }, ?_, hb, rfl, rfl, rfl⟩
    rw [analyze, hb]
    simp only [Option.bind_eq_bind, Option.bind_some, hctes, hrefs]
  · have hat : at? b.toks 3 = some (.word "FROM".toList) := hsees.tail.tail.tail.at
    change isKwIn b.toks 3 fromCalls = false
    rw [isKwIn_of_at hat]
    decide

/-- An analysis of the WITH list. -/
theorem analyze_cte : ∃ a, analyze catalog q.cteStatement = some a ∧
    buildGroups q.cteStatement = some a.toBrackets ∧ a.catalog = catalog ∧
    a.ctes = (links q.table 1 q.names).map Link.cte ∧
    a.refs = (links q.table 1 q.names).map Link.ref ++ [q.aliasRef] := by
  obtain ⟨b, hb, -⟩ := buildGroups_yields q.cteStatement
  have htoks := toks_of_buildGroups hb
  let last := (q.first :: q.rest).getLast (by simp)
  let items := cteToks q.table q.first ++ moreCtes q.first q.rest
  let tail := selectToks q.alias_ ++ [last.sym, q.alias_.sym]
  let before := [Sym.word "WITH".toList] ++ items
  have hsplit : q.cteStatement = [Sym.word "WITH".toList] ++ items ++ tail := rfl
  have hbefore : Balanced before := .token (by decide) (by decide)
    ((balanced_cte _ _).append (balanced_more _ _))
  have hb' := hb
  rw [hsplit] at hb'
  have hsees : Sees b.toks 0 (.word "WITH".toList :: (items ++ tail)) := htoks ▸ sees_all _
  have hselect : Sees b.toks before.length (selectToks q.alias_ ++ [last.sym, q.alias_.sym]) :=
    ⟨before, by rw [htoks, hsplit], rfl⟩
  have hctes : collectCtes b = some ((links q.table 1 q.names).map Link.cte) := by
    have hquiet : ∀ s ∈ items ++ tail, s.isKw "WITH" = false := by
      intro s hs
      rcases List.mem_append.mp hs with hs | hs
      · exact noWith_ctes _ _ _ s hs
      · rcases List.mem_append.mp hs with hs | hs
        · exact noWith_select _ s hs
        · simp only [List.mem_cons, List.not_mem_nil, or_false] at hs
          rcases hs with rfl | rfl
          · exact noWith_name _
          · exact noWith_name _
    have hfuel : q.rest.length < b.toks.length + 1 := by
      have hlen := length_moreCtes q.first q.rest
      rw [htoks, hsplit]
      simp only [items, List.length_append]
      omega
    exact collectCtes_first hsees (fun s hs => hquiet s (List.mem_cons_of_mem _ hs))
      (loop_ctes hb' (by simp [tail, selectToks]) [] hfuel)
  have hrefs : collectRefs b = some ((links q.table 1 q.names).map Link.ref ++ [q.aliasRef]) := by
    have hpath : Balanced [.word "SELECT".toList, q.alias_.sym, .punct '.'] :=
      balanced_of_plain (by simp [q.alias_.ne_punct])
    have hfrom : b.groupOf (before.length + 1 + 1 + 1) = some 0 := by
      have hat : q.cteStatement = (before ++ [.word "SELECT".toList, q.alias_.sym, .punct '.']) ++
          .word "FROM".toList :: [last.sym, q.alias_.sym] := by
        rw [hsplit]
        simp [before, tail, selectToks]
      have h := groupOf_root (hat ▸ hb) (hbefore.append hpath) (by decide)
      rwa [List.length_append] at h
    have hname : b.groupOf (before.length + 1 + 1 + 1 + 1) = some 0 := by
      have hat : q.cteStatement = (before ++ selectToks q.alias_) ++ last.sym :: [q.alias_.sym] := by
        rw [hsplit]
        simp [before, tail]
      have h := groupOf_root (hat ▸ hb) (hbefore.append (balanced_select _)) (last.ne_punct _)
      rwa [List.length_append] at h
    have hitem : Sees b.toks (before.length + 1 + 1 + 1 + 1) (FromItem.toks
        { head := last, alias_ := some (false, q.alias_) } ++ []) := hselect.tail.tail.tail.tail
    have hturn : relationTurn b true false 0 (before.length + 1 + 1 + 1 + 1,
        (links q.table 1 q.names).map Link.ref) =
          some (.done ((links q.table 1 q.names).map Link.ref ++ [q.aliasRef])) := by
      have h := relationTurn_item hname hitem (by simp [EndsItem]) true
        ((links q.table 1 q.names).map Link.ref)
      rw [hitem.drop.isPunct] at h
      exact h
    have hinside : refsOver b (0 + 1) items [] = some ((links q.table 1 q.names).map Link.ref) :=
      refsOver_ctes hb' []
    have hquiet : ∀ t ∈ [last.sym, q.alias_.sym], t.isKwIn relationWords = false := by
      simp only [List.mem_cons, List.not_mem_nil, or_false, forall_eq_or_imp, forall_eq]
      exact ⟨quiet_name _, quiet_name _⟩
    have hlen : (0 : ℤ) + ([Sym.word "WITH".toList] ++ items).length = before.length := zero_add _
    have hall : refsOver b 0 before [] = some ((links q.table 1 q.names).map Link.ref) := by
      rw [show before = .word "WITH".toList :: items from rfl, refsOver_cons,
        refTurn_quiet hsees.at (by decide), Option.bind_some, hinside]
    rw [collectRefs_eq, htoks, hsplit, refsOver_append, hall, Option.bind_some, hlen,
      refsOver_append, refsOver_select hselect hfrom hturn, Option.bind_some]
    have hend : Sees b.toks _ ([last.sym, q.alias_.sym] ++ []) := hselect.drop
    exact refsOver_quiet hend hquiet
  refine ⟨{ b with
    catalog := catalog
    ctes := (links q.table 1 q.names).map Link.cte
    refs := (links q.table 1 q.names).map Link.ref ++ [q.aliasRef] }, ?_, hb, rfl, rfl, rfl⟩
  rw [analyze, hb]
  simp only [Option.bind_eq_bind, Option.bind_some, hctes, hrefs]

/-- What `x.` offers has the names and types of the table's columns, in their order. -/
def Shows (toks : List Sym) : Prop :=
  ∃ a r cols, analyze catalog toks = some a ∧ a.findRef q.alias_.text 0 = some (some r) ∧
    a.refColumns r = some cols ∧
    cols.map (fun c => (c.name, c.type)) =
      q.relation.table.columns.map fun c => (c.name, c.type)

variable {q}

theorem shows_of {toks : List Sym} {a : Analyzer} {r : RelationRef} {P : Prop} [Decidable P]
    (ha : analyze catalog toks = some a) (hr : a.findRef q.alias_.text 0 = some (some r))
    (hcols : a.refColumns r = some (if P then tableColumns q.relation.table else [])) :
    q.Shows toks ↔ P ∨ q.relation.table.columns = [] := by
  have hshows : q.Shows toks ↔ (if P then tableColumns q.relation.table else []).map
      (fun c => (c.name, c.type)) = q.relation.table.columns.map fun c => (c.name, c.type) := by
    constructor
    · rintro ⟨a', r', cols, ha', hr', hcols', h⟩
      obtain rfl := Option.some_inj.mp (ha.symm.trans ha')
      obtain rfl := Option.some_inj.mp (Option.some_inj.mp (hr.symm.trans hr'))
      rw [← Option.some_inj.mp (hcols.symm.trans hcols')] at h
      exact h
    · exact fun h => ⟨a, r, _, ha, hr, hcols, h⟩
  rw [hshows]
  by_cases hP : P
  · simp [hP, tableColumns]
  · rw [if_neg hP, or_iff_right hP, List.map_nil, eq_comm, List.map_eq_nil_iff]

variable (q)

theorem derived_shows_iff : q.Shows q.derivedStatement ↔
    q.names.length ≤ 3 ∨ q.relation.table.columns = [] := by
  obtain ⟨a, ha, hb, hcatalog, hctes, hrefs⟩ := q.analyze_derived
  let chain := q.alias_ :: q.names.dropLast.reverse
  have hlen : chain.length = q.names.length := by simp [chain, names]
  have hinner : ∀ u ∈ innerRefs q.table 1 chain, u.group ≠ 0 := fun u hu => by
    have := innerRefs_group u hu
    omega
  have hbalanced : Balanced q.derivedStatement :=
    (balanced_select _).append (balanced_source _ _)
  have hrefs' : a.refs = [] ++ sourceRef q.table 0 1 chain :: innerRefs q.table 1 chain := hrefs
  have hfind : a.findRef q.alias_.text 0 = some (some (sourceRef q.table 0 1 chain)) :=
    Analyzer.findRef_root (root_of_balanced hb hbalanced) hrefs' (by simpa using hinner) rfl rfl
  have hopened := opened_select q.alias_
  have hvisible : ∀ k, (opened (selectToks q.alias_)).1 ≤ k → a.visibleRefsIn k =
      (innerRefs q.table (opened (selectToks q.alias_)).1 chain).filter fun r => r.group = k := by
    intro k hk
    rw [hopened] at hk ⊢
    rw [Analyzer.visibleRefsIn, hrefs, List.filter_cons_of_neg fun h => ?_]
    have h : (0 : ℤ) = k := of_decide_eq_true h
    simp only at hk
    omega
  have hb' : buildGroups (selectToks q.alias_ ++ sourceToks q.table chain ++ []) =
      some a.toBrackets := by
    rw [List.append_nil]
    exact hb
  have hexposes := exposes_source hb' hctes (by rw [hcatalog]; exact q.found) hvisible 0
  rw [hopened] at hexposes
  have hcols := Analyzer.refColumns_exposes hexposes
  rw [hlen] at hcols
  exact shows_of ha hfind hcols

/-- No item of the chain has the name of the table. -/
def Unshadowed : Prop := ∀ c ∈ q.names, ieq c.text q.table.text = false

instance : Decidable q.Unshadowed :=
  inferInstanceAs (Decidable (∀ c ∈ q.names, ieq c.text q.table.text = false))

theorem names_aliasRef : Names q.aliasRef ((q.table :: q.names).getLast (by simp)) :=
  ⟨by simp [aliasRef, FromItem.ref, FromItem.path, names], rfl, rfl, rfl⟩

theorem cte_shows_iff : q.Shows q.cteStatement ↔
    (q.names.length ≤ 3 ∧ q.Unshadowed) ∨ q.relation.table.columns = [] := by
  obtain ⟨a, ha, hb, hcatalog, hctes, hrefs⟩ := q.analyze_cte
  let items := links q.table 1 q.names
  have hbalanced : Balanced q.cteStatement := by
    have hlist : Balanced (.word "WITH".toList ::
        (cteToks q.table q.first ++ moreCtes q.first q.rest)) :=
      .token (by decide) (by decide) ((balanced_cte _ _).append (balanced_more _ _))
    exact hlist.append ((balanced_select _).append (balanced_of_plain (by simp [Name.ne_punct])))
  have hinner : ∀ u ∈ items.map Link.ref ++ [], u.group ≠ 0 := by
    intro u hu
    rw [List.append_nil] at hu
    obtain ⟨l, hl, rfl⟩ := List.mem_map.mp hu
    have hle := le_body l hl
    have hgroup : l.ref.group = l.body := rfl
    omega
  have hname : q.aliasRef.name = q.alias_.text := if_pos q.alias_.text_ne
  have hfind : a.findRef q.alias_.text 0 = some (some q.aliasRef) :=
    Analyzer.findRef_root (root_of_balanced hb hbalanced) hrefs hinner hname rfl
  have hvisible : ∀ k, (opened [.word "WITH".toList]).1 ≤ k → a.visibleRefsIn k =
      (items.map Link.ref).filter fun r => r.group = k := by
    intro k hk
    have hroot : ([q.aliasRef].filter fun r => r.group = k) = [] := by
      rw [List.filter_cons_of_neg fun h => ?_, List.filter_nil]
      have h : (0 : ℤ) = k := of_decide_eq_true h
      have hk : (1 : ℤ) ≤ k := hk
      omega
    rw [Analyzer.visibleRefsIn, hrefs, List.filter_append, hroot, List.append_nil]
  have hselect : ∀ l ∈ items, a.SelectsAll l.body l.ref :=
    selectsAll_links (hb : buildGroups ([.word "WITH".toList] ++ _ ++ _) = _) hvisible
  have hlinks : ∀ l ∈ items, 0 ≤ l.body ∧ a.SelectsAll l.body l.ref := fun l hl =>
    ⟨by have := le_body l hl; omega, hselect l hl⟩
  have hcols : a.refColumns q.aliasRef = some (if q.names.length ≤ 3 ∧ q.Unshadowed then
      tableColumns q.relation.table else []) := by
    by_cases hshadow : q.Unshadowed
    · have hnone : a.findCte q.table.text = none := by
        rw [Analyzer.findCte, hctes, List.find?_eq_none]
        intro cte hcte
        obtain ⟨l, hl, rfl⟩ := List.mem_map.mp hcte
        have hmem : l.name ∈ q.names := by
          rw [← names_links q.table 1 q.names]
          exact List.mem_map_of_mem hl
        simpa [Link.cte] using hshadow _ hmem
      have htable : ∀ r, Names r q.table → a.Exposes (tableColumns q.relation.table) 0 r :=
        fun r hr => .table (isTable_name hr hnone (by rw [hcatalog]; exact q.found))
          hr.columnAliases
      have hexposes := exposes_links
        (fun l hl => ⟨findCte_links hctes (by rw [names_links]; exact q.distinct) hl, hlinks l hl⟩)
        htable q.aliasRef q.names_aliasRef
      rw [Analyzer.refColumns_exposes hexposes, zero_add]
      simp [hshadow]
    · have hex : ∃ c ∈ q.names, ieq c.text q.table.text = true := by
        simpa [Unshadowed] using hshadow
      rw [refColumns_shadowed hctes hlinks hex q.names_aliasRef (by simp [names]),
        if_neg fun h => hshadow h.2]
  exact shows_of ha hfind hcols

end StarChain

/-- A chain of star queries shows the columns of its table up to three queries deep. -/
theorem star_chain_shows_iff {catalog : CompletionCatalog} (q : StarChain catalog) :
    (q.Shows q.cteStatement ↔
      (q.names.length ≤ 3 ∧ q.Unshadowed) ∨ q.relation.table.columns = []) ∧
    (q.Shows q.derivedStatement ↔ q.names.length ≤ 3 ∨ q.relation.table.columns = []) :=
  ⟨q.cte_shows_iff, q.derived_shows_iff⟩

def letterTable : Table := { name := ['t'], columns := [{ name := ['k'] }] }

/-- Four star queries over a table with one column. -/
def fourStars : StarChain { tables := [letterTable] } where
  table := letterName 't' (by decide +kernel)
  relation := ⟨letterTable, false⟩
  found := by decide +kernel
  first := letterName 'a' isPlain_a
  rest := [letterName 'b' isPlain_b, letterName 'c' isPlain_c,
    letterName 'd' (by decide +kernel)]
  distinct := by decide +kernel
  alias_ := letterName 'x' (by decide +kernel)

/-- The fourth query shows no column. -/
theorem four_stars_show_nothing :
    ¬(fourStars.Shows fourStars.cteStatement ∧ fourStars.Shows fourStars.derivedStatement) := by
  rintro ⟨h, -⟩
  rcases fourStars.cte_shows_iff.mp h with ⟨hlen, -⟩ | hcols
  · exact absurd hlen (by decide)
  · exact absurd hcols (by decide)

end DearSql
